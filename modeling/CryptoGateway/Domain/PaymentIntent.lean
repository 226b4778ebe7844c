import CryptoGateway.Domain.Money

/-!
Validation of a new payment intent.
-/
namespace CryptoGateway

/-- `metadata` is the serialized JSON value. -/
structure PaymentIntent where
  id : Id
  merchantId : Id
  amount : FiatAmount
  status : PaymentIntentStatus
  reference : Text
  description : Option Text
  metadata : Text
deriving DecidableEq, Repr

inductive PaymentIntentError where
  | invalidReference | descriptionTooLong | metadataMustBeObject | metadataTooLarge
deriving DecidableEq, Repr

def CurrencyCode.new (value : Text) : Except MoneyError CurrencyCode :=
  let upper := value.map Char.toUpper
  if upper.length = 3 ∧ upper.all Char.isUpper then .ok upper else .error .invalidCurrencyCode

def FiatAmount.positive (currency : CurrencyCode) (minorUnits : Int) :
    Except MoneyError FiatAmount :=
  if minorUnits ≤ 0 then .error .amountMustBePositive else .ok { currency, minorUnits }

def FiatAmount.parsePositive (currency : CurrencyCode) (minorUnits : Text) :
    Except MoneyError FiatAmount :=
  if minorUnits.isEmpty || !minorUnits.all Char.isDigit then .error .invalidFiatAmount
  else
    let value := minorUnits.foldl (fun n c => 10 * n + (c.toNat - '0'.toNat)) 0
    if value < 2 ^ 63 then FiatAmount.positive currency value else .error .invalidFiatAmount

def maxMetadataBytes : Nat := 16384

def PaymentIntent.create (id merchantId : Id) (amount : FiatAmount) (reference : Text)
    (description : Option Text) (metadata : Text) : Except PaymentIntentError PaymentIntent :=
  if reference.isEmpty || decide (128 < Text.byteLength reference) then .error .invalidReference
  else if description.any fun text => decide (500 < Text.byteLength text) then
    .error .descriptionTooLong
  else if metadata.head? ≠ some '\x7b' then .error .metadataMustBeObject
  else if maxMetadataBytes < Text.byteLength metadata then .error .metadataTooLarge
  else
    .ok { id, merchantId, amount, status := .requiresQuote, reference, description, metadata }

end CryptoGateway
