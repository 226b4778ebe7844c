import Mathlib.Algebra.Order.Ring.Nat

/-!
Amounts, instants and the states of the domain objects. Raw amounts are naturals with the 256-bit
bound where the code checks it; instants are microseconds since the epoch.
-/
namespace CryptoGateway

abbrev Id := Nat
abbrev Text := List Char
abbrev CurrencyCode := Text

/-- A payment reference as a chain carries it: never empty, at most 200 characters. -/
structure Memo where
  text : Text
  nonEmpty : text ≠ []
  short : text.length ≤ 200
deriving DecidableEq, Repr

/-- The length in bytes, which is what the code's length checks count. -/
def Text.byteLength (text : Text) : Nat := (text.map Char.utf8Size).sum

def rawLimit : Nat := 2 ^ 256

inductive MoneyError where
  | invalidCurrencyCode | invalidFiatAmount | amountMustBePositive | rawAmountOverflow
  | divisionByZero
deriving DecidableEq, Repr

structure FiatAmount where
  currency : CurrencyCode
  minorUnits : Int
deriving DecidableEq, Repr

namespace RawAmount

def positive (value : Nat) : Except MoneyError Nat :=
  if value = 0 then .error .amountMustBePositive else .ok value

def checkedAddU32 (amount : Nat) (other : Nat) : Except MoneyError Nat :=
  if amount + other < rawLimit then .ok (amount + other) else .error .rawAmountOverflow

/-- Multiplies and divides raw integers, rounding any remainder upward. -/
def mulDivCeil (multiplier : Nat) (numerator denominator : Nat) :
    Except MoneyError Nat :=
  if denominator = 0 then .error .divisionByZero
  else if rawLimit ≤ multiplier * numerator then .error .rawAmountOverflow
  else
    let quotient := multiplier * numerator / denominator
    let remainder := multiplier * numerator % denominator
    if remainder = 0 then positive quotient
    else if rawLimit ≤ quotient + 1 then .error .rawAmountOverflow
    else positive (quotient + 1)

end RawAmount

/-- The instants `OffsetDateTime` can hold. -/
def Instant.inRange (t : Int) : Bool :=
  decide (-377705116800000000 ≤ t ∧ t ≤ 253402300799999999)

def Instant.checkedAddSeconds (t : Int) (seconds : Int) : Option Int :=
  if Instant.inRange (t + seconds * 1000000) then some (t + seconds * 1000000) else none

theorem Instant.checkedAddSeconds_eq {t u : Int} {seconds : Int}
    (added : Instant.checkedAddSeconds t seconds = some u) : u = t + seconds * 1000000 := by
  unfold Instant.checkedAddSeconds at added
  split at added
  · exact (Option.some.inj added).symm
  · cases added

inductive PaymentIntentStatus where
  | requiresQuote | awaitingPayment | partiallyPaid | riskHold | paid | expired | cancelled
deriving DecidableEq, Repr

inductive TransferState where
  | observed | canonical | confirmed | finalized | invalidated
deriving DecidableEq, Repr

def TransferState.canTransitionTo : TransferState → TransferState → Bool
  | .observed, .canonical => true
  | .observed, .invalidated => true
  | .canonical, .confirmed => true
  | .canonical, .invalidated => true
  | .confirmed, .finalized => true
  | .confirmed, .invalidated => true
  | .finalized, .invalidated => true
  | _, _ => false

end CryptoGateway
