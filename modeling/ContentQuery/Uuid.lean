import ContentQuery.Text.Numeral

/-! Universally unique identifiers: numbers of 128 bits with a grouped hexadecimal text. -/

namespace ContentQuery

/-- An identifier of 128 bits. -/
structure Uuid where
  value : Nat
  bounded : value < Nat.pow 2 128
  deriving DecidableEq

namespace Uuid

/-- The canonical text: 32 hexadecimal digits in groups of 8, 4, 4, 4 and 12. -/
def text (uuid : Uuid) : String :=
  let digits := Text.hexDigits 32 uuid.value
  let group (start count : Nat) := String.ofList ((digits.drop start).take count)
  "-".intercalate [group 0 8, group 8 4, group 12 4, group 16 4, group 20 12]

/-- Drops every mark `urn:`. -/
def dropUrn : List Char → List Char
  | 'u' :: 'r' :: 'n' :: ':' :: rest => dropUrn rest
  | c :: rest => c :: dropUrn rest
  | [] => []

/-- Drops every mark `uuid:`. -/
def dropScheme : List Char → List Char
  | 'u' :: 'u' :: 'i' :: 'd' :: ':' :: rest => dropScheme rest
  | c :: rest => c :: dropScheme rest
  | [] => []

/-- The digits of an identifier without its marks, the braces around it and its hyphens. -/
def bare (chars : List Char) : List Char :=
  (Text.trim (fun c => c == '\x7b' || c == '\x7d') (dropScheme (dropUrn chars))).filter (· != '-')

/-- Reads an identifier from any of its written forms. -/
def read? (text : String) : Option Uuid := do
  let chars := bare text.toList
  if chars.length != 32 then none
  else
    match ← Text.readHexInteger chars with
    | .ofNat value => if bounded : value < Nat.pow 2 128 then some ⟨value, bounded⟩ else none
    | .negSucc _ => none

end Uuid

end ContentQuery
