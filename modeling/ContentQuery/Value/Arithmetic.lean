import ContentQuery.Binary64.Arithmetic
import ContentQuery.Fault
import ContentQuery.Text.Numeral
import ContentQuery.Value.Equality

/-! Sums of values of any kind, and the integers that values stand for. -/

namespace ContentQuery

namespace Value

instance : OfNat Value 0 := ⟨.int 0⟩

/-- The integer that a truth value or an integer counts as. -/
def whole? : Value → Option Int
  | .bool value => some value.toInt
  | .int value => some value
  | _ => none

/-- The floating-point number that a number counts as; integers out of range overflow. -/
def widen (value : Value) : Except Fault Binary64 :=
  match value, value.whole? with
  | .float number, _ => .ok number
  | _, some count =>
    match Binary64.ofInt? count with
    | some number => .ok number
    | none => .error .overflow
  | _, none => .error .mistyped

/-- Whether a value is a floating-point number. -/
def isFloat : Value → Bool
  | .float _ => true
  | _ => false

/-- The sum of two numbers, which is exact unless one of them is a floating-point number. -/
def sumNumbers (left right : Value) : Except Fault Value :=
  match left.whole?, right.whole? with
  | some first, some second => .ok (.int (first + second))
  | _, _ =>
    if left.isFloat || right.isFloat then do
      return .float ((← left.widen).add (← right.widen))
    else .error .mistyped

/-- The sum of two values: texts, bytes, lists and tuples are joined, and numbers are added. -/
def sum (left right : Value) : Except Fault Value :=
  match left, right with
  | .text first, .text second => .ok (.text (first ++ second))
  | .bytes first, .bytes second => .ok (.bytes (first ++ second))
  | .list first, .list second => .ok (.list (first ++ second))
  | .tuple first, .tuple second => .ok (.tuple (first ++ second))
  | _, _ => sumNumbers left right

/-- Reads a numeral in ASCII bytes. -/
def readAscii? (octets : List UInt8) : Option Int :=
  if octets.all (· < 0x80) then
    Text.readInteger (String.ofList (octets.map fun octet => Char.ofNat octet.toNat))
  else none

/-- A reading of an integer, which a value of the wrong kind does not have. -/
def orMistyped (value : Option Int) : Except Fault Int :=
  match value with
  | some found => .ok found
  | none => .error .mistyped

/-- The integer that a value stands for: fractions are cut off, and texts hold numerals. -/
def toInteger (value : Value) : Except Fault Int :=
  match value with
  | .float (.infinite _) => .error .overflow
  | .float number => orMistyped number.truncate?
  | .text words => orMistyped (Text.readInteger words)
  | .bytes octets => orMistyped (readAscii? octets)
  | .uuid identifier => .ok identifier.value
  | other => orMistyped other.whole?

end Value

end ContentQuery
