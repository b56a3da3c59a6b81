import ContentQuery.Text.Blank
import ContentQuery.Text.Digit
import ContentQuery.Text.Hex

/-! Integer numerals: an optional sign, digits of any script, single underscores between digits. -/

namespace ContentQuery.Text

/-- Blanks around a numeral; the ASCII separators 0x1C to 0x1F are not among them. -/
def isNumeralBlank (c : Char) : Bool :=
  if c.toNat < 0x7F then c == ' ' || (9 ≤ c.toNat && c.toNat ≤ 13) else isBlank c

/-- The value of a digit in a base up to sixteen; decimal digits may come from any script. -/
def baseDigit? (base : Nat) (c : Char) : Option Nat :=
  ((digitValue? c).or (hexValue? c)).filter (· < base)

/-- Reads the digits after the first one, where one underscore may stand before each. -/
def readDigits (base value : Nat) : List Char → Option Nat
  | [] => some value
  | '_' :: c :: rest => do readDigits base (value * base + (← baseDigit? base c)) rest
  | c :: rest => do readDigits base (value * base + (← baseDigit? base c)) rest

/-- Reads an unsigned numeral, which has at least one digit and starts with one. -/
def readNatural (base : Nat) : List Char → Option Nat
  | [] => none
  | c :: rest => do readDigits base (← baseDigit? base c) rest

/-- Reads an optional sign and then a number. -/
def readSigned (number : List Char → Option Nat) : List Char → Option Int
  | '+' :: rest => (number rest).map Int.ofNat
  | '-' :: rest => (number rest).map fun value => -Int.ofNat value
  | chars => (number chars).map Int.ofNat

/-- The most digits a decimal numeral may have, when it is read and when it is written. -/
def maxDecimalDigits : Nat := 4300

/-- Whether an integer has few enough digits to be written. -/
def isWritable (value : Int) : Bool :=
  decide ((Nat.toDigits 10 value.natAbs).length ≤ maxDecimalDigits)

/-- Reads a decimal integer with blanks around it. -/
def readInteger (text : String) : Option Int :=
  let chars := trim isNumeralBlank text.toList
  if maxDecimalDigits < chars.countP isDigit then none
  else readSigned (readNatural 10) chars

/-- Reads an unsigned hexadecimal numeral after an optional `0x` and one underscore behind it. -/
def readMarkedHex : List Char → Option Nat
  | '0' :: x :: '_' :: rest =>
    if x == 'x' || x == 'X' then readNatural 16 rest else readNatural 16 ('0' :: x :: '_' :: rest)
  | '0' :: x :: rest =>
    if x == 'x' || x == 'X' then readNatural 16 rest else readNatural 16 ('0' :: x :: rest)
  | chars => readNatural 16 chars

/-- Reads a hexadecimal integer with blanks around it. -/
def readHexInteger (chars : List Char) : Option Int :=
  readSigned readMarkedHex (trim isNumeralBlank chars)

end ContentQuery.Text
