import ContentQuery.Binary64.Shortest

/-! Decimal notation of floating-point numbers, written with the fewest digits that read back. -/

namespace ContentQuery.Binary64

/-- Numbers are written positionally from 0.0001 up to, but not including, 10 to the sixteenth. -/
def isPositional (leading : Int) : Bool :=
  -4 ≤ leading && leading < 16

/-- Digits with a point after the first `whole` of them, filled up with zeros on either side. -/
def pointAfter (digits : List Char) (whole : Int) : List Char :=
  if whole ≤ 0 then '0' :: '.' :: List.replicate (-whole).toNat '0' ++ digits
  else
    let front := digits.take whole.toNat
    let back := digits.drop whole.toNat
    front ++ List.replicate (whole.toNat - front.length) '0' ++
      '.' :: (if back.isEmpty then ['0'] else back)

/-- Digits with a power of ten, whose exponent has a sign and at least two digits. -/
def withExponent (digits : List Char) (leading : Int) : List Char :=
  let mantissa :=
    match digits with
    | first :: second :: rest => first :: '.' :: second :: rest
    | short => short
  let power := Nat.toDigits 10 leading.natAbs
  mantissa ++ 'e' :: (if leading < 0 then '-' else '+') ::
    (if power.length < 2 then '0' :: power else power)

/-- The digits of a magnitude in decimal notation. -/
def magnitudeChars (significand : Nat) (exponent : Int) : List Char :=
  if significand == 0 then ['0', '.', '0']
  else
    let (value, weight) := shortest significand exponent
    let all := Nat.toDigits 10 value
    let leading := (all.length : Int) - 1 + weight
    let digits := (all.reverse.dropWhile (· == '0')).reverse
    if isPositional leading then pointAfter digits (leading + 1) else withExponent digits leading

/-- The text of a number, which reads back as the same number. -/
def text : Binary64 → String
  | .nan => "nan"
  | .infinite negative => if negative then "-inf" else "inf"
  | .finite negative significand exponent _ =>
    let magnitude := magnitudeChars significand exponent
    String.ofList (if negative then '-' :: magnitude else magnitude)

/-- The value of a run of ASCII digits. -/
def readDigitRun? (digits : List Char) : Option Nat :=
  digits.foldlM (fun value c => if c.isDigit then some (value * 10 + (c.toNat - 0x30)) else none) 0

/-- Reads an exponent, whose sign may be left out. -/
def readExponent? : List Char → Option Int
  | '+' :: rest => (readDigitRun? rest).map Int.ofNat
  | '-' :: rest => (readDigitRun? rest).map fun value => -Int.ofNat value
  | rest => (readDigitRun? rest).map Int.ofNat

/-- The number nearest to a decimal fraction. -/
def ofDecimal (negative : Bool) (digits : Nat) (weight : Int) : Binary64 :=
  ofQuotient negative (digits * Nat.pow 10 weight.toNat) (Nat.pow 10 (-weight).toNat)

/-- Reads the decimal notation of a magnitude. -/
def readMagnitude? (negative : Bool) (chars : List Char) : Option Binary64 := do
  let mantissa := chars.takeWhile (· != 'e')
  let exponent ← match chars.dropWhile (· != 'e') with
    | _ :: rest => readExponent? rest
    | [] => some 0
  let whole := mantissa.takeWhile (· != '.')
  let fraction := (mantissa.dropWhile (· != '.')).drop 1
  let digits ← readDigitRun? (whole ++ fraction)
  if (whole ++ fraction).isEmpty then none
  else return ofDecimal negative digits (exponent - fraction.length)

/-- Reads the text of a number. -/
def read? (text : String) : Option Binary64 :=
  match text with
  | "nan" => some .nan
  | "inf" => some (.infinite false)
  | "-inf" => some (.infinite true)
  | _ =>
    match text.toList with
    | '-' :: rest => readMagnitude? true rest
    | chars => readMagnitude? false chars

end ContentQuery.Binary64
