import ContentQuery.Calendar.Moment

/-! Reading of ISO 8601 texts: calendar and week dates, basic and extended times, offsets. -/

namespace ContentQuery.IsoReader

/-- Reads exactly `count` ASCII digits. -/
def readDigits? : (count value : Nat) → List Char → Option (Nat × List Char)
  | 0, value, rest => some (value, rest)
  | count + 1, value, c :: rest =>
    if c.isDigit then readDigits? count (value * 10 + (c.toNat - 0x30)) rest else none
  | _ + 1, _, [] => none

/-- A character that ends a text early. -/
def isTerminator (c : Char) : Bool :=
  c.toNat == 0

/-- Nothing is left to read at the end of a text or at a terminator. -/
def isFinished : List Char → Bool
  | [] => true
  | c :: _ => isTerminator c

/-- Skips a hyphen where the date is written with hyphens. -/
def skipHyphen? (hyphens : Bool) (chars : List Char) : Option (List Char) :=
  if hyphens then
    match chars with
    | '-' :: rest => some rest
    | _ => none
  else some chars

/-- Reads the date that a text holds, as a month and day or as a week of its year. -/
def readDate? (chars : List Char) : Option Date := do
  let (year, rest) ← readDigits? 4 0 chars
  let (hyphens, rest) := match rest with
    | '-' :: rest => (true, rest)
    | rest => (false, rest)
  match rest with
  | 'W' :: rest =>
    let (week, rest) ← readDigits? 2 0 rest
    if rest.isEmpty then Date.ofWeek? year week 1
    else
      let (day, _) ← readDigits? 1 0 (← skipHyphen? hyphens rest)
      Date.ofWeek? year week day
  | rest =>
    let (month, rest) ← readDigits? 2 0 rest
    let (day, _) ← readDigits? 2 0 (← skipHyphen? hyphens rest)
    Date.ofParts? year month day

/-- Whether a text holds a digit at a place. -/
def digitAt (chars : List Char) (place : Nat) : Bool :=
  (chars[place]?.map Char.isDigit).getD false

/-- The length of the date at the start of a text, told from its fifth and sixth characters. -/
def dateLength (chars : List Char) : Nat :=
  if chars.length ≤ 7 then 7
  else if chars[4]? == some '-' then
    if chars[5]? == some 'W' then
      -- After a week comes a hyphen and its day, or a hyphen and two digits of a time.
      if chars[8]? == some '-' && !digitAt chars 10 then 10 else 8
    else 10
  else if chars[4]? == some 'W' then
    -- The digits of a time come in pairs, so their number tells whether one belongs to the date.
    let run := ((chars.drop 7).takeWhile Char.isDigit).length
    if run < 2 then 7 + run else if run % 2 == 1 then 7 else 8
  else 8

/-- The parts of a time as written, which may lie out of range. -/
structure RawClock where
  hour : Nat
  minute : Nat
  second : Nat
  microsecond : Nat
  /-- Whether the text ends where the time ends. -/
  finished : Bool

/-- The clock of the pairs of digits found, where pairs that are missing count as zero. -/
def RawClock.ofPairs (pairs : List Nat) (microsecond : Nat) (finished : Bool) : RawClock :=
  ⟨pairs.getD 0 0, pairs.getD 1 0, pairs.getD 2 0, microsecond, finished⟩

/-- Reads a fraction of a second, cut off after six digits, and whether the text ends there. -/
def readFraction? (chars : List Char) : Option (Nat × Bool) := do
  let width := min 6 chars.length
  let (value, rest) ← readDigits? width 0 chars
  return (value * Nat.pow 10 (6 - width), isFinished (rest.dropWhile Char.isDigit))

/-- What stands after a pair of digits of a time. -/
inductive Joint where
  | finished
  | unfinished
  | pair (rest : List Char)
  | fraction (rest : List Char)
  | broken

/-- Tells what follows a pair of digits; `colons` is whether the first pair was followed by one. -/
def joint (colons zoned : Bool) : List Char → Joint
  | [] => if zoned then .unfinished else .finished
  | [c] => if isTerminator c then .finished else if c.toNat < 0x80 then .unfinished else .broken
  | c :: rest =>
    if colons && c == ':' then .pair rest
    else if c == '.' || c == ',' then .fraction rest
    else if colons then .broken
    else .pair (c :: rest)

/-- Reads up to `more` further pairs of digits and the fraction behind them. -/
def readPairs? (zoned : Bool) (colons : Option Bool) (found : List Nat) :
    (more : Nat) → List Char → Option RawClock
  | 0, chars => do
    let (microsecond, finished) ← readFraction? chars
    return .ofPairs found microsecond finished
  | more + 1, chars => do
    let (value, rest) ← readDigits? 2 0 chars
    let found := found ++ [value]
    let colons := colons.getD (rest.head? == some ':')
    match joint colons zoned rest with
    | .finished => return .ofPairs found 0 true
    | .unfinished => return .ofPairs found 0 false
    | .fraction rest => do
      let (microsecond, finished) ← readFraction? rest
      return .ofPairs found microsecond finished
    | .pair rest => readPairs? zoned (some colons) found more rest
    | .broken => none

/-- Reads a time of day; `zoned` tells whether an offset follows it. -/
def readClock? (zoned : Bool) (chars : List Char) : Option RawClock :=
  readPairs? zoned none [] 3 chars

/-- Whether a character opens an offset. -/
def isSign (c : Char) : Bool :=
  c == '+' || c == '-'

/-- Reads an offset with its sign; minutes and seconds may exceed their usual range. -/
def readOffset? : List Char → Option Offset
  | sign :: rest => do
    let clock ← readClock? false rest
    if !clock.finished then none
    else
      let seconds : Int := (clock.hour * 3600 + clock.minute * 60 + clock.second : Nat)
      -- An offset below one second counts as none at all.
      if seconds == 0 then some .universal
      else
        let magnitude := seconds * 1000000 + clock.microsecond
        Offset.ofMicroseconds? (if sign == '-' then -magnitude else magnitude)
  | [] => none

/-- Reads a time of day and the offset that may follow it. -/
def readTime? (chars : List Char) : Option Time := do
  let zone := chars.dropWhile (!isSign ·)
  let raw ← readClock? (!zone.isEmpty) (chars.takeWhile (!isSign ·))
  let offset ← if zone.isEmpty then (if raw.finished then some none else none)
    else (readOffset? zone).map some
  let clock ← Clock.ofParts? raw.hour raw.minute raw.second raw.microsecond
  return ⟨clock, offset⟩

/-- Reads a moment: a date, any one character, and a time; or a date alone. -/
def readMoment? (text : String) : Option Moment := do
  let chars := text.toList
  let width := dateLength chars
  let date ← readDate? (chars.take width)
  match chars.drop width with
  | [] => return .ofDate date
  | _ :: time => return ⟨date, ← readTime? time⟩

/-- Reads the ISO text of a date. -/
def readDay? (text : String) : Option Date :=
  if text.length == dateLength text.toList then readDate? text.toList else none

/-- Reads the ISO text of a time. -/
def readTimeText? (text : String) : Option Time :=
  readTime? text.toList

end ContentQuery.IsoReader
