import ContentQuery.Text.Hex
import ContentQuery.Text.Printable

/-! Quoting of texts and bytes in messages, so that every character of them can be told apart. -/

namespace ContentQuery.Text

/-- The escape of a character that cannot be shown, by the shortest width that holds its code. -/
def hexEscape (code : Nat) : List Char :=
  if code < 0x100 then '\\' :: 'x' :: hexDigits 2 code
  else if code < 0x10000 then '\\' :: 'u' :: hexDigits 4 code
  else '\\' :: 'U' :: hexDigits 8 code

/-- Single quotes delimit a text unless it holds one of them and no double quote. -/
def delimiter (chars : List Char) : Char :=
  if chars.contains '\'' && !chars.contains '"' then '"' else '\''

/-- Writes one character between delimiters; `plain` tells which characters stand as they are. -/
def quoteChar (plain : Char → Bool) (mark c : Char) : List Char :=
  if c == mark || c == '\\' then ['\\', c]
  else if c == '\t' then ['\\', 't']
  else if c == '\n' then ['\\', 'n']
  else if c == '\r' then ['\\', 'r']
  else if plain c then [c]
  else hexEscape c.toNat

/-- Writes characters between the delimiters that suit them. -/
def quoteChars (plain : Char → Bool) (chars : List Char) : List Char :=
  let mark := delimiter chars
  mark :: chars.flatMap (quoteChar plain mark) ++ [mark]

/-- A text as messages quote it. -/
def quote (text : String) : String :=
  String.ofList (quoteChars isPrintable text.toList)

/-- Bytes as messages quote them: ASCII characters stand for themselves behind a leading `b`. -/
def quoteBytes (bytes : List UInt8) : String :=
  let plain (c : Char) : Bool := 0x20 ≤ c.toNat && c.toNat < 0x7F
  String.ofList ('b' :: quoteChars plain (bytes.map fun byte => Char.ofNat byte.toNat))

end ContentQuery.Text
