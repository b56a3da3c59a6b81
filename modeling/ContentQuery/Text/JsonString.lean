import ContentQuery.Text.Hex

/-! JSON strings in ASCII, safe to stand in an expression whatever characters they name. -/

namespace ContentQuery.Text

/-- The escape of one unit of sixteen bits. -/
def unitEscape (unit : Nat) : List Char :=
  '\\' :: 'u' :: hexDigits 4 unit

/-- The escape of a character outside printable ASCII, in two units when one cannot hold it. -/
def jsonEscape (code : Nat) : List Char :=
  if code < 0x10000 then unitEscape code
  else
    let offset := code - 0x10000
    unitEscape (0xD800 + offset / 0x400) ++ unitEscape (0xDC00 + offset % 0x400)

/-- Writes one character inside a JSON string. -/
def jsonChar (c : Char) : List Char :=
  if c == '"' || c == '\\' then ['\\', c]
  else if c == '\n' then ['\\', 'n']
  else if c == '\r' then ['\\', 'r']
  else if c == '\t' then ['\\', 't']
  else if c.toNat == 0x08 then ['\\', 'b']
  else if c.toNat == 0x0C then ['\\', 'f']
  else if 0x20 ≤ c.toNat && c.toNat < 0x7F then [c]
  else jsonEscape c.toNat

/-- A text as a JSON string, with its double quotes. -/
def jsonString (text : String) : String :=
  String.ofList ('"' :: text.toList.flatMap jsonChar ++ ['"'])

/-- Texts as a JSON array of strings. -/
def jsonStrings (texts : List String) : String :=
  "[" ++ ", ".intercalate (texts.map jsonString) ++ "]"

end ContentQuery.Text
