import ContentQuery.Text.Hex

/-! Percent encoding of the names and values of a query string. -/

namespace ContentQuery.Text

/-- The ASCII bytes that stand for themselves in a query string. -/
def isPlainByte (byte : UInt8) : Bool :=
  let c := Char.ofNat byte.toNat
  byte.toNat < 0x80 && (c.isAlphanum || "_.-~[],*".toList.contains c)

/-- Writes one byte: itself, a plus sign for a space, or a percent sign and two capital digits. -/
def percentByte (byte : UInt8) : List Char :=
  if isPlainByte byte then [Char.ofNat byte.toNat]
  else if byte == 0x20 then ['+']
  else ['%', hexCapital (byte.toNat / 16), hexCapital (byte.toNat % 16)]

/-- Bytes as one component of a query string. -/
def percentBytes (bytes : List UInt8) : String :=
  String.ofList (bytes.flatMap percentByte)

/-- A text as one component of a query string, through its UTF-8 bytes. -/
def percent (text : String) : String :=
  percentBytes (text.toList.flatMap String.utf8EncodeChar)

end ContentQuery.Text
