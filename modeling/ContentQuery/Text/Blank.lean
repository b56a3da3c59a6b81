/-! The blank characters of Unicode text, and their removal from both ends of a text. -/

namespace ContentQuery.Text

/-- A blank is a space, a separator, or a control character that ends a line or a field. -/
def isBlank (c : Char) : Bool :=
  let code := c.toNat
  (9 ≤ code && code ≤ 13) || (0x1C ≤ code && code ≤ 0x20)
    || code == 0x85 || code == 0xA0 || code == 0x1680
    || (0x2000 ≤ code && code ≤ 0x200A)
    || code == 0x2028 || code == 0x2029 || code == 0x202F || code == 0x205F || code == 0x3000

/-- Drops the characters of a class from both ends of a text. -/
def trim (class? : Char → Bool) (chars : List Char) : List Char :=
  ((chars.dropWhile class?).reverse.dropWhile class?).reverse

/-- A text without the blanks at its ends. -/
def strip (text : String) : String :=
  String.ofList (trim isBlank text.toList)

/-- A text that holds blanks only says nothing. -/
def isVacant (text : String) : Bool :=
  text.toList.all isBlank

/-- The lower case form of the capital letters A to Z; every other character stays as it is. -/
def lowerAscii (text : String) : String :=
  String.ofList (text.toList.map Char.toLower)

/-- The pieces of a text between the occurrences of one character, empty pieces included. -/
def splitAt (separator : Char) : List Char → List (List Char)
  | [] => [[]]
  | c :: rest =>
    match splitAt separator rest with
    | [] => [[c]]
    | piece :: pieces => if c = separator then [] :: piece :: pieces else (c :: piece) :: pieces

end ContentQuery.Text
