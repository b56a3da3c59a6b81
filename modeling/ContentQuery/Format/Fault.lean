import ContentQuery.Value.Text

/-! Why a target cannot carry a literal, and what the reader is told about it. -/

namespace ContentQuery

/-- The reasons for which a literal has no form in a target. -/
inductive FormatFault where
  | tooDeep
  | notFinite (number : Binary64)
  | keyNotText (key : Value)
  | notSerializable (typeName : String)
  | nullParameter
  | notParameter (typeName : String)
  | emptyParameterList
  | nestedParameterList
  | commaInItem (item : String)
  | mapParameter
  | notMatchable (typeName : String)
  | emptyMatchList
  | mixedMatchList
  | truthValueBound
  | textNotBound (text : String)
  | notBound (typeName : String)
  | negativePoint (number : Int)
  | textNotPoint (text : String)
  | notPoint (typeName : String)
  | patternNotText
  | emptyTextMatch
  /-- An integer that has too many digits to be written: no fault of the literal, but a failure. -/
  | unwritable

namespace FormatFault

/-- Whether a literal failed for an integer that cannot be written, and not for its form. -/
def isUnwritable : FormatFault → Bool
  | .unwritable => true
  | _ => false

/-- The sentence that names a fault. -/
def message : FormatFault → String
  | .tooDeep => "value nesting is too deep"
  | .notFinite number => s!"{number.text} is not a finite number"
  | .keyNotText key => s!"object key {key.inspect} is not a string"
  | .notSerializable typeName => s!"{typeName} is not serializable"
  | .nullParameter => "null cannot be sent as a parameter value"
  | .notParameter typeName => s!"{typeName} cannot be sent as a parameter value"
  | .emptyParameterList => "an empty list cannot be sent as a parameter value"
  | .nestedParameterList => "nested collections cannot be sent as a parameter value"
  | .commaInItem item => s!"list item {Text.quote item} contains a comma"
  | .mapParameter => "objects cannot be sent as a parameter value"
  | .notMatchable typeName =>
    s!"exact match requires a string, integer or boolean, got {typeName}"
  | .emptyMatchList => "an empty list cannot be matched"
  | .mixedMatchList => "any-of match requires only strings or only integers"
  | .truthValueBound => "booleans cannot be range-compared"
  | .textNotBound text => s!"{Text.quote text} is neither a number nor an ISO timestamp"
  | .notBound typeName => s!"{typeName} cannot be range-compared"
  | .negativePoint number => s!"point ID {number} is negative"
  | .textNotPoint text => s!"{Text.quote text} is not a UUID point ID"
  | .notPoint typeName => s!"{typeName} cannot be a point ID"
  | .patternNotText => "text patterns must be strings"
  | .emptyTextMatch => "text match requires a non-empty string"
  | .unwritable => "an integer has too many digits to be written"

end FormatFault

namespace Value

/-- Identifiers, dates and times as texts; every other value as it is. -/
def stringified : Value → Value
  | .uuid value => .text value.text
  | .moment value => .text value.iso
  | .date value => .text value.iso
  | .time value => .text value.iso
  | other => other

/-- The scalar that a literal stands for: members of enumerations stand for their values. -/
def scalar : Value → Value
  | .member value => value.stringified
  | .operator value => .text value.symbol
  | other => other.stringified

/-- Refuses a set with an item whose telling form cannot be written, so that it cannot be sorted. -/
def checkSortable : Value → Except FormatFault Unit
  | .set _ items => if items.all canInspect then .ok () else .error .unwritable
  | _ => .ok ()

/-- Values in the order of their telling forms, which does not depend on how a set is enumerated.
A set with a value that has none is refused before it is sorted. -/
def sorted (items : List Value) : List Value :=
  items.mergeSort fun left right => decide (left.inspect ≤ right.inspect)

/-- The items of a list or a tuple in order, and those of a set sorted. -/
def orderedItems? : Value → Option (List Value)
  | .list items | .tuple items => some items
  | .set _ items => some (sorted items)
  | _ => none

end Value

end ContentQuery
