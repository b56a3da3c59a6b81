import ContentQuery.Fault
import ContentQuery.Text.Numeral

/-! Compiler options from environment variables, and presets of options. -/

namespace ContentQuery.Environment

/-- The values of environment variables by name. -/
abbrev Assignment := String → Option String

/-- The variables that set options. -/
inductive Variable where
  | defaultLocale
  | fallbackLocales
  | defaultLimit
  | maxResolveDepth
  | maxFilterDepth
  | includeDrafts
  | strict
  deriving DecidableEq, Repr

namespace Variable

/-- The name of a variable. -/
def name : Variable → String
  | .defaultLocale => "CONTENTBRIDGE_DEFAULT_LOCALE"
  | .fallbackLocales => "CONTENTBRIDGE_FALLBACK_LOCALES"
  | .defaultLimit => "CONTENTBRIDGE_DEFAULT_LIMIT"
  | .maxResolveDepth => "CONTENTBRIDGE_MAX_RESOLVE_DEPTH"
  | .maxFilterDepth => "CONTENTBRIDGE_MAX_FILTER_DEPTH"
  | .includeDrafts => "CONTENTBRIDGE_INCLUDE_DRAFTS"
  | .strict => "CONTENTBRIDGE_STRICT"

/-- The option that a variable sets. -/
def option : Variable → String
  | .defaultLocale => "default_locale"
  | .fallbackLocales => "fallback_locales"
  | .defaultLimit => "default_limit"
  | .maxResolveDepth => "max_resolve_depth"
  | .maxFilterDepth => "max_depth"
  | .includeDrafts => "include_drafts"
  | .strict => "strict"

end Variable

/-- The items of a list with commas between them, without the blanks around each. -/
def listItems (text : String) : List String :=
  ((Text.splitAt ',' text.toList).map fun piece => Text.strip (String.ofList piece)).filter
    (!·.isEmpty)

/-- Reads a natural number; a blank text sets nothing. -/
def readNatural (name text : String) : Except Fault (Option Value) :=
  if Text.isVacant text then .ok none
  else
    match Text.readInteger text with
    | none => .error (.invalid (.notInteger name text))
    | some value =>
      if value < 0 then .error (.invalid (.negativeInteger name value))
      else .ok (some (.int value))

/-- The words that switch a flag on. -/
def onWords : List String := ["1", "true", "yes", "on"]

/-- The words that switch a flag off. -/
def offWords : List String := ["0", "false", "no", "off"]

/-- Reads a flag; a blank text sets nothing. -/
def readFlag (name text : String) : Except Fault (Option Value) :=
  if Text.isVacant text then .ok none
  else
    let word := Text.lowerAscii (Text.strip text)
    if onWords.contains word then .ok (some (.bool true))
    else if offWords.contains word then .ok (some (.bool false))
    else .error (.invalid (.notFlag name text))

/-- What the text of a variable sets its option to, if it sets it at all. -/
def readVariable (source : Variable) (text : String) : Except Fault (Option Value) :=
  match source with
  | .defaultLocale => .ok (if text.isEmpty then none else some (.text text))
  | .fallbackLocales =>
    let items := listItems text
    .ok (if items.isEmpty then none else some (.list (items.map .text)))
  | .defaultLimit | .maxResolveDepth | .maxFilterDepth => readNatural source.name text
  | .includeDrafts | .strict => readFlag source.name text

/-- The options that given variables set, in the order of the variables. -/
def optionsOf (assigned : Assignment) : List Variable → Except Fault (List (Value × Value))
  | [] => .ok []
  | source :: rest => do
    let value ←
      match assigned source.name with
      | none => pure none
      | some text => readVariable source text
    let others ← optionsOf assigned rest
    return (value.map fun value => (Value.text source.option, value)).toList ++ others

/-- The options that environment variables set. -/
def options (assigned : Assignment) : Except Fault (List (Value × Value)) :=
  optionsOf assigned [.defaultLocale, .fallbackLocales, .defaultLimit, .maxResolveDepth,
    .maxFilterDepth, .includeDrafts, .strict]

/-- The options of a preview, which shows drafts. -/
def previewOptions (defaultLocale : Value) : List (Value × Value) :=
  (.text "include_drafts", .bool true) ::
    (if defaultLocale.isTruthy then [(.text "default_locale", defaultLocale)] else [])

/-- The options of a compiler that refuses every query it would have to narrow. -/
def strictOptions (maxResolveDepth : Value) : List (Value × Value) :=
  [(.text "strict", .bool true), (.text "include_drafts", .bool false),
    (.text "max_resolve_depth", maxResolveDepth)]

end ContentQuery.Environment
