import ContentQuery.Groq.Filter

/-! Access to the localized forms of a field, in order of preference. -/

namespace ContentQuery.Groq

/-- The name under which the form of a field in a locale is kept. -/
def localeName (locale : String) : String :=
  String.ofList (locale.toList.map fun c => if c == '-' then '_' else c)

/-- The locales of an access: the one asked for, then the fallback locales, each of them once. -/
def localesOf (wanted : Value) (fallbacks : List Value) : List Value :=
  let first := if wanted.isTruthy then [wanted] else []
  fallbacks.foldl (fun locales next => if locales.contains next then locales else locales ++ [next])
    first

/-- The name of a locale, which has to be a text that names an attribute. -/
def readLocale : Value → Except Fault String
  | .text locale =>
    if isName (localeName locale) then .ok (localeName locale)
    else .error (.invalid (.invalidLocale locale))
  | _ => .error .mistyped

/-- The expression that gives the first localized form of a field that there is. -/
def localizedField (settings : Settings) (field locale : Value) : Except Fault String :=
  match field with
  | .text path =>
    if pathGrammar.isPath path then do
      let locales := localesOf (locale.orElse settings.defaultLocale) settings.fallbackLocales
      let names ← locales.mapM readLocale
      if names.isEmpty then return path
      else
        let paths := names.map (path ++ "." ++ ·) ++ [path]
        return "coalesce(" ++ ", ".intercalate paths ++ ")"
    else .error (.invalid (.invalidPath field))
  | other => .error (.invalid (.invalidPath other))

end ContentQuery.Groq
