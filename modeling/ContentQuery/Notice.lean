import ContentQuery.Value.Basic

/-! Notices: what of a query a target could not express, and why. -/

namespace ContentQuery

/-- Why a part of a query was narrowed or dropped. -/
inductive Reason where
  | unsupportedOperator
  | invalidValue
  | invalidField
  | orAcrossFields
  | emptyOr
  | matchNothing
  | complexNot
  | keyCollision
  | multiType
  | unsupportedExclusion
  | unsupportedAlias
  | unsupportedComputed
  | nestedProjection
  | invalidProjection
  | cursorPagination
  | offsetPagination
  | multiSort
  | resolveDepthClamped
  | resolveOutOfBand
  | unsupportedLocale
  | parameterCollision
  deriving DecidableEq, Repr

namespace Reason

/-- Every reason there is. -/
def all : List Reason :=
  [.unsupportedOperator, .invalidValue, .invalidField, .orAcrossFields, .emptyOr, .matchNothing,
    .complexNot, .keyCollision, .multiType, .unsupportedExclusion, .unsupportedAlias,
    .unsupportedComputed, .nestedProjection, .invalidProjection, .cursorPagination,
    .offsetPagination, .multiSort, .resolveDepthClamped, .resolveOutOfBand, .unsupportedLocale,
    .parameterCollision]

/-- The word that stands for a reason. -/
def word : Reason → String
  | .unsupportedOperator => "unsupported_operator"
  | .invalidValue => "invalid_value"
  | .invalidField => "invalid_field"
  | .orAcrossFields => "or_across_fields"
  | .emptyOr => "empty_or"
  | .matchNothing => "match_nothing"
  | .complexNot => "complex_not"
  | .keyCollision => "key_collision"
  | .multiType => "multi_type"
  | .unsupportedExclusion => "unsupported_exclusion"
  | .unsupportedAlias => "unsupported_alias"
  | .unsupportedComputed => "unsupported_computed"
  | .nestedProjection => "nested_projection"
  | .invalidProjection => "invalid_projection"
  | .cursorPagination => "cursor_pagination"
  | .offsetPagination => "offset_pagination"
  | .multiSort => "multi_sort"
  | .resolveDepthClamped => "resolve_depth_clamped"
  | .resolveOutOfBand => "resolve_out_of_band"
  | .unsupportedLocale => "unsupported_locale"
  | .parameterCollision => "parameter_collision"

/-- The reason that a word stands for. -/
def ofWord? (word : String) : Option Reason :=
  all.find? (·.word == word)

end Reason

/-- A record of one part of a query that was narrowed or dropped. -/
structure Notice where
  reason : Reason
  /-- What was narrowed or dropped, in words. -/
  message : Value
  /-- The field concerned, or null. -/
  field : Value
  /-- The operator concerned, or null. -/
  operator : Value

end ContentQuery
