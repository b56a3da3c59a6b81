/-! Windows of a result list. -/

namespace ContentQuery

/-- The results from `offset` on, up to `limit` of them, counted in some kind of number. -/
structure Page (α : Type) where
  offset : α
  limit : Option α
  deriving DecidableEq, Repr

namespace Page

variable {α : Type}

/-- The page of a request; the default counts only where neither limit nor offset is given. -/
def resolve [OfNat α 0] (limit offset standard : Option α) : Page α :=
  match limit, offset with
  | none, none => ⟨0, standard⟩
  | limit, none => ⟨0, limit⟩
  | limit, some offset => ⟨offset, limit⟩

/-- The position behind the last result under an addition, unless the page is open. -/
def stopBy {m : Type → Type} [Monad m] (add : α → α → m α) (page : Page α) : m (Option α) :=
  match page.limit with
  | none => pure none
  | some limit => some <$> add page.offset limit

/-- The position behind the last result, unless the page is open. -/
def stop [Add α] (page : Page α) : Option α :=
  page.limit.map (page.offset + ·)

/-- Whether a page is the whole list. -/
def isWhole [OfNat α 0] [BEq α] (page : Page α) : Bool :=
  page.offset == 0 && page.limit.isNone

end Page

end ContentQuery
