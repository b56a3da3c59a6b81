import ContentQuery.Fault

/-! What a compilation gathers on its way: bound placeholders and notices. -/

namespace ContentQuery

/-- The values bound to placeholders so far, and the notices given so far, oldest first. -/
structure Context where
  bindings : List Value
  notices : List Notice

namespace Context

/-- The context at the start of a compilation. -/
def empty : Context := ⟨[], []⟩

/-- The name of the placeholder at an index. -/
def slotName (index : Nat) : String :=
  "p" ++ toString index

/-- The reference to the placeholder at an index. -/
def slotReference (index : Nat) : String :=
  "$" ++ slotName index

/-- Binds a value to the next placeholder. -/
def bind (context : Context) (value : Value) : Context :=
  { context with bindings := context.bindings ++ [value] }

/-- Adds a notice. -/
def note (context : Context) (notice : Notice) : Context :=
  { context with notices := context.notices ++ [notice] }

/-- The placeholders by name, with the values bound to them. -/
def named (context : Context) : List (Value × Value) :=
  context.bindings.zipIdx.map fun (value, index) => (.text (slotName index), value)

end Context

/-- A compilation that may be refused. -/
abbrev Compile := StateT Context (Except Fault)

/-- A compilation that is never refused. -/
abbrev Convert := StateM Context

namespace Convert

/-- Binds a value to the next placeholder and gives the index of the placeholder. -/
def bind (value : Value) : Convert Nat :=
  fun context => (context.bindings.length, context.bind value)

/-- Adds a notice about a field and an operator, either of which may be null. -/
def degrade (reason : Reason) (message : String) (field operator : Value) : Convert Unit :=
  fun context => ((), context.note ⟨reason, .text message, field, operator⟩)

/-- A compilation that is never refused, as part of one that may be. -/
def lift {α : Type} (convert : Convert α) : Compile α :=
  fun context => .ok (convert context)

end Convert

namespace Compile

/-- Adds a notice about a field and an operator, either of which may be null. -/
def degrade (reason : Reason) (message : String) (field operator : Value) : Compile Unit :=
  (Convert.degrade reason message field operator).lift

/-- Adds a notice about the query as a whole. -/
def remark (reason : Reason) (message : String) : Compile Unit :=
  degrade reason message .null .null

/-- Refuses the compilation. -/
def refuse {α : Type} (fault : Fault) : Compile α :=
  fun _ => .error fault

/-- Lets pass what can be written, and refuses an integer that has too many digits for it. -/
def requireWritten (writable : Bool) : Compile Unit :=
  if writable then pure () else refuse .unwritable

/-- A reading that may fail, as part of a compilation. -/
def ofExcept {α : Type} (result : Except Fault α) : Compile α :=
  fun context => result.map (·, context)

end Compile

end ContentQuery
