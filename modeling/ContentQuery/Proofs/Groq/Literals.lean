import ContentQuery.Groq.Filter
import ContentQuery.Proofs.Compilation

/-! Conversions of literals: they bind placeholders in order and leave no notice. -/

namespace ContentQuery.Groq

namespace Literally

variable {α β : Type}

/-- From a slot on, a conversion leaves no notice, and what it gives meets a condition. -/
def Ensures (build : Literally α) (slot : Nat) (post : α → List Value → Prop) : Prop :=
  Convert.Ensures build.run slot fun result literals notices =>
    notices = [] ∧ ∀ given, result = .ok given → post given literals

/-- A weaker condition is met as well. -/
theorem Ensures.mono {build : Literally α} {slot : Nat} {post weaker : α → List Value → Prop}
    (ensures : build.Ensures slot post)
    (implies : ∀ given literals, post given literals → weaker given literals) :
    build.Ensures slot weaker :=
  Convert.Ensures.mono ensures fun _ _ _ met =>
    ⟨met.1, fun given built => implies given _ (met.2 given built)⟩

/-- A result that is given at once binds no literal. -/
theorem Ensures.pure {given : α} {slot : Nat} {post : α → List Value → Prop}
    (met : post given []) : Ensures (pure given) slot post :=
  Convert.Ensures.pure ⟨rfl, fun _ built => Except.ok.inj built ▸ met⟩

/-- A conversion that breaks off gives nothing. -/
theorem Ensures.throw {fault : FormatFault} {slot : Nat} {post : α → List Value → Prop} :
    Ensures (throw fault) slot post :=
  Convert.Ensures.pure ⟨rfl, fun _ built => nomatch built⟩

/-- A form that a literal may not have binds no literal. -/
theorem Ensures.ofExcept {form : Except FormatFault α} {slot : Nat}
    {post : α → List Value → Prop} (met : ∀ given, form = .ok given → post given []) :
    Ensures (ExceptT.mk (Pure.pure form)) slot post :=
  Convert.Ensures.pure ⟨rfl, met⟩

/-- The second of two conversions starts at the slot that the first has led to. -/
theorem Ensures.bind {build : Literally α} {next : α → Literally β} {slot : Nat}
    {post : α → List Value → Prop} {final : β → List Value → Prop}
    (first : build.Ensures slot post)
    (then_ : ∀ given literals, post given literals →
      (next given).Ensures (slot + literals.length) fun given' literals' =>
        final given' (literals ++ literals')) :
    Ensures (build >>= next) slot final := by
  -- A fault of the first conversion ends both.
  unfold Ensures
  rw [ExceptT.run_bind]
  refine Convert.Ensures.bind first fun result literals notices met => ?_
  obtain ⟨silent, met⟩ := met
  cases result with
  | error fault => exact Convert.Ensures.pure ⟨by simp [silent], fun _ built => nomatch built⟩
  | ok given =>
    refine Convert.Ensures.mono (then_ given literals (met given rfl)) ?_
    intro result' literals' notices' met'
    exact ⟨by simp [silent, met'.1], met'.2⟩

/-- A literal is bound to the slot. -/
theorem Ensures.bindLiteral {literal : Value} {slot : Nat} {post : Nat → List Value → Prop}
    (met : post slot [literal]) : Ensures (ExceptT.lift (Convert.bind literal)) slot post := by
  have bound : Convert.Ensures (Convert.bind literal) slot fun given literals notices =>
      notices = [] ∧ given = slot ∧ literals = [literal] := .bindLiteral ⟨rfl, rfl, rfl⟩
  -- Lifting wraps the slot as a success.
  unfold Ensures
  rw [ExceptT.run_lift, ← bind_pure_comp]
  refine Convert.Ensures.bind bound fun given literals notices ⟨silent, here, alone⟩ => ?_
  refine .pure ⟨by simp [silent], fun given' built => ?_⟩
  cases built
  simpa [here, alone] using met

end Literally

/-- The JSON form of a literal is bound to the slot. -/
theorem ensures_placeholder (value : Value) (slot : Nat) :
    (placeholder value).Ensures slot fun given literals => given = slot ∧ literals.length = 1 := by
  have form : Literally.Ensures (ExceptT.mk (pure value.toJson)) slot fun _ literals =>
      literals = [] := .ofExcept fun _ _ => rfl
  refine .bind form fun json literals none_ => .bindLiteral ?_
  simp [none_]

/-- Literals are bound to slots in a row. -/
theorem ensures_placeholders (values : List Value) (slot : Nat) :
    (placeholders values).Ensures slot fun given literals =>
      given = List.range' slot values.length ∧ literals.length = values.length := by
  -- Each literal takes one slot, so that the next one starts at the slot behind it.
  induction values generalizing slot with
  | nil => exact .pure ⟨rfl, rfl⟩
  | cons value rest ih =>
    refine .bind (ensures_placeholder value slot) fun given literals ⟨here, one⟩ => ?_
    refine .bind (ih _) fun given' literals' ⟨others, more⟩ => .pure ?_
    rw [one] at others
    simp only [here, others, one, more, List.append_nil, List.length_append, List.length_cons]
    exact ⟨rfl, by omega⟩

/-- A bare comparison is bound to the slot it stands in. -/
theorem ensures_compareWith (field : String) (relation : Relation) (value : Value) (slot : Nat) :
    (compareWith field relation value).Ensures slot fun given literals =>
      given = .compare field relation slot ∧ literals.length = 1 := by
  -- The placeholder is the only literal of a comparison.
  refine .bind (ensures_placeholder value slot) fun given literals ⟨here, one⟩ => .pure ?_
  simp [here, one]

end ContentQuery.Groq
