import ContentQuery.Proofs.Groq.Clause
import Mathlib.Data.List.Forall2
import Mathlib.Data.List.TakeWhile

/-! How a reader goes through texts: spans inside an operand, operands, and joined operands. -/

namespace ContentQuery.Groq

namespace Formula

/-- A conjunction is true when all of its parts are. -/
@[simp] theorem holds_all (truth : String → Prop) (formulas : List Formula) :
    (all formulas).Holds truth ↔ ∀ formula ∈ formulas, formula.Holds truth := by
  -- The cases are those of the definition: nothing, one part, and a part before others.
  fun_induction all formulas with
  | case1 => simp [Holds]
  | case2 only => simp
  | case3 first rest _ ih => simp [Holds, ih]

/-- A disjunction is true when one of its parts is. -/
@[simp] theorem holds_any (truth : String → Prop) (formulas : List Formula) :
    (any formulas).Holds truth ↔ ∃ formula ∈ formulas, formula.Holds truth := by
  fun_induction any formulas with
  | case1 => simp [Holds]
  | case2 only => simp
  | case3 first rest _ ih => simp [Holds, ih]

end Formula

/-- The characters that a reader may have to do more with than to take them over. -/
def specials : List Char :=
  ['"', '\'', '/', '(', ')', '[', ']', '{', '}', '&', '|']

/-- A character with which an operand can open and that is taken over wherever it stands. -/
def isOpening (c : Char) : Bool :=
  !specials.contains c && !isBlank c && c != '!'

namespace Level

/-- A character put into an operand leaves it no longer vacant. -/
@[simp] theorem isVacant_put (level : Level) (c : Char) : (level.put c).isVacant = false := by
  simp [isVacant, put]

/-- Adds characters to the operand in order. -/
def putAll (level : Level) (chars : List Char) : Level :=
  { level with text := chars.reverse ++ level.text }

@[simp] theorem putAll_nil (level : Level) : level.putAll [] = level := rfl

@[simp] theorem putAll_cons (level : Level) (c : Char) (chars : List Char) :
    level.putAll (c :: chars) = (level.put c).putAll chars := by
  simp [putAll, put]

/-- Nothing takes characters away again. -/
theorem isVacant_putAll {level : Level} (occupied : level.isVacant = false) (chars : List Char) :
    (level.putAll chars).isVacant = false := by
  -- The first character leaves the operand occupied, and so does every later one.
  induction chars generalizing level with
  | nil => exact occupied
  | cons c rest ih =>
    rw [putAll_cons]
    exact ih (isVacant_put level c)

/-- A blank behind an operand does not change what is read. -/
theorem conjuncts?_put_blank (level : Level) : (level.put ' ').conjuncts? = level.conjuncts? := by
  -- The blanks at the end of an operand are dropped before it is taken for complete.
  have blank : isBlank ' ' = true := rfl
  simp [conjuncts?, bare?, put, blank]

end Level

namespace Reader

/-- Reading two texts in a row is reading the second where the first has led to. -/
theorem run_append (reader : Reader) (first second : List Char) :
    reader.run (first ++ second) = (reader.run first).bind fun reached => reached.run second :=
  List.foldlM_append

@[simp] theorem run_nil (reader : Reader) : reader.run [] = some reader := rfl

@[simp] theorem run_cons (reader : Reader) (c : Char) (rest : List Char) :
    reader.run (c :: rest) = (reader.step c).bind fun reached => reached.run rest := rfl

/-- A character without a meaning of its own is taken over into an operand. -/
theorem step_ordinary {awaited : List Char} {level : Level} {outer : List Level} {c : Char}
    (ordinary : c ∉ specials)
    (placed : level.isVacant = false ∨ (isBlank c = false ∧ c ≠ '!')) :
    step ⟨.plain, awaited, level :: outer⟩ c =
      some ⟨.plain, awaited, level.put c :: outer⟩ := by
  -- Each test of the step is for a special character, and none of them succeeds.
  simp only [specials, List.mem_cons, List.not_mem_nil, or_false, not_or] at ordinary
  obtain ⟨double, single, slash, open₁, close₁, open₂, close₂, open₃, close₃, also, either⟩ :=
    ordinary
  have unquoted : isQuote c = false := by simp [isQuote, double, single]
  have opensNothing : closing? c = none := by
    unfold closing?
    split <;> simp_all
  have closesNothing : isClosing c = false := by simp [isClosing, close₁, close₂, close₃]
  -- Blanks and negations matter in front of an operand only.
  have inPlace : (level.isVacant && isBlank c) = false ∧ (level.isVacant && c == '!') = false := by
    rcases placed with occupied | ⟨unblank, unnegated⟩
    · simp [occupied]
    · simp [unblank, unnegated]
  simp [step, operate, absorb, unquoted, slash, opensNothing, closesNothing, inPlace, open₁,
    close₁, also, either]

end Reader

/-- A text that stays in the operand it stands in, inside brackets or not. -/
def Spans (chars : List Char) : Prop :=
  ∀ awaited level outer, level.isVacant = false →
    Reader.run ⟨.plain, awaited, level :: outer⟩ chars =
      some ⟨.plain, awaited, level.putAll chars :: outer⟩

/-- Nothing stays where it is. -/
theorem spans_nil : Spans [] := fun _ _ _ _ => rfl

/-- Two spans in a row are a span. -/
theorem Spans.append {first second : List Char} (left : Spans first) (right : Spans second) :
    Spans (first ++ second) := by
  intro awaited level outer occupied
  -- The first span leaves the operand occupied, as the second one needs it.
  rw [Reader.run_append, left awaited level outer occupied]
  show Reader.run _ second = _
  rw [right awaited _ outer (Level.isVacant_putAll occupied first)]
  simp [Level.putAll]

/-- Characters without a meaning of their own form a span. -/
theorem spans_of_ordinary {chars : List Char} (ordinary : ∀ c ∈ chars, c ∉ specials) :
    Spans chars := by
  -- Each character keeps the operand occupied, which is what the next one needs.
  induction chars with
  | nil => exact spans_nil
  | cons c rest ih =>
    intro awaited level outer occupied
    rw [Reader.run_cons, Reader.step_ordinary (ordinary c (by simp)) (Or.inl occupied)]
    show Reader.run _ rest = _
    rw [ih (fun d member => ordinary d (by simp [member])) awaited _ outer
      (Level.isVacant_put level c), Level.putAll_cons]

/-- So do words that have none of the special characters, which can be looked up. -/
theorem spans_of_words {chars : List Char} (words : chars.any specials.contains = false) :
    Spans chars := by
  refine spans_of_ordinary fun c member special => ?_
  rw [List.any_eq_true.mpr ⟨c, member, List.contains_iff_mem.mpr special⟩] at words
  exact nomatch words

/-- Brackets around a span form a span with it. -/
theorem Spans.bracketed {inner : List Char} (span : Spans inner) {opener closer : Char}
    (pair : closing? opener = some closer) : Spans (opener :: (inner ++ [closer])) := by
  -- Only three pairs exist, and their characters mean nothing else inside an operand.
  have chars : (opener = '(' ∧ closer = ')') ∨ (opener = '[' ∧ closer = ']') ∨
      (opener = '{' ∧ closer = '}') := by
    unfold closing? at pair
    split at pair <;> simp_all [eq_comm]
  intro awaited level outer occupied
  have opened : Reader.step ⟨.plain, awaited, level :: outer⟩ opener =
      some ⟨.plain, closer :: awaited, level.put opener :: outer⟩ := by
    rcases chars with ⟨rfl, rfl⟩ | ⟨rfl, rfl⟩ | ⟨rfl, rfl⟩ <;>
      simp [Reader.step, Reader.operate, Reader.absorb, isQuote, closing?, occupied]
  -- The closing bracket is the one that is awaited, whatever the inside has put into the operand.
  have closed : ∀ reached : Level,
      Reader.step ⟨.plain, closer :: awaited, reached :: outer⟩ closer =
        some ⟨.plain, awaited, reached.put closer :: outer⟩ := by
    intro reached
    rcases chars with ⟨rfl, rfl⟩ | ⟨rfl, rfl⟩ | ⟨rfl, rfl⟩ <;>
      simp [Reader.step, Reader.absorb, isQuote, closing?, isClosing]
  rw [Reader.run_cons, opened]
  show Reader.run _ (inner ++ [closer]) = _
  rw [Reader.run_append, span _ _ outer (Level.isVacant_put level opener)]
  simp [closed, Level.putAll, Level.put]

/-- A text with which an operand can open and that stays in it. -/
def Opens (chars : List Char) : Prop :=
  ∃ first rest, chars = first :: rest ∧ isOpening first = true ∧ Spans rest

namespace Opens

/-- A span behind the opening of an operand belongs to it. -/
theorem append {chars more : List Char} (opens : Opens chars) (span : Spans more) :
    Opens (chars ++ more) := by
  obtain ⟨first, rest, rfl, opening, spanned⟩ := opens
  exact ⟨first, rest ++ more, rfl, opening, spanned.append span⟩

/-- What opens an operand can also stand inside one. -/
theorem spans {chars : List Char} (opens : Opens chars) : Spans chars := by
  obtain ⟨first, rest, rfl, opening, spanned⟩ := opens
  -- Inside an operand, the first character is as ordinary as the others.
  have ordinary : ∀ c ∈ [first], c ∉ specials := by
    simp [isOpening] at opening
    simpa using opening.1.1
  exact (spans_of_ordinary ordinary).append spanned

end Opens

/-- A text that is read as one operand, whatever stands before and around it. -/
def Reads (chars : List Char) (formula : Formula) : Prop :=
  ∀ level outer, level.isVacant = true → ∃ after : Level,
    Reader.run ⟨.plain, [], level :: outer⟩ chars = some ⟨.plain, [], after :: outer⟩ ∧
      after.isVacant = false ∧ after.disjuncts = level.disjuncts ∧
      after.conjuncts? = some (level.conjuncts ++ [formula.negated level.negations])

/-- A text is read as at most one formula. -/
theorem Reads.unique {chars : List Char} {formula other : Formula} (reads : Reads chars formula)
    (also : Reads chars other) : formula = other := by
  -- Both readings start from the empty level, where the run can lead to one level only.
  obtain ⟨after, ran, _, _, conjuncts⟩ := reads {} [] rfl
  obtain ⟨after', ran', _, _, conjuncts'⟩ := also {} [] rfl
  have same := ran.symm.trans ran'
  simp only [Option.some.injEq, Reader.mk.injEq, List.cons.injEq] at same
  obtain ⟨-, -, rfl, -⟩ := same
  simpa [Formula.negated] using conjuncts.symm.trans conjuncts'

/-- The opening of an operand is an atom when nothing follows it. -/
theorem Opens.reads {text : String} (opens : Opens text.toList) :
    Reads text.toList (.atom (trimmed text)) := by
  obtain ⟨first, rest, spelled, opening, spanned⟩ := opens
  intro level outer vacant
  simp only [isOpening, Bool.and_eq_true, Bool.not_eq_true', bne_iff_ne] at opening
  obtain ⟨⟨ordinary, unblank⟩, unnegated⟩ := opening
  -- The operand gathers the whole text, and its level keeps everything else.
  refine ⟨(level.put first).putAll rest, ?_, Level.isVacant_putAll (Level.isVacant_put _ _) _, rfl,
    ?_⟩
  · rw [spelled, Reader.run_cons,
      Reader.step_ordinary (by simpa using ordinary) (Or.inr ⟨unblank, unnegated⟩)]
    exact spanned [] _ outer (Level.isVacant_put level first)
  · -- The first character is no blank, so that something is left of the operand.
    obtain ⟨ungrouped, untouched⟩ : level.group = none ∧ level.text = [] := by
      simpa [Level.isVacant] using vacant
    have words : ((level.put first).putAll rest).text = text.toList.reverse := by
      simp [Level.putAll, Level.put, untouched, spelled]
    have grouped : ((level.put first).putAll rest).group = none := ungrouped
    have left : text.toList.reverse.dropWhile isBlank ≠ [] := by
      intro empty
      have blank := List.dropWhile_eq_nil_iff.1 empty first (by simp [spelled])
      simp [unblank] at blank
    unfold Level.conjuncts? Level.bare?
    rw [words, grouped]
    cases kept : text.toList.reverse.dropWhile isBlank with
    | nil => exact absurd kept left
    | cons c more =>
      simp [trimmed, kept, Level.putAll, Level.put]

/-- A negation in front of an operand negates it. -/
theorem Reads.not {chars : List Char} {formula : Formula} (reads : Reads chars formula) :
    Reads ('!' :: chars) (.not formula) := by
  intro level outer vacant
  -- In front of an operand, the mark is counted and not put into it.
  have stepped : Reader.step ⟨.plain, [], level :: outer⟩ '!' =
      some ⟨.plain, [], { level with negations := level.negations + 1 } :: outer⟩ := by
    simp [Reader.step, Reader.operate, isQuote, vacant, isBlank, Char.isWhitespace]
  rw [Reader.run_cons, stepped]
  exact reads { level with negations := level.negations + 1 } outer vacant

/-- A text that is read as disjuncts between two parentheses or outside of all. -/
def ReadsAll (chars : List Char) (disjuncts : List (List Formula)) : Prop :=
  ∀ outer, ∃ after : Level,
    Reader.run ⟨.plain, [], {} :: outer⟩ chars = some ⟨.plain, [], after :: outer⟩ ∧
      after.disjuncts? = some disjuncts

/-- Parentheses make one operand of disjuncts. -/
theorem ReadsAll.group {chars : List Char} {disjuncts : List (List Formula)}
    (reads : ReadsAll chars disjuncts) :
    Reads ('(' :: (chars ++ [')'])) (.any (disjuncts.map .all)) := by
  intro level outer vacant
  obtain ⟨inner, ran, found⟩ := reads (level :: outer)
  -- The inside is read on a level of its own, which the closing parenthesis takes off again.
  refine ⟨{ level with group := some (.any (disjuncts.map .all)) }, ?_, rfl, rfl, ?_⟩
  · have opened : Reader.step ⟨.plain, [], level :: outer⟩ '(' =
        some ⟨.plain, [], {} :: level :: outer⟩ := by
      simp [Reader.step, Reader.operate, isQuote, vacant, isBlank, Char.isWhitespace]
    have closed : Reader.step ⟨.plain, [], inner :: level :: outer⟩ ')' =
        Reader.close inner (level :: outer) := by
      simp [Reader.step, Reader.operate, isQuote, isBlank, Char.isWhitespace]
    rw [Reader.run_cons, opened]
    show Reader.run _ (chars ++ [')']) = _
    rw [Reader.run_append, ran]
    simp [closed, Reader.close, found]
  · obtain ⟨-, untouched⟩ : level.group = none ∧ level.text = [] := by
      simpa [Level.isVacant] using vacant
    simp [Level.conjuncts?, Level.bare?, untouched]

namespace Reader

/-- A blank in front of an operand is skipped. -/
theorem step_blank {level : Level} {outer : List Level} (vacant : level.isVacant = true) :
    step ⟨.plain, [], level :: outer⟩ ' ' = some ⟨.plain, [], level :: outer⟩ := by
  have blank : isBlank ' ' = true := rfl
  simp [step, operate, isQuote, vacant, blank]

/-- The first character of an operator waits in the operand. -/
theorem step_waits {level : Level} {outer : List Level} {mark : Char}
    (operator : mark = '&' ∨ mark = '|') (alone : level.text.head? ≠ some mark) :
    step ⟨.plain, [], level :: outer⟩ mark = some ⟨.plain, [], level.put mark :: outer⟩ := by
  -- A single mark is as ordinary as any other character of an operand.
  rcases operator with rfl | rfl <;>
    simp [step, operate, absorb, isQuote, closing?, isClosing, isBlank, Char.isWhitespace, alone]

/-- The second `&` takes the first one back and goes on to the next conjunct. -/
theorem step_conjoins {level : Level} {outer : List Level} (waiting : level.text.head? = some '&') :
    step ⟨.plain, [], level :: outer⟩ '&' =
      level.unput.conjoin.map fun next => ⟨.plain, [], next :: outer⟩ := by
  simp [step, operate, isQuote, isBlank, Char.isWhitespace, waiting]

/-- The second `|` takes the first one back and goes on to the next disjunct. -/
theorem step_disjoins {level : Level} {outer : List Level} (waiting : level.text.head? = some '|') :
    step ⟨.plain, [], level :: outer⟩ '|' =
      level.unput.disjoin.map fun next => ⟨.plain, [], next :: outer⟩ := by
  simp [step, operate, isQuote, isBlank, Char.isWhitespace, waiting]

/-- Behind a complete operand, a doubled mark between blanks goes on to what its operator opens. -/
theorem run_operator {level next : Level} {outer : List Level} {mark : Char}
    {advance : Level → Option Level} (operator : mark = '&' ∨ mark = '|')
    (advances : ∀ waiting : Level, waiting.text.head? = some mark →
      step ⟨.plain, [], waiting :: outer⟩ mark =
        (advance waiting.unput).map fun next => ⟨.plain, [], next :: outer⟩)
    (occupied : level.isVacant = false) (joined : advance (level.put ' ') = some next)
    (vacant : next.isVacant = true) :
    run ⟨.plain, [], level :: outer⟩ [' ', mark, mark, ' '] =
      some ⟨.plain, [], next :: outer⟩ := by
  -- The blank keeps the first mark alone, and the second mark takes the first one back.
  have alone : (level.put ' ').text.head? ≠ some mark := by
    rcases operator with rfl | rfl <;> simp [Level.put]
  have kept : ((level.put ' ').put mark).unput = level.put ' ' := rfl
  rw [run_cons, step_ordinary (by decide) (Or.inl occupied), Option.bind_some, run_cons,
    step_waits operator alone, Option.bind_some, run_cons, advances _ rfl, kept, joined]
  -- The blank behind the operator is skipped, for the next operand has not begun.
  simp [step_blank vacant]

/-- Behind a complete operand, `&&` goes on to the next conjunct. -/
theorem run_and {level : Level} {outer : List Level} {conjuncts : List Formula}
    (occupied : level.isVacant = false) (complete : level.conjuncts? = some conjuncts) :
    run ⟨.plain, [], level :: outer⟩ " && ".toList =
      some ⟨.plain, [], { disjuncts := level.disjuncts, conjuncts } :: outer⟩ := by
  -- The blanks around the operator are part of no atom.
  have joined : (level.put ' ').conjoin = some { disjuncts := level.disjuncts, conjuncts } := by
    rw [Level.conjoin, Level.conjuncts?_put_blank, complete]
    rfl
  exact run_operator (Or.inl rfl) (fun _ => step_conjoins) occupied joined rfl

/-- Behind a complete operand, `||` goes on to the next disjunct. -/
theorem run_or {level : Level} {outer : List Level} {disjuncts : List (List Formula)}
    (occupied : level.isVacant = false) (complete : level.disjuncts? = some disjuncts) :
    run ⟨.plain, [], level :: outer⟩ " || ".toList =
      some ⟨.plain, [], { disjuncts } :: outer⟩ := by
  -- The blanks around the operator are part of no atom.
  have joined : (level.put ' ').disjoin = some { disjuncts } := by
    have same : (level.put ' ').disjuncts? = level.disjuncts? := by
      unfold Level.disjuncts?
      rw [Level.conjuncts?_put_blank]
      rfl
    rw [Level.disjoin, same, complete]
    rfl
  exact run_operator (Or.inr rfl) (fun _ => step_disjoins) occupied joined rfl

/-- Operands with `&&` between them are the conjuncts of one disjunct. -/
theorem run_conjuncts {texts : List (List Char)} {formulas : List Formula}
    (reads : List.Forall₂ Reads texts formulas) (some_ : texts ≠ []) :
    ∀ level outer, level.isVacant = true → level.negations = 0 → ∃ after : Level,
      run ⟨.plain, [], level :: outer⟩ (" && ".toList.intercalate texts) =
          some ⟨.plain, [], after :: outer⟩ ∧
        after.isVacant = false ∧ after.disjuncts = level.disjuncts ∧
        after.conjuncts? = some (level.conjuncts ++ formulas) := by
  -- Each operand but the last is followed by an operator, behind which the level is vacant again.
  induction reads with
  | nil => exact absurd rfl some_
  | @cons text formula texts formulas head tail ih =>
    intro level outer vacant unnegated
    obtain ⟨reached, ran, occupied, disjuncts, conjuncts⟩ := head level outer vacant
    -- Behind the last operand nothing is left to do, and the others go on with the operator.
    rw [unnegated] at conjuncts
    cases tail with
    | nil => exact ⟨reached, by simpa using ran, occupied, disjuncts, conjuncts⟩
    | cons next more =>
      obtain ⟨after, ran', occupied', disjuncts', conjuncts'⟩ := ih (by simp)
        { disjuncts := reached.disjuncts, conjuncts := level.conjuncts ++ [formula.negated 0] }
        outer rfl rfl
      refine ⟨after, ?_, occupied', disjuncts'.trans disjuncts, ?_⟩
      · rw [List.intercalate_cons_cons, List.append_assoc, run_append, ran, Option.bind_some,
          run_append, run_and occupied conjuncts, Option.bind_some, ran']
      · simpa [Formula.negated] using conjuncts'

/-- Operands with `||` between them are disjuncts of one conjunct each. -/
theorem run_disjuncts {texts : List (List Char)} {formulas : List Formula}
    (reads : List.Forall₂ Reads texts formulas) (some_ : texts ≠ []) :
    ∀ level outer, level.isVacant = true → level.negations = 0 → level.conjuncts = [] →
      ∃ after : Level,
        run ⟨.plain, [], level :: outer⟩ (" || ".toList.intercalate texts) =
            some ⟨.plain, [], after :: outer⟩ ∧
          after.disjuncts? = some (level.disjuncts ++ formulas.map ([·])) := by
  -- As for conjuncts, but each operand completes a disjunct of its own.
  induction reads with
  | nil => exact absurd rfl some_
  | @cons text formula texts formulas head tail ih =>
    intro level outer vacant unnegated single
    obtain ⟨reached, ran, occupied, disjuncts, conjuncts⟩ := head level outer vacant
    have complete : reached.disjuncts? = some (level.disjuncts ++ [[formula]]) := by
      simp [Level.disjuncts?, conjuncts, disjuncts, unnegated, single, Formula.negated]
    cases tail with
    | nil => exact ⟨reached, by simpa using ran, by simpa using complete⟩
    | cons next more =>
      obtain ⟨after, ran', disjuncts'⟩ := ih (by simp)
        { disjuncts := level.disjuncts ++ [[formula]] } outer rfl rfl rfl
      refine ⟨after, ?_, by simpa using disjuncts'⟩
      rw [List.intercalate_cons_cons, List.append_assoc, run_append, ran, Option.bind_some,
        run_append, run_or occupied complete, Option.bind_some, ran']

end Reader

/-- Operands joined by `&&` are read as one disjunct. -/
theorem readsAll_conjuncts {texts : List (List Char)} {formulas : List Formula}
    (reads : List.Forall₂ Reads texts formulas) (some_ : texts ≠ []) :
    ReadsAll (" && ".toList.intercalate texts) [formulas] := by
  intro outer
  obtain ⟨after, ran, _, disjuncts, conjuncts⟩ := Reader.run_conjuncts reads some_ {} outer rfl rfl
  exact ⟨after, ran, by simp [Level.disjuncts?, disjuncts, conjuncts]⟩

/-- Operands joined by `||` are read as a disjunct each. -/
theorem readsAll_disjuncts {texts : List (List Char)} {formulas : List Formula}
    (reads : List.Forall₂ Reads texts formulas) (some_ : texts ≠ []) :
    ReadsAll (" || ".toList.intercalate texts) (formulas.map ([·])) := by
  intro outer
  obtain ⟨after, ran, disjuncts⟩ := Reader.run_disjuncts reads some_ {} outer rfl rfl rfl
  exact ⟨after, ran, by simpa using disjuncts⟩

/-- A text that is read as disjuncts is an expression with these disjuncts. -/
theorem ReadsAll.readExpression {text : String} {disjuncts : List (List Formula)}
    (reads : ReadsAll text.toList disjuncts) : readExpression text = some disjuncts := by
  obtain ⟨after, ran, found⟩ := reads []
  have started : Reader.start.run text.toList = some ⟨.plain, [], [after]⟩ := ran
  simp [Groq.readExpression, started, Reader.finish, found]

/-- What can be read as an expression is not empty, and so is read like that in a clause. -/
theorem readClause_of_readExpression {text : String} {disjuncts : List (List Formula)}
    (read : readExpression text = some disjuncts) : readClause text = some disjuncts := by
  -- Only the empty clause is treated apart, and it is no expression.
  have something : text.isEmpty = false := by
    cases empty : text.isEmpty with
    | false => rfl
    | true =>
      rw [String.isEmpty_iff.mp empty] at read
      exact nomatch read
  simpa [readClause, something] using read

end ContentQuery.Groq
