import Reckoner.Proofs.Calculator.Bounds
import Reckoner.Proofs.Evaluation.Levels
import Reckoner.Proofs.Sample.Terms

/-!
# Random formulas are expressions with a value

Whatever is drawn, every formula of a series is read and has a value. A machine comes to that value unless the formula
is so long that its tree has too many levels; a formula of at most four terms keeps all limits.
-/

namespace Reckoner

open Grammar Expression

namespace Formula

/-- All terms are operands. -/
def Proper (f : Formula) : Prop :=
  IsOperand f.first.text ∧ ∀ link ∈ f.rest, IsOperand link.2.text

theorem ensures_sampler (most : Nat) : (sampler most).Ensures fun f => f.rest.length + 1 ≤ most ∧ f.Proper := by
  have link : Formula.link.Ensures fun x => IsOperand x.2.text :=
    (Sampler.Ensures.choice _ _).bind fun o _ => Term.ensures_sampler.bind fun term operand => operand
  refine (Sampler.Ensures.whole 1 (most + 1)).bind fun count range => Term.ensures_sampler.bind fun first operand => ?_
  refine (link.replicate (count - 1)).bind fun rest drawn => ?_
  obtain ⟨length, operands⟩ := drawn
  refine ⟨?_, operand, operands⟩
  change rest.length + 1 ≤ most
  omega

theorem text_eq (f : Formula) :
    f.text = f.first.text ++ .join (f.rest.map fun link => (Word.sign link.1).text ++ link.2.text) := by
  have symbol (o : Operator) : (Word.sign o).text = o.symbol := by cases o <;> rfl
  simp only [symbol]
  rfl

/-- The terms are the operands of a chain. -/
theorem Proper.cut {f : Formula} (h : f.Proper) :
    ∃ ws, Cut (14 + 15 * f.rest.length) (80 + 81 * f.rest.length) f.text ws ∧ Valued .standard .sum ws := by
  obtain ⟨⟨us, cut, operand⟩, operands⟩ := h
  let Chain (n : Nat) (ws : List Word) : Prop :=
    ∃ links : Links, links.length = n ∧ links.Within .standard .sum ∧ ws = us ++ links.words
  have adds : ∀ link ∈ f.rest, ∃ vs, Cut 14 80 link.2.text vs ∧
      ∀ n ws, Chain n ws → Chain (n + 1) (ws ++ .sign link.1 :: vs) := by
    intro link member
    obtain ⟨vs, cut, next⟩ := operands link member
    refine ⟨vs, cut, ?_⟩
    rintro n _ ⟨links, rfl, within, rfl⟩
    refine ⟨links ++ [(link.1, vs)], by simp, ?_, ?_⟩
    · intro link' member'
      rcases List.mem_append.1 member' with before | last
      · exact within link' before
      · rw [List.mem_singleton.1 last]
        exact ⟨next, by cases link.1 <;> decide⟩
    · rw [Links.words_append, Links.words_cons, List.append_assoc]
      simp [Links.words]
  have start : Chain 0 us := ⟨[], rfl, by simp [Links.Within], by simp [Links.words]⟩
  obtain ⟨ws, whole, links, -, within, rfl⟩ := Cut.join (fun link => by cases link.1 <;> rfl) adds cut start
  rw [text_eq]
  exact ⟨_, whole, chained_sum Catalog.regular_standard us links operand within⟩

/-- What a proper formula says is an expression with a value, and is no larger than its terms allow. -/
theorem Proper.reads {f : Formula} (h : f.Proper) :
    ∃ tokens root, tokenize f.text = .ok tokens ∧ Catalog.standard.expression tokens = .ok root ∧
      root.measuredDepth ≤ 14 + 15 * f.rest.length ∧ f.text.length ≤ 80 + 81 * f.rest.length ∧ tokens ≠ [] ∧
      ∀ drawn, ∃ value, root.evaluate drawn = .ok value := by
  obtain ⟨ws, cut, root, unfailing, phrase⟩ := h.cut
  have regular := Catalog.regular_standard
  have built := (expression_eq_ok_iff regular).2 (phrase 0)
  obtain ⟨b, whole⟩ := build_of_expression built
  have deep := (bounds_of_build .fresh whole).1
  rw [Word.length_tokens] at deep
  have evaluable := (((phrase 0).denotes regular).1 le_rfl).evaluable ((phrase 0).genuine regular)
  exact ⟨_, root, cut.tokenize, built, deep.trans cut.few, cut.short, (phrase 0).ne_nil, evaluable.value_of_unfailing unfailing⟩

end Formula

/-- A text with a token in it is not blank. -/
theorem not_isBlankText {text : String} {tokens : List Token} (tokenized : tokenize text = .ok tokens) (filled : tokens ≠ []) :
    Text.isBlankText text = false := by
  obtain ⟨layout, rfl, rfl⟩ := exists_layout tokenized
  have some_word : layout.words ≠ [] := fun none => filled (by simp [Layout.tokens, none, Word.tokens])
  obtain ⟨w, rest, words⟩ := List.exists_cons_of_ne_nil some_word
  obtain ⟨ch, more, spelling, starts, -⟩ := w.spelled
  have inside : ch ∈ layout.text.toList := by
    simp [Layout.text, words, Word.written, spelling]
  refine eq_false_of_ne_true fun blank => ?_
  have other := Lexer.not_isBlank_of_starts starts
  rw [List.all_eq_true.1 blank ch inside] at other
  cases other

/-- An expression that is read is evaluated where there are levels enough. -/
theorem evaluateText_of_parse {source : Option String} {root : Expression} {levels : Nat} {drawn : Draws} {value : Float}
    (parsed : parse .standard [] {} source = .ok root) (enough : root.depth ≤ levels)
    (evaluated : root.evaluate drawn = .ok value) : evaluateText .standard [] {} levels drawn source = .ok value := by
  rw [evaluateText, parsed]
  simp only [value_of_depth_le enough, evaluated]

section LongSums

/-- What is written for the number one. -/
def oneWord : Word :=
  .tight .number "1" ⟨_, [], rfl, rfl, by simp⟩

/-- A sum of `n` ones and a first one. -/
def ones (n : Nat) : Formula :=
  ⟨.number (Decimal.roundPlaces 2 1.0), List.replicate n (.plus, .number (Decimal.roundPlaces 2 1.0))⟩

/-- A sum is evaluated one level above its operands, the left one first. -/
theorem evaluateWithin_plus {entry : Entry} (kind : entry.kind = .binary) (rule : entry.rule = .add)
    (levels : Nat) (a b : Expression) (drawn : Draws) :
    (evaluateWithin (levels + 1) none ⟨.reference entry, some a, some b⟩).run drawn =
      ((evaluateWithin levels none a).run drawn).bind fun x =>
        ((evaluateWithin levels none b).run x.2).bind fun y => .ok (x.1 + y.1, y.2) := by
  simp only [evaluateWithin, evaluateNode, Entry.checkArguments, kind, rule, Rule.evaluate, operandValue]
  rfl

/-- The tree of a sum of ones has a level for each of them, and all levels are gone down to. -/
theorem exists_long_sum (n : Nat) :
    ∃ root, (∀ position, Phrase .standard true none .sum
        (Word.tokens position (oneWord :: Links.words (List.replicate n (.plus, [oneWord])))) root) ∧
      ∀ levels ≤ n, ∀ drawn, (evaluateWithin levels none root).run drawn = .error .tooDeep := by
  obtain ⟨value, read⟩ : ∃ value, Decimal.read? "1" = some value := ⟨_, rfl⟩
  have one (next : Option TokenKind) (position : Nat) :
      Phrase .standard true next .element [⟨.number, "1", position⟩] (.literal value) := .number rfl read
  induction n with
  | zero =>
    refine ⟨.literal value, fun position => (one none position).loosen (by decide), fun levels few drawn => ?_⟩
    obtain rfl := Nat.le_zero.1 few
    rfl
  | succ n ih =>
    obtain ⟨root, phrase, deep⟩ := ih
    obtain ⟨entry, known, kind, rule⟩ := Catalog.regular_standard.sign .plus
    refine ⟨⟨.reference entry, some (.literal value), some root⟩, fun position => ?_, fun levels few drawn => ?_⟩
    · rw [List.replicate_succ, Links.words_cons]
      have first : Phrase .standard true (some (.operator .plus)) .chain [⟨.number, "1", position⟩] (.literal value) :=
        (one _ position).loosen (by decide)
      exact first.binary rfl known (phrase _)
    · cases levels with
      | zero => rfl
      | succ levels =>
        have right := deep levels (Nat.le_of_succ_le_succ few) drawn
        have left : (evaluateWithin levels none (.literal value)).run drawn = .error .tooDeep ∨
            (evaluateWithin levels none (.literal value)).run drawn = .ok (value, drawn) := by
          cases levels with
          | zero => exact .inl rfl
          | succ levels => exact .inr rfl
        rcases left with none_left | some_left
        · rw [evaluateWithin_plus kind rule, none_left]
          rfl
        · rw [evaluateWithin_plus kind rule, some_left]
          change ((evaluateWithin levels none root).run drawn).bind _ = _
          rw [right]
          rfl

theorem Formula.tokenize_ones (n : Nat) :
    tokenize (ones n).text = .ok (Word.tokens 0 (oneWord :: Links.words (List.replicate n (.plus, [oneWord])))) := by
  have text : (Term.number (Decimal.roundPlaces 2 1.0)).text = "1" := by decide +kernel
  have one : Cut 1 1 "1" [oneWord] := .word _ (by decide)
  let Ones (n : Nat) (ws : List Word) : Prop := ws = oneWord :: Links.words (List.replicate n (.plus, [oneWord]))
  have adds : ∀ link ∈ (ones n).rest, ∃ vs, Cut 1 1 link.2.text vs ∧
      ∀ n ws, Ones n ws → Ones (n + 1) (ws ++ .sign link.1 :: vs) := by
    intro link member
    obtain rfl := List.eq_of_mem_replicate member
    refine ⟨[oneWord], by rwa [text], ?_⟩
    rintro n _ rfl
    change _ = _
    rw [List.replicate_succ', Links.words_append]
    rfl
  obtain ⟨ws, cut, same⟩ := Cut.join (fun link => by cases link.1 <;> rfl) adds one (n := 0) rfl
  have whole : Ones n ws := by
    simpa [ones] using same
  rw [Formula.text_eq, show (ones n).first.text = "1" from text, ← whole]
  exact cut.tokenize

/-- A sum of ones is drawn. -/
theorem gives_ones {n most : Nat} (le : n < most) :
    (Formula.sampler most).Gives
      (.index (n + 1) :: .index 0 :: .amount 1.0 :: (List.replicate n [.index 0, .index 0, .amount 1.0]).flatten) (ones n) := by
  have term : Term.sampler.Gives [.index 0, .amount 1.0] (.number (Decimal.roundPlaces 2 1.0)) := fun more =>
    ⟨⟨by decide, by decide, by decide +kernel, by decide +kernel, trivial⟩, rfl⟩
  have link : Formula.link.Gives [.index 0, .index 0, .amount 1.0] (.plus, .number (Decimal.roundPlaces 2 1.0)) := fun more =>
    ⟨⟨by decide, by decide, by decide, by decide, by decide +kernel, by decide +kernel, trivial⟩, rfl⟩
  have count : (Sampler.whole 1 (most + 1)).Gives [.index (n + 1)] (n + 1) := fun more =>
    ⟨⟨by omega, by omega, trivial⟩, rfl⟩
  let sum (rest : List (Operator × Term)) : Sampler Formula := .done ⟨.number (Decimal.roundPlaces 2 1.0), rest⟩
  have done : (sum (ones n).rest).Gives [] (ones n) := fun more => ⟨trivial, rfl⟩
  have rest : ((Sampler.replicate n Formula.link).bind sum).Gives _ (ones n) := (link.replicate n).bind done
  rw [List.append_nil] at rest
  exact count.bind (term.bind rest)

end LongSums

/-- For all draws from the ranges that are asked for there are as many formulas as are asked for, each of one to `most`
terms. Every one of them is split into tokens that make an expression over the standard operations, and this has a value,
whatever is drawn for `random`. A machine that goes down as many levels as the tree has comes to that value, and one with fewer
levels does so or finds the tree too deep. Formulas of at most four terms are within the limits of the calculator, and so their
trees have at most a hundred levels. -/
theorem series_evaluates (count most : Nat) (draws : List Drawn) (allowed : (Formula.series count most).Allows draws) :
    ∃ formulas left, (Formula.series count most).run draws = some (formulas, left) ∧ formulas.length = count ∧
      ∀ f ∈ formulas, f.rest.length + 1 ≤ most ∧
        ∃ tokens root, tokenize f.text = .ok tokens ∧ Catalog.standard.expression tokens = .ok root ∧
          (most ≤ 4 → root.depth ≤ 100 ∧ parse .standard [] {} (some f.text) = .ok root) ∧
          ∀ drawn, ∃ value, root.evaluate drawn = .ok value ∧ root.ComesTo drawn (.ok value) ∧
            (most ≤ 4 → ∀ levels, root.depth ≤ levels →
              evaluateText .standard [] {} levels drawn (some f.text) = .ok value) := by
  obtain ⟨formulas, left, run, length, each⟩ := ((Formula.ensures_sampler most).replicate count).run allowed
  refine ⟨formulas, left, run, length, fun f member => ?_⟩
  obtain ⟨terms, proper⟩ := each f member
  obtain ⟨tokens, root, tokenized, built, shallow, short, filled, evaluates⟩ := proper.reads
  have reads (few : most ≤ 4) : root.depth ≤ 100 ∧ parse .standard [] {} (some f.text) = .ok root := by
    have limit : root.measuredDepth ≤ 100 := by omega
    refine ⟨by rwa [measuredDepth_eq] at limit, parse_eq_ok_iff.2 ⟨_, tokens, rfl, ?_, ?_, tokenized, filled, built, limit⟩⟩
    · exact not_isBlankText tokenized filled
    · change f.text.length ≤ 1024
      omega
  refine ⟨terms, tokens, root, tokenized, built, reads, fun drawn => ?_⟩
  obtain ⟨value, evaluated⟩ := evaluates drawn
  refine ⟨value, evaluated, ?_, fun few levels enough => ?_⟩
  · rw [← evaluated]
    exact root.comesTo_evaluate drawn
  · exact evaluateText_of_parse (reads few).2 enough evaluated

/-- A call with a negative argument, less a factorial. -/
theorem series_evaluates_difference :
    let draws : List Drawn := [.index 2, .index 2, .amount 0.0, .index 1, .amount (-2.5), .index 2,
      .index 1, .index 3, .amount 0.0, .index 3]
    (Formula.series 1 4).Allows draws ∧
      ∃ f, (Formula.series 1 4).run draws = some ([f], []) ∧ f.text = "min(-2.5)-3!" ∧
        ∀ drawn, ∃ value, ∀ levels, 100 ≤ levels →
          evaluateText .standard [] {} levels drawn (some f.text) = .ok value := by
  intro draws
  have allowed : (Formula.series 1 4).Allows draws := by
    refine ⟨?_, ?_, ?_, ?_, ?_, ?_, ?_, ?_, ?_, ?_, ?_, ?_, ?_, ?_, ?_, ?_, ?_, ?_, ?_, ?_, trivial⟩ <;> decide +kernel
  obtain ⟨formulas, left, run, length, each⟩ := series_evaluates 1 4 draws allowed
  obtain ⟨f, drawn⟩ : ∃ f, (Formula.series 1 4).run draws = some ([f], []) ∧ f.text = "min(-2.5)-3!" :=
    ⟨_, rfl, by decide +kernel⟩
  obtain ⟨rfl, rfl⟩ : formulas = [f] ∧ left = [] := by simpa [run] using drawn.1
  obtain ⟨-, tokens, root, -, -, reads, evaluates⟩ := each f (by simp)
  obtain ⟨shallow, -⟩ := reads (by decide)
  refine ⟨allowed, f, drawn.1, drawn.2, fun draws => ?_⟩
  obtain ⟨value, -, -, comes⟩ := evaluates draws
  exact ⟨value, fun levels far => comes (by decide) levels (shallow.trans far)⟩

/-- Three thousand and one ones are a formula that is drawn and that says an expression, but a machine that goes down no more
than three thousand levels finds it too deep. -/
theorem series_refused :
    let draws : List Drawn := .index 3001 :: .index 0 :: .amount 1.0 ::
      (List.replicate 3000 [.index 0, .index 0, .amount 1.0]).flatten
    (Formula.series 1 3001).Allows draws ∧ (Formula.series 1 3001).run draws = some ([ones 3000], []) ∧
      ∃ tokens root, tokenize (ones 3000).text = .ok tokens ∧ Catalog.standard.expression tokens = .ok root ∧
        ∀ levels ≤ 3000, ∀ drawn, root.value levels none drawn = .error .tooDeep := by
  intro draws
  have given : (Formula.series 1 3001).Gives draws [ones 3000] := by
    have drawn := (gives_ones (show 3000 < 3001 by decide)).replicate 1
    rwa [show List.replicate 1 draws = [draws] from rfl, List.flatten_singleton] at drawn
  obtain ⟨allowed, run⟩ := given []
  rw [List.append_nil] at allowed run
  obtain ⟨root, phrase, deep⟩ := exists_long_sum 3000
  refine ⟨allowed, run, _, root, Formula.tokenize_ones 3000, ?_, fun levels few drawn => ?_⟩
  · exact (expression_eq_ok_iff Catalog.regular_standard).2 (phrase 0)
  · rw [Expression.value, deep levels few drawn]
    rfl

end Reckoner
