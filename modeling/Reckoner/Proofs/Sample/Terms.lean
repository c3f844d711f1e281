import Reckoner.Proofs.Evaluation.Operands
import Reckoner.Proofs.Sample.Ensures
import Reckoner.Sample.Formula

/-!
# Terms of random formulas

Each of the four kinds of terms is an operand: a numeral, perhaps with a minus sign in front of it, a call with as many
arguments as its function takes, or a factorial of a number that has one.
-/

namespace Reckoner

open Decimal

/-- The text is an operand of the standard catalog, of at most 14 words and 80 characters. -/
def IsOperand (text : String) : Prop :=
  ∃ ws, Cut 14 80 text ws ∧ Operand .standard ws

/-- What is written for a modest number is a numeral, or one with a minus sign in front of it. -/
theorem cut_numberText {x : Float} (modest : Modest x) : ∃ ws, Cut 2 16 (numberText x) ws ∧ Operand .standard ws := by
  obtain ⟨negative, body, text, numeral, short⟩ := numeral_write modest
  have plain : Operand .standard [numeral.word] := .run ((Valued.numeral .standard numeral).loosen (by decide))
  have cut : Cut 1 15 (String.ofList body) [numeral.word] := .word numeral.spells (by rwa [String.length_ofList])
  cases negative with
  | false =>
    have same : numberText x = String.ofList body := by
      rw [← String.toList_inj, String.toList_ofList]
      exact text
    rw [same]
    exact ⟨_, cut.mono (by decide) (by decide), plain⟩
  | true =>
    have same : numberText x = "" ++ ((Word.sign .minus).text ++ String.ofList body) := by
      rw [← String.toList_inj, String.toList_append, String.toList_append, String.toList_ofList]
      exact text.trans (by simp [Word.sign, Word.mark, Word.tight, TokenKind.sign?])
    rw [same]
    exact ⟨_, Cut.empty.between _ _ cut, plain.negated⟩

/-- A negated run is a sum as well. -/
theorem Operand.valued {c : Catalog} {ws : List Word} (regular : c.Regular) (h : Operand c ws) : Valued c .unary ws := by
  have chain := chained_unary regular ws [] h (by simp [Links.Within])
  simpa [Links.words] using chain

section Calls

/-- The name is spelled as one, and the function of that name is of the kind and takes so many arguments. -/
def Takes (kind : Kind) (admits : Arity → Bool) (name : String) : Prop :=
  TokenKind.name.Spells name.toList ∧ name.length ≤ 4 ∧
    ∃ entry, Catalog.standard.lookup? name = some entry ∧ entry.kind = kind ∧ admits entry.arity = true

theorem takes_call : ∀ name ∈ ["sin", "cos", "sqrt", "ln", "abs"], Takes .unary (·.admits 1) name := by
  intro name member
  simp only [List.mem_cons, List.not_mem_nil, or_false] at member
  rcases member with rfl | rfl | rfl | rfl | rfl <;> exact ⟨⟨_, _, rfl, rfl, List.all_eq_true.1 rfl⟩, by decide, _, rfl, rfl, rfl⟩

theorem takes_summary : ∀ name ∈ ["sum", "avg", "min", "max"],
    Takes .variadic (fun arity => decide (arity.least ≤ 1) && arity.most.isNone) name := by
  intro name member
  simp only [List.mem_cons, List.not_mem_nil, or_false] at member
  rcases member with rfl | rfl | rfl | rfl <;> exact ⟨⟨_, _, rfl, rfl, List.all_eq_true.1 rfl⟩, by decide, _, rfl, rfl, rfl⟩

theorem cut_call {name text : String} {kind : Kind} {admits : Arity → Bool} {i j n : Nat} {ws : List Word}
    (takes : Takes kind admits name) (named : kind = .unary ∨ kind = .variadic) (cut : Cut i j text ws)
    (arguments : Arguments .standard n ws) (admitted : ∀ arity, admits arity = true → arity.admits n = true) :
    ∃ vs, Cut (i + 3) (j + 6) (name ++ "(" ++ text ++ ")") vs ∧ Operand .standard vs := by
  obtain ⟨spelled, short, entry, known, rfl, fits⟩ := takes
  have word : Cut 1 4 name [.tight .name name spelled] := .word spelled short
  have whole := (word.between .opening rfl cut).between .closing rfl .empty
  have called := arguments.call spelled known named (admitted _ fits)
  refine ⟨_, ?_, .run (called.loosen (by decide))⟩
  have same : name ++ "(" ++ text ++ ")" =
      name ++ ((Word.mark .opening rfl).text ++ text) ++ ((Word.mark .closing rfl).text ++ "") := by
    rw [String.append_empty, ← String.append_assoc]
    rfl
  rw [same]
  simpa using whole.mono (by omega) (by omega)

theorem intercalate_cons (mark text : String) (texts : List String) :
    mark.intercalate (text :: texts) = text ++ .join (texts.map (mark ++ ·)) := by
  induction texts generalizing text with
  | nil => simp
  | cons next texts ih =>
    rw [String.intercalate_cons_cons, ih, List.map_cons, String.join_cons]
    simp only [String.append_assoc]

/-- Numbers with commas between them are as many arguments. -/
theorem cut_numbers {x : Float} {xs : List Float} (first : Modest x) (rest : ∀ y ∈ xs, Modest y) :
    ∃ ws, Cut (2 + 3 * xs.length) (16 + 17 * xs.length) (",".intercalate ((x :: xs).map numberText)) ws ∧
      Arguments .standard (1 + xs.length) ws := by
  have regular := Catalog.regular_standard
  have argument {ws : List Word} (operand : Operand .standard ws) : Valued .standard .sum ws :=
    (operand.valued regular).loosen (by decide)
  obtain ⟨us, cut, operand⟩ := cut_numberText first
  rw [List.map_cons, intercalate_cons, List.map_map]
  have adds : ∀ y ∈ xs, ∃ vs, Cut 2 16 (numberText y) vs ∧
      ∀ n us, Arguments .standard n us → Arguments .standard (n + 1) (us ++ .mark .comma rfl :: vs) := by
    intro y member
    obtain ⟨vs, cut, operand⟩ := cut_numberText (rest y member)
    exact ⟨vs, cut, fun n us before => before.snoc (argument operand)⟩
  exact Cut.join (fun _ => rfl) adds cut (Arguments.single regular (argument operand))

end Calls

namespace Term

theorem isOperand_number {x : Float} (modest : Modest x) : IsOperand (number x).text := by
  obtain ⟨ws, cut, operand⟩ := cut_numberText modest
  exact ⟨ws, cut.mono (by decide) (by decide), operand⟩

theorem isOperand_call {name : String} {x : Float} (takes : Takes .unary (·.admits 1) name) (modest : Modest x) :
    IsOperand (call name x).text := by
  obtain ⟨us, cut, arguments⟩ := cut_numbers modest (show ∀ y ∈ [], Modest y by simp)
  obtain ⟨ws, whole, operand⟩ := cut_call takes (.inl rfl) cut arguments fun _ => id
  exact ⟨ws, whole.mono (by decide) (by decide), operand⟩

theorem isOperand_summary {name : String} {xs : List Float}
    (takes : Takes .variadic (fun arity => decide (arity.least ≤ 1) && arity.most.isNone) name) (filled : xs ≠ [])
    (few : xs.length ≤ 4) (modest : ∀ x ∈ xs, Modest x) : IsOperand (summary name xs).text := by
  cases xs with
  | nil => exact absurd rfl filled
  | cons x xs =>
    rw [List.length_cons] at few
    obtain ⟨us, cut, arguments⟩ := cut_numbers (modest x List.mem_cons_self) fun y later => modest y (List.mem_cons_of_mem x later)
    obtain ⟨ws, whole, operand⟩ := cut_call takes (.inr rfl) cut arguments fun arity fits => by
      simp only [Bool.and_eq_true, decide_eq_true_eq, Option.isNone_iff_eq_none] at fits
      simp only [Arity.admits, fits.2, Option.all_none, Bool.and_true, decide_eq_true_eq]
      omega
    exact ⟨ws, whole.mono (by omega) (by omega), operand⟩

/-- The first eight numbers have factorials. -/
theorem isOperand_factorial {n : Nat} (small : n < 8) : IsOperand (factorial n).text := by
  obtain ⟨filled, digits, short⟩ : (toString n).toList ≠ [] ∧ (toString n).toList.all Char.isDigit = true ∧
      (toString n).length ≤ 1 := by interval_cases n <;> decide
  have numeral : Numeral (toString n).toList := numeral_digits filled (List.all_eq_true.1 digits)
  have all : ∀ n < 8, (read? (toString n)).map Number.lacksFactorial = some false := by decide +kernel
  obtain ⟨value, read, has⟩ := Option.map_eq_some_iff.1 (all n small)
  rw [← String.ofList_toList (s := toString n)] at read
  have cut : Cut 1 1 (toString n) [numeral.word] := by
    have word : Cut 1 1 (String.ofList (toString n).toList) [numeral.word] :=
      .word numeral.spells (by rwa [String.ofList_toList])
    rwa [String.ofList_toList] at word
  have whole := cut.between .bang rfl .empty
  rw [String.append_empty] at whole
  exact ⟨_, whole.mono (by decide) (by decide), .run (.factorial Catalog.regular_standard numeral read has)⟩

end Term

open Sampler

theorem Term.ensures_summaryItems :
    summaryItems.Ensures fun xs => (xs ≠ [] ∧ xs.length ≤ 4) ∧ ∀ x ∈ xs, Modest x := by
  refine (Ensures.whole 1 5).bind fun count range => ?_
  refine ((Ensures.uniform (-10.0) 10.0).replicate count).bind fun items drawn => ?_
  obtain ⟨length, bounds⟩ := drawn
  refine ⟨⟨?_, ?_⟩, fun x member => ?_⟩
  · intro none
    have length' := congrArg List.length none
    rw [List.length_map, List.length_nil] at length'
    omega
  · rw [List.length_map]
    omega
  · obtain ⟨item, inside, rfl⟩ := List.mem_map.1 member
    exact modest_roundScaled (bounds item inside).1 (bounds item inside).2

/-- Whatever is drawn, a term is an operand. -/
theorem Term.ensures_sampler : Term.sampler.Ensures fun t => IsOperand t.text := by
  refine (Ensures.whole 0 4).bind fun kind _ => (Ensures.uniform 0.0 20.0).bind fun x range => ?_
  have modest := modest_roundPlaces range.1 range.2
  dsimp only
  split
  · exact isOperand_number modest
  · exact (Ensures.choice _ _).bind fun name member => isOperand_call (takes_call name member) modest
  · refine ensures_summaryItems.bind fun items drawn => (Ensures.choice _ _).bind fun name member => ?_
    exact isOperand_summary (takes_summary name member) drawn.1.1 drawn.1.2 drawn.2
  · exact (Ensures.whole 0 8).bind fun n range => isOperand_factorial range.2

end Reckoner
