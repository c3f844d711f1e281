import Reckoner.Proofs.Evaluation.Alike
import Reckoner.Proofs.Evaluation.Evaluable
import Reckoner.Proofs.Evaluation.Levels
import Reckoner.Proofs.Expression.Products

/-!
# The value of a written product

A number, a constant, a random number and a factorial each multiply by a factor on their
right in a rule of their own, and a constant checks its arguments before. None of that can
be told from a product sign: the tree with all its products written out has the same value,
or fails with the same error.
-/

namespace Reckoner

open Expression Grammar

variable {c : Catalog} {star entry : Entry} {a a' b b' e : Expression} {left right : Option Expression}

/-- The product sign of a catalog. -/
structure Entry.IsProduct (star : Entry) : Prop where
  kind : star.kind = .binary
  rule : star.rule = .multiply

theorem Catalog.Regular.isProduct (regular : c.Regular) (known : c.operator? "*" = some star) : star.IsProduct := by
  obtain ⟨kind, rule, -⟩ := regular.of_sign (o := .star) known
  exact ⟨kind, rule⟩

theorem whole_product (product : star.IsProduct) :
    whole none ⟨.reference star, some a, some b⟩ = do return (← whole none a) * (← whole none b) := by
  rw [whole_eq]
  simp [evaluateNode, Entry.checkArguments, product.kind, product.rule, lift_ok, Rule.evaluate, operandValue]

/-- A factor on the right of a node may stand in a product with it. -/
theorem Alike.product (product : star.IsProduct) (shaped : a.WellShaped)
    (multiplies : ∀ entry, a.operation = .reference entry → entry.TakesFactor) (free : a.right = none)
    (left : Alike a a') (right : Alike b b') : Alike (a.withRight b) ⟨.reference star, some a', some b'⟩ where
  single := left.single
  single' := rfl
  value := by
    rw [whole_product product, ← left.value, ← right.value]
    exact whole_withRight shaped left.single multiplies free right.single

namespace Expression

/-- A reference that keeps its operation is alike if its operands are. -/
theorem alike_of_no_factor (other : hasFactor ⟨.reference entry, left, right⟩ = false)
    (hl : Option.Rel AlikeContent left (left.map (withProducts star)))
    (hr : Option.Rel AlikeContent right (right.map (withProducts star))) :
    Alike ⟨.reference entry, left, right⟩ (withProducts star ⟨.reference entry, left, right⟩) := by
  rw [withProducts_of_no_factor rfl other]
  exact .reference entry hl hr

/-- A node that multiplies by its right operand, if there is one. -/
theorem alike_of_multipliesRight {operation : Operation Expression} (product : star.IsProduct)
    (multiplies : multipliesRight ⟨operation, left, none⟩ = true) (shaped : WellShaped ⟨operation, left, none⟩)
    (takes : ∀ entry, operation = .reference entry → entry.TakesFactor)
    (alone : Alike ⟨operation, left, none⟩ ⟨operation, left.map (withProducts star), none⟩)
    (factor : ∀ r ∈ right, Alike r (r.withProducts star)) :
    Alike ⟨operation, left, right⟩ (withProducts star ⟨operation, left, right⟩) := by
  cases right with
  | none =>
    rw [withProducts_of_no_factor alone.single (hasFactor_of_right rfl)]
    exact alone
  | some r =>
    have times : hasFactor ⟨operation, left, some r⟩ = true := by
      have single := (factor r rfl).single
      simp only [multipliesRight] at multiplies
      simp [hasFactor, multipliesRight, multiplies, single]
    rw [withProducts_of_factor times]
    exact .product product shaped takes rfl alone (factor r rfl)

theorem wellShaped_of_free {operation : Operation Expression} (operands : HasOperands ⟨operation, left, none⟩)
    (single : ∀ l ∈ left, l.isList = false) : WellShaped ⟨operation, left, none⟩ where
  operands := operands
  left := single
  right := by simp

/-- A tree that can be evaluated has the value of the tree with its products written out. -/
theorem Evaluable.alike_withProducts (product : star.IsProduct) (h : e.Evaluable) : Alike e (e.withProducts star) := by
  induction h with
  | literal _ factor =>
    exact alike_of_multipliesRight product rfl (wellShaped_of_free rfl (by simp)) (by simp) ⟨rfl, rfl, rfl⟩ factor
  | @binary entry a b _ kind _ _ _ left right =>
    exact alike_of_no_factor (hasFactor_of_binary kind) (.some (.single left)) (.some (.single right))
  | @negation entry a kind _ _ operand =>
    exact alike_of_no_factor (hasFactor_of_binary kind) .none (.some (.single operand))
  | @factorial entry a right kind rule _ _ operand factor =>
    have multiplies : multipliesRight ⟨.reference entry, some a, none⟩ = true := by simp [multipliesRight, kind]
    have shaped : WellShaped ⟨.reference entry, some a, none⟩ := by
      refine wellShaped_of_free (by simp [HasOperands, kind]) ?_
      rintro _ ⟨⟩
      exact operand.single
    refine alike_of_multipliesRight product multiplies shaped ?_ ?_ factor
    · rintro _ ⟨⟩
      exact ⟨fun _ => rule, fun nullary => by simp [kind] at nullary⟩
    · exact .reference entry (.some (.single operand)) .none
  | @constant entry right kind callable _ factor =>
    have multiplies : multipliesRight ⟨.reference entry, none, none⟩ = true := by simp [multipliesRight, kind]
    have shaped : WellShaped ⟨.reference entry, none, none⟩ :=
      wellShaped_of_free (by simp [HasOperands, kind]) (by simp)
    refine alike_of_multipliesRight product multiplies shaped ?_ ⟨rfl, rfl, rfl⟩ factor
    rintro _ ⟨⟩
    exact callable.takesFactor
  | @refusal entry list kind several =>
    rw [withProducts_of_no_factor rfl (by simp [hasFactor, several])]
    refine ⟨rfl, rfl, ?_⟩
    rw [whole_eq, whole_eq none ⟨_, _, _⟩]
    simp only [evaluateNode, Entry.checkArguments, kind, Option.map_some, isList_withProducts,
      argumentCount_withProducts, several, if_true]
    rfl
  | @call entry a kind _ _ argument =>
    refine alike_of_no_factor ?_ .none (.some (.single argument))
    rcases kind with kind | kind <;> simp [hasFactor, multipliesRight, kind]
  | @callList entry items kind _ _ _ each =>
    refine alike_of_no_factor ?_ .none ?_
    · rcases kind with kind | kind <;> simp [hasFactor, multipliesRight, kind]
    · rw [Option.map_some, withProducts_arguments]
      exact .some (.list (List.forall₂_map_right_iff.2 (List.forall₂_same.2 each)))

end Expression

/-- With the standard operations and any constants there is a product sign, and every text that is read
has a well-formed tree of genuine operations. Write the products in such a tree with the sign:
no operand on the right is a factor then, and the tree has the same value or fails with the same error
on whatever is drawn. It has at most twice as many levels, and so it does on every machine that goes
down as far; on the others the same comes of both trees unless one of them is too deep. -/
theorem evaluate_withProducts (constants : List (String × Float)) :
    ∃ star, (Catalog.standard.withConstants constants).operator? "*" = some star ∧
      (∀ settings source root, parse Catalog.standard constants settings source = .ok root →
        root.WellFormed ∧ root.Genuine) ∧
      ∀ e : Expression, e.WellFormed → e.Genuine →
        (∀ n ∈ (e.withProducts star).nodes, n.hasFactor = false) ∧
        (∀ draws, (e.withProducts star).evaluate draws = e.evaluate draws) ∧
        (e.withProducts star).depth ≤ 2 * e.depth ∧
        ∀ draws, (e.withProducts star).ComesTo draws (e.evaluate draws) ∧ e.ComesTo draws (e.evaluate draws) := by
  have regular := Catalog.regular_withConstants constants
  obtain ⟨star, known, -⟩ := regular.sign .star
  refine ⟨star, known, ?_, ?_⟩
  · intro settings source root parsed
    obtain ⟨_, tokens, -, -, -, -, -, built, -⟩ := parse_eq_ok_iff.1 parsed
    have phrase := (expression_eq_ok_iff regular).1 built
    exact ⟨(phrase.denotes regular).1 le_rfl, phrase.genuine regular⟩
  · intro e wf genuine
    have product := regular.isProduct known
    have alike := (wf.evaluable genuine).alike_withProducts product
    have same (draws : Draws) : (e.withProducts star).evaluate draws = e.evaluate draws := by
      rw [Expression.evaluate_eq, Expression.evaluate_eq, alike.value]
    refine ⟨hasFactor_withProducts product.kind e, same, depth_withProducts e, fun draws => ?_⟩
    refine ⟨?_, e.comesTo_evaluate draws⟩
    rw [← same]
    exact comesTo_evaluate _ draws

/-- With its products written out, `2 pi! 3` is `(2*pi)!*3` and has the same value. -/
theorem evaluate_withProducts_factorial :
    ∃ root written, parse Catalog.standard [] {} (some "2 pi! 3") = .ok root ∧
      parse Catalog.standard [] {} (some "(2*pi)!*3") = .ok written ∧
      (∀ n ∈ written.nodes, n.hasFactor = false) ∧
      ∀ levels, 6 ≤ levels → ∀ draws, written.value levels none draws = root.value levels none draws := by
  let tokens : List Token :=
    [⟨.number, "2", 0⟩, ⟨.name, "pi", 2⟩, ⟨.bang, "!", 4⟩, ⟨.number, "3", 6⟩]
  let signed : List Token :=
    [⟨.opening, "(", 0⟩, ⟨.number, "2", 1⟩, ⟨.operator .star, "*", 2⟩, ⟨.name, "pi", 3⟩, ⟨.closing, ")", 5⟩,
      ⟨.bang, "!", 6⟩, ⟨.operator .star, "*", 7⟩, ⟨.number, "3", 8⟩]
  have tokenized : tokenize "2 pi! 3" = .ok tokens := by decide +kernel
  have tokenized' : tokenize "(2*pi)!*3" = .ok signed := by decide +kernel
  obtain ⟨star, known, trees, same⟩ := evaluate_withProducts []
  obtain ⟨root, built, built', shallow, shallow', enough⟩ : ∃ root,
      (Catalog.standard.withConstants []).expression tokens = .ok root ∧
        (Catalog.standard.withConstants []).expression signed = .ok (root.withProducts star) ∧
        root.measuredDepth ≤ 100 ∧ (root.withProducts star).measuredDepth ≤ 100 ∧ root.depth ≤ 3 := by
    cases known
    exact ⟨_, rfl, rfl, by decide +kernel, by decide +kernel, by decide⟩
  have parsed : parse Catalog.standard [] {} (some "2 pi! 3") = .ok root :=
    parse_eq_ok_iff.2 ⟨_, tokens, rfl, by decide, by decide, tokenized, by simp [tokens], built, shallow⟩
  have parsed' : parse Catalog.standard [] {} (some "(2*pi)!*3") = .ok (root.withProducts star) :=
    parse_eq_ok_iff.2 ⟨_, signed, rfl, by decide, by decide, tokenized', by simp [signed], built', shallow'⟩
  obtain ⟨wf, genuine⟩ := trees _ _ _ parsed
  obtain ⟨none, -, twice, comes⟩ := same root wf genuine
  refine ⟨root, _, parsed, parsed', none, fun levels far draws => ?_⟩
  obtain ⟨written, read⟩ := comes draws
  rw [written.enough levels (by omega), read.enough levels (by omega)]

end Reckoner
