import Mathlib.Data.List.Forall2
import Reckoner.Proofs.Expression.Numbers
import Reckoner.Proofs.Grammar.Contents

/-!
# The arguments of a call

The commas that stand in no group of a text divide it into arguments in one way. A phrase of
arguments has an item for each of them, and the item is the tree of that argument
alone. In parentheses an argument has the same tree.
-/

namespace Reckoner.Grammar

open Expression

/-- The tokens are the arguments, a comma between each two of them. -/
inductive Separated : List (List Token) → List Token → Prop where
  | none : Separated [] []
  | one {a} (argument : IsArgument a) : Separated [a] a
  | snoc {args ts t a} (before : Separated args ts) (filled : args ≠ []) (comma : t.kind = .comma)
      (argument : IsArgument a) : Separated (args ++ [a]) (ts ++ t :: a)

variable {c : Catalog} {extended : Bool} {next : Option TokenKind} {l : Level} {ts us vs ws : List Token} {t u o q : Token}
  {e : Expression} {args : List (List Token)}

theorem Separated.balanced (h : Separated args ts) : Balanced ts := by
  induction h with
  | none => exact .nil
  | one argument => exact argument.balanced
  | snoc _ _ comma argument ih => exact ih.append (argument.balanced.cons (rise_comma comma))

/-- There are no tokens exactly if there is no argument. -/
theorem Separated.eq_nil_iff (h : Separated args ts) : args = [] ↔ ts = [] := by
  cases h with
  | none => simp
  | one argument => simp [argument.filled]
  | snoc => simp

theorem Phrase.isArgument (h : Phrase c extended next l ts e) (sum : .sum ≤ l) : IsArgument ts where
  filled := h.ne_nil
  balanced := h.balanced
  enclosed := h.enclosed sum

/-- In an argument no comma stands behind a balanced beginning. -/
theorem IsArgument.no_comma (h : IsArgument ts) (same : ts = us ++ t :: vs) (comma : t.kind = .comma) : ¬ Balanced us := by
  intro balanced
  have positive := h.enclosed us t vs same comma
  have level := balanced.level
  omega

/-- Of two balanced texts behind commas of one text the longer one has the other's comma outside of its groups. -/
theorem eq_nil_of_comma (argument : IsArgument us) (balanced : Balanced vs) (comma : u.kind = .comma)
    (same : t :: us = ws ++ u :: vs) : ws = [] := by
  rcases List.cons_eq_append_iff.1 same with ⟨rfl, -⟩ | ⟨ws', rfl, rest⟩
  · rfl
  · have positive := argument.enclosed ws' u vs rest comma
    have level := argument.balanced.level
    rw [rest, height_append, height_cons, rise_comma comma, balanced.level] at level
    omega

/-- There is one last comma that stands in no group. -/
theorem last_comma {us' vs' : List Token} {t' : Token} (same : us ++ t :: vs = us' ++ t' :: vs')
    (argument : IsArgument vs) (argument' : IsArgument vs') (comma : t.kind = .comma) (comma' : t'.kind = .comma) :
    us = us' ∧ vs = vs' := by
  rcases List.append_eq_append_iff.1 same with ⟨ws, rfl, rest⟩ | ⟨ws, rfl, rest⟩
  · obtain rfl := eq_nil_of_comma argument argument'.balanced comma' rest
    simpa using (List.cons_eq_cons.1 rest).2
  · obtain rfl := eq_nil_of_comma argument' argument.balanced comma rest
    simpa using (List.cons_eq_cons.1 rest).2.symm

theorem Level.eq_arguments (other : ¬ .sum ≤ l) : l = .arguments := by
  revert other
  cases l <;> decide

/-- A phrase of arguments is an expression, or has a comma that stands in no group. -/
theorem Phrase.sum_or_argument (phrase : Phrase c extended next .arguments ts e) :
    Phrase c extended next .sum ts e ∨ ∃ us t vs a b, ts = us ++ t :: vs ∧ t.kind = .comma ∧
      Phrase c extended (some .comma) .arguments us a ∧ Phrase c extended next .sum vs b ∧
      e = .arguments (a.asArguments ++ [b]) := by
  obtain ⟨l, level, h⟩ : ∃ l, l = .arguments ∧ Phrase c extended next l ts e := ⟨_, rfl, phrase⟩
  clear phrase
  induction h with
  | @loosen next k l ts e phrase le ih =>
    by_cases sum : .sum ≤ l
    · exact .inl (phrase.loosen sum)
    · exact ih (Level.eq_arguments sum)
  | argument before comma last => exact .inr ⟨_, _, _, _, _, rfl, comma, before, last, rfl⟩
  | @binary _ p => cases p <;> cases level
  | _ => cases level

/-- A phrase of arguments has an item for each of them, with the tree of that argument alone. -/
theorem Separated.trees (regular : c.Regular) (h : Separated args ts) (filled : args ≠ [])
    (phrase : Phrase c true next .arguments ts e) :
    List.Forall₂ (fun a tree => ∀ upcoming, (lastKind a = some .name → upcoming ≠ some .opening) →
      Phrase c true upcoming .sum a tree) args e.asArguments := by
  induction h generalizing next e with
  | none => exact absurd rfl filled
  | @one a argument =>
    rcases phrase.sum_or_argument with sum | ⟨us, t, vs, _, _, rfl, comma, before, -⟩
    · rw [asArguments_of_not_list ((sum.denotes regular).1 le_rfl).root]
      exact .cons (fun upcoming fits => sum.follow fits) .nil
    · exact absurd before.balanced (argument.no_comma rfl comma)
  | @snoc args us t a before filled' comma argument ih =>
    rcases phrase.sum_or_argument with sum | ⟨us', t', vs, x, y, same, comma', first, last, rfl⟩
    · exact absurd before.balanced ((sum.isArgument le_rfl).no_comma rfl comma)
    · obtain ⟨rfl, rfl⟩ := last_comma same argument (last.isArgument le_rfl) comma comma'
      exact List.rel_append (ih filled' first) (.cons (fun upcoming fits => last.follow fits) .nil)

end Reckoner.Grammar
