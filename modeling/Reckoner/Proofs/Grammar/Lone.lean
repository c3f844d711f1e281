import Reckoner.Proofs.Grammar.Trees

/-!
# Lone constants

A tree that is nothing but a constant comes from a constant alone in its
parentheses. A group right behind such tokens is taken for the arguments of the
constant, also where it does not follow the name.
-/

namespace Reckoner.Grammar

open Expression

/-- The tokens are one constant, in parentheses or called without arguments any number of
times. -/
inductive Lone (c : Catalog) : List Token → Entry → Prop where
  | name {n entry} (kind : n.kind = .name) (known : c.lookup? n.text = some entry) (nullary : entry.kind = .nullary) :
      Lone c [n] entry
  | call {ts entry o q} (callee : Lone c ts entry) (opening : o.kind = .opening) (closing : q.kind = .closing) :
      Lone c (ts ++ [o, q]) entry
  | group {ts entry o q} (opening : o.kind = .opening) (content : Lone c ts entry) (closing : q.kind = .closing) :
      Lone c (o :: (ts ++ [q])) entry

variable {c : Catalog} {next : Option TokenKind} {l : Level} {ts : List Token} {e : Expression} {entry : Entry}

/-- The tokens of a lone constant are a name, or they stand for it before any token. -/
theorem Lone.phrase (h : Lone c ts entry) : entry.kind = .nullary ∧
    ((∃ n, ts = [n] ∧ n.kind = .name ∧ c.lookup? n.text = some entry) ∨
      ∀ next, Phrase c true next .run ts (.reference entry)) := by
  induction h with
  | name kind known nullary => exact ⟨nullary, .inl ⟨_, rfl, kind, known⟩⟩
  | call callee opening closing ih =>
    obtain ⟨nullary, ⟨n, rfl, kind, known⟩ | phrase⟩ := ih
    · refine ⟨nullary, .inr fun next => ?_⟩
      have call : Phrase c true next .element _ (emptyCall _) := .emptyCall kind known opening closing
      rw [emptyCall, if_pos nullary] at call
      exact call.loosen (by decide)
    · exact ⟨nullary, .inr fun next => .emptyReuse rfl (phrase _) nullary opening closing⟩
  | @group ts entry o q opening content closing ih =>
    obtain ⟨nullary, inside⟩ := ih
    have phrase : Phrase c true (some .closing) .run ts (.reference entry) := by
      rcases inside with ⟨n, rfl, kind, known⟩ | phrase
      · exact .loosen (.constant kind known nullary (by decide)) (by decide)
      · exact phrase _
    exact ⟨nullary, .inr fun next => .loosen (.group opening (phrase.loosen (by decide)) closing) (by decide)⟩

/-- Nothing but a lone constant stands for a bare constant. -/
theorem Phrase.lone {extended : Bool} (h : Phrase c extended next l ts e) (sum : .sum ≤ l)
    (bare : e = .reference entry) (nullary : entry.kind = .nullary) : Lone c ts entry := by
  induction h with
  | loosen _ le ih => exact ih (sum.trans le) bare
  | argument => exact absurd sum (by decide)
  | binary => cases bare
  | negation => cases bare
  | factorial => cases bare
  | juxtaposition =>
    unfold beside at bare
    split at bare
    · cases bare
    · cases congrArg Expression.right bare
  | number => cases bare
  | constant kind known =>
    cases bare
    exact .name kind known nullary
  | group opening _ closing ih => exact .group opening (ih le_rfl bare) closing
  | call => cases bare
  | emptyCall name known opening closing =>
    unfold Expression.emptyCall at bare
    split at bare
    · cases bare
      exact Lone.call (.name name known nullary) opening closing
    · cases bare
  | reuse => cases bare
  | emptyReuse _ _ _ opening closing ih => exact .call (ih (by decide) bare) opening closing

/-- No number stands in such tokens. -/
theorem Lone.no_number (h : Lone c ts entry) : ∀ t ∈ ts, t.kind ≠ .number := by
  induction h with
  | name kind => simp [kind]
  | call _ opening closing ih => simp_all [or_imp]
  | group opening _ closing ih => simp_all [or_imp]

end Reckoner.Grammar
