import Reckoner.Proofs.Grammar.Phrase

/-!
# What may follow a phrase

Of the token behind a phrase only one thing matters: after a name it is no open
parenthesis. Any other phrase may stand before any token.
-/

namespace Reckoner

/-- The kind of the last token. -/
def lastKind (ts : List Token) : Option TokenKind :=
  ts.getLast?.map Token.kind

section

variable {t : Token} {ts us : List Token}

@[simp] theorem lastKind_append (ts us : List Token) : lastKind (ts ++ us) = (lastKind us).or (lastKind ts) := by
  rw [lastKind, List.getLast?_append]
  cases h : us.getLast? <;> simp [lastKind, h]

@[simp] theorem lastKind_cons (t : Token) (ts : List Token) : lastKind (t :: ts) = (lastKind ts).or (some t.kind) :=
  lastKind_append [t] ts

@[simp] theorem lastKind_nil : lastKind [] = none := rfl

/-- A name at the end stands in the last part, if that is not empty. -/
theorem lastKind_of_append (name : lastKind (ts ++ us) = some .name) (filled : us ≠ []) : lastKind us = some .name := by
  obtain ⟨k, last⟩ : ∃ k, lastKind us = some k := by
    simp [lastKind, List.getLast?_eq_some_getLast filled]
  rw [lastKind_append, last, Option.some_or] at name
  rw [last, name]

/-- A name at the end stands behind a token that is no name. -/
theorem lastKind_of_cons (name : lastKind (t :: ts) = some .name) (other : t.kind ≠ .name) :
    lastKind ts = some .name := by
  cases last : lastKind ts with
  | none => simp [last, other] at name
  | some k => simpa [last] using name

end

namespace Grammar

variable {c : Catalog} {extended : Bool} {next next' : Option TokenKind} {l : Level} {ts : List Token} {e : Expression}

/-- No operator begins an element. -/
theorem Phrase.element_head (h : Phrase c extended next l ts e) (element : .element ≤ l) :
    ∃ t rest, ts = t :: rest ∧ t.kind.operator? = none := by
  induction h with
  | loosen _ le ih => exact ih (element.trans le)
  | argument => exact absurd element (by decide)
  | @binary _ o => exact absurd element (by cases o <;> decide)
  | negation => exact absurd element (by decide)
  | factorial => exact absurd element (by decide)
  | juxtaposition => exact absurd element (by decide)
  | number kind => exact ⟨_, _, rfl, by rw [kind]; rfl⟩
  | constant kind => exact ⟨_, _, rfl, by rw [kind]; rfl⟩
  | group opening => exact ⟨_, _, rfl, by rw [opening]; rfl⟩
  | call name => exact ⟨_, _, rfl, by rw [name]; rfl⟩
  | emptyCall name => exact ⟨_, _, rfl, by rw [name]; rfl⟩
  | reuse => exact absurd element (by decide)
  | emptyReuse => exact absurd element (by decide)

/-- No group follows the name at the end of a phrase. -/
theorem Phrase.apart (h : Phrase c extended next l ts e) (name : lastKind ts = some .name) : next ≠ some .opening := by
  induction h with
  | loosen _ _ ih => exact ih name
  | argument _ comma _ _ ih =>
    exact ih (lastKind_of_cons (lastKind_of_append name (List.cons_ne_nil _ _)) (by simp [comma]))
  | binary _ sign _ _ _ ih =>
    exact ih (lastKind_of_cons (lastKind_of_append name (List.cons_ne_nil _ _)) (by simp [sign]))
  | negation sign _ _ ih => exact ih (lastKind_of_cons name (by simp [sign]))
  | factorial _ sign => simp [sign] at name
  | juxtaposition _ right _ _ ih =>
    obtain ⟨t, rest, rfl, -⟩ := right.element_head le_rfl
    exact ih (lastKind_of_append name (List.cons_ne_nil t rest))
  | number kind => simp [kind] at name
  | constant _ _ _ apart => exact apart
  | group _ _ closing => simp [closing] at name
  | call _ _ _ _ closing => simp [closing] at name
  | emptyCall _ _ _ closing => simp [closing] at name
  | reuse _ _ _ _ _ _ closing => simp [closing] at name
  | emptyReuse _ _ _ _ closing => simp [closing] at name

/-- A phrase may stand before any other token, a group behind a name apart. -/
theorem Phrase.follow (h : Phrase c extended next l ts e) (fits : lastKind ts = some .name → next' ≠ some .opening) :
    Phrase c extended next' l ts e := by
  induction h with
  | loosen _ le ih => exact (ih fits).loosen le
  | argument before comma _ _ ih => exact before.argument comma (ih fun name => fits (by simp [name]))
  | binary left sign known _ _ ih => exact left.binary sign known (ih fun name => fits (by simp [name]))
  | negation sign known _ ih => exact .negation sign known (ih fun name => fits (by simp [name]))
  | factorial operand sign known => exact .factorial operand sign known
  | juxtaposition left _ known _ ih => exact left.juxtaposition (ih fun name => fits (by simp [name])) known
  | number kind read => exact .number kind read
  | constant kind known nullary => exact .constant kind known nullary (fits (by simp [kind]))
  | group opening content closing => exact .group opening content closing
  | call name known opening content closing => exact .call name known opening content closing
  | emptyCall name known opening closing => exact .emptyCall name known opening closing
  | reuse allowed callee nullary opening content several closing =>
    exact .reuse allowed callee nullary opening content several closing
  | emptyReuse allowed callee nullary opening closing => exact .emptyReuse allowed callee nullary opening closing

end Grammar

end Reckoner
