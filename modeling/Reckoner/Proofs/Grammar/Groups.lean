import Reckoner.Proofs.Grammar.Follow
import Reckoner.Proofs.Grammar.Lone

/-!
# Open groups of a text

What a reader of a text knows without a stack: whether an operand has to begin behind it, and
which of its groups are still open. A group is known by what stands before its parenthesis.
-/

namespace Reckoner

/-- Behind such a token an operand has to begin. -/
def TokenKind.asksOperand : TokenKind → Bool
  | .operator _ | .opening | .comma => true
  | _ => false

namespace Grammar

/-- An operand has to begin behind the tokens. -/
def AsksOperand (ts : List Token) : Prop :=
  (lastKind ts).all TokenKind.asksOperand = true

instance (ts : List Token) : Decidable (AsksOperand ts) :=
  inferInstanceAs (Decidable (_ = true))

/-- The open groups behind `before` and `ts`, if those behind `before` are `opened`. -/
def groupsFrom (before : List Token) (opened : List (List Token)) : List Token → List (List Token)
  | [] => opened
  | t :: rest =>
    groupsFrom (before ++ [t])
      (match t.kind with
        | .opening => before :: opened
        | .closing => opened.tail
        | _ => opened) rest

/-- What stands before the parenthesis of each open group, the innermost group first. -/
def openGroups (ts : List Token) : List (List Token) :=
  groupsFrom [] [] ts

/-- The token separates arguments, or leaves a pair of parentheses empty. -/
def NeedsCall (before : List Token) (t : Token) : Prop :=
  t.kind = .comma ∨ t.kind = .closing ∧ lastKind before = some .opening

/-- At the end of the tokens stands an operand that is nothing but a constant and ends with a parenthesis:
the constant is in parentheses, or has been called without arguments. -/
def EndsWithConstant (c : Catalog) (ts : List Token) : Prop :=
  ∃ vs us entry, ts = vs ++ us ∧ AsksOperand vs ∧ Lone c us entry ∧ lastKind us = some .closing

/-- A group behind the tokens is a call. -/
def EndsWithCallee (c : Catalog) (ts : List Token) : Prop :=
  lastKind ts = some .name ∨ EndsWithConstant c ts

variable {c : Catalog} {extended : Bool} {next : Option TokenKind} {l : Level} {before ts us : List Token}
  {opened : List (List Token)} {e : Expression} {entry : Entry} {t : Token}

theorem groupsFrom_append :
    groupsFrom before opened (ts ++ us) = groupsFrom (before ++ ts) (groupsFrom before opened ts) us := by
  induction ts generalizing before opened with
  | nil => rw [List.nil_append, List.append_nil, groupsFrom]
  | cons t rest ih => rw [List.cons_append, groupsFrom, groupsFrom, ih, List.append_assoc, List.singleton_append]

theorem openGroups_opening (ts : List Token) (opening : t.kind = .opening) :
    openGroups (ts ++ [t]) = ts :: openGroups ts := by
  rw [openGroups, groupsFrom_append]
  simp only [groupsFrom, opening, List.nil_append, openGroups]

theorem openGroups_other (ts : List Token) (other : t.kind ≠ .opening) :
    openGroups (ts ++ [t]) = if t.kind = .closing then (openGroups ts).tail else openGroups ts := by
  rw [openGroups, groupsFrom_append]
  cases kind : t.kind with
  | opening => exact absurd kind other
  | _ => simp [groupsFrom, kind, openGroups]

theorem asksOperand_append (filled : us ≠ []) : AsksOperand (ts ++ us) ↔ AsksOperand us := by
  obtain ⟨k, last⟩ : ∃ k, lastKind us = some k := by
    simp [lastKind, List.getLast?_eq_some_getLast filled]
  rw [AsksOperand, AsksOperand, lastKind_append, last, Option.some_or]

/-- No operand has to begin behind a phrase. -/
theorem Phrase.lastKind_eq (h : Phrase c extended next l ts e) :
    ∃ kind, lastKind ts = some kind ∧ kind.asksOperand = false := by
  induction h with
  | loosen _ _ ih => exact ih
  | argument _ _ _ _ ih =>
    obtain ⟨kind, last, closed⟩ := ih
    exact ⟨kind, by simp [last], closed⟩
  | binary _ _ _ _ _ ih =>
    obtain ⟨kind, last, closed⟩ := ih
    exact ⟨kind, by simp [last], closed⟩
  | negation _ _ _ ih =>
    obtain ⟨kind, last, closed⟩ := ih
    exact ⟨kind, by simp [last], closed⟩
  | juxtaposition _ _ _ _ ih =>
    obtain ⟨kind, last, closed⟩ := ih
    exact ⟨kind, by simp [last], closed⟩
  | factorial _ sign => exact ⟨.bang, by simp [sign], rfl⟩
  | number kind => exact ⟨.number, by simp [kind], rfl⟩
  | constant kind => exact ⟨.name, by simp [kind], rfl⟩
  | group _ _ closing => exact ⟨.closing, by simp [closing], rfl⟩
  | call _ _ _ _ closing => exact ⟨.closing, by simp [closing], rfl⟩
  | emptyCall _ _ _ closing => exact ⟨.closing, by simp [closing], rfl⟩
  | reuse _ _ _ _ _ _ closing => exact ⟨.closing, by simp [closing], rfl⟩
  | emptyReuse _ _ _ _ closing => exact ⟨.closing, by simp [closing], rfl⟩

theorem Phrase.ne_nil (h : Phrase c extended next l ts e) : ts ≠ [] := by
  obtain ⟨kind, last, -⟩ := h.lastKind_eq
  rintro rfl
  cases last

theorem Phrase.not_asksOperand (h : Phrase c extended next l ts e) : ¬ AsksOperand ts := by
  obtain ⟨kind, last, closed⟩ := h.lastKind_eq
  simp [AsksOperand, last, closed]

/-- A lone constant ends with its name or with a parenthesis. -/
theorem Lone.lastKind_eq (h : Lone c ts entry) : lastKind ts = some .name ∨ lastKind ts = some .closing := by
  cases h with
  | name kind => exact .inl (by simp [kind])
  | call _ _ closing => exact .inr (by simp [closing])
  | group _ _ closing => exact .inr (by simp [closing])

/-- A lone constant that does not end with its name is a run before any token. -/
theorem Lone.run (h : Lone c ts entry) (closed : lastKind ts = some .closing) (next : Option TokenKind) :
    Phrase c true next .run ts (.reference entry) := by
  obtain ⟨-, ⟨n, rfl, kind, -⟩ | phrase⟩ := h.phrase
  · simp [kind] at closed
  · exact phrase next

end Grammar

end Reckoner
