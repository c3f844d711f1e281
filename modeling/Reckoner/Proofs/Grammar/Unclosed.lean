import Reckoner.Proofs.Grammar.Brackets
import Reckoner.Proofs.Grammar.Groups

/-!
# Parentheses without a match

Two parentheses match if the text between them is balanced. What leaves a parenthesis before
it without a match never falls below its height, and what leaves one behind it without a
match never rises above it. The open groups of a text are its open parentheses without a
match, from the last one to the first.
-/

namespace Reckoner

theorem TokenKind.rise_le_zero {kind : TokenKind} (other : kind ≠ .opening) : kind.rise ≤ 0 := by
  cases kind <;> simp_all [TokenKind.rise]

theorem TokenKind.rise_eq_zero {kind : TokenKind} (opening : kind ≠ .opening) (closing : kind ≠ .closing) :
    kind.rise = 0 := by
  cases kind <;> simp_all [TokenKind.rise]

namespace Grammar

/-- An open parenthesis before the tokens has no match among them. -/
def Unclosed (inside : List Token) : Prop :=
  ∀ first q last, inside = first ++ q :: last → q.kind = .closing → ¬ Balanced first

/-- A closing parenthesis behind the tokens has no match among them. -/
def Unopened (ahead : List Token) : Prop :=
  ∀ first o last, ahead = first ++ o :: last → o.kind = .opening → ¬ Balanced last

/-- The tokens leave these groups open: each is known by what stands before its parenthesis, and
what has been read of the innermost one is balanced. -/
inductive LeavesOpen : List Token → List (List Token) → Prop where
  | none {ts} (h : Unopened ts) : LeavesOpen ts []
  | group {ahead o inside groups} (outer : LeavesOpen ahead groups) (opening : o.kind = .opening)
      (balanced : Balanced inside) : LeavesOpen (ahead ++ o :: inside) (ahead :: groups)

variable {ts us ahead inside : List Token} {groups : List (List Token)} {t o : Token}

theorem unclosed_iff : Unclosed inside ↔ ∀ first last, inside = first ++ last → 0 ≤ height first := by
  constructor
  · rintro h first last rfl
    by_contra low
    obtain ⟨before, q, after, rfl, closing, balanced⟩ := exists_closing (Int.not_le.1 low)
    exact h before q (after ++ last) (by simp) closing balanced
  · intro above first q last same closing balanced
    have here := above (first ++ [q]) last (by simp [same])
    rw [height_append, balanced.level, height_cons, rise_closing closing, height_nil] at here
    omega

theorem unopened_iff : Unopened ahead ↔ ∀ first last, ahead = first ++ last → height last ≤ 0 := by
  constructor
  · rintro h first last rfl
    by_contra high
    obtain ⟨before, o, after, rfl, opening, balanced⟩ := exists_opening (Int.not_le.1 high)
    exact h (first ++ before) o after (by simp) opening balanced
  · intro below first o last same opening balanced
    have here := below first (o :: last) same
    rw [height_cons, balanced.level, rise_opening opening] at here
    omega

theorem Balanced.unclosed (h : Balanced ts) : Unclosed ts :=
  unclosed_iff.2 h.above

theorem Balanced.unopened (h : Balanced ts) : Unopened ts :=
  unopened_iff.2 h.below

namespace Unclosed

theorem height_nonneg (h : Unclosed ts) : 0 ≤ height ts :=
  unclosed_iff.1 h ts [] (by simp)

theorem of_append (h : Unclosed (ts ++ us)) : Unclosed ts :=
  unclosed_iff.2 fun first last same => unclosed_iff.1 h first (last ++ us) (by simp [same])

theorem append (left : Unclosed ts) (right : Unclosed us) : Unclosed (ts ++ us) := by
  refine unclosed_iff.2 fun first last same => ?_
  rcases List.append_eq_append_iff.1 same with ⟨more, rfl, behind⟩ | ⟨more, rfl, -⟩
  · have low := left.height_nonneg
    have above := unclosed_iff.1 right more last behind
    rw [height_append]
    omega
  · exact unclosed_iff.1 left first more rfl

theorem cons (opening : o.kind = .opening) (h : Unclosed ts) : Unclosed (o :: ts) := by
  refine unclosed_iff.2 fun first last same => ?_
  rcases List.cons_eq_append_iff.1 same with ⟨rfl, -⟩ | ⟨first, rfl, behind⟩
  · simp
  · have above := unclosed_iff.1 h first last behind
    rw [height_cons, rise_opening opening]
    omega

/-- An open parenthesis in a balanced text has a match. -/
theorem not_balanced (h : Unclosed inside) (opening : o.kind = .opening) : ¬ Balanced (ahead ++ o :: inside) := by
  intro balanced
  have below := balanced.below ahead (o :: inside) rfl
  have level := h.height_nonneg
  rw [height_cons, rise_opening opening] at below
  omega

end Unclosed

namespace Unopened

theorem snoc (h : Unopened ts) (other : t.kind ≠ .opening) : Unopened (ts ++ [t]) := by
  refine unopened_iff.2 fun first last same => ?_
  rcases List.eq_nil_or_concat last with rfl | ⟨last, t', rfl⟩
  · simp
  · rw [List.concat_eq_append, ← List.append_assoc] at same
    obtain ⟨rfl, here⟩ := List.append_inj' same rfl
    cases here
    have below := unopened_iff.1 h first last rfl
    have fall := TokenKind.rise_le_zero other
    simp only [List.concat_eq_append, height_append, height_cons, height_nil]
    omega

theorem append (left : Unopened ts) (right : Balanced us) : Unopened (ts ++ us) := by
  refine unopened_iff.2 fun first last same => ?_
  rcases List.append_eq_append_iff.1 same with ⟨more, rfl, rfl⟩ | ⟨more, rfl, rfl⟩
  · exact right.below more last rfl
  · have below := unopened_iff.1 left first more rfl
    rw [height_append, right.level]
    omega

end Unopened

namespace LeavesOpen

theorem append (h : LeavesOpen ts groups) (balanced : Balanced us) : LeavesOpen (ts ++ us) groups := by
  cases h with
  | none h => exact .none (h.append balanced)
  | group outer opening inside =>
    rw [List.append_assoc]
    exact .group outer opening (inside.append balanced)

/-- The innermost group is closed, if there is one. -/
theorem close (h : LeavesOpen ts groups) (closing : t.kind = .closing) : LeavesOpen (ts ++ [t]) groups.tail := by
  cases h with
  | none h => exact .none (h.snoc (by simp [closing]))
  | group outer opening inside =>
    rw [List.append_assoc]
    exact outer.append (inside.group opening closing)

theorem mem_iff (h : LeavesOpen ts groups) :
    ahead ∈ groups ↔ ∃ o inside, ts = ahead ++ o :: inside ∧ o.kind = .opening ∧ Unclosed inside := by
  induction h generalizing ahead with
  | none unopened =>
    refine iff_of_false (by simp) ?_
    rintro ⟨o, inside, same, opening, unclosed⟩
    have below := unopened_iff.1 unopened ahead (o :: inside) same
    have level := unclosed.height_nonneg
    rw [height_cons, rise_opening opening] at below
    omega
  | @group inner o' inside' groups outer opening' balanced ih =>
    rw [List.mem_cons]
    constructor
    · rintro (rfl | member)
      · exact ⟨o', inside', rfl, opening', balanced.unclosed⟩
      · obtain ⟨o, inside, rfl, opening, unclosed⟩ := ih.1 member
        exact ⟨o, inside ++ o' :: inside', by simp, opening, unclosed.append (balanced.unclosed.cons opening')⟩
    · rintro ⟨o, inside, same, opening, unclosed⟩
      -- The parenthesis stands before the innermost one, or is that, or stands in a balanced text.
      rcases List.append_eq_append_iff.1 same with ⟨more, rfl, behind⟩ | ⟨more, rfl, behind⟩
      · rcases List.cons_eq_append_iff.1 behind with ⟨rfl, -⟩ | ⟨more, rfl, rfl⟩
        · exact .inl (by simp)
        · exact absurd balanced (unclosed.not_balanced opening)
      · rcases List.cons_eq_append_iff.1 behind with ⟨rfl, -⟩ | ⟨more, rfl, rfl⟩
        · exact .inl (by simp)
        · exact .inr (ih.2 ⟨o, more, rfl, opening, unclosed.of_append⟩)

/-- Inner groups begin later. -/
theorem pairwise (h : LeavesOpen ts groups) : groups.Pairwise fun inner outer => outer.length < inner.length := by
  induction h with
  | none => exact .nil
  | group outer _ _ ih =>
    refine .cons (fun ahead member => ?_) ih
    obtain ⟨o, inside, rfl, -, -⟩ := outer.mem_iff.1 member
    simp

end LeavesOpen

theorem leavesOpen_openGroups (ts : List Token) : LeavesOpen ts (openGroups ts) := by
  induction ts using List.reverseRecOn with
  | nil => exact .none Balanced.nil.unopened
  | append_singleton ts t ih =>
    by_cases opening : t.kind = .opening
    · rw [openGroups_opening ts opening]
      exact .group ih opening .nil
    · rw [openGroups_other ts opening]
      by_cases closing : t.kind = .closing
      · rw [if_pos closing]
        exact ih.close closing
      · rw [if_neg closing]
        exact ih.append (.flat (TokenKind.rise_eq_zero opening closing))

/-- The open groups of a text are its open parentheses without a match. -/
theorem mem_openGroups_iff :
    ahead ∈ openGroups ts ↔ ∃ o inside, ts = ahead ++ o :: inside ∧ o.kind = .opening ∧ Unclosed inside :=
  (leavesOpen_openGroups ts).mem_iff

/-- They are listed from the last one to the first. -/
theorem openGroups_pairwise (ts : List Token) :
    (openGroups ts).Pairwise fun inner outer => outer.length < inner.length :=
  (leavesOpen_openGroups ts).pairwise

/-- In `)((1)` the second parenthesis alone is open. -/
example : openGroups [⟨.closing, ")", 0⟩, ⟨.opening, "(", 1⟩, ⟨.opening, "(", 2⟩, ⟨.number, "1", 3⟩, ⟨.closing, ")", 4⟩] =
    [[⟨.closing, ")", 0⟩]] := by
  decide

end Grammar

end Reckoner
