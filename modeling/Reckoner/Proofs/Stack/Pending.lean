import Reckoner.Assembly.Build
import Reckoner.Proofs.Grammar.Trees

/-!
# Pending operators

A pending operator is a phrase that lacks its right operand. The rule by which one
operator takes its operand before the next compares levels of the grammar:
`Pending.bindsBefore` is the one place where the table of precedences is weighed
against the grammar, and all else about the stack follows from it.
-/

namespace Reckoner.Grammar

open Assembly Expression

/-- `Pending c k us p r`: the tokens `us` leave the operator `p` on the stack. With an
operand of level `r` on its right it makes a phrase of level `k`. -/
inductive Pending (c : Catalog) : Level → List Token → Expression → Level → Prop where
  | binary {o entry us t a} (left : Phrase c true (some (.operator o)) o.leftLevel us a)
      (sign : t.kind = .operator o) (known : c.operator? o.symbol = some entry) :
      Pending c o.resultLevel (us ++ [t]) ⟨.reference entry, some a, none⟩ o.rightLevel
  | negation {entry t} (sign : t.kind = .operator .minus) (known : c.operator? "-" = some entry) :
      Pending c .unary [t] (.reference entry) .unary

/-- Nothing or a boundary lies on top. -/
def Bounded : List Piece → Prop
  | .operand _ :: _ => False
  | _ => True

/-- The stack waits for an operand of level `r`. -/
inductive Slot (c : Catalog) : List Piece → Level → Prop where
  | bounded {S} (h : Bounded S) : Slot c S .sum
  | pending {S k us p r} (h : Pending c k us p r) : Slot c (.operand p :: S) r

variable {c : Catalog} {next : Option TokenKind} {k l r : Level} {ts us ws : List Token}
  {e p : Expression} {o : Operator} {S : List Piece} {piece : Piece}

namespace Pending

theorem complete (h : Pending c k us p r) (operand : Phrase c true next l ws e) (le : r ≤ l) :
    Phrase c true next k (us ++ ws) (p.withRight e) := by
  cases h with
  | binary left sign known =>
    rw [List.append_assoc]
    exact .binary left sign known (operand.loosen le)
  | negation sign known => exact .negation sign known (operand.loosen le)

theorem reference (regular : c.Regular) (h : Pending c k us p r) :
    ∃ entry, p.operation = .reference entry ∧ entry.kind = .binary ∧ p.right = none := by
  cases h with
  | binary _ _ known => exact ⟨_, rfl, (regular.of_sign known).1, rfl⟩
  | negation _ known => exact ⟨_, rfl, (regular.of_sign (o := .minus) known).1, rfl⟩

theorem awaitsOperand (regular : c.Regular) (h : Pending c k us p r) : p.awaitsOperand = true := by
  obtain ⟨entry, operation, kind, right⟩ := h.reference regular
  simp [Expression.awaitsOperand, isOperator, entry?, operation, kind, right]

theorem not_complete (regular : c.Regular) (h : Pending c k us p r) : p.isComplete = false := by
  obtain ⟨entry, operation, kind, right⟩ := h.reference regular
  simp [isComplete, entry?, operation, kind, right]

theorem not_awaitsCall (regular : c.Regular) (h : Pending c k us p r) : p.awaitsCall = false := by
  obtain ⟨entry, operation, kind, -⟩ := h.reference regular
  simp [awaitsCall, entry?, operation, kind]

/-- A pending operator takes its operand before another one exactly if what it makes can
stand to the left of that one. -/
theorem bindsBefore (regular : c.Regular) (h : Pending c k us p r) :
    bindsBefore? p o = some (decide (o.leftLevel ≤ k)) := by
  cases h with
  | @binary o' entry us t a _ _ known =>
    have symbol := (regular.of_sign known).2.2
    have negation : isNegation ⟨.reference entry, some a, none⟩ = false := by simp [isNegation]
    simp only [bindsBefore?, negation, symbol?, entry?, Option.bind_some, symbol,
      Operator.ofSymbol?_symbol, Option.map_some]
    cases o <;> cases o' <;> decide
  | @negation entry t _ known =>
    obtain ⟨kind, -, symbol⟩ := regular.of_sign (o := .minus) known
    have negation : isNegation (.reference entry) = true := by
      simp [isNegation, isOperator, symbol?, entry?, Expression.reference, kind, symbol, Operator.symbol]
    simp only [bindsBefore?, negation, if_true]
    cases o <;> decide

/-- If it does not, then what the other one makes fits on its right, and conversely. -/
theorem le_resultLevel_iff (h : Pending c k us p r) : r ≤ o.resultLevel ↔ ¬ o.leftLevel ≤ k := by
  cases h with
  | @binary o' => cases o <;> cases o' <;> decide
  | negation => cases o <;> decide

/-- What the operator makes is no looser than its right operand is, as far as the operators
to the right of it can tell. -/
theorem leftLevel_le (h : Pending c k us p r) (le : o.leftLevel ≤ k) : o.leftLevel ≤ r := by
  cases h with
  | @binary o' => revert le; cases o <;> cases o' <;> decide
  | negation => exact le

theorem settle (regular : c.Regular) (h : Pending c k us p r) :
    settle o (.operand e) (.operand p :: S) =
      if o.leftLevel ≤ k then Assembly.settle o (.operand (p.withRight e)) S
      else .ok (.operand e :: .operand p :: S) := by
  rw [Assembly.settle, if_pos (h.awaitsOperand regular), h.bindsBefore regular]
  by_cases le : o.leftLevel ≤ k <;> simp [le, Piece.asOperand]

theorem chain (regular : c.Regular) (h : Pending c k us p r) :
    chain e (.operand p :: S) = Assembly.chain (p.withRight e) S := by
  rw [Assembly.chain, if_pos (h.awaitsOperand regular)]

end Pending

theorem Bounded.settle (h : Bounded S) : settle o piece S = .ok (piece :: S) := by
  match S, h with
  | [], _ => rfl
  | .opening _ :: _, _ => rfl
  | .comma _ :: _, _ => rfl

theorem Bounded.chain (h : Bounded S) : chain e S = .ok (e, S) := by
  match S, h with
  | [], _ => rfl
  | .opening _ :: _, _ => rfl
  | .comma _ :: _, _ => rfl

namespace Slot

/-- Where an operand is awaited, nothing is there to join it with. -/
theorem place (regular : c.Regular) (h : Slot c S r) :
    place c next piece S = settleBefore next piece S := by
  cases h with
  | bounded h =>
    match S, h with
    | [], _ => rfl
    | .opening _ :: _, _ => rfl
    | .comma _ :: _, _ => rfl
  | pending h => simp [Assembly.place, h.not_complete regular]

theorem opensOperand (regular : c.Regular) (h : Slot c S r) : opensOperand S = true := by
  cases h with
  | bounded h =>
    match S, h with
    | [], _ => rfl
    | .opening _ :: _, _ => rfl
    | .comma _ :: _, _ => rfl
  | pending h => exact h.awaitsOperand regular

/-- An operand stays where it is if the operator that follows fits into the slot. -/
theorem settle_of_le (regular : c.Regular) (h : Slot c S r) (le : r ≤ o.resultLevel) :
    settle o (.operand e) S = .ok (.operand e :: S) := by
  cases h with
  | bounded h => exact h.settle
  | pending h => rw [h.settle regular, if_neg (h.le_resultLevel_iff.1 le)]

end Slot

end Reckoner.Grammar
