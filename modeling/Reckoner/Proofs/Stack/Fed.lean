import Reckoner.Proofs.Stack.Complete

/-!
# What a token does

A token that is read is put down as an operand, waits on the stack for what follows it, or opens
or closes a group. `Fed` lists these steps, each with the operation on the stack that it consists of.
-/

namespace Reckoner.Assembly

open Expression Grammar

/-- How an assembly is changed by a token that it takes. -/
inductive Fed (c : Catalog) (a : Assembly) (t : Token) (next : Option TokenKind) : Assembly → Prop where
  | number {value stack} (kind : t.kind = .number) (read : Decimal.read? t.text = some value)
      (placed : place c next (.operand (.literal value)) a.stack = .ok stack) : Fed c a t next ⟨stack, a.groups⟩
  | callee {entry} (kind : t.kind = .name) (known : c.lookup? t.text = some entry) (follows : next = some .opening) :
      Fed c a t next ⟨.operand (.reference entry) :: a.stack, a.groups⟩
  | constant {entry stack} (kind : t.kind = .name) (known : c.lookup? t.text = some entry) (nullary : entry.kind = .nullary)
      (placed : place c next (.operand (.reference entry)) a.stack = .ok stack) : Fed c a t next ⟨stack, a.groups⟩
  | operator {o entry node below} (kind : t.kind = .operator o) (known : c.operator? o.symbol = some entry)
      (made : operatorNode entry t a.stack = .ok (node, below)) : Fed c a t next ⟨.operand node :: below, a.groups⟩
  | bang {entry node below stack} (kind : t.kind = .bang) (known : c.operator? "!" = some entry)
      (made : operatorNode entry t a.stack = .ok (node, below))
      (placed : place c next (.operand node) below = .ok stack) : Fed c a t next ⟨stack, a.groups⟩
  | opening {o} (kind : t.kind = .opening) (made : o = ⟨t.position, callAwaited a.stack, a.stack.length, false⟩) :
      Fed c a t next ⟨.opening o :: a.stack, o :: a.groups⟩
  | comma {argument below} (kind : t.kind = .comma) (call : (a.groups.head?.map Opening.opensCall).getD false = true)
      (linked : link a.stack = .ok (argument, below)) :
      Fed c a t next ⟨.comma t.position :: .operand argument :: below, a.groups⟩
  | emptyGroup {o below groups stack} (kind : t.kind = .closing) (innermost : a.groups = o :: groups)
      (top : a.stack = .opening o :: below) (placed : placeGroup c next o none below = .ok stack) :
      Fed c a t next ⟨stack, groups⟩
  | group {o content below groups stack} (kind : t.kind = .closing) (innermost : a.groups = o :: groups)
      (closed : closeScope a.stack = .ok (content, below))
      (placed : placeGroup c next o (some content) below = .ok stack) : Fed c a t next ⟨stack, groups⟩

variable {c : Catalog} {next : Option TokenKind} {a b : Assembly} {t : Token} {S below : List Piece} {node : Expression}

theorem onStack_eq_ok {result : StackResult (List Piece)} (done : a.onStack result = .ok b) :
    ∃ stack, result = .ok stack ∧ b = ⟨stack, a.groups⟩ := by
  cases result with
  | error failure => cases done
  | ok stack =>
    cases done
    exact ⟨stack, rfl, rfl⟩

/-- The node of a sign, that of an operator and that of a factorial sign alike. -/
theorem operatorNode_of_sign {symbol : String}
    (made : ((c.operator symbol).bind fun entry => operatorNode entry t S) = .ok (node, below)) :
    ∃ entry, c.operator? symbol = some entry ∧ operatorNode entry t S = .ok (node, below) := by
  unfold Catalog.operator at made
  cases known : c.operator? symbol with
  | none =>
    rw [known] at made
    cases made
  | some entry =>
    rw [known] at made
    exact ⟨entry, rfl, made⟩

theorem fed_of_feedName (kind : t.kind = .name) (fed : a.feedName c t next = .ok b) : Fed c a t next b := by
  unfold feedName at fed
  split at fed
  · cases fed
  · next entry known =>
    split at fed
    · next follows =>
      cases fed
      exact .callee kind known (eq_of_beq follows)
    · split at fed
      · next nullary =>
        obtain ⟨stack, placed, rfl⟩ := onStack_eq_ok fed
        exact .constant kind known (eq_of_beq nullary) placed
      · cases fed

theorem fed_of_feedComma (kind : t.kind = .comma) (fed : a.feedComma t = .ok b) : Fed c a t next b := by
  unfold feedComma at fed
  split at fed
  · next call =>
    split at fed
    · cases fed
    · cases fed
    · obtain ⟨stack, done, rfl⟩ := onStack_eq_ok fed
      cases linked : link a.stack with
      | error failure =>
        rw [linked] at done
        cases done
      | ok pair =>
        rw [linked] at done
        cases done
        exact .comma kind call linked
  · cases fed

theorem fed_of_feedClosing (kind : t.kind = .closing) (fed : a.feedClosing c t next = .ok b) : Fed c a t next b := by
  unfold feedClosing at fed
  split at fed
  · cases fed
  · next o groups innermost =>
    split at fed
    · next top below stack =>
      split at fed
      · next matched =>
        obtain rfl : top = o := eq_of_beq matched
        obtain ⟨stack', placed, rfl⟩ := onStack_eq_ok fed
        exact .emptyGroup kind innermost stack placed
      · cases fed
    · cases fed
    · obtain ⟨stack, done, rfl⟩ := onStack_eq_ok fed
      cases closed : closeScope a.stack with
      | error failure =>
        rw [closed] at done
        cases done
      | ok pair =>
        rw [closed] at done
        exact .group kind innermost closed done

/-- A token that is read takes one of these steps. -/
theorem fed_of_feed (fed : a.feed c t next = .ok b) : Fed c a t next b := by
  cases kind : t.kind with
  | number =>
    rw [feed_number kind, feedNumber] at fed
    split at fed
    · next value read =>
      obtain ⟨stack, placed, rfl⟩ := onStack_eq_ok fed
      exact .number kind read placed
    · cases fed
  | name =>
    rw [feed_name kind] at fed
    exact fed_of_feedName kind fed
  | operator o =>
    rw [feed_operator kind, feedOperator] at fed
    split at fed
    · next node below made =>
      cases fed
      obtain ⟨entry, known, made⟩ := operatorNode_of_sign made
      exact .operator kind known made
    · cases fed
  | bang =>
    rw [feed_bang kind, feedBang] at fed
    split at fed
    · next node below made =>
      obtain ⟨entry, known, made⟩ := operatorNode_of_sign made
      obtain ⟨stack, placed, rfl⟩ := onStack_eq_ok fed
      exact .bang kind known made placed
    · cases fed
  | opening =>
    rw [feed_opening kind] at fed
    cases fed
    exact .opening kind rfl
  | closing =>
    rw [feed_closing kind] at fed
    exact fed_of_feedClosing kind fed
  | comma =>
    rw [feed_comma kind] at fed
    exact fed_of_feedComma kind fed

/-- A closing parenthesis ends the innermost group, an open one begins another, and no other token touches
the open groups. -/
theorem groups_of_feed (fed : a.feed c t next = .ok b) (other : t.kind ≠ .opening) :
    b.groups = if t.kind = .closing then a.groups.tail else a.groups := by
  cases fed_of_feed fed with
  | opening kind => exact absurd kind other
  | emptyGroup kind innermost => rw [if_pos kind, innermost, List.tail_cons]
  | group kind innermost => rw [if_pos kind, innermost, List.tail_cons]
  | number kind => rw [if_neg (by simp [kind])]
  | callee kind => rw [if_neg (by simp [kind])]
  | constant kind => rw [if_neg (by simp [kind])]
  | operator kind => rw [if_neg (by simp [kind])]
  | bang kind => rw [if_neg (by simp [kind])]
  | comma kind => rw [if_neg (by simp [kind])]

end Reckoner.Assembly
