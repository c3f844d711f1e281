import Reckoner.Proofs.Evaluation.Arity
import Reckoner.Proofs.Grammar.Follow
import Reckoner.Proofs.Token.Writing

/-!
# Chains of operands

Operands may be joined with any operators in any order: a sign is always followed by an operand, and so the
precedences alone say how the phrases nest. A chain whose signs make phrases of the level `l` or of tighter ones is itself a
phrase of level `l`. If no operand fails by itself, neither does the chain, since a binary operator never does.
-/

namespace Reckoner

open Grammar Expression

/-- No error arises at the node itself. -/
def Expression.Unfailing (n : Expression) : Prop :=
  ∀ cause : EvalError, ¬ cause.RaisedBy n

/-- A tree of such nodes has a value. -/
theorem Expression.Evaluable.value_of_unfailing {e : Expression} (h : e.Evaluable)
    (unfailing : ∀ n ∈ e.nodes, n.Unfailing) (draws : Draws) : ∃ value, e.evaluate draws = .ok value := by
  cases result : e.evaluate draws with
  | ok value => exact ⟨value, rfl⟩
  | error cause =>
    obtain ⟨node, member, raised⟩ := h.raised result
    exact (unfailing node member cause raised).elim

section Nodes

variable {n : Expression} {entry : Entry} {left right : Option Expression}

/-- Only a reference to an operation fails by itself. -/
theorem unfailing_of_no_entry (other : n.entry? = none) : n.Unfailing := by
  intro cause raised
  cases raised <;> cases other

theorem unfailing_binary (kind : entry.kind = .binary) : Unfailing ⟨.reference entry, left, right⟩ := by
  intro cause raised
  cases raised with
  | factorial suffix => rw [kind] at suffix; cases suffix
  | call called => rw [kind] at called; rcases called with called | called <;> cases called
  | constant nullary => rw [kind] at nullary; cases nullary

theorem unfailing_call (kind : entry.kind = .unary ∨ entry.kind = .variadic)
    (admitted : entry.arity.admits (argumentTotal right) = true) : Unfailing ⟨.reference entry, left, right⟩ := by
  intro cause raised
  cases raised with
  | factorial suffix => rw [suffix] at kind; rcases kind with kind | kind <;> cases kind
  | call called refused => rw [admitted] at refused; cases refused
  | constant nullary => rw [nullary] at kind; rcases kind with kind | kind <;> cases kind

/-- A number that has a factorial is written in front of the sign. -/
theorem unfailing_factorial {value : Float} (kind : entry.kind = .suffix) (has : Number.lacksFactorial value = false) :
    Unfailing ⟨.reference entry, some (literal value), right⟩ := by
  intro cause raised
  cases raised with
  | factorial suffix evaluated lacks =>
    cases evaluated
    rw [has] at lacks
    cases lacks
  | call called => rw [kind] at called; rcases called with called | called <;> cases called
  | constant nullary => rw [kind] at nullary; cases nullary

end Nodes

/-- The one character of a sign begins its token. -/
theorem TokenKind.spells_mark {kind : TokenKind} (sign : kind.sign?.isSome = true) :
    kind.Spells (String.singleton (kind.sign?.get sign)).toList := by
  refine ⟨kind.sign?.get sign, [], String.toList_singleton _, ?_, by simp⟩
  cases kind with
  | number | name => cases sign
  | _ => simp [TokenKind.starts]

namespace Word

/-- A word with no gap behind it. -/
def tight (kind : TokenKind) (text : String) (spelled : kind.Spells text.toList) : Word :=
  ⟨kind, text, [], spelled, by simp⟩

/-- A token of one character as a word. -/
def mark (kind : TokenKind) (sign : kind.sign?.isSome = true) : Word :=
  tight kind (String.singleton (kind.sign?.get sign)) (TokenKind.spells_mark sign)

/-- An operator as a word. -/
def sign (o : Operator) : Word :=
  mark (.operator o) (by cases o <;> rfl)

theorem tokens_append (position : Nat) (us vs : List Word) :
    tokens position (us ++ vs) = tokens position us ++ tokens (position + (us.flatMap written).length) vs := by
  induction us generalizing position with
  | nil => rfl
  | cons u us ih =>
    rw [List.cons_append, tokens, ih, tokens, List.flatMap_cons, List.length_append, List.cons_append, Nat.add_assoc]

theorem length_tokens (position : Nat) (ws : List Word) : (tokens position ws).length = ws.length := by
  induction ws generalizing position with
  | nil => rfl
  | cons w ws ih => rw [tokens, List.length_cons, ih, List.length_cons]

end Word

/-- The words are a phrase of level `l` wherever they are written, and no node of their tree fails by itself. -/
def Valued (c : Catalog) (l : Level) (ws : List Word) : Prop :=
  ∃ e : Expression, (∀ n ∈ e.nodes, n.Unfailing) ∧ ∀ position, Phrase c true none l (Word.tokens position ws) e

/-- What may stand between two signs: a run, with any number of minus signs in front of it. -/
inductive Operand (c : Catalog) : List Word → Prop where
  | run {ws} (h : Valued c .run ws) : Operand c ws
  | negated {ws} (h : Operand c ws) : Operand c (.sign .minus :: ws)

variable {c : Catalog} {k l r : Level} {ws us vs : List Word} {o : Operator}

namespace Valued

theorem loosen (h : Valued c l ws) (le : k ≤ l) : Valued c k ws := by
  obtain ⟨e, unfailing, phrase⟩ := h
  exact ⟨e, unfailing, fun position => (phrase position).loosen le⟩

theorem binary (regular : c.Regular) (left : Valued c o.leftLevel us) (right : Valued c o.rightLevel vs) :
    Valued c o.resultLevel (us ++ .sign o :: vs) := by
  obtain ⟨entry, known, kind, -⟩ := regular.sign o
  obtain ⟨a, unfailing_a, phrase_a⟩ := left
  obtain ⟨b, unfailing_b, phrase_b⟩ := right
  refine ⟨⟨.reference entry, some a, some b⟩, forall_nodes.2 ⟨unfailing_binary kind, ?_⟩, fun position => ?_⟩
  · intro child member
    obtain rfl | rfl : child = a ∨ child = b := by simpa [children, Operation.items] using member
    · exact unfailing_a
    · exact unfailing_b
  · rw [Word.tokens_append]
    exact .binary ((phrase_a position).follow fun _ => by simp) rfl known (phrase_b _)

theorem negation (regular : c.Regular) (h : Valued c .unary ws) : Valued c .unary (.sign .minus :: ws) := by
  obtain ⟨entry, known, kind, -⟩ := regular.sign .minus
  obtain ⟨a, unfailing, phrase⟩ := h
  refine ⟨⟨.reference entry, none, some a⟩, forall_nodes.2 ⟨unfailing_binary kind, ?_⟩, fun position => ?_⟩
  · intro child member
    obtain rfl : child = a := by simpa [children, Operation.items] using member
    exact unfailing
  · exact .negation rfl known (phrase _)

end Valued

/-- Operands with a sign in front of each. -/
abbrev Links := List (Operator × List Word)

def Links.words (links : Links) : List Word :=
  links.flatMap fun (o, ws) => .sign o :: ws

/-- Operands stand behind all signs, and every sign makes a phrase of level `l` or of a tighter one. -/
def Links.Within (c : Catalog) (l : Level) (links : Links) : Prop :=
  ∀ link ∈ links, Operand c link.2 ∧ l ≤ link.1.resultLevel

/-- A chain of such signs has the level `l`. -/
def Chained (c : Catalog) (l : Level) : Prop :=
  ∀ first links, Operand c first → Links.Within c l links → Valued c l (first ++ links.words)

namespace Links

variable {links tail : Links}

theorem words_append (links tail : Links) : (links ++ tail).words = links.words ++ tail.words :=
  List.flatMap_append

theorem words_cons (o : Operator) (ws : List Word) (links : Links) :
    words ((o, ws) :: links) = .sign o :: (ws ++ links.words) :=
  List.flatMap_cons

theorem Within.cons (operand : Operand c ws) (le : l ≤ o.resultLevel) (h : Within c l tail) : Within c l ((o, ws) :: tail) := by
  intro link member
  rcases List.mem_cons.1 member with rfl | later
  · exact ⟨operand, le⟩
  · exact h link later

end Links

section Levels

theorem eq_caret (le : .unary ≤ o.resultLevel) : o = .caret := by
  revert le
  cases o <;> decide

theorem chain_le (other : o ≠ .plus) : .chain ≤ o.resultLevel := by
  revert other
  cases o <;> decide

variable (regular : c.Regular)

include regular

/-- Powers group to the right, and a minus sign in front negates the whole power. -/
theorem chained_unary : Chained c .unary := by
  intro first links operand within
  induction links generalizing first with
  | nil =>
    rw [Links.words, List.flatMap_nil, List.append_nil]
    induction operand with
    | run h => exact h.loosen (by decide)
    | negated _ ih => exact ih.negation regular
  | cons link links ih =>
    obtain ⟨o, ws⟩ := link
    obtain ⟨next, fits⟩ := within (o, ws) List.mem_cons_self
    obtain rfl := eq_caret fits
    have exponent := ih ws next fun link member => within link (List.mem_cons_of_mem _ member)
    induction operand with
    | run h => exact (h.binary (o := .caret) regular exponent).loosen (by decide)
    | negated _ ih => exact ih.negation regular

/-- Signs that group to the left: the last of them stands between a chain of the same signs and one of tighter ones. -/
theorem Chained.leftward (tighter : Chained c r) (le : l ≤ r) (groups : ∀ o : Operator, l ≤ o.resultLevel →
      r ≤ o.resultLevel ∨ o.leftLevel = l ∧ o.rightLevel = r ∧ o.resultLevel = l) :
    Chained c l := by
  -- The links behind the last sign of the level are kept apart.
  suffices split : ∀ links tail first, Operand c first → Links.Within c l links → Links.Within c r tail →
      Valued c l (first ++ (links ++ tail).words) by
    intro first links operand within
    have whole := split links [] first operand within (by simp [Links.Within])
    rwa [List.append_nil] at whole
  intro links
  induction links using List.reverseRecOn with
  | nil =>
    intro tail first operand _ behind
    exact (tighter first tail operand behind).loosen le
  | append_singleton links link ih =>
    obtain ⟨o, ws⟩ := link
    intro tail first operand within behind
    obtain ⟨next, fits⟩ := within (o, ws) (by simp)
    have before : Links.Within c l links := fun link member => within link (List.mem_append_left _ member)
    rw [List.append_assoc, List.singleton_append]
    rcases groups o fits with tight | ⟨left, right, result⟩
    · exact ih ((o, ws) :: tail) first operand before (behind.cons next tight)
    · have front := ih [] first operand before (by simp [Links.Within])
      have back := tighter ws tail next behind
      rw [List.append_nil, ← left] at front
      rw [← right] at back
      have whole := front.binary regular back
      rwa [← Links.words_cons, List.append_assoc, ← Links.words_append, result] at whole

/-- Sums group to the right: the first sign of a sum stands between a chain of tighter signs and the rest of the sum. -/
theorem chained_sum : Chained c .sum := by
  have product : Chained c .product :=
    (chained_unary regular).leftward regular (by decide) fun o => by cases o <;> decide
  have chain : Chained c .chain := product.leftward regular (by decide) fun o => by cases o <;> decide
  suffices split : ∀ links front first, Operand c first → Links.Within c .chain front → Links.Within c .sum links →
      Valued c .sum (first ++ (front ++ links).words) by
    intro first links operand within
    exact split links [] first operand (by simp [Links.Within]) within
  intro links
  induction links with
  | nil =>
    intro front first operand before _
    rw [List.append_nil]
    exact (chain first front operand before).loosen (by decide)
  | cons link links ih =>
    obtain ⟨o, ws⟩ := link
    intro front first operand before within
    obtain ⟨next, -⟩ := within (o, ws) List.mem_cons_self
    have behind : Links.Within c .sum links := fun link member => within link (List.mem_cons_of_mem _ member)
    by_cases plus : o = .plus
    · subst plus
      have left := chain first front operand before
      have right := ih [] ws next (by simp [Links.Within]) behind
      have whole := left.binary (o := .plus) regular right
      rwa [List.nil_append, ← Links.words_cons, List.append_assoc, ← Links.words_append] at whole
    · have tight : Links.Within c .chain (front ++ [(o, ws)]) := by
        intro link member
        rcases List.mem_append.1 member with member | member
        · exact before link member
        · obtain rfl := List.mem_singleton.1 member
          exact ⟨next, chain_le plus⟩
      have whole := ih (front ++ [(o, ws)]) first operand tight behind
      rwa [List.append_assoc] at whole

end Levels

end Reckoner
