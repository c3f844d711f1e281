import Reckoner.Proofs.Expression.InOrder
import Reckoner.Proofs.Grammar.Brackets
import Reckoner.Proofs.Grammar.Marks

/-!
# The contents of groups

A group anywhere in a phrase holds arguments, or nothing if it is a call. All that its phrase
takes from it is the tree of what it holds: other tokens for the same tree may stand there.
A name right before it refers to an operation that is called with that tree, and the node of
the call stands in the tree of the phrase where the name stands in the text.
-/

namespace Reckoner

open Expression

/-- A call with what the group behind its name holds. -/
def Expression.called (entry : Entry) : Option Expression → Expression
  | none => emptyCall entry
  | some content => (reference entry).withRight content

theorem Expression.isList_called (entry : Entry) (content : Option Expression) : (called entry content).isList = false := by
  cases content with
  | some e => rfl
  | none =>
    simp only [called, emptyCall]
    split <;> rfl

theorem Expression.operation_called (entry : Entry) (content : Option Expression) :
    (called entry content).operation = .reference entry := by
  cases content with
  | some e => rfl
  | none =>
    simp only [called, emptyCall]
    split <;> rfl

theorem Expression.left_called (entry : Entry) (content : Option Expression) : (called entry content).left = none := by
  cases content with
  | some e => rfl
  | none =>
    simp only [called, emptyCall]
    split <;> rfl

namespace Grammar

/-- The tokens in a group, and their tree. -/
inductive Fills (c : Catalog) : List Token → Option Expression → Prop where
  | empty : Fills c [] none
  | arguments {ts e} (phrase : Phrase c true (some .closing) .arguments ts e) : Fills c ts (some e)

/-- If the tokens before a group end with a name, it is that of an operation. The call of the operation with
`content`, unless it is a constant that stays as it is, is the node of `e` in the place of the name. -/
def CalledAt (c : Catalog) (before : List Token) (content : Option Expression) (e : Expression) : Prop :=
  ∀ vs n, before = vs ++ [n] → n.kind = .name → ∃ entry, c.lookup? n.text = some entry ∧
    ((called entry content).right ≠ none → StandsBehind vs (called entry content) e)

/-- A group behind the tokens `before` of a phrase, and what it holds. -/
structure GroupAt (c : Catalog) (next : Option TokenKind) (l : Level) (before : List Token) (o : Token)
    (inner : List Token) (q : Token) (after : List Token) (e : Expression) (content : Option Expression) : Prop where
  fills : Fills c inner content
  refill (inner' : List Token) (fills : Fills c inner' content) : Phrase c true next l (before ++ o :: (inner' ++ q :: after)) e
  called : CalledAt c before content e

variable {c : Catalog} {next : Option TokenKind} {l : Level} {before after inner ts us : List Token} {o q t : Token}
  {a b e : Expression} {content : Option Expression}

/-- A call in a part of the tree is one of the tree, behind the tokens `ts` of another part. -/
theorem CalledAt.behind (h : CalledAt c before content a) (apart : before = [] → lastKind ts ≠ some .name)
    (step : ∀ vs node, node.right ≠ none → StandsBehind vs node a → StandsBehind (ts ++ vs) node e) :
    CalledAt c (ts ++ before) content e := by
  intro vs n same name
  rcases List.eq_nil_or_concat before with rfl | ⟨before', n', rfl⟩
  · rw [List.append_nil] at same
    exact absurd (by simp [same, name]) (apart rfl)
  · rw [List.concat_eq_append, ← List.append_assoc] at same
    obtain ⟨rfl, last⟩ := List.append_inj' same rfl
    obtain rfl := List.singleton_inj.1 last
    obtain ⟨entry, known, stands⟩ := h before' n' (by simp) name
    exact ⟨entry, known, fun called => step before' _ called (stands called)⟩

theorem CalledAt.within (h : CalledAt c before content a)
    (step : ∀ vs node, node.right ≠ none → StandsBehind vs node a → StandsBehind vs node e) :
    CalledAt c before content e := by
  have behind : CalledAt c ([] ++ before) content e := h.behind (by simp) step
  exact behind

/-- No name stands before the group. -/
theorem CalledAt.none (other : lastKind before ≠ some .name) : CalledAt c before content e := by
  intro vs n same name
  exact absurd (by simp [same, name]) other

/-- What stands before a group, and is no call of it, ends with no name. -/
theorem Phrase.lastKind_ne_name (h : Phrase c true (some .opening) l ts e) : lastKind ts ≠ some .name := by
  intro name
  exact absurd rfl (h.apart name)

/-- A phrase shows what its tokens show, product signs left out. -/
theorem Phrase.written_eq (regular : c.Regular) (h : Phrase c true next l ts e) : shownBy e.inOrder = written ts := by
  rw [shownBy_inOrder]
  exact (h.shown regular []).filter_eq

namespace GroupAt

variable {k : Option TokenKind} {m : Level}

/-- A group in a part of a phrase, between the tokens `ts` and `us` of other parts. -/
theorem between (h : GroupAt c k m before o inner q after a content)
    (rebuild : ∀ vs, vs.head? = (before ++ [o]).head? → Phrase c true k m vs a → Phrase c true next l (ts ++ (vs ++ us)) e)
    (apart : before = [] → lastKind ts ≠ some .name)
    (step : ∀ vs node, node.right ≠ none → StandsBehind vs node a → StandsBehind (ts ++ vs) node e) :
    GroupAt c next l (ts ++ before) o inner q (after ++ us) e content where
  fills := h.fills
  refill inner' fills := by
    have head : (before ++ o :: (inner' ++ q :: after)).head? = (before ++ [o]).head? := by
      cases before <;> rfl
    simpa using rebuild _ head (h.refill inner' fills)
  called := h.called.behind apart step

/-- A group in the first part. -/
theorem first (h : GroupAt c k m before o inner q after a content)
    (rebuild : ∀ vs, Phrase c true k m vs a → Phrase c true next l (vs ++ us) e)
    (step : ∀ vs node, node.right ≠ none → StandsBehind vs node a → StandsBehind vs node e) :
    GroupAt c next l before o inner q (after ++ us) e content := by
  have group : GroupAt c next l ([] ++ before) o inner q (after ++ us) e content :=
    h.between (fun vs _ phrase => rebuild vs phrase) (by simp) step
  exact group

/-- A group in the last part. -/
theorem last (h : GroupAt c k m before o inner q after a content)
    (rebuild : ∀ vs, vs.head? = (before ++ [o]).head? → Phrase c true k m vs a → Phrase c true next l (ts ++ vs) e)
    (apart : before = [] → lastKind ts ≠ some .name)
    (step : ∀ vs node, node.right ≠ none → StandsBehind vs node a → StandsBehind (ts ++ vs) node e) :
    GroupAt c next l (ts ++ before) o inner q after e content := by
  have group : GroupAt c next l (ts ++ before) o inner q (after ++ []) e content :=
    h.between (fun vs head phrase => by simpa using rebuild vs head phrase) apart step
  rwa [List.append_nil] at group

end GroupAt

/-- The name of a call. -/
theorem CalledAt.name {n : Token} {entry : Entry} (name : n.kind = .name) (known : c.lookup? n.text = some entry)
    (content : Option Expression) : CalledAt c [n] content (called entry content) := by
  intro vs n' same _
  obtain ⟨rfl, rfl⟩ : vs = [] ∧ n' = n := by simpa [List.singleton_eq_append_iff] using same
  exact ⟨entry, known, fun _ => .root (isList_called entry content) (left_called entry content)⟩

/-- Every group among the tokens `ts` of a phrase has its place in it. -/
def GroupsAt (c : Catalog) (next : Option TokenKind) (l : Level) (ts : List Token) (e : Expression) : Prop :=
  ∀ ⦃before o inner q after⦄, o.kind = .opening → q.kind = .closing → Balanced inner →
    ts = before ++ o :: (inner ++ q :: after) → ∃ content, GroupAt c next l before o inner q after e content

namespace GroupsAt

variable {entry star : Entry} {n : Token} {p : Operator}

theorem loosen {k : Level} (h : GroupsAt c next l ts e) (le : k ≤ l) : GroupsAt c next k ts e := by
  intro before o inner q after opening closing inside same
  obtain ⟨content, group⟩ := h opening closing inside same
  exact ⟨content, group.fills, fun inner' fills => (group.refill inner' fills).loosen le, group.called⟩

/-- In a single token there is none. -/
theorem single (t : Token) : GroupsAt c next l [t] e := by
  intro before o inner q after _ _ _ same
  simp [List.singleton_eq_append_iff] at same

theorem argument (regular : c.Regular) (first : Phrase c true (some .comma) .arguments ts a) (comma : t.kind = .comma)
    (last : Phrase c true next .sum us b) (in_first : GroupsAt c (some .comma) .arguments ts a)
    (in_last : GroupsAt c next .sum us b) : GroupsAt c next .arguments (ts ++ t :: us) (.arguments (a.asArguments ++ [b])) := by
  intro before o inner q after opening closing inside same
  have inOrder := inOrder_snoc (first.denotes regular).2 b
  rcases group_of_middle first.balanced inside opening (by simp [comma]) same with ⟨rest, rfl, rfl⟩ | ⟨vs, rfl, rfl⟩
  · obtain ⟨content, group⟩ := in_first opening closing inside rfl
    exact ⟨content, group.first (fun vs phrase => phrase.argument comma last) fun vs node _ h => h.first inOrder⟩
  · obtain ⟨content, group⟩ := in_last opening closing inside rfl
    have shown : shownBy a.inOrder = written (ts ++ [t]) := by
      rw [first.written_eq regular, written_snoc (mark_comma comma)]
    have split : (arguments (a.asArguments ++ [b])).inOrder = a.inOrder ++ (b.inOrder ++ []) := by
      rw [inOrder, List.append_nil]
    refine ⟨content, group.last (fun vs _ phrase => ?_) (by simp [comma]) fun vs node _ h => h.within split shown⟩
    simpa using first.argument comma phrase

theorem binary (regular : c.Regular) (left : Phrase c true (some (.operator p)) p.leftLevel ts a)
    (sign : t.kind = .operator p) (known : c.operator? p.symbol = some entry) (right : Phrase c true next p.rightLevel us b)
    (in_left : GroupsAt c (some (.operator p)) p.leftLevel ts a) (in_right : GroupsAt c next p.rightLevel us b) :
    GroupsAt c next p.resultLevel (ts ++ t :: us) ⟨.reference entry, some a, some b⟩ := by
  intro before o inner q after opening closing inside same
  rcases group_of_middle left.balanced inside opening (by simp [sign]) same with ⟨rest, rfl, rfl⟩ | ⟨vs, rfl, rfl⟩
  · obtain ⟨content, group⟩ := in_left opening closing inside rfl
    exact ⟨content, group.first (fun vs phrase => phrase.binary sign known right) fun vs node _ h =>
      h.first inOrder_reference⟩
  · obtain ⟨content, group⟩ := in_right opening closing inside rfl
    have marked : t.mark? = some entry.mark := by
      rw [mark_operator sign, mark_of_sign regular known]
    refine ⟨content, group.last (fun vs _ phrase => ?_) (by simp [sign]) fun vs node _ h =>
      h.operand marked (left.written_eq regular)⟩
    simpa using left.binary sign known phrase

/-- In front of a prefix there is nothing. -/
theorem shown_none : shownBy (inOrderOption none) = written [] := rfl

theorem negation (regular : c.Regular) (sign : t.kind = .operator .minus) (known : c.operator? "-" = some entry)
    (in_operand : GroupsAt c next .unary ts a) : GroupsAt c next .unary (t :: ts) ⟨.reference entry, none, some a⟩ := by
  intro before o inner q after opening closing inside same
  rcases group_of_middle .nil inside opening (by simp [sign]) same with ⟨rest, none, -⟩ | ⟨vs, rfl, rfl⟩
  · simp at none
  · obtain ⟨content, group⟩ := in_operand opening closing inside rfl
    have marked : t.mark? = some entry.mark := by
      rw [mark_operator sign, mark_of_sign (p := .minus) regular known]
    exact ⟨content, group.last (fun vs _ phrase => .negation sign known phrase) (by simp [sign]) fun vs node _ h =>
      h.operand marked shown_none⟩

theorem factorial (operand : Phrase c true (some .bang) .run ts a) (sign : t.kind = .bang)
    (known : c.operator? "!" = some entry) (in_operand : GroupsAt c (some .bang) .run ts a) :
    GroupsAt c next .run (ts ++ [t]) ⟨.reference entry, some a, none⟩ := by
  intro before o inner q after opening closing inside same
  rcases group_of_middle operand.balanced inside opening (by simp [sign]) same with ⟨rest, rfl, rfl⟩ | ⟨vs, -, none⟩
  · obtain ⟨content, group⟩ := in_operand opening closing inside rfl
    exact ⟨content, group.first (fun vs phrase => phrase.factorial sign known) fun vs node _ h =>
      h.first inOrder_reference⟩
  · simp at none

theorem juxtaposition (regular : c.Regular) (left : Phrase c true (us.head?.map Token.kind) .run ts a)
    (right : Phrase c true next .element us b) (known : c.operator? "*" = some star)
    (in_left : GroupsAt c (us.head?.map Token.kind) .run ts a) (in_right : GroupsAt c next .element us b) :
    GroupsAt c next .run (ts ++ us) (a.beside star b) := by
  intro before o inner q after opening closing inside same
  have sign : star.mark = .sign "*" := mark_of_sign (p := .star) regular known
  have run := left.not_isList regular (by decide)
  rcases group_of_append left.balanced inside opening same with ⟨rest, rfl, rfl⟩ | ⟨vs, rfl, rfl⟩
  · obtain ⟨content, group⟩ := in_left opening closing inside rfl
    exact ⟨content, group.first (fun vs phrase => phrase.juxtaposition right known) fun vs node called h =>
      h.beside_left called run star b⟩
  · obtain ⟨content, group⟩ := in_right opening closing inside rfl
    refine ⟨content, group.last (fun us head phrase => ?_) ?_ fun vs node _ h =>
      h.beside_right sign run (left.written_eq regular)⟩
    · -- The head of the right part is the same, and so the left part is followed by the same kind.
      have upcoming : (vs ++ o :: (inner ++ q :: after)).head? = us.head? := by
        rw [head]
        cases vs <;> rfl
      rw [upcoming] at left
      exact left.juxtaposition phrase known
    · rintro rfl name
      exact absurd (by simp [opening]) (left.apart name)

/-- The group is the whole phrase or one inside of it. -/
theorem group (regular : c.Regular) (opening : o.kind = .opening) (phrase : Phrase c true (some .closing) .sum ts e)
    (closing : q.kind = .closing) (in_content : GroupsAt c (some .closing) .sum ts e) :
    GroupsAt c next .element (o :: (ts ++ [q])) e := by
  intro before o' inner q' after opening' closing' inside same
  rcases group_of_group phrase.balanced inside opening' closing' same with
    ⟨rfl, rfl, rfl, rfl, rfl⟩ | ⟨first, rest, rfl, rfl, rfl⟩
  · refine ⟨some e, .arguments (phrase.loosen (by decide)), fun us fills => ?_, .none (by simp)⟩
    cases fills with
    | arguments phrase' =>
      have sum := phrase'.sum_or_list.resolve_right (by simp [phrase.not_isList regular le_rfl])
      exact .group opening sum closing
  · obtain ⟨content, group⟩ := in_content opening' closing' inside rfl
    have whole : GroupAt c next .element ([o] ++ first) o' inner q' (rest ++ [q]) e content :=
      group.between (fun vs _ phrase => .group opening phrase closing) (by simp [opening]) fun vs node _ h =>
        h.skip (mark_opening opening)
    exact ⟨content, whole⟩

/-- The group of a call, or one inside of it. -/
theorem call (name : n.kind = .name) (known : c.lookup? n.text = some entry) (opening : o.kind = .opening)
    (phrase : Phrase c true (some .closing) .arguments ts e) (closing : q.kind = .closing)
    (in_content : GroupsAt c (some .closing) .arguments ts e) :
    GroupsAt c next .element (n :: o :: (ts ++ [q])) ((reference entry).withRight e) := by
  intro before o' inner q' after opening' closing' inside same
  rcases group_of_middle .nil inside opening' (by simp [name]) same with ⟨rest, none, -⟩ | ⟨vs, rfl, behind⟩
  · simp at none
  rcases group_of_group phrase.balanced inside opening' closing' behind with
    ⟨rfl, rfl, rfl, rfl, rfl⟩ | ⟨first, rest, rfl, rfl, rfl⟩
  · refine ⟨some e, .arguments phrase, fun us fills => ?_, .name name known (some e)⟩
    cases fills with
    | arguments phrase => exact .call name known opening phrase closing
  · obtain ⟨content, group⟩ := in_content opening' closing' inside rfl
    have marked : n.mark? = some entry.mark := by
      rw [mark_name name, Catalog.mark_of_lookup? known]
    have whole : GroupAt c next .element ([n, o] ++ first) o' inner q' (rest ++ [q]) ((reference entry).withRight e)
        content := by
      refine group.between (fun vs _ phrase => .call name known opening phrase closing) (by simp [opening])
        fun vs node _ h => ?_
      exact (h.skip (mark_opening opening)).operand marked shown_none
    exact ⟨content, whole⟩

theorem emptyCall (name : n.kind = .name) (known : c.lookup? n.text = some entry) (opening : o.kind = .opening)
    (closing : q.kind = .closing) : GroupsAt c next .element [n, o, q] (.emptyCall entry) := by
  intro before o' inner q' after opening' closing' inside same
  rcases group_of_middle .nil inside opening' (by simp [name]) same with ⟨rest, none, -⟩ | ⟨vs, rfl, behind⟩
  · simp at none
  rcases group_of_group .nil inside opening' closing' behind with ⟨rfl, rfl, rfl, rfl, rfl⟩ | ⟨first, rest, -, none, -⟩
  · refine ⟨none, .empty, fun us fills => ?_, .name name known none⟩
    cases fills with
    | empty => exact .emptyCall name known opening closing
  · simp at none

/-- The second group of a constant, or one inside of it or of its callee. -/
theorem reuse (regular : c.Regular) (callee : Phrase c true (some .opening) .run ts (.reference entry))
    (nullary : entry.kind = .nullary) (opening : o.kind = .opening) (phrase : Phrase c true (some .closing) .arguments us e)
    (several : e.isList = true) (closing : q.kind = .closing)
    (in_callee : GroupsAt c (some .opening) .run ts (.reference entry))
    (in_content : GroupsAt c (some .closing) .arguments us e) :
    GroupsAt c next .run (ts ++ o :: (us ++ [q])) ((reference entry).withRight e) := by
  intro before o' inner q' after opening' closing' inside same
  rcases group_of_append callee.balanced inside opening' same with ⟨rest, rfl, rfl⟩ | ⟨vs, rfl, behind⟩
  · obtain ⟨content, group⟩ := in_callee opening' closing' inside rfl
    exact ⟨content, group.first (fun vs callee => .reuse rfl callee nullary opening phrase several closing)
      fun vs node called h => h.withRight_left called rfl rfl e⟩
  rcases group_of_group phrase.balanced inside opening' closing' behind with
    ⟨rfl, rfl, rfl, rfl, rfl⟩ | ⟨first, rest, rfl, rfl, rfl⟩
  · refine ⟨some e, .arguments phrase, fun us' fills => ?_, .none ?_⟩
    · cases fills with
      | arguments phrase => simpa using Phrase.reuse rfl callee nullary opening phrase several closing
    · simpa using callee.lastKind_ne_name
  · obtain ⟨content, group⟩ := in_content opening' closing' inside rfl
    have whole : GroupAt c next .run ((ts ++ [o]) ++ first) o' inner q' (rest ++ [q]) ((reference entry).withRight e)
        content := by
      refine group.between (fun vs _ phrase => ?_) (by simp [opening]) fun vs node _ h => ?_
      · simpa using Phrase.reuse rfl callee nullary opening phrase several closing
      · simpa using (h.skip (mark_opening opening)).withRight_right rfl rfl (callee.written_eq regular)
    exact ⟨content, by simpa using whole⟩

theorem emptyReuse (callee : Phrase c true (some .opening) .run ts (.reference entry)) (nullary : entry.kind = .nullary)
    (opening : o.kind = .opening) (closing : q.kind = .closing)
    (in_callee : GroupsAt c (some .opening) .run ts (.reference entry)) :
    GroupsAt c next .run (ts ++ [o, q]) (.reference entry) := by
  intro before o' inner q' after opening' closing' inside same
  rcases group_of_append callee.balanced inside opening' same with ⟨rest, rfl, rfl⟩ | ⟨vs, rfl, behind⟩
  · obtain ⟨content, group⟩ := in_callee opening' closing' inside rfl
    exact ⟨content, group.first (fun vs phrase => .emptyReuse rfl phrase nullary opening closing) fun vs node _ h => h⟩
  rcases group_of_group .nil inside opening' closing' behind with ⟨rfl, rfl, rfl, rfl, rfl⟩ | ⟨first, rest, -, none, -⟩
  · refine ⟨none, .empty, fun us fills => ?_, .none ?_⟩
    · cases fills with
      | empty => simpa using Phrase.emptyReuse rfl callee nullary opening closing
    · simpa using callee.lastKind_ne_name
  · simp at none

end GroupsAt

/-- All groups of a phrase have their places in it. -/
theorem Phrase.groupsAt (regular : c.Regular) (h : Phrase c true next l ts e) : GroupsAt c next l ts e := by
  induction h with
  | loosen _ le ih => exact ih.loosen le
  | argument first comma last ih_first ih_last => exact .argument regular first comma last ih_first ih_last
  | binary left sign known right ih_left ih_right => exact .binary regular left sign known right ih_left ih_right
  | negation sign known _ ih => exact .negation regular sign known ih
  | factorial operand sign known ih => exact .factorial operand sign known ih
  | juxtaposition left right known ih_left ih_right => exact .juxtaposition regular left right known ih_left ih_right
  | number => exact .single _
  | constant => exact .single _
  | group opening content closing ih => exact .group regular opening content closing ih
  | call name known opening content closing ih => exact .call name known opening content closing ih
  | emptyCall name known opening closing => exact .emptyCall name known opening closing
  | reuse _ callee nullary opening content several closing ih_callee ih =>
    exact .reuse regular callee nullary opening content several closing ih_callee ih
  | emptyReuse _ callee nullary opening closing ih => exact .emptyReuse callee nullary opening closing ih

end Grammar

end Reckoner
