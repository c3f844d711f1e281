import Reckoner.Proofs.Grammar.Trees

/-!
# What the trees of phrases refer to

The operations at the nodes of a phrase's tree come from the catalog that it is read
with. Over a regular catalog the kind of each of them agrees with what it computes, also
where a product has been put between two operands.
-/

namespace Reckoner

open Expression

/-- The operations of a regular catalog: the five signs between operands, the factorial sign, and
what is called by name. -/
inductive Entry.Genuine (entry : Entry) : Prop where
  | sign (o : Operator) (kind : entry.kind = .binary) (rule : entry.rule = o.rule) (symbol : entry.symbol = some o.symbol)
  | bang (kind : entry.kind = .suffix) (rule : entry.rule = .factorial)
  | named (callable : entry.Callable)

namespace Expression

/-- Every reference in the tree is to an operation of that kind. -/
def Refers (P : Entry → Prop) (e : Expression) : Prop :=
  ∀ n ∈ e.nodes, ∀ entry, n.operation = .reference entry → P entry

/-- Every reference in the tree is to an operation of a regular catalog. -/
def Genuine (e : Expression) : Prop :=
  ∀ n ∈ e.nodes, ∀ entry, n.operation = .reference entry → entry.Genuine

variable {P : Entry → Prop} {e a b : Expression} {entry : Entry} {items : List Expression} {left right : Option Expression}

namespace Refers

theorem child (h : e.Refers P) (member : a ∈ e.children) : a.Refers P :=
  (forall_nodes.1 h).2 a member

theorem literal (value : Float) : (Expression.literal value).Refers P := by
  refine forall_nodes.2 ⟨?_, ?_⟩
  · intro entry operation
    cases operation
  · simp [Expression.literal, children, Operation.items]

theorem reference (here : P entry) (hl : ∀ l ∈ left, l.Refers P) (hr : ∀ r ∈ right, r.Refers P) :
    Refers P ⟨.reference entry, left, right⟩ := by
  refine forall_nodes.2 ⟨?_, fun a member => ?_⟩
  · rintro _ ⟨⟩
    exact here
  · simp only [children, Operation.items, List.append_nil, List.mem_append, Option.mem_toList] at member
    exact member.elim (hl a) (hr a)

theorem arguments (h : ∀ item ∈ items, item.Refers P) : (Expression.arguments items).Refers P := by
  refine forall_nodes.2 ⟨?_, fun a member => ?_⟩
  · intro entry operation
    cases operation
  · simp only [children, Expression.arguments, Operation.items, Option.toList_none, List.nil_append] at member
    exact h a member

theorem asArguments (h : e.Refers P) : ∀ a ∈ e.asArguments, a.Refers P := by
  intro a member
  unfold Expression.asArguments at member
  split at member
  · next items operation => exact h.child (by simp [children, operation, Operation.items, member])
  · rw [List.mem_singleton.1 member]
    exact h

theorem withRight (ha : a.Refers P) (hb : b.Refers P) : (a.withRight b).Refers P := by
  refine forall_nodes.2 ⟨fun entry operation => (forall_nodes.1 ha).1 entry operation, fun x member => ?_⟩
  simp only [children, Expression.withRight, List.mem_append, Option.mem_toList] at member
  rcases member with (member | member) | member
  · exact ha.child (by simp [children, member])
  · cases member
    exact hb
  · exact ha.child (by simp [children, member])

theorem beside (here : P entry) (ha : a.Refers P) (hb : b.Refers P) : (a.beside entry b).Refers P := by
  unfold Expression.beside
  split
  · refine reference here ?_ ?_
    · rintro _ ⟨⟩
      exact ha
    · rintro _ ⟨⟩
      exact hb
  · exact ha.withRight hb

theorem name (here : P entry) : (Expression.reference entry).Refers P :=
  reference here (by simp) (by simp)

theorem emptyCall (here : P entry) : (Expression.emptyCall entry).Refers P := by
  unfold Expression.emptyCall
  split
  · exact name here
  · exact (name here).withRight (arguments (by simp))

end Refers

namespace Genuine

theorem root (h : e.Genuine) (operation : e.operation = .reference entry) : entry.Genuine :=
  (forall_nodes.1 h).1 entry operation

theorem child (h : e.Genuine) (member : a ∈ e.children) : a.Genuine :=
  (forall_nodes.1 h).2 a member

end Genuine

end Expression

namespace Catalog.Regular

variable {c : Catalog} {entry : Entry}

theorem genuine_of_sign {o : Operator} (regular : c.Regular) (known : c.operator? o.symbol = some entry) :
    entry.Genuine := by
  obtain ⟨kind, rule, symbol⟩ := regular.of_sign known
  exact .sign o kind rule symbol

theorem genuine_of_bang (regular : c.Regular) (known : c.operator? "!" = some entry) : entry.Genuine := by
  obtain ⟨kind, rule, -⟩ := regular.of_bang known
  exact .bang kind rule

theorem genuine_of_name {name : String} (regular : c.Regular) (known : c.lookup? name = some entry) : entry.Genuine :=
  .named (regular.named known)

end Catalog.Regular

namespace Grammar

variable {c : Catalog} {extended : Bool} {next : Option TokenKind} {l : Level} {ts : List Token} {e : Expression}
  {P : Entry → Prop}

/-- A phrase refers to operations of the catalog only: to those of its signs and to those of its names. -/
theorem Phrase.refers (h : Phrase c extended next l ts e)
    (sign : ∀ (o : Operator) entry, c.operator? o.symbol = some entry → P entry)
    (bang : ∀ entry, c.operator? "!" = some entry → P entry)
    (named : ∀ name entry, c.lookup? name = some entry → P entry) : e.Refers P := by
  induction h with
  | loosen _ _ ih => exact ih
  | argument _ _ _ before last =>
    refine .arguments fun item member => ?_
    rcases List.mem_append.1 member with earlier | same
    · exact before.asArguments item earlier
    · rw [List.mem_singleton.1 same]
      exact last
  | binary _ _ known _ left right =>
    refine .reference (sign _ _ known) ?_ ?_
    · rintro _ ⟨⟩
      exact left
    · rintro _ ⟨⟩
      exact right
  | negation _ known _ operand =>
    refine .reference (sign .minus _ known) (by simp) ?_
    rintro _ ⟨⟩
    exact operand
  | factorial _ _ known operand =>
    refine .reference (bang _ known) ?_ (by simp)
    rintro _ ⟨⟩
    exact operand
  | juxtaposition _ _ known left right => exact .beside (sign .star _ known) left right
  | number => exact .literal _
  | constant _ known _ _ => exact .name (named _ _ known)
  | group _ _ _ content => exact content
  | call _ known _ _ _ content => exact (Refers.name (named _ _ known)).withRight content
  | emptyCall _ known _ _ => exact .emptyCall (named _ _ known)
  | reuse _ _ _ _ _ _ _ callee content => exact callee.withRight content
  | emptyReuse _ _ _ _ _ callee => exact callee

/-- A phrase of a regular catalog refers to operations of a regular catalog only. -/
theorem Phrase.genuine (regular : c.Regular) (h : Phrase c extended next l ts e) : e.Genuine :=
  h.refers (fun _ _ known => regular.genuine_of_sign known) (fun _ known => regular.genuine_of_bang known)
    fun _ _ known => regular.genuine_of_name known

end Grammar

end Reckoner
