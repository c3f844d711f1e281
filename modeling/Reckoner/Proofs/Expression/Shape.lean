import Reckoner.Expression.Analysis

/-!
# Well-formed expressions

Trees of any form can be built by hand. `WellShaped` says of one node which
children it may have, and a tree is `WellFormed` if every node has its shape and
the root is no argument list. What the predicates of the parser answer on such
nodes follows from the shape alone.
-/

namespace Reckoner.Expression

/-- `r` may stand on the right of a node. An argument list belongs to a call, and an
empty one to a call of a function. -/
def TakesRight (e r : Expression) : Prop :=
  r.isList = true → ∃ entry, e.operation = .reference entry ∧
    (entry.kind = .unary ∨ entry.kind = .variadic ∨ entry.kind = .nullary ∧ r.operation.items ≠ [])

/-- The operands that the operation of a node asks for. -/
def HasOperands (e : Expression) : Prop :=
  match e.operation with
  | .literal _ => e.left = none
  | .arguments items =>
    e.left = none ∧ e.right = none ∧ items.length ≠ 1 ∧ ∀ item ∈ items, item.isList = false
  | .reference entry =>
    match entry.kind with
    | .binary => e.right.isSome ∧ (e.left = none → entry.symbol = some "-")
    | .suffix => e.left.isSome
    | .unary | .variadic => e.left = none ∧ e.right.isSome
    | .nullary => e.left = none
  | .bare => False
  | .boundary .. => False

/-- The form of a single node with regard to its children. -/
structure WellShaped (e : Expression) : Prop where
  operands : e.HasOperands
  left : ∀ l, e.left = some l → l.isList = false
  right : ∀ r, e.right = some r → e.TakesRight r

/-- Every node has its form, and the root is no argument list. -/
structure WellFormed (e : Expression) : Prop where
  nodes : ∀ n ∈ e.nodes, n.WellShaped
  root : e.isList = false

theorem nodesList_toList (o : Option Expression) : nodesList o.toList = nodesOption o := by
  cases o <;> simp [nodesList, nodesOption]

theorem nodesList_eq (es : List Expression) : nodesList es = es.flatMap nodes := by
  induction es with
  | nil => rfl
  | cons e rest ih => rw [nodesList, ih, List.flatMap_cons]

/-- The nodes of a tree are its root and the nodes of its children. -/
theorem nodes_eq (e : Expression) : e.nodes = e :: e.children.flatMap nodes := by
  obtain ⟨operation, left, right⟩ := e
  simp only [children, List.flatMap_append, ← nodesList_eq, nodesList_toList]
  cases operation <;> simp [nodes, Operation.items, nodesList]

theorem forall_nodes {P : Expression → Prop} {e : Expression} :
    (∀ n ∈ e.nodes, P n) ↔ P e ∧ ∀ child ∈ e.children, ∀ n ∈ child.nodes, P n := by
  rw [nodes_eq]
  simp only [List.mem_cons, List.mem_flatMap, forall_eq_or_imp, forall_exists_index, and_imp]
  exact and_congr_right fun _ => ⟨fun h child hc n hn => h n child hc hn, fun h n child hc hn => h child hc n hn⟩

theorem WellFormed.shaped {e : Expression} (h : e.WellFormed) : e.WellShaped :=
  (forall_nodes.1 h.nodes).1

/-- A reference of the right shape is well-formed if its operands are. -/
theorem WellFormed.reference {entry : Entry} {left right : Option Expression}
    (shaped : WellShaped ⟨.reference entry, left, right⟩)
    (hl : ∀ l, left = some l → ∀ n ∈ l.nodes, n.WellShaped)
    (hr : ∀ r, right = some r → ∀ n ∈ r.nodes, n.WellShaped) :
    WellFormed ⟨.reference entry, left, right⟩ := by
  refine ⟨forall_nodes.2 ⟨shaped, fun child member => ?_⟩, rfl⟩
  simp only [children, Operation.items, List.append_nil, List.mem_append, Option.mem_toList] at member
  rcases member with h | h
  · exact hl child h
  · exact hr child h

theorem WellFormed.literal (value : Float) : (literal value).WellFormed := by
  refine ⟨forall_nodes.2 ⟨⟨rfl, ?_, ?_⟩, ?_⟩, rfl⟩ <;>
    simp [Expression.literal, children, Operation.items]

/-- A name that can be called awaits its call. -/
theorem awaitsCall_reference {entry : Entry} (kind : entry.kind = .unary ∨ entry.kind = .variadic ∨ entry.kind = .nullary) :
    (reference entry).awaitsCall = true := by
  rcases kind with kind | kind | kind <;> simp [awaitsCall, entry?, Expression.reference, kind]

/-- An argument list of two or more well-formed trees is well-formed but for its place. -/
theorem wellShaped_arguments {items : List Expression} (length : items.length ≠ 1)
    (h : ∀ item ∈ items, item.WellFormed) : ∀ n ∈ (arguments items).nodes, n.WellShaped := by
  refine forall_nodes.2 ⟨⟨⟨rfl, rfl, length, fun item hi => (h item hi).root⟩, ?_, ?_⟩, ?_⟩
  · simp [arguments]
  · simp [arguments]
  · intro child member
    simp only [children, arguments, Operation.items, Option.toList_none, List.nil_append] at member
    exact (h child member).nodes

namespace WellShaped

variable {e : Expression}

/-- The three answers of the parser's predicates on a node of the right shape. -/
theorem isComplete (h : e.WellShaped) : e.isComplete = true := by
  obtain ⟨operation, left, right⟩ := e
  have operands := h.operands
  cases operation with
  | reference entry =>
    simp only [HasOperands] at operands
    cases kind : entry.kind <;> simp only [kind] at operands <;>
      simp_all [Expression.isComplete, entry?]
  | _ => simp [Expression.isComplete, entry?]

theorem not_awaitsOperand (h : e.WellShaped) : e.awaitsOperand = false := by
  obtain ⟨operation, left, right⟩ := e
  have operands := h.operands
  cases operation with
  | reference entry =>
    simp only [HasOperands] at operands
    cases kind : entry.kind <;> simp only [kind] at operands <;>
      simp_all [awaitsOperand, isOperator, entry?]
  | _ => simp [awaitsOperand, isOperator, entry?]

theorem of_awaitsCall (h : e.WellShaped) (call : e.awaitsCall = true) :
    ∃ entry, e = .reference entry ∧ entry.kind = .nullary := by
  obtain ⟨operation, left, right⟩ := e
  have operands := h.operands
  cases operation with
  | reference entry =>
    simp only [HasOperands] at operands
    simp only [awaitsCall, entry?, Option.any_some, Bool.and_eq_true, Option.isNone_iff_eq_none] at call
    obtain ⟨kinds, rfl⟩ := call
    cases kind : entry.kind <;> simp only [kind] at operands kinds <;>
      simp_all [Expression.reference]
  | _ => simp [awaitsCall, entry?] at call

end WellShaped

end Reckoner.Expression
