import Reckoner.Proofs.Evaluation.Whole
import Reckoner.Proofs.Expression.Shape

/-!
# Products that are written out

A number, a constant or a factorial with an operand on its right is multiplied by it.
`withProducts` makes each such node a product of the node without that operand and the operand.
In the tree that results no operand on the right is a factor any more, and the tree has at
most twice as many levels.
-/

namespace Reckoner.Expression

/-- A node of this operation multiplies by what stands on its right. -/
def multipliesRight (e : Expression) : Bool :=
  match e.operation with
  | .literal _ => true
  | .reference entry => entry.kind == .nullary || entry.kind == .suffix
  | _ => false

/-- The operand on the right is a factor. An argument list is none. -/
def hasFactor (e : Expression) : Bool :=
  e.multipliesRight && e.right.any fun r => !r.isList

mutual

/-- The tree with a product of the operation `star` for every factor on the right of a node. -/
def withProducts (star : Entry) : Expression → Expression
  | ⟨.arguments items, left, right⟩ =>
    ⟨.arguments (withProductsList star items), withProductsOption star left, withProductsOption star right⟩
  | ⟨operation, left, right⟩ =>
    if hasFactor ⟨operation, left, right⟩ then
      ⟨.reference star, some ⟨operation, withProductsOption star left, none⟩, withProductsOption star right⟩
    else ⟨operation, withProductsOption star left, withProductsOption star right⟩

def withProductsOption (star : Entry) : Option Expression → Option Expression
  | none => none
  | some e => some (e.withProducts star)

def withProductsList (star : Entry) : List Expression → List Expression
  | [] => []
  | e :: rest => e.withProducts star :: withProductsList star rest

end

variable {star : Entry} {e : Expression} {operation : Operation Expression} {left right : Option Expression} {n : Nat}

theorem withProductsOption_eq (o : Option Expression) : withProductsOption star o = o.map (withProducts star) := by
  cases o <;> rfl

theorem withProductsList_eq (es : List Expression) : withProductsList star es = es.map (withProducts star) := by
  induction es with
  | nil => rfl
  | cons e rest ih => rw [withProductsList, ih, List.map_cons]

theorem withProducts_arguments (items : List Expression) :
    (arguments items).withProducts star = arguments (items.map (withProducts star)) := by
  simp only [arguments, withProducts, withProductsOption, withProductsList_eq]

theorem withProducts_of_not_list (list : isList ⟨operation, left, right⟩ = false) :
    withProducts star ⟨operation, left, right⟩ =
      if hasFactor ⟨operation, left, right⟩ then
        ⟨.reference star, some ⟨operation, left.map (withProducts star), none⟩, right.map (withProducts star)⟩
      else ⟨operation, left.map (withProducts star), right.map (withProducts star)⟩ := by
  cases operation with
  | arguments items => cases list
  | _ => simp only [withProducts, withProductsOption_eq]

theorem isList_of_factor (factor : e.hasFactor = true) : e.isList = false := by
  obtain ⟨operation, left, right⟩ := e
  cases operation with
  | arguments items => cases factor
  | _ => rfl

theorem items_of_not_list (list : e.isList = false) : e.operation.items = [] := by
  obtain ⟨operation, left, right⟩ := e
  cases operation with
  | arguments items => cases list
  | _ => rfl

/-- A node with a factor becomes a product. -/
theorem withProducts_of_factor (factor : hasFactor ⟨operation, left, right⟩ = true) :
    withProducts star ⟨operation, left, right⟩ =
      ⟨.reference star, some ⟨operation, left.map (withProducts star), none⟩, right.map (withProducts star)⟩ := by
  rw [withProducts_of_not_list (isList_of_factor factor), if_pos factor]

/-- Any other node but an argument list keeps its operation. -/
theorem withProducts_of_no_factor (list : isList ⟨operation, left, right⟩ = false)
    (other : hasFactor ⟨operation, left, right⟩ = false) :
    withProducts star ⟨operation, left, right⟩ =
      ⟨operation, left.map (withProducts star), right.map (withProducts star)⟩ := by
  rw [withProducts_of_not_list list, other, if_neg Bool.false_ne_true]

theorem isList_withProducts (e : Expression) : (e.withProducts star).isList = e.isList := by
  obtain ⟨operation, left, right⟩ := e
  cases operation with
  | arguments items => rfl
  | _ =>
    rw [withProducts_of_not_list rfl]
    split <;> rfl

theorem argumentCount_withProducts (e : Expression) : (e.withProducts star).argumentCount = e.argumentCount := by
  obtain ⟨operation, left, right⟩ := e
  cases operation with
  | arguments items =>
    simp only [withProducts, argumentCount, withProductsList_eq, List.length_map]
  | _ =>
    rw [withProducts_of_not_list rfl]
    split <;> rfl

/-- Without a factor the children are rewritten in their places. -/
theorem children_withProducts (other : e.hasFactor = false) :
    (e.withProducts star).children = e.children.map (withProducts star) := by
  obtain ⟨operation, left, right⟩ := e
  cases operation with
  | arguments items =>
    simp only [withProducts, children, Operation.items, withProductsOption_eq, withProductsList_eq]
    cases left <;> cases right <;> simp
  | _ =>
    rw [withProducts_of_no_factor rfl other]
    cases left <;> cases right <;> simp [children, Operation.items]

/-- The product has the node without its factor on its left, and the factor on its right. -/
theorem mem_children_of_factor (factor : hasFactor ⟨operation, left, right⟩ = true) {child : Expression}
    (member : child ∈ (withProducts star ⟨operation, left, right⟩).children) :
    child = ⟨operation, left.map (withProducts star), none⟩ ∨ ∃ r ∈ right, child = r.withProducts star := by
  simp only [withProducts_of_factor factor, children, Operation.items, List.append_nil, Option.toList_some,
    List.singleton_append, List.mem_cons, Option.mem_toList, Option.map_eq_some_iff] at member
  rcases member with here | ⟨r, there, same⟩
  · exact .inl here
  · exact .inr ⟨r, there, same.symm⟩

/-- The node without its factor has the operands on its left only. -/
theorem mem_children_of_free (factor : hasFactor ⟨operation, left, right⟩ = true) {child : Expression}
    (member : child ∈ children ⟨operation, left.map (withProducts star), none⟩) :
    ∃ l ∈ left, child = l.withProducts star := by
  have items : operation.items = [] := items_of_not_list (isList_of_factor factor)
  simp only [children, items, Option.toList_none, List.append_nil, Option.mem_toList, Option.map_eq_some_iff] at member
  obtain ⟨l, there, same⟩ := member
  exact ⟨l, there, same.symm⟩

theorem hasFactor_of_right (h : e.right = none) : e.hasFactor = false := by
  simp [hasFactor, h]

theorem hasFactor_of_binary {entry : Entry} (binary : entry.kind = .binary) :
    hasFactor ⟨.reference entry, left, right⟩ = false := by
  simp [hasFactor, multipliesRight, binary]

/-- Rewriting the operands of a node brings in no factor. -/
theorem hasFactor_map :
    hasFactor ⟨operation, left.map (withProducts star), right.map (withProducts star)⟩ =
      hasFactor ⟨operation, left, right⟩ := by
  cases right with
  | none => rfl
  | some r =>
    simp only [hasFactor, multipliesRight, Option.map_some, Option.any_some, isList_withProducts]

/-- No factor is left. -/
theorem hasFactor_withProducts (binary : star.kind = .binary) (e : Expression) :
    ∀ n ∈ (e.withProducts star).nodes, n.hasFactor = false := by
  induction e using induction_on_children with
  | step e below =>
    cases factor : e.hasFactor with
    | false =>
      refine forall_nodes.2 ⟨?_, ?_⟩
      · obtain ⟨operation, left, right⟩ := e
        cases operation with
        | arguments items => rfl
        | _ => rw [withProducts_of_no_factor rfl factor, hasFactor_map, factor]
      · rw [children_withProducts factor]
        intro child member
        obtain ⟨child, inside, rfl⟩ := List.mem_map.1 member
        exact below child inside
    | true =>
      obtain ⟨operation, left, right⟩ := e
      have product : (withProducts star ⟨operation, left, right⟩).hasFactor = false := by
        rw [withProducts_of_factor factor]
        exact hasFactor_of_binary binary
      refine forall_nodes.2 ⟨product, fun child member => ?_⟩
      rcases mem_children_of_factor factor member with rfl | ⟨r, there, rfl⟩
      · refine forall_nodes.2 ⟨hasFactor_of_right rfl, fun child member => ?_⟩
        obtain ⟨l, there, rfl⟩ := mem_children_of_free factor member
        exact below l (left_mem_children there)
      · exact below r (right_mem_children there)

/-- A node is at most one level deeper than its deepest child. -/
theorem depth_le (h : ∀ child ∈ e.children, child.depth ≤ n) : e.depth ≤ n + 1 := by
  have bound := depthList_le_iff.2 h
  rw [depth_eq]
  omega

/-- Writing products out at most doubles the levels. -/
theorem depth_withProducts (e : Expression) : (e.withProducts star).depth ≤ 2 * e.depth := by
  induction same : e.depth using Nat.strongRecOn generalizing e with
  | ind d ih =>
    have positive := depth_pos e
    have below : ∀ child ∈ e.children, (child.withProducts star).depth ≤ 2 * d - 2 := by
      intro child member
      have less := depth_lt member
      have doubled := ih child.depth (by omega) child rfl
      omega
    cases factor : e.hasFactor with
    | false =>
      have bound : (e.withProducts star).depth ≤ 2 * d - 2 + 1 := by
        refine depth_le ?_
        rw [children_withProducts factor]
        intro child member
        obtain ⟨child, inside, rfl⟩ := List.mem_map.1 member
        exact below child inside
      omega
    | true =>
      obtain ⟨operation, left, right⟩ := e
      have node : depth ⟨operation, left.map (withProducts star), none⟩ ≤ 2 * d - 2 + 1 := by
        refine depth_le fun child member => ?_
        obtain ⟨l, there, rfl⟩ := mem_children_of_free factor member
        exact below l (left_mem_children there)
      have bound : (withProducts star ⟨operation, left, right⟩).depth ≤ 2 * d - 2 + 1 + 1 := by
        refine depth_le fun child member => ?_
        rcases mem_children_of_factor factor member with rfl | ⟨r, there, rfl⟩
        · exact node
        · have shallow := below r (right_mem_children there)
          omega
      omega

end Reckoner.Expression
