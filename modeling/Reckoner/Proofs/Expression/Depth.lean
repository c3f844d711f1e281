import Mathlib.Algebra.GroupWithZero.Nat
import Reckoner.Proofs.Evaluation.Whole

/-!
# The depth and the size of a tree

A tree is as large as the list of its nodes is long. The walk that keeps a list of nodes to visit comes
to the depth of the tree: at any time the level that it will reach is known from that list and from the
levels already reached.
-/

namespace Reckoner.Expression

theorem depthList_eq (es : List Expression) : depthList es = (es.map depth).foldr max 0 := by
  induction es with
  | nil => rfl
  | cons e rest ih => rw [depthList, ih, List.map_cons, List.foldr_cons]

theorem sizeList_eq (es : List Expression) : sizeList es = (es.map size).sum := by
  induction es with
  | nil => rfl
  | cons e rest ih => rw [sizeList, ih, List.map_cons, List.sum_cons]

/-- The list of the nodes is as long as the tree is large. -/
theorem length_nodes (e : Expression) : e.nodes.length = e.size := by
  induction e using induction_on_children with
  | step e ih =>
    have same : e.children.map (fun child => child.nodes.length) = e.children.map size := List.map_congr_left ih
    rw [nodes_eq, size_eq, sizeList_eq, List.length_cons, List.length_flatMap, same]
    omega

/-- One more than the deepest level below the nodes to visit, each of which is listed with its level. -/
def reach : List (Expression × Nat) → Nat
  | [] => 0
  | (e, level) :: rest => max (level + e.depth) (reach rest)

theorem reach_append (xs ys : List (Expression × Nat)) : reach (xs ++ ys) = max (reach xs) (reach ys) := by
  induction xs with
  | nil => simp [reach]
  | cons x xs ih =>
    simp only [List.cons_append, reach, ih]
    omega

/-- Nodes on one level reach as far below it as they are deep. -/
theorem reach_level (level : Nat) (es : List Expression) : max level (reach (es.map (·, level))) = level + depthList es := by
  induction es with
  | nil => simp [reach, depthList]
  | cons e rest ih =>
    simp only [List.map_cons, reach, depthList]
    omega

/-- A visit to a node does not change how deep the walk will get: the children reach as far below the level of
the node as the node itself. -/
theorem reach_visit (best level : Nat) (e : Expression) :
    max (max best level + 1) (reach (e.children.map (·, level + 1))) = max (best + 1) (level + e.depth) := by
  have below := reach_level (level + 1) e.children
  have deep := depth_eq e
  omega

/-- The walk ends with the deepest level that it has reached or will still reach. -/
theorem deepest_eq (best : Nat) (todo : List (Expression × Nat)) :
    deepest best todo + 1 = max (best + 1) (reach todo) := by
  fun_induction deepest best todo with
  | case1 best => simp [reach]
  | case2 best e level rest ih =>
    rw [ih, reach_append, reach, ← Nat.max_assoc, reach_visit, Nat.max_assoc]

/-- The depth by visiting one node after the other is the depth by recursion. -/
theorem measuredDepth_eq (e : Expression) : e.measuredDepth = e.depth := by
  have walked := deepest_eq 0 [(e, 1)]
  simp only [reach] at walked
  rw [measuredDepth]
  omega

end Reckoner.Expression
