import Reckoner.Expression.Basic

/-!
# The depth of an expression

`depth` is defined by recursion on the tree. `measuredDepth` walks the tree with
a list of nodes still to visit and a running maximum, so that it needs no
recursion as deep as the tree; its termination measure is the number of nodes
that are still to come.
-/

namespace Reckoner.Expression

mutual

/-- The number of nodes, argument lists and their items included. -/
def size : Expression → Nat
  | ⟨.arguments items, left, right⟩ => 1 + sizeOption left + sizeOption right + sizeList items
  | ⟨_, left, right⟩ => 1 + sizeOption left + sizeOption right

def sizeOption : Option Expression → Nat
  | none => 0
  | some e => e.size

def sizeList : List Expression → Nat
  | [] => 0
  | e :: rest => e.size + sizeList rest

end

mutual

/-- One for a node without children, and one more than the deepest child otherwise. -/
def depth : Expression → Nat
  | ⟨.arguments items, left, right⟩ =>
    1 + max (max (depthOption left) (depthOption right)) (depthList items)
  | ⟨_, left, right⟩ => 1 + max (depthOption left) (depthOption right)

def depthOption : Option Expression → Nat
  | none => 0
  | some e => e.depth

def depthList : List Expression → Nat
  | [] => 0
  | e :: rest => max e.depth (depthList rest)

end

theorem size_pos (e : Expression) : 0 < e.size := by
  obtain ⟨operation, left, right⟩ := e
  cases operation <;> simp only [size] <;> omega

theorem sizeList_append (xs ys : List Expression) :
    sizeList (xs ++ ys) = sizeList xs + sizeList ys := by
  induction xs with
  | nil => simp [sizeList]
  | cons x xs ih => simp only [List.cons_append, sizeList, ih]; omega

theorem sizeList_toList (o : Option Expression) : sizeList o.toList = sizeOption o := by
  cases o <;> simp [sizeList, sizeOption]

/-- A node counts one more than its children together. -/
theorem size_eq (e : Expression) : e.size = 1 + sizeList e.children := by
  obtain ⟨operation, left, right⟩ := e
  simp only [children, sizeList_append, sizeList_toList]
  cases operation <;> simp only [size, Operation.items, sizeList] <;> omega

theorem depthList_append (xs ys : List Expression) : depthList (xs ++ ys) = max (depthList xs) (depthList ys) := by
  induction xs with
  | nil => simp [depthList]
  | cons x xs ih =>
    simp only [List.cons_append, depthList, ih]
    omega

theorem depthList_toList (o : Option Expression) : depthList o.toList = depthOption o := by
  cases o <;> simp [depthList, depthOption]

theorem depthList_le_iff {es : List Expression} {n : Nat} : depthList es ≤ n ↔ ∀ e ∈ es, e.depth ≤ n := by
  induction es with
  | nil => simp [depthList]
  | cons e rest ih => rw [depthList, Nat.max_le, ih, List.forall_mem_cons]

/-- A tree is one level deeper than its deepest child. -/
theorem depth_eq (e : Expression) : e.depth = 1 + depthList e.children := by
  obtain ⟨operation, left, right⟩ := e
  simp only [children, depthList_append, depthList_toList]
  cases operation <;> simp only [depth, Operation.items, depthList] <;> omega

/-- The nodes still to come of a list of subtrees to visit. -/
def pending (todo : List (Expression × Nat)) : Nat :=
  sizeList (todo.map Prod.fst)

theorem pending_append (xs ys : List (Expression × Nat)) : pending (xs ++ ys) = pending xs + pending ys := by
  rw [pending, List.map_append, sizeList_append, pending, pending]

theorem pending_cons (e : Expression) (level : Nat) (rest : List (Expression × Nat)) :
    pending ((e, level) :: rest) = e.size + pending rest := by
  rw [pending, List.map_cons, sizeList, pending]

theorem pending_level (level : Nat) (es : List Expression) : pending (es.map (·, level)) = sizeList es := by
  simp [pending, List.map_map, Function.comp_def]

theorem pending_children (e : Expression) (level : Nat) (rest : List (Expression × Nat)) :
    pending (e.children.map (·, level + 1) ++ rest) < pending ((e, level) :: rest) := by
  rw [pending_append, pending_level, pending_cons, size_eq e]
  omega

/-- The greatest level among `best` and the nodes still to visit, each of which
is listed with its own level. -/
def deepest (best : Nat) : List (Expression × Nat) → Nat
  | [] => best
  | (e, level) :: rest => deepest (max best level) (e.children.map (·, level + 1) ++ rest)
termination_by todo => pending todo
decreasing_by exact pending_children e level rest

/-- The depth, by visiting one node after the other. -/
def measuredDepth (e : Expression) : Nat :=
  deepest 0 [(e, 1)]

end Reckoner.Expression
