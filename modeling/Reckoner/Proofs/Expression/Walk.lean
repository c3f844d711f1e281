import Reckoner.Proofs.Expression.Depth

/-!
# The walk over a tree

The walk that measures a tree knows the nodes that it still has to visit, each with its level, and the deepest level so far.
A visit takes one node out of the list and puts its children into its place, one level below. Whichever node is
taken, there is one node less to come, and the level that the walk will get to stays the same. So every walk ends after as
many visits as the tree has nodes, and what it ends with is the depth of the tree.
-/

namespace Reckoner.Expression

theorem pending_eq_zero_iff {todo : List (Expression × Nat)} : pending todo = 0 ↔ todo = [] := by
  cases todo with
  | nil => simp [pending, sizeList]
  | cons next rest =>
    have some := size_pos next.1
    rw [pending_cons]
    simp only [reduceCtorEq, iff_false]
    omega

/-- A walk on its way: the deepest level so far and the nodes to visit, each with its level. -/
structure Walk where
  best : Nat
  todo : List (Expression × Nat)

namespace Walk

variable {w w' : Walk} {n : Nat}

/-- Before the first visit there is the root to visit, on the first level. -/
def start (e : Expression) : Walk := ⟨0, [(e, 1)]⟩

/-- One visit. The node may stand anywhere in the list: `deepest` visits the first one, and a stack with its
top at the end the last one. -/
inductive Visit : Walk → Walk → Prop where
  | node (best : Nat) (before : List (Expression × Nat)) (e : Expression) (level : Nat)
      (after : List (Expression × Nat)) :
    Visit ⟨best, before ++ (e, level) :: after⟩
      ⟨max best level, before ++ (e.children.map (·, level + 1) ++ after)⟩

/-- As many visits as the number says, one after the other. -/
inductive Visits : Nat → Walk → Walk → Prop where
  | none (w : Walk) : Visits 0 w w
  | next {n : Nat} {w w' w'' : Walk} : Visit w w' → Visits n w' w'' → Visits (n + 1) w w''

/-- One more than the deepest level that the walk has reached or will still reach. -/
def extent (w : Walk) : Nat := max (w.best + 1) (reach w.todo)

theorem extent_start (e : Expression) : (start e).extent = 1 + e.depth := by
  simp only [extent, start, reach]
  omega

theorem pending_start (e : Expression) : pending (start e).todo = e.size := by
  rw [start, pending_cons]
  rfl

theorem Visit.pending (visit : Visit w w') : pending w'.todo + 1 = pending w.todo := by
  obtain ⟨best, before, e, level, after⟩ := visit
  have node := size_eq e
  simp only [pending_append, pending_level, pending_cons]
  omega

theorem Visit.extent (visit : Visit w w') : w'.extent = w.extent := by
  obtain ⟨best, before, e, level, after⟩ := visit
  -- Nothing changes but the node and its children, so they are brought together with the level so far.
  simp only [Walk.extent, reach_append, reach]
  calc
    _ = max (max (max best level + 1) (reach (e.children.map (·, level + 1)))) (max (reach before) (reach after)) := by
      ac_rfl
    _ = max (max (best + 1) (level + e.depth)) (max (reach before) (reach after)) := by rw [reach_visit]
    _ = max (best + 1) (max (reach before) (max (level + e.depth) (reach after))) := by ac_rfl

theorem Visits.pending (visits : Visits n w w') : n + pending w'.todo = pending w.todo := by
  induction visits with
  | none w => exact Nat.zero_add _
  | next visit _ ih =>
    have less := visit.pending
    omega

theorem Visits.extent (visits : Visits n w w') : w'.extent = w.extent := by
  induction visits with
  | none w => rfl
  | next visit _ ih => exact ih.trans visit.extent

/-- A walk can go on as long as there is a node left to visit. -/
theorem exists_visit_iff : (∃ w', Visit w w') ↔ w.todo ≠ [] := by
  constructor
  · rintro ⟨_, best, before, e, level, after⟩
    simp
  · obtain ⟨best, todo⟩ := w
    intro more
    obtain ⟨⟨e, level⟩, rest, rfl⟩ := List.exists_cons_of_ne_nil more
    exact ⟨_, .node best [] e level rest⟩

/-- `deepest` is the walk that always visits the first node of the list. -/
theorem visits_deepest (best : Nat) (todo : List (Expression × Nat)) :
    Visits (Expression.pending todo) ⟨best, todo⟩ ⟨deepest best todo, []⟩ := by
  fun_induction deepest best todo with
  | case1 best => exact .none _
  | case2 best e level rest ih =>
    have first : Visit ⟨best, (e, level) :: rest⟩ ⟨max best level, e.children.map (·, level + 1) ++ rest⟩ :=
      .node best [] e level rest
    rw [← first.pending]
    exact .next first ih

/-- A walk that is at its end has got to the depth of the tree. -/
theorem Visits.best {e : Expression} (visits : Visits n (start e) w) (done : w.todo = []) : w.best = e.depth := by
  have kept := visits.extent
  rw [extent_start, Walk.extent, done, reach] at kept
  omega

end Walk

open Walk

/-- Every walk over a tree ends, whatever tree it is and in whatever order the nodes are visited. It goes on exactly
as long as it has made fewer visits than there are nodes; then nothing is left to visit, and it has got to the depth.
One of these walks is that of `measuredDepth`. The depth is one more than the greatest depth among left operand,
right operand and list items, and one where there are none. -/
theorem walk_ends_at_depth (e : Expression) :
    (∀ n w, Visits n (start e) w →
      n ≤ e.size ∧ ((∃ w', Visit w w') ↔ n < e.size) ∧ (n = e.size → w = ⟨e.depth, []⟩)) ∧
    Visits e.size (start e) ⟨e.measuredDepth, []⟩ ∧
    e.measuredDepth = e.depth ∧
    e.depth = 1 + ((e.left.toList ++ e.right.toList ++ e.operation.items).map depth).foldr max 0 := by
  refine ⟨?_, ?_, measuredDepth_eq e, ?_⟩
  · intro n w visits
    have left := visits.pending
    rw [pending_start] at left
    -- The visits made and the nodes to come are the nodes of the tree together.
    refine ⟨by omega, ?_, ?_⟩
    · rw [exists_visit_iff, ne_eq, ← pending_eq_zero_iff]
      omega
    · intro all
      have done : w.todo = [] := pending_eq_zero_iff.1 (by omega)
      obtain ⟨best, todo⟩ := w
      obtain rfl : best = e.depth := visits.best done
      obtain rfl : todo = [] := done
      rfl
  · have walk := visits_deepest 0 [(e, 1)]
    rwa [← pending_start]
  · rw [← depthList_eq]
    exact depth_eq e

/-- A tree that no text is read as, with an operand beside the items of a list and one below a node without an
operation, when the node listed last is always visited first. -/
theorem walk_ends_at_depth_last_first :
    let leaf := literal 1.0
    let above : Expression := ⟨.bare, none, some leaf⟩
    let e : Expression := ⟨.arguments [above, arguments []], some leaf, none⟩
    Visits 2 (start e) ⟨2, [(leaf, 2), (above, 2)]⟩ ∧ Visits 5 (start e) ⟨3, []⟩ ∧
    e.size = 5 ∧ e.measuredDepth = 3 ∧
    (∃ w, Visit ⟨2, [(leaf, 2), (above, 2)]⟩ w) ∧ ¬ ∃ w, Visit ⟨3, []⟩ w := by
  intro leaf above e
  have first : Visits 2 (start e) ⟨2, [(leaf, 2), (above, 2)]⟩ :=
    .next (.node 0 [] e 1 []) (.next (.node 1 [(leaf, 2), (above, 2)] (arguments []) 2 []) (.none _))
  have all : Visits 5 (start e) ⟨3, []⟩ :=
    .next (.node 0 [] e 1 []) <| .next (.node 1 [(leaf, 2), (above, 2)] (arguments []) 2 []) <|
    .next (.node 2 [(leaf, 2)] above 2 []) <| .next (.node 2 [(leaf, 2)] leaf 3 []) <|
    .next (.node 3 [] leaf 2 []) (.none _)
  have size : e.size = 5 := rfl
  obtain ⟨walks, -, measured, -⟩ := walk_ends_at_depth e
  obtain ⟨-, further, -⟩ := walks 2 _ first
  obtain ⟨-, stopped, ended⟩ := walks 5 _ all
  have depth : 3 = e.depth := congrArg Walk.best (ended size.symm)
  exact ⟨first, all, size, by rw [measured, ← depth], further.2 (by omega), by rw [stopped]; omega⟩

end Reckoner.Expression
