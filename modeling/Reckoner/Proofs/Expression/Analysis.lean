import Reckoner.Expression.Analysis
import Reckoner.Proofs.Expression.InOrder

/-!
# What an analysis finds

The analysis goes through the nodes from the root down, the marks of a tree go through them in the
order of the text. Both come to the same nodes, apart from argument lists, which show nothing. So
the marks tell which signs an analysis finds and how many numbers, and every name that is shown
is that of a node.
-/

namespace Reckoner

/-- The mark of a number. -/
def Mark.isNumber : Mark → Bool
  | .number _ => true
  | _ => false

namespace Expression

variable {e n : Expression} {name symbol : String}

/-- The nodes but for argument lists are those that are listed in the order of the text. -/
theorem nodes_perm_inOrder (e : Expression) : (e.nodes.filter fun n => !n.isList).Perm e.inOrder := by
  induction e using induction_on_children with
  | step e ih =>
    have option {o : Option Expression} (below : ∀ child ∈ o, child ∈ e.children) :
        ((nodesOption o).filter fun n => !n.isList).Perm (inOrderOption o) := by
      cases o with
      | none => exact .nil
      | some child => exact ih child (below child rfl)
    have list {items : List Expression} (below : ∀ child ∈ items, child ∈ e.children) :
        ((nodesList items).filter fun n => !n.isList).Perm (inOrderList items) := by
      induction items with
      | nil => exact .nil
      | cons child rest ih' =>
        have first := ih child (below child List.mem_cons_self)
        have later := ih' fun child member => below child (List.mem_cons_of_mem _ member)
        rw [nodesList, inOrderList, List.filter_append]
        exact first.append later
    obtain ⟨operation, left, right⟩ := e
    have hl : ((nodesOption left).filter fun n => !n.isList).Perm (inOrderOption left) :=
      option fun child => left_mem_children
    have hr : ((nodesOption right).filter fun n => !n.isList).Perm (inOrderOption right) :=
      option fun child => right_mem_children
    cases operation with
    | arguments items =>
      have inside : ((nodesList items).filter fun n => !n.isList).Perm (inOrderList items) :=
        list fun child => item_mem_children
      simp only [nodes, inOrder, isList, List.filter_cons, Bool.not_true, Bool.false_eq_true, if_false, List.filter_append]
      rw [List.append_assoc]
      exact hl.append ((hr.append inside).trans List.perm_append_comm)
    | _ =>
      simp only [nodes, inOrder, isList, List.filter_cons, Bool.not_false, if_true, List.filter_append]
      exact ((hl.append hr).cons _).trans List.perm_middle.symm

theorem mem_inOrder_iff (single : n.isList = false) : n ∈ e.inOrder ↔ n ∈ e.nodes := by
  rw [← (nodes_perm_inOrder e).mem_iff]
  simp [single]

/-- What a node shows is shown by the tree. -/
theorem mem_marks_iff {m : Mark} : m ∈ e.marks ↔ ∃ n ∈ e.nodes, n.mark? = some m := by
  rw [marks_eq, List.mem_filterMap]
  have single {n : Expression} (shows : n.mark? = some m) : n.isList = false := by
    unfold mark? at shows
    unfold isList
    split at shows <;> simp_all
  constructor
  · rintro ⟨n, member, shows⟩
    exact ⟨n, (mem_inOrder_iff (single shows)).1 member, shows⟩
  · rintro ⟨n, member, shows⟩
    exact ⟨n, (mem_inOrder_iff (single shows)).2 member, shows⟩

/-- An analysis counts the numbers that the tree shows. -/
theorem literals_analyze (e : Expression) : e.analyze.literals = e.marks.countP Mark.isNumber := by
  have single : ∀ n ∈ e.nodes, n.isLiteral = true ↔ (n.isLiteral && !n.isList) = true := by
    intro n _
    obtain ⟨operation, left, right⟩ := n
    cases operation <;> simp [isLiteral, isList]
  have number : ∀ n ∈ e.inOrder, n.isLiteral = true ↔ ((n.mark?.map Mark.isNumber).getD false) = true := by
    intro n _
    obtain ⟨operation, left, right⟩ := n
    cases operation with
    | reference entry => cases symbol : entry.symbol <;> simp [isLiteral, mark?, Entry.mark, symbol, Mark.isNumber]
    | _ => simp [isLiteral, mark?, Mark.isNumber]
  calc e.nodes.countP isLiteral
      = (e.nodes.filter fun n => !n.isList).countP isLiteral := by
        rw [List.countP_filter]
        exact List.countP_congr single
    _ = e.inOrder.countP isLiteral := (nodes_perm_inOrder e).countP_eq _
    _ = e.inOrder.countP fun n => (n.mark?.map Mark.isNumber).getD false := List.countP_congr number
    _ = e.marks.countP Mark.isNumber := by
        rw [marks_eq, List.countP_filterMap]

/-- An analysis finds the signs that the tree shows. -/
theorem mem_operators_analyze : symbol ∈ e.analyze.operators ↔ .sign symbol ∈ e.marks := by
  have shows (n : Expression) : n.symbol? = some symbol ↔ n.mark? = some (.sign symbol) := by
    obtain ⟨operation, left, right⟩ := n
    cases operation with
    | reference entry => cases own : entry.symbol <;> simp [symbol?, entry?, mark?, Entry.mark, own]
    | _ => simp [symbol?, entry?, mark?]
  simp only [analyze, mem_ascending, List.mem_filterMap, mem_marks_iff, shows]

/-- It finds the names of those operations that have no sign, by their kinds. -/
theorem mem_functions_analyze : name ∈ e.analyze.functions ↔ ∃ n ∈ e.nodes, ∃ entry, n.operation = .reference entry ∧
    entry.symbol = none ∧ entry.name = name ∧ entry.kind ≠ .nullary := by
  have shows (n : Expression) : n.functionName? = some name ↔ ∃ entry, n.operation = .reference entry ∧
      entry.symbol = none ∧ entry.name = name ∧ entry.kind ≠ .nullary := by
    obtain ⟨operation, left, right⟩ := n
    cases operation with
    | reference entry => cases own : entry.symbol <;> simp [functionName?, entry?, own, and_comm]
    | _ => simp [functionName?, entry?]
  simp only [analyze, mem_ascending, List.mem_filterMap, shows]

theorem mem_constants_analyze : name ∈ e.analyze.constants ↔ ∃ n ∈ e.nodes, ∃ entry, n.operation = .reference entry ∧
    entry.symbol = none ∧ entry.name = name ∧ entry.kind = .nullary := by
  have shows (n : Expression) : n.constantName? = some name ↔ ∃ entry, n.operation = .reference entry ∧
      entry.symbol = none ∧ entry.name = name ∧ entry.kind = .nullary := by
    obtain ⟨operation, left, right⟩ := n
    cases operation with
    | reference entry => cases own : entry.symbol <;> simp [constantName?, entry?, own, and_comm]
    | _ => simp [constantName?, entry?]
  simp only [analyze, mem_ascending, List.mem_filterMap, shows]

end Expression

end Reckoner
