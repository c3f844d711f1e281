import Reckoner.Proofs.Evaluation.Whole
import Reckoner.Proofs.Expression.Marks

/-!
# The nodes of a tree in the order of the text

`inOrder` lists the nodes that show a mark: left operand, node, right operand, and in the
place of an argument list its items. A node of the tree is known by what is shown before
it, product signs left out, since a parser may put those in.
-/

namespace Reckoner.Expression

mutual

/-- Left operand, node and right operand. An argument list is no node here, but its items are. -/
def inOrder : Expression → List Expression
  | ⟨.arguments items, left, right⟩ => inOrderOption left ++ (inOrderList items ++ inOrderOption right)
  | ⟨operation, left, right⟩ => inOrderOption left ++ ⟨operation, left, right⟩ :: inOrderOption right

def inOrderOption : Option Expression → List Expression
  | none => []
  | some e => e.inOrder

def inOrderList : List Expression → List Expression
  | [] => []
  | e :: rest => e.inOrder ++ inOrderList rest

end

/-- What a node shows by itself. -/
def mark? (e : Expression) : Option Mark :=
  match e.operation with
  | .literal value => some (.number (some value))
  | .reference entry => some entry.mark
  | _ => none

/-- What some nodes show one after the other, product signs left out. -/
def shownBy (es : List Expression) : List Mark :=
  (es.filterMap mark?).filter fun m => !m.isStar

/-- What the tokens show, product signs left out. -/
def written (ts : List Token) : List Mark :=
  (ts.filterMap Token.mark?).filter fun m => !m.isStar

/-- `node` stands in `e` where the text goes on behind the tokens `before`. -/
def StandsBehind (before : List Token) (node e : Expression) : Prop :=
  ∃ first later, e.inOrder = first ++ node :: later ∧ shownBy first = written before

variable {a b e node : Expression} {entry : Entry} {left right : Option Expression} {t : Token} {ts before : List Token}

theorem shownBy_append (es fs : List Expression) : shownBy (es ++ fs) = shownBy es ++ shownBy fs := by
  simp [shownBy]

theorem written_append (ts us : List Token) : written (ts ++ us) = written ts ++ written us := by
  simp [written]

/-- A node shows what a token shows. -/
theorem shownBy_singleton (same : e.mark? = t.mark?) : shownBy [e] = written [t] := by
  cases marked : t.mark? <;> simp [shownBy, written, same, marked]

/-- A token without a mark changes nothing. -/
theorem written_cons (unmarked : t.mark? = none) (ts : List Token) : written (t :: ts) = written ts := by
  simp [written, unmarked]

theorem written_snoc (unmarked : t.mark? = none) (ts : List Token) : written (ts ++ [t]) = written ts := by
  simp [written, unmarked]

theorem inOrder_reference :
    inOrder ⟨.reference entry, left, right⟩ =
      inOrderOption left ++ ⟨.reference entry, left, right⟩ :: inOrderOption right := rfl

theorem inOrderList_append (es fs : List Expression) : inOrderList (es ++ fs) = inOrderList es ++ inOrderList fs := by
  induction es with
  | nil => rfl
  | cons e rest ih => rw [List.cons_append, inOrderList, inOrderList, ih, List.append_assoc]

theorem inOrder_snoc (content : Grammar.Content a) (b : Expression) :
    (arguments (a.asArguments ++ [b])).inOrder = a.inOrder ++ b.inOrder := by
  have items : inOrderList a.asArguments = a.inOrder := by
    cases content with
    | single h => rw [Grammar.asArguments_of_not_list h.root, inOrderList, inOrderList, List.append_nil]
    | list => simp [asArguments, arguments, inOrder, inOrderOption]
  simp [arguments, inOrder, inOrderOption, inOrderList_append, items, inOrderList]

/-- A tree without a right operand ends with its root. -/
theorem inOrder_of_free (single : a.isList = false) (free : a.right = none) :
    a.inOrder = inOrderOption a.left ++ [a] := by
  obtain ⟨operation, left, right⟩ := a
  obtain rfl : right = none := free
  cases operation with
  | arguments => cases single
  | _ => rfl

theorem inOrder_withRight (single : a.isList = false) (b : Expression) :
    (a.withRight b).inOrder = inOrderOption a.left ++ a.withRight b :: b.inOrder := by
  obtain ⟨operation, left, right⟩ := a
  cases operation with
  | arguments => cases single
  | _ => rfl

/-- The marks of a tree are those of its nodes in order. -/
theorem marks_eq (e : Expression) : e.marks = e.inOrder.filterMap mark? := by
  induction e using induction_on_children with
  | step e ih =>
    have option {o : Option Expression} (below : ∀ child ∈ o, child ∈ e.children) :
        marksOption o = (inOrderOption o).filterMap mark? := by
      cases o with
      | none => rfl
      | some child => exact ih child (below child rfl)
    have list {items : List Expression} (below : ∀ child ∈ items, child ∈ e.children) :
        marksList items = (inOrderList items).filterMap mark? := by
      induction items with
      | nil => rfl
      | cons child rest ih' =>
        have first := ih child (below child List.mem_cons_self)
        have later := ih' fun child member => below child (List.mem_cons_of_mem _ member)
        rw [marksList, inOrderList, List.filterMap_append, first, later]
    obtain ⟨operation, left, right⟩ := e
    have hl : marksOption left = (inOrderOption left).filterMap mark? := option fun child => left_mem_children
    have hr : marksOption right = (inOrderOption right).filterMap mark? := option fun child => right_mem_children
    cases operation with
    | arguments items =>
      have inside : marksList items = (inOrderList items).filterMap mark? := list fun child => item_mem_children
      simp only [marks, inOrder, List.filterMap_append, hl, hr, inside]
    | _ => simp [marks, inOrder, List.filterMap_cons, mark?, hl, hr]

theorem shownBy_inOrder (e : Expression) : shownBy e.inOrder = e.marks.filter fun m => !m.isStar := by
  rw [shownBy, marks_eq]

namespace StandsBehind

/-- The root stands first if it has no left operand. -/
theorem root (single : e.isList = false) (first : e.left = none) : StandsBehind [] e e := by
  obtain ⟨operation, left, right⟩ := e
  obtain rfl : left = none := first
  refine ⟨[], inOrderOption right, ?_, rfl⟩
  cases operation with
  | arguments => cases single
  | _ => rfl

/-- There is one node in a place that shows anything but a product sign. -/
theorem unique {node' : Expression} (h : StandsBehind before node e) (h' : StandsBehind before node' e)
    (shows : shownBy [node] ≠ []) (shows' : shownBy [node'] ≠ []) : node = node' := by
  obtain ⟨xs, ys, nodes, shown⟩ := h
  obtain ⟨xs', ys', nodes', shown'⟩ := h'
  have apart {us vs : List Expression} {a : Expression} (more : shownBy (us ++ a :: vs) = shownBy us)
      (shows : shownBy [a] ≠ []) : False := by
    have nothing : shownBy ([a] ++ vs) = [] := by simpa [shownBy_append] using more
    rw [shownBy_append, List.append_eq_nil_iff] at nothing
    exact shows nothing.1
  rcases List.append_eq_append_iff.1 (nodes.symm.trans nodes') with ⟨more, rfl, rest⟩ | ⟨more, rfl, rest⟩
  · rcases List.cons_eq_append_iff.1 rest with ⟨rfl, here⟩ | ⟨more', rfl, -⟩
    · exact (List.cons_eq_cons.1 here).1.symm
    · exact (apart (shown'.trans shown.symm) shows).elim
  · rcases List.cons_eq_append_iff.1 rest with ⟨rfl, here⟩ | ⟨more', rfl, -⟩
    · exact (List.cons_eq_cons.1 here).1
    · exact (apart (shown.trans shown'.symm) shows').elim

/-- A node of a part of the tree, with what is shown before that part. -/
theorem within {first later : List Expression} (h : StandsBehind before node a)
    (split : e.inOrder = first ++ (a.inOrder ++ later)) (same : shownBy first = written ts) :
    StandsBehind (ts ++ before) node e := by
  obtain ⟨xs, ys, nodes, shown⟩ := h
  refine ⟨first ++ xs, ys ++ later, ?_, ?_⟩
  · simp [split, nodes]
  · rw [shownBy_append, written_append, same, shown]

/-- A node of the part that comes first. -/
theorem first {later : List Expression} (h : StandsBehind before node a) (split : e.inOrder = a.inOrder ++ later) :
    StandsBehind before node e := by
  have split' : e.inOrder = [] ++ (a.inOrder ++ later) := split
  have behind : StandsBehind ([] ++ before) node e := h.within split' rfl
  exact behind

/-- The parenthesis of a group shows nothing. -/
theorem skip (unmarked : t.mark? = none) (h : StandsBehind before node e) : StandsBehind (t :: before) node e := by
  obtain ⟨xs, ys, nodes, shown⟩ := h
  exact ⟨xs, ys, nodes, by rw [written_cons unmarked, shown]⟩

/-- A node that has a right operand stays as it is if the root is given one. -/
theorem withRight_left (h : StandsBehind before node a) (called : node.right ≠ none) (single : a.isList = false)
    (free : a.right = none) (b : Expression) : StandsBehind before node (a.withRight b) := by
  obtain ⟨xs, ys, nodes, shown⟩ := h
  rw [inOrder_of_free single free] at nodes
  -- The root is the last node, and it has no right operand yet.
  obtain ⟨ys', last, rfl⟩ | ⟨rfl, here⟩ : (∃ ys', inOrderOption a.left = xs ++ node :: ys' ∧ ys = ys' ++ [a]) ∨
      xs = inOrderOption a.left ∧ node = a := by
    rcases List.append_eq_append_iff.1 nodes with ⟨more, rfl, rest⟩ | ⟨more, same, rest⟩
    · rcases List.cons_eq_append_iff.1 rest with ⟨rfl, here⟩ | ⟨more', rfl, none⟩
      · exact .inr ⟨by simp, (List.cons_eq_cons.1 here).1⟩
      · simp at none
    · rcases List.cons_eq_append_iff.1 rest with ⟨rfl, here⟩ | ⟨more', rfl, rfl⟩
      · exact .inr ⟨by simpa using same.symm, (List.cons_eq_cons.1 here).1.symm⟩
      · exact .inl ⟨more', same, rfl⟩
  · refine ⟨xs, ys' ++ a.withRight b :: b.inOrder, ?_, shown⟩
    rw [inOrder_withRight single, last, List.append_assoc, List.cons_append]
  · rw [here] at called
    exact absurd free called

/-- A node of the operand that is put on the right. -/
theorem withRight_right (h : StandsBehind before node b) (single : a.isList = false) (free : a.right = none)
    (same : shownBy a.inOrder = written ts) : StandsBehind (ts ++ before) node (a.withRight b) := by
  have split : (a.withRight b).inOrder = (inOrderOption a.left ++ [a.withRight b]) ++ (b.inOrder ++ []) := by
    simp [inOrder_withRight single]
  refine h.within split ?_
  rw [inOrder_of_free single free, shownBy_append] at same
  rw [shownBy_append]
  exact same

/-- A node of the right operand of an operation, whose own token stands between its operands. -/
theorem operand (h : StandsBehind before node b) (marked : t.mark? = some entry.mark)
    (same : shownBy (inOrderOption left) = written ts) :
    StandsBehind (ts ++ [t] ++ before) node ⟨.reference entry, left, some b⟩ := by
  have split : inOrder ⟨.reference entry, left, some b⟩ =
      (inOrderOption left ++ [⟨.reference entry, left, some b⟩]) ++ (b.inOrder ++ []) := by
    simp [inOrder_reference, inOrderOption]
  have shown : shownBy [⟨.reference entry, left, some b⟩] = written [t] := shownBy_singleton marked.symm
  refine h.within split ?_
  rw [shownBy_append, written_append, same, shown]

/-- A node of the left one of two operands side by side. -/
theorem beside_left (h : StandsBehind before node a) (called : node.right ≠ none) (single : a.isList = false)
    (star : Entry) (b : Expression) : StandsBehind before node (a.beside star b) := by
  unfold beside
  split
  · exact h.first inOrder_reference
  · next free => exact h.withRight_left called single (by simpa using free) b

/-- A node of the right one. If a product is put in, its sign is not counted. -/
theorem beside_right {star : Entry} (h : StandsBehind before node b) (sign : star.mark = .sign "*")
    (single : a.isList = false) (same : shownBy a.inOrder = written ts) :
    StandsBehind (ts ++ before) node (a.beside star b) := by
  unfold beside
  split
  · have split : inOrder ⟨.reference star, some a, some b⟩ =
        (a.inOrder ++ [⟨.reference star, some a, some b⟩]) ++ (b.inOrder ++ []) := by
      simp [inOrder_reference, inOrderOption]
    refine h.within split ?_
    rw [shownBy_append, same]
    simp [shownBy, mark?, sign, Mark.isStar]
  · next free => exact h.withRight_right single (by simpa using free) same

end StandsBehind

end Reckoner.Expression
