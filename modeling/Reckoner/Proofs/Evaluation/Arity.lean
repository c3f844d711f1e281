import Reckoner.Proofs.Evaluation.Safety
import Reckoner.Proofs.Grammar.Arguments

/-!
# The arity of a call

A call has on its right as many arguments as are written between its parentheses, each with
the tree and the value that it has alone, although a single argument stands there without
a list and may itself own one. So the arity that is checked is the arity that is
written.
-/

namespace Reckoner

open Expression Grammar

variable {c : Catalog} {next : Option TokenKind} {inner : List Token} {args : List (List Token)} {n o q : Token}
  {e r a tree : Expression} {entry : Entry} {content : Option Expression} {draws : Draws} {cause : EvalError}

theorem itemAt?_natCast {α : Type} (xs : List α) (i : Nat) : itemAt? xs (i : Int) = xs[i]? := by
  rw [itemAt?, if_neg (by omega), Int.toNat_natCast]

/-- The arguments of a tree are found by their positions. -/
theorem Expression.argument_eq_ok {i : Nat} (there : r.asArguments[i]? = some tree) : r.argument i = .ok tree := by
  obtain ⟨operation, left, right⟩ := r
  cases operation with
  | arguments items =>
    have found : items[i]? = some tree := there
    simp only [argument, itemAt?_natCast, found]
  | _ =>
    rw [asArguments_of_not_list rfl] at there
    simp only [argument, itemAt?_natCast, there]

/-- In the position of an argument a tree has the value of that argument. -/
theorem whole_argument {i : Nat} (there : r.asArguments[i]? = some tree) : whole (some (i : Int)) r = whole none tree := by
  obtain ⟨operation, left, right⟩ := r
  cases operation with
  | arguments items =>
    have found : items[i]? = some tree := there
    rw [whole_eq]
    simp only [evaluateNode, Option.bind_some, itemAt?_natCast, found]
  | _ =>
    rw [asArguments_of_not_list rfl, List.getElem?_singleton] at there
    split at there
    · cases there
      exact whole_of_single rfl _
    · cases there

/-- Positions matter only to argument lists. -/
theorem Expression.evaluateAt_of_single (single : e.isList = false) (index : Option Int) (draws : Draws) :
    e.evaluateAt index draws = e.evaluate draws := by
  have same : whole index e = whole none e := whole_of_single single index
  exact congrArg (fun m => (m.run draws).map Prod.fst) same

/-- An error of an evaluation is raised by a node of the tree. -/
theorem Expression.Evaluable.raised (h : e.Evaluable) (failed : e.evaluate draws = .error cause) :
    ∃ node ∈ e.nodes, cause.RaisedBy node := by
  have outcome := h.evaluate draws
  rw [failed] at outcome
  obtain ⟨visit, come, failure⟩ := List.exists_of_findSome?_eq_some outcome
  exact ⟨visit.node, e.route_within draws visit come, visit.raisedBy failure⟩

/-- The nodes of a tree have their children in it. -/
theorem Expression.mem_nodes_of_child (e : Expression) : ∀ node ∈ e.nodes, ∀ child ∈ node.children, child ∈ e.nodes := by
  induction e using induction_on_children with
  | step e ih =>
    have inside {a : Expression} (member : a ∈ e.children) {b : Expression} (below : b ∈ a.nodes) : b ∈ e.nodes := by
      rw [nodes_eq]
      exact List.mem_cons_of_mem _ (List.mem_flatMap.2 ⟨a, member, below⟩)
    refine forall_nodes.2 ⟨fun child member => ?_, fun a member node below child further => ?_⟩
    · exact inside member (by simp [nodes_eq child])
    · exact inside member (ih a member node below child further)

/-- What a call with some content stands for, behind its name. -/
theorem Grammar.Fills.call (fills : Fills c inner content) (name : n.kind = .name) (known : c.lookup? n.text = some entry)
    (opening : o.kind = .opening) (closing : q.kind = .closing) :
    Phrase c true next .element (n :: o :: (inner ++ [q])) (called entry content) := by
  cases fills with
  | empty => exact .emptyCall name known opening closing
  | arguments phrase => exact .call name known opening phrase closing

/-- What is written between the parentheses stands on the right of a call, unless it is that of a constant
without arguments. -/
theorem Grammar.Fills.right_called (regular : c.Regular) (fills : Fills c inner content) (written : Separated args inner)
    (filled : args ≠ [] ∨ entry.kind ≠ .nullary) : ∃ r, (called entry content).right = some r ∧
      List.Forall₂ (fun a tree => Phrase c true none .sum a tree) args r.asArguments := by
  cases fills with
  | empty =>
    obtain rfl : args = [] := written.eq_nil_iff.2 rfl
    have other : entry.kind ≠ .nullary := by simpa using filled
    exact ⟨.arguments [], by simp [called, emptyCall, other, withRight], .nil⟩
  | @arguments _ content phrase =>
    have some_argument : args ≠ [] := fun none => phrase.ne_nil (written.eq_nil_iff.1 none)
    exact ⟨content, rfl, (written.trees regular some_argument phrase).imp fun a tree alone => alone none (by simp)⟩

/-- A call is refused by its arity for as many arguments as the arity does not admit. -/
theorem Expression.Evaluable.argumentCount_iff (h : e.Evaluable) (operation : e.operation = .reference entry)
    (kind : entry.kind = .unary ∨ entry.kind = .variadic) :
    e.evaluate draws = .error (.argumentCount entry.name entry.arity (argumentTotal e.right)) ↔
      entry.arity.admits (argumentTotal e.right) = false := by
  constructor
  · intro failed
    obtain ⟨node, -, raised⟩ := h.raised failed
    generalize error : EvalError.argumentCount entry.name entry.arity (argumentTotal e.right) = cause at raised
    cases raised with
    | call _ refused =>
      obtain ⟨-, arity, count⟩ := EvalError.argumentCount.inj error
      rw [arity, count]
      exact refused
    | factorial => cases error
    | constant => cases error
  · intro refused
    have checked : entry.checkArguments e.right =
        .error (.argumentCount entry.name entry.arity (argumentTotal e.right)) := by
      rcases kind with kind | kind <;> simp [Entry.checkArguments, kind, refused]
    rw [Expression.evaluate_eq, whole_eq]
    simp only [evaluateNode, operation, checked]
    rfl

/-- A constant is refused by its arity for an argument list. -/
theorem Expression.Evaluable.listRefused_iff (h : e.Evaluable) (wf : e.WellFormed) (operation : e.operation = .reference entry)
    (nullary : entry.kind = .nullary) (filled : 0 < argumentTotal e.right) :
    e.evaluate draws = .error (.listRefused entry.name (argumentTotal e.right)) ↔ 2 ≤ argumentTotal e.right := by
  constructor
  · intro failed
    obtain ⟨node, member, raised⟩ := h.raised failed
    generalize error : EvalError.listRefused entry.name (argumentTotal e.right) = cause at raised
    cases raised with
    | @constant entry' left list _ several =>
      obtain ⟨-, count⟩ := EvalError.listRefused.inj error
      have inside : list ∈ e.nodes := e.mem_nodes_of_child _ member list (by simp [children])
      obtain ⟨items, rfl, length, -⟩ := (wf.nodes list inside).eq_arguments several
      change argumentTotal e.right = items.length at count
      omega
    | factorial => cases error
    | call => cases error
  · intro several
    obtain ⟨r, there⟩ : ∃ r, e.right = some r := by
      cases right : e.right with
      | none => simp [right, argumentTotal] at filled
      | some r => exact ⟨r, rfl⟩
    have list : r.isList = true := by
      by_contra single
      rw [there, argumentTotal, argumentCount_eq, asArguments_of_not_list (by simpa using single)] at several
      simp at several
    have checked : entry.checkArguments e.right = .error (.listRefused entry.name (argumentTotal e.right)) := by
      simp [Entry.checkArguments, nullary, there, list, argumentTotal]
    rw [Expression.evaluate_eq, whole_eq]
    simp only [evaluateNode, operation, checked]
    rfl

/-- A call that is read over the standard operations and any constants, whose name is that of a function or has
arguments behind it, is the one node in the place of the name. On its right it has as many arguments as are written,
each with the tree and the value that it has alone. If the evaluation comes to the call, its arity refuses
it exactly for a number of arguments that it does not admit, and a constant for two and more. -/
theorem expression_call (constants : List (String × Float)) {before inner after : List Token} {n o q : Token}
    {args : List (List Token)} {root : Expression}
    (built : (Catalog.standard.withConstants constants).expression (before ++ n :: o :: (inner ++ q :: after)) = .ok root)
    (name : n.kind = .name) (opening : o.kind = .opening) (closing : q.kind = .closing) (written : Separated args inner) :
    ∃ entry, (Catalog.standard.withConstants constants).lookup? n.text = some entry ∧
      (args ≠ [] ∨ entry.kind ≠ .nullary → ∃ node r, StandsBehind before node root ∧
        (∀ node', StandsBehind before node' root → node'.operation = .reference entry → node' = node) ∧
        node.operation = .reference entry ∧ node.left = none ∧ node.right = some r ∧ r.argumentCount = args.length ∧
        (∀ (i : Nat) a, args[i]? = some a → ∃ tree, (Catalog.standard.withConstants constants).expression a = .ok tree ∧
          r.argument i = .ok tree ∧ ∀ draws, r.evaluateAt (some i) draws = tree.evaluate draws) ∧
        ∀ index draws,
          (entry.kind ≠ .nullary → (node.evaluateAt index draws =
            .error (.argumentCount entry.name entry.arity args.length) ↔ entry.arity.admits args.length = false)) ∧
          (entry.kind = .nullary → (node.evaluateAt index draws =
            .error (.listRefused entry.name args.length) ↔ 2 ≤ args.length))) := by
  have regular := Catalog.regular_withConstants constants
  have phrase := (expression_eq_ok_iff regular).1 built
  have same : before ++ n :: o :: (inner ++ q :: after) = (before ++ [n]) ++ o :: (inner ++ q :: after) := by simp
  obtain ⟨content, group⟩ := phrase.groupsAt regular opening closing written.balanced same
  obtain ⟨entry, known, stands⟩ := group.called before n rfl name
  refine ⟨entry, known, fun filled => ?_⟩
  obtain ⟨r, there, alone⟩ := group.fills.right_called regular written filled
  have count : r.argumentCount = args.length := by rw [argumentCount_eq, alone.length_eq]
  have total : argumentTotal (called entry content).right = args.length := by rw [there, argumentTotal, count]
  have operation := operation_called entry content
  have shows (node : Expression) (operation : node.operation = .reference entry) : shownBy [node] ≠ [] := by
    simp [shownBy, mark?, operation, Catalog.mark_of_lookup? known, Mark.isStar]
  have place : StandsBehind before (called entry content) root := stands (by simp [there])
  have call : Phrase (Catalog.standard.withConstants constants) true none .element (n :: o :: (inner ++ [q]))
      (called entry content) := group.fills.call name known opening closing
  have wf := (call.denotes regular).1 (by decide)
  have evaluable := wf.evaluable (call.genuine regular)
  refine ⟨called entry content, r, place, fun node' place' operation' => ?_, operation, left_called entry content, there,
    count, fun i a inside => ?_, fun index draws => ?_⟩
  · exact place'.unique place (shows node' operation') (shows _ operation)
  · obtain ⟨tree, item, phrase⟩ : ∃ tree, r.asArguments[i]? = some tree ∧
        Phrase (Catalog.standard.withConstants constants) true none .sum a tree := by
      obtain ⟨within, rfl⟩ := List.getElem?_eq_some_iff.1 inside
      have within' : i < r.asArguments.length := alone.length_eq ▸ within
      exact ⟨_, List.getElem?_eq_getElem within', alone.get within within'⟩
    refine ⟨tree, (expression_eq_ok_iff regular).2 phrase, argument_eq_ok item, fun draws => ?_⟩
    exact congrArg (fun m => (m.run draws).map Prod.fst) (whole_argument item)
  · rw [evaluateAt_of_single wf.root, ← total]
    refine ⟨fun other => evaluable.argumentCount_iff operation ?_, fun nullary => ?_⟩
    · simpa [other] using (regular.named known).kind
    · refine evaluable.listRefused_iff wf operation nullary ?_
      rw [total]
      exact List.length_pos_iff.2 (filled.resolve_right (by simp [nullary]))

/-- In `2+abs(max(e,pi))` the function `abs` has one argument, which is a call of two. -/
theorem expression_call_nested :
    let c := Catalog.standard.withConstants []
    let argument : List Token :=
      [⟨.name, "max", 6⟩, ⟨.opening, "(", 9⟩, ⟨.name, "e", 10⟩, ⟨.comma, ",", 11⟩, ⟨.name, "pi", 12⟩, ⟨.closing, ")", 14⟩]
    let before : List Token := [⟨.number, "2", 0⟩, ⟨.operator .plus, "+", 1⟩]
    ∃ root node r tree,
      c.expression (before ++ ⟨.name, "abs", 2⟩ :: ⟨.opening, "(", 5⟩ :: (argument ++ [⟨.closing, ")", 15⟩])) = .ok root ∧
        StandsBehind before node root ∧ node.right = some r ∧ r.argumentCount = 1 ∧ c.expression argument = .ok tree ∧
        r.argument 0 = .ok tree ∧ ∀ draws, node.evaluate draws ≠ .error (.argumentCount "abs" ⟨1, some 1⟩ 1) := by
  intro c argument before
  have regular : c.Regular := Catalog.regular_withConstants []
  obtain ⟨root, built⟩ : ∃ root,
      c.expression (before ++ ⟨.name, "abs", 2⟩ :: ⟨.opening, "(", 5⟩ :: (argument ++ [⟨.closing, ")", 15⟩])) = .ok root :=
    ⟨_, rfl⟩
  obtain ⟨inner, built'⟩ : ∃ inner, c.expression argument = .ok inner := ⟨_, rfl⟩
  have written : Separated [argument] argument := .one (((expression_eq_ok_iff regular).1 built').isArgument le_rfl)
  obtain ⟨entry, known, call⟩ := expression_call [] (n := ⟨.name, "abs", 2⟩) (o := ⟨.opening, "(", 5⟩)
    (q := ⟨.closing, ")", 15⟩) built rfl rfl rfl written
  obtain ⟨node, r, place, -, -, -, there, count, items, refused⟩ := call (.inl (List.cons_ne_nil _ _))
  obtain ⟨tree, alone, item, -⟩ := items 0 argument rfl
  refine ⟨root, node, r, tree, built, place, there, count, alone, item, fun draws failed => ?_⟩
  cases known
  have admitted := ((refused none draws).1 (by decide)).1 failed
  exact absurd admitted (by decide)

end Reckoner
