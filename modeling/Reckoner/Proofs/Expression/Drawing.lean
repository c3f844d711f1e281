import Mathlib.Data.List.Forall2
import Reckoner.Expression.Outline
import Reckoner.Proofs.Expression.Depth
import Reckoner.Proofs.Text.Lines

/-!
# Drawn trees

A drawing has a line for every node, in pre-order, and the blanks in front of the line tell the depth of
the node. So the lines of a subtree end where a line stands that is not indented further than its root, and
the drawing can be read back as far as the captions tell the operations apart.
-/

namespace Reckoner.Expression

open Text

mutual

/-- The nodes in the order of `nodes`, each with its depth; that of the root is given. -/
def preorder (depth : Nat) : Expression → List (Expression × Nat)
  | ⟨.arguments items, left, right⟩ =>
    (⟨.arguments items, left, right⟩, depth) ::
      (preorderOption (depth + 1) left ++ preorderOption (depth + 1) right ++ preorderList (depth + 1) items)
  | ⟨operation, left, right⟩ =>
    (⟨operation, left, right⟩, depth) :: (preorderOption (depth + 1) left ++ preorderOption (depth + 1) right)

def preorderOption (depth : Nat) : Option Expression → List (Expression × Nat)
  | none => []
  | some e => e.preorder depth

def preorderList (depth : Nat) : List Expression → List (Expression × Nat)
  | [] => []
  | e :: rest => e.preorder depth ++ preorderList depth rest

end

mutual

/-- The tree with `f` applied to the values of its numbers. -/
def mapValues (f : Float → Float) : Expression → Expression
  | ⟨.literal value, left, right⟩ => ⟨.literal (f value), mapValuesOption f left, mapValuesOption f right⟩
  | ⟨.reference entry, left, right⟩ => ⟨.reference entry, mapValuesOption f left, mapValuesOption f right⟩
  | ⟨.arguments items, left, right⟩ =>
    ⟨.arguments (mapValuesList f items), mapValuesOption f left, mapValuesOption f right⟩
  | ⟨.bare, left, right⟩ => ⟨.bare, mapValuesOption f left, mapValuesOption f right⟩
  | ⟨.boundary symbol position, left, right⟩ =>
    ⟨.boundary symbol position, mapValuesOption f left, mapValuesOption f right⟩

def mapValuesOption (f : Float → Float) : Option Expression → Option Expression
  | none => none
  | some e => some (e.mapValues f)

def mapValuesList (f : Float → Float) : List Expression → List Expression
  | [] => []
  | e :: rest => e.mapValues f :: mapValuesList f rest

end

/-- `f` depends on the six digits only that a drawing shows of a number. -/
def OfSixDigits (f : Float → Float) : Prop :=
  ∀ value value', (Decimal.Layout.general 6).write value = (Decimal.Layout.general 6).write value' → f value = f value'

/-- The words that say which child of its parent a node is. -/
inductive IsPlace : String → Prop where
  | root : IsPlace ""
  | left : IsPlace "left: "
  | right : IsPlace "right: "
  | item (index : Nat) : IsPlace ("arg[" ++ toString index ++ "]: ")

/-- The line of a node at some depth: an indent for every level above it, its place and its caption. -/
def IsLineOf (indent line : String) (node : Expression × Nat) : Prop :=
  ∃ place, IsPlace place ∧ line = repeated (node.2 - 1) indent ++ place ++ caption node.1.operation

variable {e : Expression}

section Order

theorem preorderList_eq (depth : Nat) (es : List Expression) : preorderList depth es = es.flatMap (preorder depth) := by
  induction es with
  | nil => rfl
  | cons e rest ih => rw [preorderList, ih, List.flatMap_cons]

theorem preorderList_toList (depth : Nat) (o : Option Expression) : preorderList depth o.toList = preorderOption depth o := by
  cases o <;> simp [preorderList, preorderOption]

/-- The root comes first, then its children, one level deeper. -/
theorem preorder_eq (depth : Nat) (e : Expression) :
    e.preorder depth = (e, depth) :: e.children.flatMap (preorder (depth + 1)) := by
  obtain ⟨operation, left, right⟩ := e
  simp only [children, List.flatMap_append, ← preorderList_eq, preorderList_toList]
  cases operation <;> simp [preorder, Operation.items, preorderList]

theorem map_fst_preorder (depth : Nat) (e : Expression) : (e.preorder depth).map Prod.fst = e.nodes := by
  induction e using induction_on_children generalizing depth with
  | step e ih =>
    rw [preorder_eq, nodes_eq, List.map_cons, List.map_flatMap]
    congr 1
    exact List.flatMap_congr fun child member => ih child member (depth + 1)

theorem depthList_eq_zero_or (es : List Expression) : depthList es = 0 ∨ ∃ e ∈ es, e.depth = depthList es := by
  induction es with
  | nil => exact .inl rfl
  | cons e rest ih =>
    right
    rw [depthList]
    by_cases deeper : e.depth ≤ depthList rest
    · rcases ih with none | ⟨child, member, deepest⟩
      · have some := depth_pos e
        omega
      · exact ⟨child, List.mem_cons_of_mem e member, by omega⟩
    · exact ⟨e, List.mem_cons_self, by omega⟩

theorem lt_of_mem_preorder {depth : Nat} {x : Expression × Nat} (member : x ∈ e.preorder depth) : x.2 < depth + e.depth := by
  induction e using induction_on_children generalizing depth with
  | step e ih =>
    rw [preorder_eq, List.mem_cons, List.mem_flatMap] at member
    rcases member with rfl | ⟨child, below, member⟩
    · have some := depth_pos e
      omega
    · have less := depth_lt below
      have bound := ih child below member
      omega

/-- Some node is as deep as the tree. -/
theorem exists_deepest (depth : Nat) (e : Expression) : ∃ x ∈ e.preorder depth, x.2 + 1 = depth + e.depth := by
  induction e using induction_on_children generalizing depth with
  | step e ih =>
    have levels := depth_eq e
    rw [preorder_eq]
    rcases depthList_eq_zero_or e.children with none | ⟨child, below, deepest⟩
    · exact ⟨(e, depth), List.mem_cons_self, by omega⟩
    · obtain ⟨x, member, deep⟩ := ih child below (depth + 1)
      exact ⟨x, List.mem_cons_of_mem _ (List.mem_flatMap.2 ⟨child, below, member⟩), by omega⟩

end Order

section Lines

variable {indent place line : String} {level : Nat}

/-- The lines below that of a node. -/
def linesBelow (indent : String) (level : Nat) (e : Expression) : List String :=
  match e.operation with
  | .arguments items => linesList indent level 0 items
  | _ => linesOption indent level "left: " e.left ++ linesOption indent level "right: " e.right

theorem lines_eq (indent : String) (level : Nat) (place : String) (e : Expression) :
    e.lines indent level place = (repeated level indent ++ place ++ caption e.operation) :: e.linesBelow indent (level + 1) := by
  obtain ⟨operation, left, right⟩ := e
  cases operation <;> rfl

theorem forall_linesOption {o : Option Expression} (at_place : IsPlace place)
    (known : ∀ child ∈ o, ∀ place, IsPlace place →
      List.Forall₂ (IsLineOf indent) (child.lines indent level place) (child.preorder (level + 1))) :
    List.Forall₂ (IsLineOf indent) (linesOption indent level place o) (preorderOption (level + 1) o) := by
  cases o with
  | none => exact .nil
  | some child => exact known child rfl place at_place

theorem forall_linesList {items : List Expression} (index : Nat)
    (known : ∀ child ∈ items, ∀ place, IsPlace place →
      List.Forall₂ (IsLineOf indent) (child.lines indent level place) (child.preorder (level + 1))) :
    List.Forall₂ (IsLineOf indent) (linesList indent level index items) (preorderList (level + 1) items) := by
  induction items generalizing index with
  | nil => exact .nil
  | cons child rest ih =>
    have first := known child List.mem_cons_self _ (.item index)
    have others := ih (index + 1) fun child later => known child (List.mem_cons_of_mem _ later)
    exact List.rel_append first others

/-- If argument lists have no operands, every node has its line. -/
theorem forall_lines (shaped : ∀ n ∈ e.nodes, n.WellShaped) (at_place : IsPlace place) :
    List.Forall₂ (IsLineOf indent) (e.lines indent level place) (e.preorder (level + 1)) := by
  induction e using induction_on_children generalizing level place with
  | step e ih =>
    obtain ⟨here, below⟩ := forall_nodes.1 shaped
    have known : ∀ child ∈ e.children, ∀ place, IsPlace place →
        List.Forall₂ (IsLineOf indent) (child.lines indent (level + 1) place) (child.preorder (level + 1 + 1)) :=
      fun child member place at_place => ih child member (below child member) at_place
    rw [lines_eq]
    obtain ⟨operation, left, right⟩ := e
    have first : IsLineOf indent (repeated level indent ++ place ++ caption operation) (⟨operation, left, right⟩, level + 1) :=
      ⟨place, at_place, rfl⟩
    have on_left := forall_linesOption .left fun child there => known child (left_mem_children there)
    have on_right := forall_linesOption .right fun child there => known child (right_mem_children there)
    cases operation with
    | arguments items =>
      obtain ⟨rfl, rfl, -⟩ := here.operands
      exact .cons first (forall_linesList 0 fun child there => known child (item_mem_children there))
    | literal | reference | bare | boundary => exact .cons first (List.rel_append on_left on_right)

end Lines

section Indentation

variable {indent place label line : String} {level : Nat}

/-- The text does not begin with a blank. -/
def Firm (text : String) : Prop := text.toList.head? ≠ some ' '

/-- The letter that the caption of an operation begins with. -/
def initial : Operation Expression → Char
  | .literal _ => 'L'
  | .reference _ => 'F'
  | .arguments _ => 'A'
  | .bare => 'O'
  | .boundary .. => 'M'

theorem head?_caption (operation : Operation Expression) : (caption operation).toList.head? = some (initial operation) := by
  cases operation with
  | reference entry =>
    unfold caption
    dsimp only
    split <;> simp [initial, String.toList_append]
  | literal | arguments | bare | boundary => simp [initial, caption, describeMarker, String.toList_append]

theorem firm_caption (operation : Operation Expression) : Firm (caption operation) := by
  rw [Firm, head?_caption]
  cases operation <;> simp [initial]

theorem IsPlace.firm (at_place : IsPlace place) (operation : Operation Expression) :
    Firm (place ++ caption operation) := by
  have caption_firm := firm_caption operation
  cases at_place with
  | root => rwa [String.empty_append]
  | left | right | item => simp [Firm, String.toList_append]

theorem toList_repeated (blanks : IsIndent indent) (level : Nat) :
    (repeated level indent).toList = List.replicate (level * indent.length) ' ' := by
  rw [repeated, String.toList_join]
  induction level with
  | zero => simp
  | succ level ih =>
    rw [List.replicate_succ', List.flatMap_append, ih, List.flatMap_singleton, blanks.toList_eq,
      List.replicate_append_replicate, Nat.succ_mul]

/-- An indented line has as many blanks as its indents have together. -/
theorem leading_line (blanks : IsIndent indent) (firm : Firm label) :
    leading (repeated level indent ++ label) = level * indent.length := by
  have none : label.toList.takeWhile (· == ' ') = [] := by
    unfold Firm at firm
    cases chars : label.toList with
    | nil => rfl
    | cons ch rest =>
      rw [chars] at firm
      have other : (ch == ' ') = false := by simpa using firm
      rw [List.takeWhile_cons, other]
      rfl
  have all : ∀ ch ∈ List.replicate (level * indent.length) ' ', (ch == ' ') = true := by
    intro ch member
    rw [List.eq_of_mem_replicate member]
    rfl
  rw [leading, String.toList_append, toList_repeated blanks, List.takeWhile_append_of_pos all, none, List.append_nil,
    List.length_replicate]

/-- The line of a node tells its depth. -/
theorem IsLineOf.leading {x : Expression × Nat} (blanks : IsIndent indent) (drawn : IsLineOf indent line x) :
    Text.leading line = (x.2 - 1) * indent.length := by
  obtain ⟨place, at_place, rfl⟩ := drawn
  rw [String.append_assoc]
  exact leading_line blanks (at_place.firm _)

/-- A node at depth `d` stands behind `d - 1` indents. -/
theorem IsLineOf.indentation {x : Expression × Nat} (blanks : IsIndent indent) (drawn : IsLineOf indent line x) :
    Text.indentation indent line = x.2 - 1 := by
  rw [Text.indentation, drawn.leading blanks, Nat.mul_div_cancel _ blanks.length_pos]

theorem map_lines {α : Type} {f : String → α} {g : Expression × Nat → α} (shaped : ∀ n ∈ e.nodes, n.WellShaped)
    (known : ∀ line x, IsLineOf indent line x → f line = g x) :
    (e.lines indent 0 "").map f = (e.preorder 1).map g := by
  rw [← List.forall₂_eq_eq_eq, List.forall₂_map_left_iff, List.forall₂_map_right_iff]
  exact (forall_lines shaped .root).imp known

/-- The deepest line shows the depth of the tree. -/
theorem max?_indentation (blanks : IsIndent indent) (shaped : ∀ n ∈ e.nodes, n.WellShaped) :
    ((e.lines indent 0 "").map (Text.indentation indent)).max? = some (e.depth - 1) := by
  rw [map_lines shaped fun line x drawn => drawn.indentation blanks, List.max?_eq_some_iff]
  have some := depth_pos e
  constructor
  · obtain ⟨x, member, deep⟩ := exists_deepest 1 e
    exact List.mem_map.2 ⟨x, member, by omega⟩
  · intro level member
    obtain ⟨x, inside, rfl⟩ := List.mem_map.1 member
    have bound := lt_of_mem_preorder inside
    omega

theorem exists_node_of_line {ls : List String} {xs : List (Expression × Nat)} (drawn : List.Forall₂ (IsLineOf indent) ls xs)
    (member : line ∈ ls) : ∃ x ∈ xs, IsLineOf indent line x := by
  induction drawn with
  | nil => cases member
  | @cons _ x _ _ first _ ih =>
    rcases List.mem_cons.1 member with rfl | later
    · exact ⟨x, List.mem_cons_self, first⟩
    · obtain ⟨y, inside, known⟩ := ih later
      exact ⟨y, List.mem_cons_of_mem x inside, known⟩

theorem IsPlace.oneLine (at_place : IsPlace place) : OneLine place := by
  cases at_place with
  | root | left | right => decide
  | item index => exact .append (.append (by decide) (.natural index)) (by decide)

theorem oneLine_repeated (blanks : IsIndent indent) (level : Nat) : OneLine (repeated level indent) := by
  intro feed
  rw [toList_repeated blanks] at feed
  exact absurd (List.eq_of_mem_replicate feed) (by decide)

/-- If no caption is broken, the lines of the text are those it was drawn with. -/
theorem textLines_drawing (blanks : IsIndent indent) (shaped : ∀ n ∈ e.nodes, n.WellShaped)
    (single : ∀ n ∈ e.nodes, OneLine (caption n.operation)) :
    textLines (e.drawing indent) = e.lines indent 0 "" := by
  apply textLines_intercalate
  · intro line member
    obtain ⟨x, inside, place, at_place, rfl⟩ := exists_node_of_line (forall_lines shaped .root) member
    have node : x.1 ∈ e.nodes := by
      rw [← map_fst_preorder 1 e]
      exact List.mem_map_of_mem inside
    exact .append (.append (oneLine_repeated blanks _) at_place.oneLine) (single _ node)
  · rw [lines_eq]
    exact List.cons_ne_nil _ _

end Indentation

section Reading

variable {indent place : String} {level : Nat} {rest rest' : List String} {e' : Expression} {f : Float → Float}

/-- The next line, if there is any, is indented no further than `level`. -/
def Low (indent : String) (level : Nat) (rest : List String) : Prop :=
  ∀ line ∈ rest.head?, leading line ≤ level * indent.length

/-- The next line is not that of a node on `level` at `place`. -/
def Closed (indent : String) (level : Nat) (place : String) (rest : List String) : Prop :=
  ∀ operation, rest.head? ≠ some (repeated level indent ++ place ++ caption operation)

/-- The operations that a drawing may show alike: numbers, one entry, or lists. -/
inductive ShownAlike : Operation Expression → Operation Expression → Prop where
  | literal (value value' : Float) : ShownAlike (.literal value) (.literal value')
  | reference (entry : Entry) : ShownAlike (.reference entry) (.reference entry)
  | arguments (items items' : List Expression) : ShownAlike (.arguments items) (.arguments items')

/-- Of two trees that are drawn alike on a level, whatever follows the drawings, the shape and the operations are the same,
and so is what follows. -/
def ReadBack (f : Float → Float) (indent : String) (level : Nat) (a b : Expression) : Prop :=
  ∀ place rest rest', Low indent level rest → Low indent level rest' →
    a.lines indent level place ++ rest = b.lines indent level place ++ rest' →
      a.mapValues f = b.mapValues f ∧ rest = rest'

theorem Low.succ (low : Low indent level rest) : Low indent (level + 1) rest := by
  intro line next
  have bound := low line next
  rw [Nat.succ_mul]
  omega

/-- The first line of a tree on a level is indented as far as the level says. -/
theorem low_lines (blanks : IsIndent indent) (at_place : IsPlace place) (e : Expression) (rest : List String) :
    Low indent level (e.lines indent level place ++ rest) := by
  intro line next
  rw [lines_eq, List.cons_append, List.head?_cons, Option.mem_some] at next
  rw [← next, String.append_assoc]
  exact Nat.le_of_eq (leading_line blanks (at_place.firm _))

theorem low_linesOption (blanks : IsIndent indent) (at_place : IsPlace place) (o : Option Expression)
    (low : Low indent level rest) : Low indent level (linesOption indent level place o ++ rest) := by
  cases o with
  | none => exact low
  | some child => exact low_lines blanks at_place child rest

theorem low_linesList (blanks : IsIndent indent) (index : Nat) (items : List Expression)
    (low : Low indent level rest) : Low indent level (linesList indent level index items ++ rest) := by
  cases items with
  | nil => exact low
  | cons child others =>
    rw [linesList, List.append_assoc]
    exact low_lines blanks (.item index) child _

/-- A line that is not indented far enough ends the children of a node. -/
theorem Low.closed (blanks : IsIndent indent) (at_place : IsPlace place) (low : Low indent level rest) :
    Closed indent (level + 1) place rest := by
  intro operation next
  have wide := blanks.length_pos
  have bound := low _ next
  rw [String.append_assoc, leading_line blanks (at_place.firm _), Nat.succ_mul] at bound
  omega

/-- No right operand is taken for a left one. -/
theorem closed_right (blanks : IsIndent indent) (o : Option Expression) (low : Low indent level rest) :
    Closed indent (level + 1) "left: " (linesOption indent (level + 1) "right: " o ++ rest) := by
  cases o with
  | none => exact low.closed blanks .left
  | some child =>
    intro operation next
    rw [linesOption, lines_eq, List.cons_append, List.head?_cons, Option.some_inj, String.append_assoc, String.append_assoc,
      String.append_right_inj] at next
    have first := congrArg (fun text => text.toList.head?) next
    simp [String.toList_append] at first

/-- What is drawn at a place ends where something else begins. -/
theorem option_of_lines {o o' : Option Expression} (closed : Closed indent level place rest)
    (closed' : Closed indent level place rest')
    (known : ∀ a ∈ o, ∀ b ∈ o', a.lines indent level place ++ rest = b.lines indent level place ++ rest' →
      a.mapValues f = b.mapValues f ∧ rest = rest')
    (same : linesOption indent level place o ++ rest = linesOption indent level place o' ++ rest') :
    mapValuesOption f o = mapValuesOption f o' ∧ rest = rest' := by
  cases o with
  | none =>
    cases o' with
    | none => exact ⟨rfl, same⟩
    | some b =>
      rw [linesOption, linesOption, lines_eq, List.nil_append, List.cons_append] at same
      exact absurd (congrArg List.head? same) (closed _)
  | some a =>
    cases o' with
    | none =>
      rw [linesOption, linesOption, lines_eq, List.nil_append, List.cons_append] at same
      exact absurd (congrArg List.head? same.symm) (closed' _)
    | some b =>
      obtain ⟨children, others⟩ := known a rfl b rfl same
      exact ⟨congrArg some children, others⟩

/-- The items of a list end where the indentation does. -/
theorem list_of_lines {items items' : List Expression} (blanks : IsIndent indent) (low : Low indent level rest)
    (low' : Low indent level rest') (index : Nat)
    (known : ∀ a ∈ items, ∀ b ∈ items', ReadBack f indent (level + 1) a b)
    (same : linesList indent (level + 1) index items ++ rest = linesList indent (level + 1) index items' ++ rest') :
    mapValuesList f items = mapValuesList f items' ∧ rest = rest' := by
  induction items generalizing items' index with
  | nil =>
    cases items' with
    | nil => exact ⟨rfl, same⟩
    | cons b others' =>
      rw [linesList, linesList, lines_eq, List.nil_append, List.cons_append, List.cons_append] at same
      exact absurd (congrArg List.head? same) (low.closed blanks (.item index) _)
  | cons a others ih =>
    cases items' with
    | nil =>
      rw [linesList, linesList, lines_eq, List.nil_append, List.cons_append, List.cons_append] at same
      exact absurd (congrArg List.head? same.symm) (low'.closed blanks (.item index) _)
    | cons b others' =>
      rw [linesList, linesList, List.append_assoc, List.append_assoc] at same
      obtain ⟨first, later⟩ := known a List.mem_cons_self b List.mem_cons_self _ _ _
        (low_linesList blanks (index + 1) others low.succ) (low_linesList blanks (index + 1) others' low'.succ) same
      obtain ⟨items, ends⟩ := ih (index + 1)
        (fun a member b member' => known a (List.mem_cons_of_mem _ member) b (List.mem_cons_of_mem _ member')) later
      exact ⟨by rw [mapValuesList, mapValuesList, first, items], ends⟩

/-- Both operands are read back. -/
theorem operands_of_lines {left left' right right' : Option Expression} (blanks : IsIndent indent)
    (low : Low indent level rest) (low' : Low indent level rest')
    (on_left : ∀ a ∈ left, ∀ b ∈ left', ReadBack f indent (level + 1) a b)
    (on_right : ∀ a ∈ right, ∀ b ∈ right', ReadBack f indent (level + 1) a b)
    (same : linesOption indent (level + 1) "left: " left ++ linesOption indent (level + 1) "right: " right ++ rest =
      linesOption indent (level + 1) "left: " left' ++ linesOption indent (level + 1) "right: " right' ++ rest') :
    mapValuesOption f left = mapValuesOption f left' ∧ mapValuesOption f right = mapValuesOption f right' ∧
      rest = rest' := by
  rw [List.append_assoc, List.append_assoc] at same
  obtain ⟨lefts, later⟩ := option_of_lines (closed_right blanks right low) (closed_right blanks right' low')
    (fun a there b there' => on_left a there b there' _ _ _ (low_linesOption blanks .right right low.succ)
      (low_linesOption blanks .right right' low'.succ)) same
  obtain ⟨rights, ends⟩ := option_of_lines (low.closed blanks .right) (low'.closed blanks .right)
    (fun a there b there' => on_right a there b there' _ _ _ low.succ low'.succ) later
  exact ⟨lefts, rights, ends⟩

/-- Trees are read back from their drawings if the captions tell their operations apart. -/
theorem readBack (digits : OfSixDigits f) (blanks : IsIndent indent) (shaped : ∀ n ∈ e.nodes, n.WellShaped)
    (shaped' : ∀ n ∈ e'.nodes, n.WellShaped)
    (captions : ∀ n ∈ e.nodes, ∀ n' ∈ e'.nodes, caption n.operation = caption n'.operation →
      ShownAlike n.operation n'.operation) : ReadBack f indent level e e' := by
  induction e using induction_on_children generalizing e' level with
  | step e ih =>
    obtain ⟨here, below⟩ := forall_nodes.1 shaped
    obtain ⟨here', below'⟩ := forall_nodes.1 shaped'
    obtain ⟨captions_here, captions_below⟩ := forall_nodes.1 captions
    have known : ∀ a ∈ e.children, ∀ b ∈ e'.children, ReadBack f indent (level + 1) a b := by
      intro a member b member'
      apply ih a member (below a member) (below' b member')
      intro n inside n' inside'
      exact (forall_nodes.1 (captions_below a member n inside)).2 b member' n' inside'
    intro place rest rest' low low' same
    rw [lines_eq, lines_eq, List.cons_append, List.cons_append] at same
    obtain ⟨first, later⟩ := List.cons.inj same
    rw [String.append_right_inj] at first
    have alike := (forall_nodes.1 captions_here).1 first
    obtain ⟨operation, left, right⟩ := e
    obtain ⟨operation', left', right'⟩ := e'
    have operands := operands_of_lines blanks low low'
      (fun a there b there' => known a (left_mem_children there) b (left_mem_children there'))
      fun a there b there' => known a (right_mem_children there) b (right_mem_children there')
    cases alike with
    | literal value value' =>
      obtain ⟨lefts, rights, ends⟩ := operands later
      rw [caption, caption, String.append_left_inj, String.append_right_inj] at first
      exact ⟨by rw [mapValues, mapValues, digits value value' first, lefts, rights], ends⟩
    | reference entry =>
      obtain ⟨lefts, rights, ends⟩ := operands later
      exact ⟨by rw [mapValues, mapValues, lefts, rights], ends⟩
    | arguments items items' =>
      obtain ⟨rfl, rfl, -⟩ := here.operands
      obtain ⟨rfl, rfl, -⟩ := here'.operands
      obtain ⟨lists, ends⟩ := list_of_lines blanks low low' 0
        (fun a there b there' => known a (item_mem_children there) b (item_mem_children there')) later
      exact ⟨by rw [mapValues, mapValues, lists], ends⟩

/-- A lone node is drawn without indents. -/
theorem lines_of_lone (lone : e.children = []) (indent indent' : String) : e.lines indent 0 "" = e.lines indent' 0 "" := by
  obtain ⟨operation, left, right⟩ := e
  obtain ⟨rfl, rfl, none⟩ : left = none ∧ right = none ∧ operation.items = [] := by simpa [children] using lone
  cases operation with
  | arguments items =>
    obtain rfl : items = [] := none
    rfl
  | literal | reference | bare | boundary => rfl

/-- The indent is seen at the first line below the root. -/
theorem length_eq_of_lines {indent' : String} (blanks : IsIndent indent) (blanks' : IsIndent indent')
    (shaped : ∀ n ∈ e.nodes, n.WellShaped) (shaped' : ∀ n ∈ e'.nodes, n.WellShaped)
    (same : e.lines indent 0 "" = e'.lines indent' 0 "") (more : e'.children ≠ []) : indent.length = indent'.length := by
  have leadings := map_lines shaped fun line x (drawn : IsLineOf indent line x) => drawn.leading blanks
  rw [same, map_lines shaped' fun line x drawn => drawn.leading blanks', preorder_eq, preorder_eq] at leadings
  cases below' : e'.children with
  | nil => exact absurd below' more
  | cons child' rest' =>
    rw [below', List.flatMap_cons, preorder_eq 2 child'] at leadings
    cases below : e.children with
    | nil => simp [below] at leadings
    | cons child rest =>
      rw [below, List.flatMap_cons, preorder_eq 2 child] at leadings
      simp only [List.map_cons, List.cons_append, List.cons.injEq] at leadings
      obtain ⟨-, first, -⟩ := leadings
      omega

/-- Trees that are drawn alike with two indents are drawn alike with one. -/
theorem lines_eq_of_lines {indent' : String} (blanks : IsIndent indent) (blanks' : IsIndent indent')
    (shaped : ∀ n ∈ e.nodes, n.WellShaped) (shaped' : ∀ n ∈ e'.nodes, n.WellShaped)
    (same : e.lines indent 0 "" = e'.lines indent' 0 "") : e.lines indent 0 "" = e'.lines indent 0 "" := by
  by_cases lone : e'.children = []
  · rw [same]
    exact lines_of_lone lone indent' indent
  · have long := length_eq_of_lines blanks blanks' shaped shaped' same lone
    rw [same, blanks.eq_of_length blanks' long]

end Reading

end Reckoner.Expression
