import Reckoner.Expression.Depth

/-!
# What an expression uses

`nodes` lists a tree in pre-order. `analyze` counts its numbers and collects the
names and symbols it refers to, each set in code point order.
-/

namespace Reckoner

namespace Expression

mutual

/-- The node itself, then left operand, right operand and list items. -/
def nodes : Expression → List Expression
  | ⟨.arguments items, left, right⟩ =>
    ⟨.arguments items, left, right⟩ :: (nodesOption left ++ nodesOption right ++ nodesList items)
  | ⟨operation, left, right⟩ =>
    ⟨operation, left, right⟩ :: (nodesOption left ++ nodesOption right)

def nodesOption : Option Expression → List Expression
  | none => []
  | some e => e.nodes

def nodesList : List Expression → List Expression
  | [] => []
  | e :: rest => e.nodes ++ nodesList rest

end

/-- A number without regard to its operands. -/
def isLiteral (e : Expression) : Bool :=
  match e.operation with
  | .literal _ => true
  | _ => false

/-- The name of a function that has to be called. -/
def functionName? (e : Expression) : Option String :=
  match e.entry? with
  | some entry => if entry.symbol.isNone && entry.kind != .nullary then some entry.name else none
  | none => none

/-- The name of a constant. -/
def constantName? (e : Expression) : Option String :=
  match e.entry? with
  | some entry => if entry.symbol.isNone && entry.kind == .nullary then some entry.name else none
  | none => none

end Expression

/-- `s` at its place in an ascending list without repetitions. -/
def insertAscending (s : String) : List String → List String
  | [] => [s]
  | first :: rest =>
    if s < first then s :: first :: rest
    else if s == first then first :: rest
    else first :: insertAscending s rest

/-- The members of a list, each once, in code point order. -/
def ascending (names : List String) : List String :=
  names.foldr insertAscending []

theorem mem_insertAscending {s x : String} {names : List String} :
    x ∈ insertAscending s names ↔ x = s ∨ x ∈ names := by
  induction names with
  | nil => simp [insertAscending]
  | cons first rest ih =>
    simp only [insertAscending]
    split
    · simp
    · split
      · next same => simp only [beq_iff_eq] at same; simp [same]
      · simp only [List.mem_cons, ih, or_left_comm]

theorem mem_ascending {x : String} {names : List String} : x ∈ ascending names ↔ x ∈ names := by
  induction names with
  | nil => simp [ascending]
  | cons first rest ih =>
    simp only [ascending, List.foldr_cons] at ih ⊢
    rw [mem_insertAscending, ih, List.mem_cons]

/-- What an expression consists of. -/
structure Analysis where
  functions : List String
  operators : List String
  constants : List String
  literals : Nat
  depth : Nat
  deriving DecidableEq, Repr

def Expression.analyze (e : Expression) : Analysis :=
  { functions := ascending (e.nodes.filterMap functionName?)
    operators := ascending (e.nodes.filterMap symbol?)
    constants := ascending (e.nodes.filterMap constantName?)
    literals := e.nodes.countP isLiteral
    depth := e.measuredDepth }

end Reckoner
