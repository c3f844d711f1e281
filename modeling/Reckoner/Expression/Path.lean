import Reckoner.Expression.Basic

/-!
# Places in an expression

A path leads from the root to one node: at each step to the left operand, the
right operand, or an item of an argument list.
-/

namespace Reckoner

/-- One of the two operands of a node. -/
inductive Side where
  | left
  | right
  deriving DecidableEq, Repr

/-- A step from a node to one of its children. -/
inductive Turn where
  | operand (side : Side)
  | item (index : Nat)
  deriving DecidableEq, Repr

namespace Expression

/-- The operand of `e` on one side. -/
def operand? (e : Expression) : Side → Option Expression
  | .left => e.left
  | .right => e.right

/-- `e` with another operand, or none, on one side. -/
def withOperand (e : Expression) (side : Side) (child : Option Expression) : Expression :=
  match side with
  | .left => { e with left := child }
  | .right => { e with right := child }

/-- The child that a step leads to. -/
def child? (e : Expression) : Turn → Option Expression
  | .operand side => e.operand? side
  | .item index => e.operation.items[index]?

/-- `e` with the child that a step leads to replaced. A step that leads to no
item changes nothing. -/
def withChild (e : Expression) (turn : Turn) (child : Expression) : Expression :=
  match turn with
  | .operand side => e.withOperand side (some child)
  | .item index =>
    match e.operation with
    | .arguments items => { e with operation := .arguments (items.set index child) }
    | _ => e

/-- The node at the end of a path. -/
def at? (e : Expression) : List Turn → Option Expression
  | [] => some e
  | turn :: path => (e.child? turn).bind fun child => child.at? path

/-- `e` with `f` applied to the node at the end of a path, if there is one. -/
def modifyAt (f : Expression → Expression) (e : Expression) : List Turn → Expression
  | [] => f e
  | turn :: path =>
    match e.child? turn with
    | some child => e.withChild turn (child.modifyAt f path)
    | none => e

theorem child?_withOperand (e : Expression) (side : Side) (child : Option Expression) :
    (e.withOperand side child).operand? side = child := by
  cases side <;> rfl

end Expression

end Reckoner
