import Reckoner.Expression.Depth

/-!
# Evaluating an expression

`evaluateNode` computes one node, given how the nodes below it are evaluated,
and fixes the order: the number of arguments is checked first, then the left
operand is evaluated, then the right one, then the arguments by position. The
first error ends the evaluation. `evaluateWithin n` goes down at most `n` levels
and fails where more are needed; `evaluate` allows as many as the tree has. How far
a machine goes down depends on its stack, and so the number of levels is a parameter
of all that evaluates on one.

The numbers that `random` stands for are given beforehand as `Draws`, of which
each evaluated `random` takes the next.
-/

namespace Reckoner

open Number

/-- The numbers drawn by an evaluation, in order. -/
abbrev Draws := Nat → Float

/-- Computations that may draw numbers and may fail. -/
abbrev Evaluation := StateT Draws (Except EvalError)

/-- The next number drawn. -/
def draw : Evaluation Float := do
  let draws ← get
  set fun n => draws (n + 1)
  return draws 0

/-- How a node is evaluated: the position of an argument is given when the node
stands for a list of them. -/
abbrev Evaluator := Option Int → Expression → Evaluation Float

/-- The value of an operand that has to be there. -/
def operandValue (below : Evaluator) : Option Expression → Evaluation Float
  | some e => below none e
  | none => throw .operandMissing

/-- The value of the argument at `position`. -/
def argumentValue (below : Evaluator) (position : Nat) : Option Expression → Evaluation Float
  | some e => below (some position) e
  | none => throw .operandMissing

/-- The number of arguments on the right of a call. -/
def argumentTotal : Option Expression → Nat
  | some e => e.argumentCount
  | none => 0

/-- The values of all arguments, from the first to the last. -/
def argumentValues (below : Evaluator) (right : Option Expression) : Evaluation (List Float) :=
  (List.range (argumentTotal right)).mapM fun position => argumentValue below position right

/-- `value`, times the right operand if there is one. -/
def timesRight (below : Evaluator) (value : Float) : Option Expression → Evaluation Float
  | some e => do return value * (← below none e)
  | none => return value

/-- The value of an operation on the operands `left` and `right`. -/
def Rule.evaluate (below : Evaluator) (left right : Option Expression) :
    Rule → Evaluation Float
  | .add => do
    let a ← operandValue below left
    let b ← operandValue below right
    return a + b
  | .subtract =>
    match left with
    | none => do return -(← operandValue below right)
    | some _ => do
      let a ← operandValue below left
      let b ← operandValue below right
      return a - b
  | .multiply => do
    let a ← operandValue below left
    let b ← operandValue below right
    return a * b
  | .divide => do
    let a ← operandValue below left
    let b ← operandValue below right
    return a / b
  | .power => do
    let a ← operandValue below left
    let b ← operandValue below right
    return Number.power a b
  | .factorial => do
    let n ← operandValue below left
    match factorial? n with
    | some value => timesRight below value right
    | none => throw (.factorialUndefined n)
  | .elementary f => do return f.apply (← operandValue below right)
  | .pairing f => do
    let a ← argumentValue below 0 right
    let b ← argumentValue below 1 right
    return f.apply a b
  | .summary f => do return f.apply (← argumentValues below right)
  | .count => return (argumentTotal right).toFloat
  | .constant value => timesRight below value right
  | .random => do timesRight below (← draw) right

/-- A constant refuses an argument list, and a call has to have as many arguments
as its arity admits. -/
def Entry.checkArguments (entry : Entry) (right : Option Expression) : Except EvalError Unit :=
  match entry.kind with
  | .nullary =>
    match right with
    | some list => if list.isList then .error (.listRefused entry.name list.argumentCount) else .ok ()
    | none => .ok ()
  | .unary | .variadic =>
    if entry.arity.admits (argumentTotal right) then .ok ()
    else .error (.argumentCount entry.name entry.arity (argumentTotal right))
  | .binary | .suffix => .ok ()

/-- The value of one node. -/
def evaluateNode (below : Evaluator) : Evaluator := fun index e =>
  match e.operation with
  | .literal value => timesRight below value e.right
  | .arguments items =>
    match index.bind (Expression.itemAt? items) with
    | some item => below none item
    | none => throw (.argumentIndex index items.length)
  | .reference entry => do
    entry.checkArguments e.right
    entry.rule.evaluate below e.left e.right
  | .bare => throw .unknownOperation
  | .boundary .. => throw .operandMissing

/-- Evaluates down to `levels` levels of the tree. -/
def evaluateWithin : (levels : Nat) → Evaluator
  | 0 => fun _ _ => throw .tooDeep
  | levels + 1 => evaluateNode (evaluateWithin levels)

namespace Expression

/-- The value of `e` at an argument position, with as many levels as it has. -/
def evaluateAt (index : Option Int) (draws : Draws) (e : Expression) : Except EvalError Float :=
  ((evaluateWithin e.depth index e).run draws).map Prod.fst

/-- The value of `e`, for which the levels never run out. -/
def evaluate (draws : Draws) (e : Expression) : Except EvalError Float :=
  e.evaluateAt none draws

/-- The value of `e` at an argument position, on a machine that goes down `levels` levels. -/
def value (levels : Nat) (index : Option Int) (draws : Draws) (e : Expression) : Except EvalError Float :=
  ((evaluateWithin levels index e).run draws).map Prod.fst

end Expression

end Reckoner
