import Reckoner.Expression.Evaluate
import Reckoner.Proofs.Number.Factorial

/-!
# The route of an evaluation

An evaluation comes to the nodes of a tree in the order of the text: left operand, node,
right operand, arguments from the first to the last. It does not enter the arguments of a
count. `route` lists the nodes so, each with the numbers that are still to be drawn
when its evaluation begins, and `Visit.failure?` says of one of them alone why it
fails. Neither of them knows anything of the errors of the nodes before.
-/

namespace Reckoner

/-- A node that is come to, and the numbers still to be drawn when its evaluation begins. -/
structure Visit where
  node : Expression
  draws : Draws

/-- The visits of an evaluation, by the numbers that it may draw. -/
abbrev Route := Draws → List Visit

namespace Expression

/-- A node that draws a number. -/
def isRandom (e : Expression) : Bool :=
  e.entry?.any fun entry => entry.rule matches .random

/-- A call that counts its arguments instead of evaluating them. -/
def isCount (e : Expression) : Bool :=
  e.entry?.any fun entry => entry.rule matches .count

end Expression

/-- The numbers that are left after some visits. -/
def remaining (draws : Draws) (visits : List Visit) : Draws :=
  fun n => draws (n + visits.countP fun visit => visit.node.isRandom)

namespace Route

/-- Comes to no node. -/
def stay : Route := fun _ => []

/-- Comes to `node` after what is left of it. -/
def reach (r : Route) (node : Expression) : Route := fun draws => r draws ++ [⟨node, draws⟩]

/-- Goes on with `s` after `r`, with the numbers that `r` leaves. -/
def andThen (r s : Route) : Route := fun draws => r draws ++ s (remaining draws (r draws))

end Route

namespace Expression

mutual

/-- Left operand, node, right operand and list items, except for what a count has on its right. -/
def route : Expression → Route
  | ⟨.arguments items, left, right⟩ =>
    (((routeOption left).reach ⟨.arguments items, left, right⟩).andThen (routeOption right)).andThen (routeList items)
  | ⟨operation, left, right⟩ =>
    let reached := (routeOption left).reach ⟨operation, left, right⟩
    if isCount ⟨operation, left, right⟩ then reached else reached.andThen (routeOption right)

def routeOption : Option Expression → Route
  | none => .stay
  | some e => e.route

def routeList : List Expression → Route
  | [] => .stay
  | e :: rest => e.route.andThen (routeList rest)

end

end Expression

/-- Why a number has no factorial. -/
def factorialFailure? (n : Float) : Option EvalError :=
  if Number.lacksFactorial n then some (.factorialUndefined n) else none

namespace Visit

/-- Why the node itself fails: its arguments are more or fewer than it admits, it is a constant with an
argument list, or it is the factorial of a number that has none. -/
def failure? (visit : Visit) : Option EvalError :=
  match visit.node.entry? with
  | none => none
  | some entry =>
    match entry.kind, visit.node.left, visit.node.right with
    | .unary, _, right | .variadic, _, right =>
      if entry.arity.admits (argumentTotal right) then none
      else some (.argumentCount entry.name entry.arity (argumentTotal right))
    | .nullary, _, some list => if list.isList then some (.listRefused entry.name list.argumentCount) else none
    | .suffix, some operand, _ =>
      match operand.evaluate visit.draws with
      | .ok n => factorialFailure? n
      | .error _ => none
    | _, _, _ => none

end Visit

/-- The failure of the first visit that fails. -/
def firstFailure (visits : List Visit) : Option EvalError :=
  visits.findSome? Visit.failure?

end Reckoner
