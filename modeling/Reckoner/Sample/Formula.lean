import Reckoner.Decimal.Layout
import Reckoner.Sample.Sampler
import Reckoner.Token.Basic

/-!
# Random formulas

A `Formula` is a chain of terms with operators between them. Numbers in it have
at most two decimal places. `Formula.sampler` draws one, `Formula.text` writes it.
-/

namespace Reckoner

/-- An operand of a formula. -/
inductive Term where
  | number (x : Float)
  | call (name : String) (x : Float)
  | summary (name : String) (xs : List Float)
  | factorial (n : Nat)

structure Formula where
  first : Term
  rest : List (Operator × Term)

/-- Numbers are written with six significant digits. -/
def numberText (x : Float) : String := (Decimal.Layout.general 6).write x

namespace Term

def text : Term → String
  | number x => numberText x
  | call name x => name ++ "(" ++ numberText x ++ ")"
  | summary name xs => name ++ "(" ++ ",".intercalate (xs.map numberText) ++ ")"
  | factorial n => toString n ++ "!"

/-- A function of one number. -/
def callName : Sampler String := .choice "sin" ["cos", "sqrt", "ln", "abs"]

/-- A function of a list of numbers. -/
def summaryName : Sampler String := .choice "sum" ["avg", "min", "max"]

/-- Between one and four numbers from -10 to 10 with two decimal places. -/
def summaryItems : Sampler (List Float) := do
  let count ← Sampler.whole 1 5
  let items ← Sampler.replicate count (.uniform (-10.0) 10.0)
  return items.map (Decimal.roundScaled 2)

/-- The kind of a term is drawn first; a number from 0 to 20 with two decimal
places follows, even where the term does not use it. -/
def sampler : Sampler Term := do
  let kind ← Sampler.whole 0 4
  let x ← Sampler.uniform 0.0 20.0
  let x := Decimal.roundPlaces 2 x
  match kind with
  | 0 => return number x
  | 1 => return call (← callName) x
  | 2 =>
    let items ← summaryItems
    return summary (← summaryName) items
  | _ => return factorial (← Sampler.whole 0 8)

end Term

namespace Formula

def text (f : Formula) : String :=
  f.first.text ++ String.join (f.rest.map fun (o, term) => o.symbol ++ term.text)

def operator : Sampler Operator := .choice .plus [.minus, .star, .slash, .caret]

def link : Sampler (Operator × Term) := do
  let o ← operator
  return (o, ← Term.sampler)

/-- A formula of one to `most` terms. -/
def sampler (most : Nat) : Sampler Formula := do
  let count ← Sampler.whole 1 (most + 1)
  let first ← Term.sampler
  return ⟨first, ← Sampler.replicate (count - 1) link⟩

/-- `count` formulas of one to `most` terms each. -/
def series (count most : Nat) : Sampler (List Formula) :=
  Sampler.replicate count (sampler most)

/-- The names of the columns of a written series. -/
def columns : List String := ["expression"]

/-- The number of terms of a formula when nothing else is asked for. -/
def mostTerms : Nat := 4

end Formula

end Reckoner
