import Reckoner.Decimal.Numeral
import Reckoner.Decimal.Places

/-!
# Random draws as requests

A `Sampler` asks for one random number after the other and names the range of
each. `run` answers the requests from a list of draws; `Sampler.Allows` says that
every answer lies in the range that was asked for.
-/

namespace Reckoner

/-- A random number: an index, or an amount. -/
inductive Drawn where
  | index (value : Nat)
  | amount (value : Float)

namespace Drawn

def toIndex : Drawn → Nat
  | index value => value
  | amount value => Decimal.wholeMagnitude value

def toAmount : Drawn → Float
  | index value => Decimal.nearestDouble value 0
  | amount value => value

end Drawn

/-- A tree of requests for random numbers, with a value at each end. -/
inductive Sampler (α : Type) where
  | done (value : α)
  /-- Asks for a whole number from `low` up to, not including, `high`. -/
  | index (low high : Nat) (next : Nat → Sampler α)
  /-- Asks for a number between `low` and `high`. -/
  | amount (low high : Float) (next : Float → Sampler α)

namespace Sampler

/-- Goes on with the sampler that `f` gives for the value. -/
def bind {α β : Type} (f : α → Sampler β) : Sampler α → Sampler β
  | done value => f value
  | index low high next => index low high fun n => (next n).bind f
  | amount low high next => amount low high fun x => (next x).bind f

instance : Monad Sampler where
  pure := done
  bind s f := s.bind f

/-- A whole number from `low` up to, not including, `high`. -/
def whole (low high : Nat) : Sampler Nat := index low high done

/-- A number between `low` and `high`. -/
def uniform (low high : Float) : Sampler Float := amount low high done

/-- One of `first` and the members of `rest`. -/
def choice {α : Type} (first : α) (rest : List α) : Sampler α :=
  index 0 (rest.length + 1) fun n => done ((first :: rest)[n]?.getD first)

/-- The values of `count` runs of `s`. -/
def replicate {α : Type} (count : Nat) (s : Sampler α) : Sampler (List α) :=
  match count with
  | 0 => done []
  | count + 1 => s.bind fun value => (replicate count s).bind fun values => done (value :: values)

/-- Answers the requests from `draws` in order; the draws that are left come back
with the value. Without enough draws there is no value. -/
def run {α : Type} : Sampler α → List Drawn → Option (α × List Drawn)
  | done value, draws => some (value, draws)
  | index _ _ next, draw :: draws => (next draw.toIndex).run draws
  | amount _ _ next, draw :: draws => (next draw.toAmount).run draws
  | _, [] => none

/-- The draws answer every request with a number from its range. -/
def Allows {α : Type} : Sampler α → List Drawn → Prop
  | done _, _ => True
  | index low high next, .index value :: draws =>
    low ≤ value ∧ value < high ∧ (next value).Allows draws
  | amount low high next, .amount value :: draws =>
    low ≤ value ∧ value ≤ high ∧ (next value).Allows draws
  | _, _ => False

theorem run_bind {α β : Type} (f : α → Sampler β) (s : Sampler α) (draws : List Drawn) :
    (s.bind f).run draws = (s.run draws).bind fun (value, left) => (f value).run left := by
  induction s generalizing draws with
  | done value => rfl
  | index low high next ih => cases draws <;> simp [bind, run, ih]
  | amount low high next ih => cases draws <;> simp [bind, run, ih]

end Sampler

end Reckoner
