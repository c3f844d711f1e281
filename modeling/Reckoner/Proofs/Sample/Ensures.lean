import Reckoner.Sample.Sampler

/-!
# What samplers ensure

A sampler ensures a property if its value has it whatever numbers are drawn from the ranges that it asks for. Then it comes
to such a value on every list of draws that it allows.
-/

namespace Reckoner.Sampler

variable {α β : Type} {P : α → Prop} {R : β → Prop} {s : Sampler α} {draws more : List Drawn}

/-- Every value that `s` may come to has the property `P`. -/
def Ensures (P : α → Prop) : Sampler α → Prop
  | done value => P value
  | index low high next => ∀ n, low ≤ n → n < high → (next n).Ensures P
  | amount low high next => ∀ x, low ≤ x → x ≤ high → (next x).Ensures P

namespace Ensures

theorem bind {f : α → Sampler β} (h : s.Ensures P) (later : ∀ value, P value → (f value).Ensures R) :
    (s.bind f).Ensures R := by
  induction s with
  | done value => exact later value h
  | index low high next ih => exact fun n least most => ih n (h n least most)
  | amount low high next ih => exact fun x least most => ih x (h x least most)

theorem whole (low high : Nat) : (Sampler.whole low high).Ensures fun n => low ≤ n ∧ n < high :=
  fun _ least most => ⟨least, most⟩

theorem uniform (low high : Float) : (Sampler.uniform low high).Ensures fun x => low ≤ x ∧ x ≤ high :=
  fun _ least most => ⟨least, most⟩

theorem choice (first : α) (rest : List α) : (Sampler.choice first rest).Ensures (· ∈ first :: rest) := by
  intro n _ most
  have inside : n < (first :: rest).length := most
  change (first :: rest)[n]?.getD first ∈ first :: rest
  rw [List.getElem?_eq_getElem inside, Option.getD_some]
  exact List.getElem_mem inside

theorem replicate (h : s.Ensures P) (count : Nat) :
    (Sampler.replicate count s).Ensures fun values => values.length = count ∧ ∀ value ∈ values, P value := by
  induction count with
  | zero => exact ⟨rfl, by simp⟩
  | succ count ih =>
    refine h.bind fun value first => ih.bind fun values rest => ?_
    exact ⟨congrArg Nat.succ rest.1, List.forall_mem_cons.2 ⟨first, rest.2⟩⟩

/-- On draws that are allowed the sampler comes to a value. -/
theorem run (h : s.Ensures P) (allowed : s.Allows draws) : ∃ value left, s.run draws = some (value, left) ∧ P value := by
  induction s generalizing draws with
  | done value => exact ⟨value, draws, rfl, h⟩
  | index low high next ih =>
    cases draws with
    | nil => exact allowed.elim
    | cons draw draws =>
      cases draw with
      | index n => exact ih n (h n allowed.1 allowed.2.1) allowed.2.2
      | amount x => exact allowed.elim
  | amount low high next ih =>
    cases draws with
    | nil => exact allowed.elim
    | cons draw draws =>
      cases draw with
      | index n => exact allowed.elim
      | amount x => exact ih x (h x allowed.1 allowed.2.1) allowed.2.2

end Ensures

/-- Draws are allowed for two samplers one after the other if each of them allows its part. -/
theorem allows_bind {f : α → Sampler β} {value : α} (allowed : s.Allows draws) (run : s.run draws = some (value, more))
    (later : (f value).Allows more) : (s.bind f).Allows draws := by
  induction s generalizing draws with
  | done first =>
    cases run
    exact later
  | index low high next ih =>
    cases draws with
    | nil => exact allowed.elim
    | cons draw draws =>
      cases draw with
      | index n => exact ⟨allowed.1, allowed.2.1, ih n allowed.2.2 run⟩
      | amount x => exact allowed.elim
  | amount low high next ih =>
    cases draws with
    | nil => exact allowed.elim
    | cons draw draws =>
      cases draw with
      | index n => exact allowed.elim
      | amount x => exact ⟨allowed.1, allowed.2.1, ih x allowed.2.2 run⟩

/-- On these draws, whatever comes behind them, the sampler comes to the value. -/
def Gives (s : Sampler α) (draws : List Drawn) (value : α) : Prop :=
  ∀ more, s.Allows (draws ++ more) ∧ s.run (draws ++ more) = some (value, more)

namespace Gives

variable {value : α} {result : β}

theorem bind {f : α → Sampler β} (h : s.Gives draws value) (later : (f value).Gives more result) :
    (s.bind f).Gives (draws ++ more) result := by
  intro rest
  obtain ⟨allowed, run⟩ := h (more ++ rest)
  obtain ⟨allowed', run'⟩ := later rest
  rw [List.append_assoc]
  refine ⟨allows_bind allowed run allowed', ?_⟩
  rw [run_bind, run]
  exact run'

theorem replicate (h : s.Gives draws value) (count : Nat) :
    (Sampler.replicate count s).Gives (List.replicate count draws).flatten (List.replicate count value) := by
  induction count with
  | zero => exact fun more => ⟨trivial, rfl⟩
  | succ count ih =>
    have rest : ((Sampler.replicate count s).bind fun values => done (value :: values)).Gives
        ((List.replicate count draws).flatten ++ []) (value :: List.replicate count value) :=
      ih.bind fun more => ⟨trivial, rfl⟩
    rw [List.append_nil] at rest
    exact h.bind rest

end Gives

end Reckoner.Sampler
