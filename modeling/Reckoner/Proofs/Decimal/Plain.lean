import Mathlib.Data.List.TakeWhile
import Reckoner.Decimal.Numeral
import Reckoner.Token.Lexer

/-!
# Plain numerals

A number token is a run of digits and points. Of what `Decimal.read?` accepts beyond
that nothing can occur in such a text: it reads as a number exactly if it has
a digit and at most one point.
-/

namespace Reckoner.Decimal

open Lexer Text

/-- The text consists of digits and points. -/
def Plain (text : List Char) : Prop :=
  ∀ ch ∈ text, isNumeral ch = true

variable {text : List Char} {ch : Char}

/-- The characters of number tokens. -/
def numerals : List Char := ['0', '1', '2', '3', '4', '5', '6', '7', '8', '9', '.']

theorem mem_numerals (h : isNumeral ch = true) : ch ∈ numerals := by
  simp only [isNumeral, Char.isDigit, Bool.or_eq_true, Bool.and_eq_true, decide_eq_true_eq, beq_iff_eq] at h
  rcases h with ⟨low, high⟩ | rfl
  · have bounds : 48 ≤ ch.toNat ∧ ch.toNat ≤ 57 := ⟨low, high⟩
    have value : ch = Char.ofNat ch.toNat := (Char.ofNat_toNat ch).symm
    have cases : ch.toNat = 48 ∨ ch.toNat = 49 ∨ ch.toNat = 50 ∨ ch.toNat = 51 ∨ ch.toNat = 52 ∨ ch.toNat = 53 ∨
        ch.toNat = 54 ∨ ch.toNat = 55 ∨ ch.toNat = 56 ∨ ch.toNat = 57 := by omega
    rw [value]
    rcases cases with h | h | h | h | h | h | h | h | h | h <;> rw [h] <;> simp [numerals]
  · simp [numerals]

/-- What holds of the eleven characters holds of every character of a number. -/
theorem of_isNumeral {p : Char → Bool} (all : numerals.all p = true) (h : isNumeral ch = true) : p ch = true :=
  List.all_eq_true.1 all ch (mem_numerals h)

theorem not_isMargin (h : isNumeral ch = true) : isMargin ch = false := by
  have holds := of_isNumeral (p := fun ch => !isMargin ch) (by decide) h
  simpa using holds

theorem foldDigit_eq (h : isNumeral ch = true) : foldDigit ch = ch := by
  have holds := of_isNumeral (p := fun ch => foldDigit ch == ch) (by decide) h
  exact eq_of_beq holds

/-- No such character begins a word, is an underscore or a sign. -/
theorem not_special (h : isNumeral ch = true) :
    ch.toLower ≠ 'i' ∧ ch.toLower ≠ 'n' ∧ ch ≠ '_' ∧ ch ≠ '-' ∧ ch ≠ '+' := by
  have holds := of_isNumeral (p := fun ch => ch.toLower != 'i' && ch.toLower != 'n' && ch != '_' && ch != '-' && ch != '+')
    (by decide) h
  simpa [and_assoc] using holds

namespace Plain

theorem reverse (plain : Plain text) : Plain text.reverse :=
  fun ch member => plain ch (List.mem_reverse.1 member)

theorem dropWhile_isMargin (plain : Plain text) : text.dropWhile isMargin = text := by
  cases text with
  | nil => rfl
  | cons ch rest => rw [List.dropWhile_cons, not_isMargin (plain ch List.mem_cons_self)]; rfl

theorem trimMargins (plain : Plain text) : Text.trimMargins text = text := by
  rw [Text.trimMargins, plain.dropWhile_isMargin, plain.reverse.dropWhile_isMargin, List.reverse_reverse]

theorem map_foldDigit (plain : Plain text) : text.map foldDigit = text := by
  rw [List.map_congr_left fun ch member => foldDigit_eq (plain ch member), List.map_id']

theorem dropUnderscores? (plain : Plain text) (before : Option Char) : dropUnderscores? before text = some text := by
  induction text generalizing before with
  | nil => cases before <;> rfl
  | cons ch rest ih =>
    have other : ch ≠ '_' := (not_special (plain ch List.mem_cons_self)).2.2.1
    have kept := ih (fun d member => plain d (List.mem_cons_of_mem ch member)) (some ch)
    rw [Decimal.dropUnderscores?]
    · rw [kept, Option.map_some]
    · exact other

theorem splitSign (plain : Plain text) : Decimal.splitSign text = (false, text) := by
  unfold Decimal.splitSign
  split
  · exact absurd rfl (not_special (plain _ List.mem_cons_self)).2.2.2.1
  · exact absurd rfl (not_special (plain _ List.mem_cons_self)).2.2.2.2
  · rfl

theorem word? (plain : Plain text) : Decimal.word? text = none := by
  cases text with
  | nil => rfl
  | cons ch rest =>
    obtain ⟨i, n, -⟩ := not_special (plain ch List.mem_cons_self)
    simp [Decimal.word?, i, n]

/-- A typed numeral of digits and points has neither margins nor a sign. -/
theorem read?_eq {s : String} (plain : Plain s.toList) : read? s = unsigned? s.toList := by
  rw [read?, plain.trimMargins, plain.map_foldDigit, plain.dropUnderscores?, Option.bind_some, parse?,
    plain.splitSign]
  simp [plain.word?]

/-- The first character that is no digit is a point. -/
theorem point (plain : Plain text) {ch : Char} {more : List Char} (h : text.dropWhile Char.isDigit = ch :: more) :
    ch = '.' ∧ Plain more := by
  have rest : ∀ d ∈ ch :: more, d ∈ text := by
    rw [← h]
    exact fun d member => (List.dropWhile_sublist Char.isDigit).subset member
  have other : ch.isDigit = false := by
    have head := List.head?_dropWhile_not Char.isDigit text
    rw [h] at head
    simpa using head
  have numeral := plain ch (rest ch List.mem_cons_self)
  refine ⟨?_, fun d member => plain d (rest d (List.mem_cons_of_mem ch member))⟩
  simpa [isNumeral, other] using numeral

end Plain

theorem digits_of_dropWhile (h : text.dropWhile Char.isDigit = []) : ∀ ch ∈ text, ch.isDigit = true := by
  simpa [List.dropWhile_eq_nil_iff] using h

theorem takeWhile_isDigit (text : List Char) : ∀ ch ∈ text.takeWhile Char.isDigit, ch.isDigit = true :=
  fun _ member => List.mem_takeWhile_imp member

theorem count_point (digits : ∀ ch ∈ text, ch.isDigit = true) : text.count '.' = 0 := by
  refine List.count_eq_zero_of_not_mem fun member => ?_
  exact absurd (digits '.' member) (by decide)

/-- Beside a point there is a digit unless both sides are empty. -/
theorem exists_digit {whole fraction : List Char} (left : ∀ ch ∈ whole, ch.isDigit = true)
    (right : ∀ ch ∈ fraction, ch.isDigit = true) :
    (∃ ch ∈ whole ++ '.' :: fraction, ch.isDigit = true) ↔ ¬ (whole = [] ∧ fraction = []) := by
  cases whole with
  | nil =>
    cases fraction with
    | nil => simp
    | cons ch rest => exact ⟨fun _ => by simp, fun _ => ⟨ch, by simp, right ch List.mem_cons_self⟩⟩
  | cons ch rest => exact ⟨fun _ => by simp, fun _ => ⟨ch, by simp, left ch List.mem_cons_self⟩⟩

/-- A plain numeral has a digit and at most one point. -/
theorem unsigned?_isSome (plain : Plain text) :
    (unsigned? text).isSome = true ↔ (∃ ch ∈ text, ch.isDigit = true) ∧ text.count '.' ≤ 1 := by
  have whole := takeWhile_isDigit text
  have split := List.takeWhile_append_dropWhile (p := Char.isDigit) (l := text)
  cases after : text.dropWhile Char.isDigit with
  | nil =>
    have digits := digits_of_dropWhile after
    have points := count_point digits
    rw [after, List.append_nil] at split
    cases text with
    | nil => simp [unsigned?]
    | cons ch rest => simp [unsigned?, after, split, exponent?, points, digits ch List.mem_cons_self]
  | cons ch more =>
    obtain ⟨rfl, rest⟩ := plain.point after
    rw [after] at split
    have points : text.count '.' = more.count '.' + 1 := by
      rw [← split, List.count_append, count_point whole, List.count_cons_self, Nat.zero_add]
    have fraction := takeWhile_isDigit more
    have split' := List.takeWhile_append_dropWhile (p := Char.isDigit) (l := more)
    have form : (unsigned? text).isSome =
        (!((text.takeWhile Char.isDigit).isEmpty && (more.takeWhile Char.isDigit).isEmpty) &&
          (exponent? (more.dropWhile Char.isDigit)).isSome) := by
      simp only [unsigned?, after]
      cases (text.takeWhile Char.isDigit).isEmpty && (more.takeWhile Char.isDigit).isEmpty <;> simp
    rw [form]
    cases after' : more.dropWhile Char.isDigit with
    | nil =>
      have digits := digits_of_dropWhile after'
      have single : text.count '.' ≤ 1 := by
        rw [points, count_point digits]
      rw [after', List.append_nil] at split'
      rw [split', and_iff_left single, ← split, exists_digit whole digits, split]
      have absent : (exponent? []).isSome = true := rfl
      simp only [absent, Bool.and_true, Bool.not_eq_true', Bool.and_eq_false_iff, List.isEmpty_eq_false_iff,
        not_and_or, ne_eq]
    | cons ch' more' =>
      obtain ⟨rfl, -⟩ := rest.point after'
      rw [after'] at split'
      have two : more.count '.' = more'.count '.' + 1 := by
        rw [← split', List.count_append, count_point fraction, List.count_cons_self, Nat.zero_add]
      have many : ¬ text.count '.' ≤ 1 := by omega
      have none : exponent? ('.' :: more') = none := by simp [exponent?]
      simp [none, many]

end Reckoner.Decimal
