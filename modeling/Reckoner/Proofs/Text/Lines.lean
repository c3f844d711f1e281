import Reckoner.Decimal.Layout

/-!
# Lines and their indentation

A text is cut into lines at every line feed, which gives back the lines that it was joined from if
none of them holds one. Numbers are written on one line. The blanks in front of a line
are counted.
-/

namespace Reckoner.Text

/-- The lines of a text. -/
def textLines (text : String) : List String :=
  (text.split '\n').toList.map (·.copy)

/-- The number of blanks in front of a line. -/
def leading (line : String) : Nat :=
  (line.toList.takeWhile (· == ' ')).length

/-- How many times a line is indented. -/
def indentation (indent line : String) : Nat := leading line / indent.length

/-- A text of blanks, at least one. -/
structure IsIndent (indent : String) : Prop where
  blank : ∀ ch ∈ indent.toList, ch = ' '
  filled : indent ≠ ""

/-- The text holds no line feed. -/
def OneLine (text : String) : Prop := '\n' ∉ text.toList

instance (text : String) : Decidable (OneLine text) :=
  inferInstanceAs (Decidable ('\n' ∉ text.toList))

variable {ls : List String} {a b indent indent' : String} {ds : List Char} {ch : Char}

namespace IsIndent

theorem length_pos (blanks : IsIndent indent) : 0 < indent.length :=
  Nat.pos_of_ne_zero (mt String.length_eq_zero_iff.1 blanks.filled)

theorem toList_eq (blanks : IsIndent indent) : indent.toList = List.replicate indent.length ' ' := by
  rw [← String.length_toList]
  exact List.eq_replicate_of_mem blanks.blank

theorem eq_of_length (blanks : IsIndent indent) (blanks' : IsIndent indent') (same : indent.length = indent'.length) :
    indent = indent' := by
  rw [← String.toList_inj, blanks.toList_eq, blanks'.toList_eq, same]

end IsIndent

/-- Lines that have been joined are the lines of the text. -/
theorem textLines_intercalate (single : ∀ l ∈ ls, OneLine l) (filled : ls ≠ []) :
    textLines ("\n".intercalate ls) = ls := by
  have cut := String.toList_split_intercalate single
  rw [if_neg filled] at cut
  exact cut

namespace OneLine

theorem append (ha : OneLine a) (hb : OneLine b) : OneLine (a ++ b) := by
  unfold OneLine
  rw [String.toList_append, List.mem_append]
  exact not_or.2 ⟨ha, hb⟩

theorem ofDigits (digits : ∀ ch ∈ ds, ch.isDigit = true) : OneLine (String.ofList ds) := by
  intro feed
  rw [String.toList_ofList] at feed
  exact absurd (digits '\n' feed) (by decide)

theorem singleton (digit : ch.isDigit = true) : OneLine (String.singleton ch) := by
  rw [String.singleton_eq_ofList]
  apply ofDigits
  intro d member
  rw [List.mem_singleton.1 member]
  exact digit

theorem ite {p : Prop} [Decidable p] (ha : OneLine a) (hb : OneLine b) : OneLine (if p then a else b) := by
  split
  · exact ha
  · exact hb

theorem natural (n : Nat) : OneLine (toString n) := by
  rw [Nat.toString_eq_repr, Nat.repr_eq_ofList_toDigits]
  apply ofDigits
  intro ch member
  exact Nat.isDigit_of_mem_toDigits (by decide) (by decide) member

end OneLine

end Reckoner.Text

namespace Reckoner.Decimal

open Text

variable {digits : List Char}

theorem isDigit_of_normalized (d : Digits) : ∀ ch ∈ d.normalized.1, ch.isDigit = true := by
  intro ch member
  have trimmed : ch ∈ (Nat.toDigits 10 d.coefficient).reverse.dropWhile (· == '0') := List.mem_reverse.1 member
  have kept := List.mem_reverse.1 ((List.dropWhile_sublist _).subset trimmed)
  exact Nat.isDigit_of_mem_toDigits (by decide) (by decide) kept

theorem isDigit_of_replicate (count : Nat) : ∀ ch ∈ List.replicate count '0', ch.isDigit = true := by
  intro ch member
  rw [List.eq_of_mem_replicate member]
  rfl

theorem isDigit_append {ds es : List Char} (hd : ∀ ch ∈ ds, ch.isDigit = true) (he : ∀ ch ∈ es, ch.isDigit = true) :
    ∀ ch ∈ ds ++ es, ch.isDigit = true := by
  intro ch member
  exact (List.mem_append.1 member).elim (hd ch) (he ch)

theorem oneLine_exponentText (e : Int) : OneLine (exponentText e) := by
  unfold exponentText
  have digits := OneLine.natural e.natAbs
  exact .append (.ite (by decide) (by decide)) (.ite (.append (by decide) digits) digits)

theorem oneLine_positional (h : ∀ ch ∈ digits, ch.isDigit = true) (lead : Int) (keepPoint : Bool) :
    OneLine (positional digits lead keepPoint) := by
  unfold positional
  apply OneLine.ite
  · exact .append (by decide) (.ofDigits (isDigit_append (isDigit_of_replicate _) h))
  · have whole : ∀ ch ∈ digits.take (lead.toNat + 1), ch.isDigit = true :=
      fun ch member => h ch (List.mem_of_mem_take member)
    have fraction : ∀ ch ∈ digits.drop (lead.toNat + 1), ch.isDigit = true :=
      fun ch member => h ch (List.mem_of_mem_drop member)
    have padded := isDigit_append whole (isDigit_of_replicate (lead.toNat + 1 - digits.length))
    exact .append (.ofDigits padded) (.ite (.ite (by decide) (by decide)) (.append (by decide) (.ofDigits fraction)))

theorem oneLine_scientific (h : ∀ ch ∈ digits, ch.isDigit = true) (lead : Int) : OneLine (scientific digits lead) := by
  have power := oneLine_exponentText lead
  unfold scientific
  split
  · exact .append (by decide) power
  · next d => exact .append (.singleton (h d (by simp))) power
  · next d ds _ =>
    have fraction := OneLine.ofDigits fun ch member => h ch (List.mem_cons_of_mem d member)
    exact .append (.append (.append (.singleton (h d List.mem_cons_self)) (by decide)) fraction) power

/-- A number is written on one line. -/
theorem oneLine_write (l : Layout) (x : Float) : OneLine (l.write x) := by
  unfold Layout.write
  split
  · decide
  · exact .ite (by decide) (by decide)
  · next negative mantissa exponent _ =>
    refine .append (.ite (by decide) (by decide)) ?_
    unfold Layout.magnitude
    apply OneLine.ite
    · exact .ite (by decide) (by decide)
    · dsimp only
      apply OneLine.ite
      · exact oneLine_positional (isDigit_of_normalized _) _ _
      · exact oneLine_scientific (isDigit_of_normalized _) _

end Reckoner.Decimal
