import Mathlib.Data.List.Induction
import Reckoner.Proofs.Grammar.Phrase

/-!
# Matching parentheses

The tokens of a phrase are balanced: every parenthesis that they open is closed by them, and none
is closed that they do not open. So a group of a text lies in one of two balanced parts of it, and
the parts of a balanced text are told apart by heights alone. An expression is moreover an
argument: it has no comma outside of its own groups.
-/

namespace Reckoner

/-- By how much a token changes the number of open parentheses. -/
def TokenKind.rise : TokenKind → Int
  | .opening => 1
  | .closing => -1
  | _ => 0

namespace Grammar

/-- The number of parentheses that the tokens open, less those that they close. -/
def height : List Token → Int
  | [] => 0
  | t :: ts => t.kind.rise + height ts

/-- The tokens close what they open, and nothing else. -/
structure Balanced (ts : List Token) : Prop where
  level : height ts = 0
  above : ∀ before after, ts = before ++ after → 0 ≤ height before

/-- Every comma stands in a group of the tokens. -/
def Enclosed (ts : List Token) : Prop :=
  ∀ before t after, ts = before ++ t :: after → t.kind = .comma → 0 < height before

/-- What may stand between two commas of a call. -/
structure IsArgument (ts : List Token) : Prop where
  filled : ts ≠ []
  balanced : Balanced ts
  enclosed : Enclosed ts

variable {ts us before after inner : List Token} {t o q : Token}

theorem rise_opening (opening : t.kind = .opening) : t.kind.rise = 1 := by
  rw [opening]
  rfl

theorem rise_closing (closing : t.kind = .closing) : t.kind.rise = -1 := by
  rw [closing]
  rfl

theorem rise_comma (comma : t.kind = .comma) : t.kind.rise = 0 := by
  rw [comma]
  rfl

@[simp] theorem height_nil : height [] = 0 := rfl

@[simp] theorem height_cons (t : Token) (ts : List Token) : height (t :: ts) = t.kind.rise + height ts := rfl

@[simp] theorem height_append (ts us : List Token) : height (ts ++ us) = height ts + height us := by
  induction ts with
  | nil => simp
  | cons t rest ih =>
    rw [List.cons_append, height_cons, height_cons, ih]
    omega

namespace Balanced

theorem nil : Balanced [] where
  level := rfl
  above before after same := by
    obtain ⟨rfl, -⟩ := List.append_eq_nil_iff.1 same.symm
    simp

/-- A token that is no parenthesis. -/
theorem flat (rise : t.kind.rise = 0) : Balanced [t] where
  level := by simp [rise]
  above before after same := by
    rcases List.cons_eq_append_iff.1 same with ⟨rfl, -⟩ | ⟨before, rfl, none⟩
    · simp
    · obtain ⟨rfl, -⟩ := List.append_eq_nil_iff.1 none.symm
      simp [rise]

theorem append (left : Balanced ts) (right : Balanced us) : Balanced (ts ++ us) where
  level := by simp [left.level, right.level]
  above before after same := by
    rcases List.append_eq_append_iff.1 same with ⟨more, rfl, rest⟩ | ⟨more, rest, -⟩
    · have later := right.above more after rest
      simp only [height_append, left.level]
      omega
    · exact left.above before more rest

theorem cons (rise : t.kind.rise = 0) (h : Balanced ts) : Balanced (t :: ts) :=
  (flat rise).append h

theorem group (opening : o.kind = .opening) (h : Balanced ts) (closing : q.kind = .closing) :
    Balanced (o :: (ts ++ [q])) where
  level := by simp [rise_opening opening, rise_closing closing, h.level]
  above before after same := by
    rcases List.cons_eq_append_iff.1 same with ⟨rfl, -⟩ | ⟨before, rfl, behind⟩
    · simp
    rw [height_cons, rise_opening opening]
    rcases List.append_eq_append_iff.1 behind with ⟨more, rfl, last⟩ | ⟨more, inside, -⟩
    · rcases List.cons_eq_append_iff.1 last with ⟨rfl, -⟩ | ⟨more, rfl, none⟩
      · simp [h.level]
      · obtain ⟨rfl, -⟩ := List.append_eq_nil_iff.1 none.symm
        simp [h.level, rise_closing closing]
    · have above := h.above before more inside
      omega

/-- What is left of a balanced text behind its beginning opens nothing. -/
theorem below (h : Balanced ts) (before after : List Token) (same : ts = before ++ after) : height after ≤ 0 := by
  have level := h.level
  have above := h.above before after same
  rw [same, height_append] at level
  omega

/-- What is left of a balanced text behind a balanced beginning is balanced. -/
theorem of_append (whole : Balanced (ts ++ us)) (first : Balanced ts) : Balanced us where
  level := by
    have level := whole.level
    rwa [height_append, first.level, Int.zero_add] at level
  above before after same := by
    have above := whole.above (ts ++ before) after (by rw [same, List.append_assoc])
    rwa [height_append, first.level, Int.zero_add] at above

/-- A token at the end that is no parenthesis may be left out. -/
theorem of_snoc (whole : Balanced (ts ++ [t])) (rise : t.kind.rise = 0) : Balanced ts where
  level := by
    have level := whole.level
    simpa [rise] using level
  above before after same := whole.above before (after ++ [t]) (by rw [same, List.append_assoc])

end Balanced

/-- A group of two texts lies in one of them, if the first text and what is in the group are balanced. -/
theorem group_of_append (balanced : Balanced ts) (inside : Balanced inner) (opening : o.kind = .opening)
    (same : ts ++ us = before ++ o :: (inner ++ q :: after)) :
    (∃ rest, ts = before ++ o :: (inner ++ q :: rest) ∧ after = rest ++ us) ∨
      ∃ first, before = ts ++ first ∧ us = first ++ o :: (inner ++ q :: after) := by
  rcases List.append_eq_append_iff.1 same with ⟨first, rfl, behind⟩ | ⟨more, rfl, behind⟩
  · exact .inr ⟨first, rfl, behind⟩
  have level := balanced.level
  have above := balanced.above before more rfl
  rw [height_append] at level
  -- The first text ends before the group, in it, or behind it.
  rcases List.cons_eq_append_iff.1 behind with ⟨rfl, rfl⟩ | ⟨more', rfl, behind'⟩
  · exact .inr ⟨[], by simp, rfl⟩
  rw [height_cons, rise_opening opening] at level
  rcases List.append_eq_append_iff.1 behind' with ⟨rest, rfl, last⟩ | ⟨rest, rfl, -⟩
  · rcases List.cons_eq_append_iff.1 last with ⟨rfl, rfl⟩ | ⟨rest', rfl, rfl⟩
    · rw [List.append_nil, inside.level] at level
      omega
    · exact .inl ⟨rest', rfl, rfl⟩
  · have partly := inside.above more' rest rfl
    omega

/-- The longest beginning of a list that has a property. -/
theorem exists_longest {P : List Token → Prop} (nil : P []) (other : ¬ P ts) :
    ∃ before t after, ts = before ++ t :: after ∧ P before ∧
      ∀ first last, after = first ++ last → ¬ P (before ++ t :: first) := by
  induction ts using List.reverseRecOn with
  | nil => exact absurd nil other
  | append_singleton rest t ih =>
    by_cases holds : P rest
    · refine ⟨rest, t, [], rfl, holds, fun first last same => ?_⟩
      obtain ⟨rfl, -⟩ := List.append_eq_nil_iff.1 same.symm
      exact other
    · obtain ⟨before, u, after, rfl, start, later⟩ := ih holds
      refine ⟨before, u, after ++ [t], by simp, start, fun first last same => ?_⟩
      rcases List.eq_nil_or_concat last with rfl | ⟨last', t', rfl⟩
      · rw [List.append_nil] at same
        rw [← same]
        simpa using other
      · rw [List.concat_eq_append, ← List.append_assoc] at same
        exact later first last' (List.append_inj' same rfl).1

/-- The first place of a list where a property of what is before it is lost. -/
theorem exists_shortest {P : List Token → Prop} (nil : P []) (other : ¬ P ts) :
    ∃ before t after, ts = before ++ t :: after ∧ ¬ P (before ++ [t]) ∧
      ∀ first last, before = first ++ last → P first := by
  induction ts generalizing P with
  | nil => exact absurd nil other
  | cons t rest ih =>
    by_cases holds : P [t]
    · obtain ⟨before, u, after, rfl, ends, earlier⟩ := ih (P := fun ts => P (t :: ts)) holds other
      refine ⟨t :: before, u, after, rfl, ends, fun first last same => ?_⟩
      rcases List.cons_eq_append_iff.1 same with ⟨rfl, -⟩ | ⟨first', rfl, rest⟩
      · exact nil
      · exact earlier first' last rest
    · refine ⟨[], t, rest, rfl, holds, fun first last same => ?_⟩
      obtain ⟨rfl, -⟩ := List.append_eq_nil_iff.1 same.symm
      exact nil

theorem rise_le (kind : TokenKind) : -1 ≤ kind.rise ∧ kind.rise ≤ 1 := by
  cases kind <;> simp [TokenKind.rise]

theorem opening_of_rise (up : 0 < t.kind.rise) : t.kind = .opening := by
  cases kind : t.kind <;> simp [kind, TokenKind.rise] at up ⊢

theorem closing_of_rise (down : t.kind.rise < 0) : t.kind = .closing := by
  cases kind : t.kind <;> simp [kind, TokenKind.rise] at down ⊢

/-- The last open parenthesis of a text that opens more than it closes. -/
theorem exists_opening (more : 0 < height ts) :
    ∃ before o inside, ts = before ++ o :: inside ∧ o.kind = .opening ∧ Balanced inside := by
  obtain ⟨before, o, inside, rfl, less, later⟩ :=
    exists_longest (P := fun us => height us < height ts) more (Int.lt_irrefl (height ts))
  have bound := (rise_le o.kind).2
  have here := later [] inside rfl
  simp only [height_append, height_cons, height_nil] at less here
  refine ⟨before, o, inside, rfl, opening_of_rise (by omega), ?_, fun first last same => ?_⟩
  · omega
  · have above := later first last same
    simp only [height_append, height_cons] at above
    omega

/-- The first parenthesis of a text that closes one before it. -/
theorem exists_closing (fewer : height ts < 0) :
    ∃ inside q after, ts = inside ++ q :: after ∧ q.kind = .closing ∧ Balanced inside := by
  obtain ⟨inside, q, after, rfl, ends, above⟩ :=
    exists_shortest (P := fun us => 0 ≤ height us) (Int.le_refl 0) (Int.not_le.2 fewer)
  have bound := (rise_le q.kind).1
  have level := above inside [] (by simp)
  simp only [height_append, height_cons, height_nil] at ends
  exact ⟨inside, q, after, rfl, closing_of_rise (by omega), by omega, above⟩

/-- The same with a token between the two texts that opens no group. -/
theorem group_of_middle (balanced : Balanced ts) (inside : Balanced inner) (opening : o.kind = .opening)
    (other : t.kind ≠ .opening) (same : ts ++ t :: us = before ++ o :: (inner ++ q :: after)) :
    (∃ rest, ts = before ++ o :: (inner ++ q :: rest) ∧ after = rest ++ t :: us) ∨
      ∃ first, before = ts ++ [t] ++ first ∧ us = first ++ o :: (inner ++ q :: after) := by
  rcases group_of_append balanced inside opening same with left | ⟨first, rfl, behind⟩
  · exact .inl left
  rcases List.cons_eq_append_iff.1 behind with ⟨rfl, here⟩ | ⟨first', rfl, behind'⟩
  · cases here
    exact absurd opening other
  · exact .inr ⟨first', by simp, behind'⟩

/-- In a group with a balanced content a group is the whole of it, or lies in the content. -/
theorem group_of_group {o' q' : Token} (balanced : Balanced ts) (inside : Balanced inner) (opening : o.kind = .opening)
    (closing : q.kind = .closing) (same : o' :: (ts ++ [q']) = before ++ o :: (inner ++ q :: after)) :
    (before = [] ∧ o' = o ∧ ts = inner ∧ q' = q ∧ after = []) ∨
      ∃ first rest, before = o' :: first ∧ ts = first ++ o :: (inner ++ q :: rest) ∧ after = rest ++ [q'] := by
  rcases List.cons_eq_append_iff.1 same with ⟨rfl, here⟩ | ⟨first, rfl, behind⟩
  · obtain ⟨rfl, contents⟩ := List.cons_eq_cons.1 here.symm
    rcases List.append_eq_append_iff.1 contents with ⟨more, rfl, last⟩ | ⟨more, rfl, last⟩
    · rcases List.cons_eq_append_iff.1 last with ⟨rfl, end'⟩ | ⟨more', rfl, none⟩
      · obtain ⟨rfl, rfl⟩ := List.cons_eq_cons.1 end'
        simp
      · simp at none
    · rcases List.cons_eq_append_iff.1 last with ⟨rfl, end'⟩ | ⟨more', rfl, -⟩
      · obtain ⟨rfl, rfl⟩ := List.cons_eq_cons.1 end'
        simp
      · have above := balanced.above (inner ++ [q]) more' (by simp)
        rw [height_append, inside.level, height_cons, rise_closing closing, height_nil] at above
        omega
  · rcases group_of_append balanced inside opening behind with ⟨rest, rfl, rfl⟩ | ⟨first', rfl, short⟩
    · exact .inr ⟨first, rest, rfl, rfl, rfl⟩
    · have length := congrArg List.length short
      simp only [List.length_append, List.length_cons, List.length_nil] at length
      omega

namespace Enclosed

theorem nil : Enclosed [] := by
  intro before t after same
  simp at same

theorem flat (other : t.kind ≠ .comma) : Enclosed [t] := by
  intro before u after same comma
  rcases List.cons_eq_append_iff.1 same with ⟨-, here⟩ | ⟨before', rfl, none⟩
  · cases here
    exact absurd comma other
  · simp at none

theorem append (balanced : Balanced ts) (left : Enclosed ts) (right : Enclosed us) : Enclosed (ts ++ us) := by
  intro before t after same comma
  rcases List.append_eq_append_iff.1 same with ⟨more, rfl, behind⟩ | ⟨more, rfl, behind⟩
  · have positive := right more t after behind comma
    rw [height_append, balanced.level]
    omega
  · rcases List.cons_eq_append_iff.1 behind with ⟨rfl, here⟩ | ⟨more', rfl, -⟩
    · have positive := right [] t after here comma
      simp at positive
    · exact left before t more' rfl comma

theorem cons (rise : t.kind.rise = 0) (other : t.kind ≠ .comma) (h : Enclosed ts) : Enclosed (t :: ts) :=
  append (.flat rise) (flat other) h

/-- Whatever stands in a group is enclosed by it. -/
theorem group (opening : o.kind = .opening) (balanced : Balanced ts) (closing : q.kind = .closing) :
    Enclosed (o :: (ts ++ [q])) := by
  intro before t after same comma
  rcases List.cons_eq_append_iff.1 same with ⟨-, here⟩ | ⟨before', rfl, behind⟩
  · cases here
    simp [opening] at comma
  rw [height_cons, rise_opening opening]
  rcases List.append_eq_append_iff.1 behind with ⟨more, rfl, last⟩ | ⟨more, inside, -⟩
  · rcases List.cons_eq_append_iff.1 last with ⟨-, here⟩ | ⟨more', rfl, none⟩
    · cases here
      simp [closing] at comma
    · simp at none
  · have above := balanced.above before' more inside
    omega

end Enclosed

variable {c : Catalog} {extended : Bool} {next : Option TokenKind} {l : Level} {e : Expression}

theorem rise_operator {p : Operator} (sign : t.kind = .operator p) : t.kind.rise = 0 ∧ t.kind ≠ .comma := by
  simp [sign, TokenKind.rise]

/-- A phrase closes the groups that it opens. -/
theorem Phrase.balanced (h : Phrase c extended next l ts e) : Balanced ts := by
  induction h with
  | loosen _ _ ih => exact ih
  | argument _ comma _ before last => exact before.append (last.cons (rise_comma comma))
  | binary _ sign _ _ left right => exact left.append (right.cons (rise_operator sign).1)
  | negation sign _ _ operand => exact operand.cons (rise_operator sign).1
  | factorial _ sign _ operand => exact operand.append (.flat (by rw [sign]; rfl))
  | juxtaposition _ _ _ left right => exact left.append right
  | number kind => exact .flat (by rw [kind]; rfl)
  | constant kind => exact .flat (by rw [kind]; rfl)
  | group opening _ closing content => exact content.group opening closing
  | call name _ opening _ closing content => exact (content.group opening closing).cons (by rw [name]; rfl)
  | emptyCall name _ opening closing => exact (Balanced.nil.group opening closing).cons (by rw [name]; rfl)
  | reuse _ _ _ opening _ _ closing callee content => exact callee.append (content.group opening closing)
  | emptyReuse _ _ _ opening closing callee => exact callee.append (Balanced.nil.group opening closing)

/-- An expression has its commas in groups. -/
theorem Phrase.enclosed (h : Phrase c extended next l ts e) (sum : .sum ≤ l) : Enclosed ts := by
  induction h with
  | loosen _ le ih => exact ih (sum.trans le)
  | argument => exact absurd sum (by decide)
  | @binary _ p _ _ _ _ _ _ left sign _ _ ih_left ih_right =>
    obtain ⟨rise, other⟩ := rise_operator sign
    have first := ih_left (by cases p <;> decide)
    have second := ih_right (by cases p <;> decide)
    exact first.append left.balanced (second.cons rise other)
  | negation sign _ _ ih =>
    obtain ⟨rise, other⟩ := rise_operator sign
    exact (ih (by decide)).cons rise other
  | factorial operand sign _ ih => exact (ih (by decide)).append operand.balanced (.flat (by simp [sign]))
  | juxtaposition left _ _ ih_left ih_right => exact (ih_left (by decide)).append left.balanced (ih_right (by decide))
  | number kind => exact .flat (by simp [kind])
  | constant kind => exact .flat (by simp [kind])
  | group opening content closing => exact .group opening content.balanced closing
  | call name _ opening content closing =>
    exact (Enclosed.group opening content.balanced closing).cons (by rw [name]; rfl) (by simp [name])
  | emptyCall name _ opening closing =>
    exact (Enclosed.group opening .nil closing).cons (by rw [name]; rfl) (by simp [name])
  | reuse _ callee _ opening content _ closing ih_callee =>
    exact (ih_callee (by decide)).append callee.balanced (.group opening content.balanced closing)
  | emptyReuse _ callee _ opening closing ih_callee =>
    exact (ih_callee (by decide)).append callee.balanced (.group opening .nil closing)

end Grammar

end Reckoner
