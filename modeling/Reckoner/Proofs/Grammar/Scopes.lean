import Reckoner.Proofs.Grammar.Arguments

/-!
# Redundant parentheses

A scope is the whole text, the content of a group, or one argument of a call: an expression
between two boundaries. One more pair of parentheses around it changes nothing. In the
grammar the wrapped content is a group where the content was, and everything around it stays;
for the parser it is closed by its own parenthesis, and no longer by a comma, by the
parenthesis behind it or by the end of the text.
-/

namespace Reckoner.Grammar

open Expression

/-- `inner` is the complete content of a scope: it begins with the text or behind an open parenthesis or a comma,
and ends with the text or before a closing parenthesis or a comma. -/
structure Scope (before inner after : List Token) : Prop where
  argument : IsArgument inner
  left : ∀ kind, lastKind before = some kind → kind = .opening ∨ kind = .comma
  right : ∀ t rest, after = t :: rest → t.kind = .closing ∨ t.kind = .comma

variable {c : Catalog} {next upcoming : Option TokenKind} {l : Level} {before after inner ts us left right : List Token}
  {t o q : Token} {e : Expression}

/-- An expression in parentheses is an element. -/
theorem Phrase.wrap (h : Phrase c true next .sum ts e) (opening : o.kind = .opening) (closing : q.kind = .closing)
    (upcoming : Option TokenKind) (l : Level) : Phrase c true upcoming l (o :: (ts ++ [q])) e := by
  have group : Phrase c true upcoming .element (o :: (ts ++ [q])) e := .group opening (h.follow (by simp)) closing
  exact group.loosen (by cases l <;> decide)

/-- What stands before an argument in its group: nothing, or the arguments before it and a comma. -/
def LeadsIn (left : List Token) : Prop :=
  left = [] ∨ ∃ left' t, left = left' ++ [t] ∧ t.kind = .comma ∧ Balanced left'

theorem LeadsIn.balanced (h : LeadsIn left) : Balanced left := by
  rcases h with rfl | ⟨left', t, rfl, comma, balanced⟩
  · exact .nil
  · exact balanced.append (.flat (rise_comma comma))

/-- In a phrase without commas of its own an argument stands alone. -/
theorem IsArgument.alone (whole : IsArgument (left ++ (inner ++ right))) (argument : IsArgument inner) (first : LeadsIn left)
    (last : ∀ t rest, right = t :: rest → t.kind = .comma) : left = [] ∧ right = [] := by
  obtain rfl : left = [] := by
    rcases first with rfl | ⟨left', t, rfl, comma, balanced⟩
    · rfl
    · have loose : left' ++ [t] ++ (inner ++ right) = left' ++ t :: (inner ++ right) := by simp
      exact absurd balanced (whole.no_comma loose comma)
  refine ⟨rfl, ?_⟩
  cases right with
  | nil => rfl
  | cons t rest => exact absurd argument.balanced (whole.no_comma rfl (last t rest rfl))

/-- The last of several arguments may be wrapped. -/
theorem Phrase.wrap_last {vs : List Token} {a b : Expression} (before : Phrase c true (some .comma) .arguments us a)
    (comma : t.kind = .comma) (final : Phrase c true next .sum vs b) (argument : IsArgument inner) (first : LeadsIn left)
    (same : left ++ inner = us ++ t :: vs) (opening : o.kind = .opening) (closing : q.kind = .closing) :
    Phrase c true next .arguments (left ++ o :: (inner ++ [q])) (.arguments (a.asArguments ++ [b])) := by
  rcases first with rfl | ⟨left', t', rfl, comma', -⟩
  · exact absurd before.balanced (argument.no_comma same comma)
  · obtain ⟨rfl, rfl⟩ := last_comma (by simpa using same) argument (final.isArgument le_rfl) comma' comma
    simpa using before.argument comma' (final.wrap opening closing next .sum)

/-- One of several arguments may be wrapped. -/
theorem Phrase.wrap_argument (h : Phrase c true next .arguments (left ++ (inner ++ right)) e) (argument : IsArgument inner)
    (first : LeadsIn left) (last : ∀ t rest, right = t :: rest → t.kind = .comma) (opening : o.kind = .opening)
    (closing : q.kind = .closing) : Phrase c true next .arguments (left ++ o :: (inner ++ q :: right)) e := by
  -- On what is right of the argument: the last comma of the phrase stands there, or right before the argument.
  induction length : right.length using Nat.strongRecOn generalizing right next e with
  | ind n ih =>
    rcases h.sum_or_argument with sum | ⟨us, t, vs, a, b, same, comma, before, final, rfl⟩
    · obtain ⟨rfl, rfl⟩ := (sum.isArgument le_rfl).alone argument first last
      have content : Phrase c true next .sum inner e := by simpa using sum
      exact content.wrap opening closing next .arguments
    · have earlier {m : List Token} (short : m.length < n) (commas : ∀ t rest, m = t :: rest → t.kind = .comma)
          (here : us = left ++ inner ++ m) (tail : right = m ++ t :: vs) :
          Phrase c true next .arguments (left ++ o :: (inner ++ q :: right)) (.arguments (a.asArguments ++ [b])) := by
        subst here tail
        have wrapped := ih m.length short (by simpa using before) commas rfl
        simpa using wrapped.argument comma final
      cases right with
      | nil => exact before.wrap_last comma final argument first (by simpa using same) opening closing
      | cons t' rest =>
        have comma' := last t' rest rfl
        rw [← List.append_assoc] at same
        rcases List.append_eq_append_iff.1 same with ⟨m, here, behind⟩ | ⟨m, inside, behind⟩
        · refine earlier ?_ ?_ here behind
          · simp [← length, behind]
          · rintro u rest' rfl
            obtain ⟨rfl, -⟩ := List.cons_eq_cons.1 behind
            exact comma'
        · rcases List.cons_eq_append_iff.1 behind with ⟨rfl, here⟩ | ⟨m', rfl, here⟩
          · refine earlier (m := []) (by simp [← length]) (by simp) (by simpa using inside.symm) here
          · have balanced : Balanced (left ++ inner) := first.balanced.append argument.balanced
            rw [inside] at balanced
            have flat : Balanced m' := (balanced.of_append before.balanced).of_append (.flat (rise_comma comma))
            exact absurd flat ((final.isArgument le_rfl).no_comma here comma')

/-- A scope that stands in no group is the whole text. -/
theorem Scope.whole (h : Scope before inner after) (text : IsArgument (before ++ (inner ++ after)))
    (level : height before = 0) : before = [] ∧ after = [] := by
  have inner_level := h.argument.balanced.level
  constructor
  · rcases List.eq_nil_or_concat before with rfl | ⟨before', t, rfl⟩
    · rfl
    rw [List.concat_eq_append] at text level h
    have above := text.balanced.above before' ([t] ++ (inner ++ after)) (by simp)
    rw [height_append, height_cons, height_nil] at level
    rcases h.left t.kind (by simp) with opening | comma
    · have up := rise_opening opening
      omega
    · have positive := text.enclosed before' t (inner ++ after) (by simp) comma
      have flat := rise_comma comma
      omega
  · cases after with
    | nil => rfl
    | cons t rest =>
      rcases h.right t rest rfl with closing | comma
      · have down := rise_closing closing
        have above := text.balanced.above (before ++ (inner ++ [t])) rest (by simp)
        simp only [height_append, height_cons, height_nil] at above
        omega
      · have positive := text.enclosed (before ++ inner) t rest (by simp) comma
        rw [height_append] at positive
        omega

/-- Between the parenthesis that opens its group and a scope there is nothing, or a comma comes last. -/
theorem Scope.first (h : Scope (before ++ t :: left) inner after) (balanced : Balanced left) : LeadsIn left := by
  rcases List.eq_nil_or_concat left with rfl | ⟨left', t, rfl⟩
  · exact .inl rfl
  rw [List.concat_eq_append] at balanced h
  have above := balanced.above left' [t] rfl
  have level := balanced.level
  rw [height_append, height_cons, height_nil] at level
  rcases h.left t.kind (by simp) with opening | comma
  · have up := rise_opening opening
    omega
  · exact .inr ⟨left', t, by simp, comma, balanced.of_snoc (rise_comma comma)⟩

/-- Behind a scope and before the end of its group a comma comes first. -/
theorem Scope.last (h : Scope before inner (right ++ after)) (balanced : Balanced right) :
    ∀ t rest, right = t :: rest → t.kind = .comma := by
  rintro t rest rfl
  rcases h.right t _ rfl with closing | comma
  · have down := rise_closing closing
    have above := balanced.above [t] rest rfl
    rw [height_cons, height_nil] at above
    omega
  · exact comma

/-- Wrapping the content of a scope leaves the tree as it is. -/
theorem Phrase.wrap_scope (regular : c.Regular) (h : Phrase c true next .sum (before ++ (inner ++ after)) e)
    (scope : Scope before inner after) (opening : o.kind = .opening) (closing : q.kind = .closing) :
    Phrase c true next .sum (before ++ o :: (inner ++ q :: after)) e := by
  have text := h.isArgument le_rfl
  have start := text.balanced.above before (inner ++ after) rfl
  have level := text.balanced.level
  simp only [height_append, scope.argument.balanced.level] at level
  by_cases outside : height before = 0
  · obtain ⟨rfl, rfl⟩ := scope.whole text outside
    have content : Phrase c true next .sum inner e := by simpa using h
    exact content.wrap opening closing next .sum
  -- The scope stands in a group, between the parentheses `p` and `p'`.
  obtain ⟨outer, p, left, rfl, opens, balanced⟩ := exists_opening (by omega : 0 < height before)
  obtain ⟨right, p', rest, rfl, closes, balanced'⟩ := exists_closing (by omega : height after < 0)
  have same : outer ++ p :: left ++ (inner ++ (right ++ p' :: rest)) =
      outer ++ p :: ((left ++ (inner ++ right)) ++ p' :: rest) := by simp
  have inside : Balanced (left ++ (inner ++ right)) := balanced.append (scope.argument.balanced.append balanced')
  obtain ⟨content, group⟩ := h.groupsAt regular opens closes inside same
  have wrapped : Fills c (left ++ o :: (inner ++ q :: right)) content := by
    have fills := group.fills
    generalize tokens : left ++ (inner ++ right) = ts at fills
    cases fills with
    | empty => simp [scope.argument.filled] at tokens
    | arguments phrase =>
      subst tokens
      exact .arguments (phrase.wrap_argument scope.argument (scope.first balanced) (scope.last balanced') opening closing)
  simpa using group.refill _ wrapped

/-- Over the standard operations and any constants, wrapping the complete content of a scope of a text that is read
gives a text that is read as the same tree. -/
theorem expression_wrap_scope (constants : List (String × Float)) {before inner after : List Token} {o q : Token}
    {root : Expression} (built : (Catalog.standard.withConstants constants).expression (before ++ (inner ++ after)) = .ok root)
    (scope : Scope before inner after) (opening : o.kind = .opening) (closing : q.kind = .closing) :
    (Catalog.standard.withConstants constants).expression (before ++ o :: (inner ++ q :: after)) = .ok root := by
  have regular := Catalog.regular_withConstants constants
  have phrase := (expression_eq_ok_iff regular).1 built
  exact (expression_eq_ok_iff regular).2 (phrase.wrap_scope regular scope opening closing)

/-- The constant in `max(pi,2)` may stand in parentheses. -/
theorem expression_wrap_scope_constant :
    let c := Catalog.standard.withConstants []
    let pi : Token := ⟨.name, "pi", 4⟩
    let before : List Token := [⟨.name, "max", 0⟩, ⟨.opening, "(", 3⟩]
    let after : List Token := [⟨.comma, ",", 6⟩, ⟨.number, "2", 7⟩, ⟨.closing, ")", 8⟩]
    ∃ root, c.expression (before ++ ([pi] ++ after)) = .ok root ∧
      c.expression (before ++ ⟨.opening, "(", 4⟩ :: ([pi] ++ ⟨.closing, ")", 6⟩ :: after)) = .ok root := by
  intro c pi before after
  obtain ⟨root, built⟩ : ∃ root, c.expression (before ++ ([pi] ++ after)) = .ok root := ⟨_, rfl⟩
  have scope : Scope before [pi] after := by
    refine ⟨⟨List.cons_ne_nil _ _, .flat rfl, .flat (by decide)⟩, ?_, ?_⟩
    · rintro kind ⟨⟩
      exact .inl rfl
    · intro t rest same
      obtain ⟨rfl, -⟩ := List.cons_eq_cons.1 same
      exact .inr rfl
  exact ⟨root, built, expression_wrap_scope [] built scope rfl rfl⟩

end Reckoner.Grammar
