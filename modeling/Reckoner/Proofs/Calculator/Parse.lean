import Reckoner.Calculator

/-!
# Reading a text

A text passes several checks before its expression is returned, and the first one that
fails decides the answer. `parse_some` states them in their order; a text is read exactly
if it passes all of them, and is refused for a limit of the calculator, by the lexer or for
its tokens otherwise.
-/

namespace Reckoner

section

variable {ε α β : Type} {r : β}

theorem bind_eq_ok {x : Except ε α} {f : α → Except ε β} : x.bind f = .ok r ↔ ∃ a, x = .ok a ∧ f a = .ok r := by
  cases x with
  | error cause => simp [Except.bind]
  | ok a => simp [Except.bind]

theorem ite_error_eq_ok {p : Prop} [Decidable p] {cause : ε} {x : Except ε β} :
    (if p then .error cause else x) = .ok r ↔ ¬ p ∧ x = .ok r := by
  split <;> simp [*]

end

/-- The causes that say how much a text may hold. -/
def ParseError.Limit : ParseError → Prop
  | .emptyInput | .inputTooLong .. | .expressionTooDeep .. => True
  | _ => False

variable {catalog : Catalog} {constants : List (String × Float)} {settings : Settings}

/-- The checks of a text, one after the other. -/
theorem parse_some (text : String) :
    parse catalog constants settings (some text) =
      if Text.isBlankText text = true then .error .emptyInput
      else if settings.maxInputLength < text.length then .error (.inputTooLong text.length settings.maxInputLength)
      else (tokenize text).bind fun tokens =>
        if tokens.isEmpty = true then .error .emptyInput
        else ((catalog.withConstants constants).expression tokens).bind fun root =>
          if settings.maxDepth < root.measuredDepth then .error (.expressionTooDeep root.measuredDepth settings.maxDepth)
          else .ok root := by
  unfold parse
  dsimp only
  split
  · rfl
  · change (if _ then _ else _) = _
    split
    · rfl
    · change Except.bind _ _ = _
      congr 1

/-- A text is read exactly if it passes all of them. -/
theorem parse_eq_ok_iff {source : Option String} {root : Expression} :
    parse catalog constants settings source = .ok root ↔
      ∃ text tokens, source = some text ∧ Text.isBlankText text = false ∧ text.length ≤ settings.maxInputLength ∧
        tokenize text = .ok tokens ∧ tokens ≠ [] ∧ (catalog.withConstants constants).expression tokens = .ok root ∧
        root.measuredDepth ≤ settings.maxDepth := by
  cases source with
  | none => simp [parse, bind, Except.bind]
  | some text =>
    simp only [parse_some, ite_error_eq_ok, bind_eq_ok, Except.ok.injEq]
    constructor
    · rintro ⟨content, short, tokens, tokenized, some_token, root, built, shallow, rfl⟩
      exact ⟨text, tokens, rfl, by simpa using content, Nat.not_lt.1 short, tokenized, by simpa using some_token, built,
        Nat.not_lt.1 shallow⟩
    · rintro ⟨_, tokens, ⟨⟩, content, short, tokenized, some_token, built, shallow⟩
      exact ⟨by simpa using content, Nat.not_lt.2 short, tokens, tokenized, by simpa using some_token, root, built,
        Nat.not_lt.2 shallow, rfl⟩

/-- What is wrong with a refused text. -/
theorem parse_error_cases {text : String} {cause : ParseError}
    (refused : parse catalog constants settings (some text) = .error cause) :
    cause.Limit ∨ tokenize text = .error cause ∨
      ∃ tokens, tokenize text = .ok tokens ∧ tokens ≠ [] ∧ (catalog.withConstants constants).expression tokens = .error cause := by
  rw [parse_some] at refused
  split at refused
  · cases refused
    exact .inl trivial
  split at refused
  · cases refused
    exact .inl trivial
  cases tokenized : tokenize text with
  | error cause' =>
    rw [tokenized] at refused
    cases refused
    exact .inr (.inl rfl)
  | ok tokens =>
    rw [tokenized, Except.bind] at refused
    split at refused
    · cases refused
      exact .inl trivial
    · next filled =>
      cases built : (catalog.withConstants constants).expression tokens with
      | error cause' =>
        rw [built] at refused
        cases refused
        exact .inr (.inr ⟨tokens, rfl, by simpa using filled, built⟩)
      | ok root =>
        rw [built, Except.bind] at refused
        split at refused
        · cases refused
          exact .inl trivial
        · cases refused

/-- What refuses the tokens refuses the text, if that is within its limits. -/
theorem parse_of_refused {text : String} {tokens : List Token} {cause : ParseError}
    (content : Text.isBlankText text = false) (short : text.length ≤ settings.maxInputLength)
    (tokenized : tokenize text = .ok tokens) (filled : tokens.isEmpty = false)
    (refused : (catalog.withConstants constants).expression tokens = .error cause) :
    parse catalog constants settings (some text) = .error cause := by
  rw [parse_some, content, tokenized, if_neg Bool.false_ne_true, if_neg (Nat.not_lt.2 short), Except.bind, filled,
    if_neg Bool.false_ne_true, refused]
  rfl

end Reckoner
