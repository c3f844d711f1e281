import Reckoner.Proofs.Decimal.Plain

/-!
# How tokens are spelled

Each kind of token has characters that may begin it and characters that may go on
with it. No character begins tokens of two kinds, and the nine signs go on with
nothing. One equation then says what the lexer does with the first character of a
text: it skips a gap, refuses a foreign blank, or takes the longest token that
the character begins.
-/

namespace Reckoner

open Text Lexer

/-- The characters that are tokens of their own. -/
def signs : List Char := ['+', '-', '*', '/', '^', '!', '(', ')', ',']

namespace TokenKind

/-- The one character of which a token of this kind consists. -/
def sign? : TokenKind → Option Char
  | .number | .name => none
  | .operator .plus => some '+'
  | .operator .minus => some '-'
  | .operator .star => some '*'
  | .operator .slash => some '/'
  | .operator .caret => some '^'
  | .bang => some '!'
  | .opening => some '('
  | .closing => some ')'
  | .comma => some ','

/-- The character may be the first of a token of this kind. -/
def starts : TokenKind → Char → Bool
  | .number, c => Decimal.numerals.contains c
  | .name, c => !isBlank c && !signs.contains c && !Decimal.numerals.contains c
  | kind, c => kind.sign? == some c

/-- The character may stand behind others in a token of this kind. -/
def continues : TokenKind → Char → Bool
  | .number, c => Decimal.numerals.contains c
  | .name, c => !isBlank c && !signs.contains c
  | _, _ => false

/-- A token of this kind may be written like that. -/
def Spells (kind : TokenKind) (text : List Char) : Prop :=
  ∃ c rest, text = c :: rest ∧ kind.starts c = true ∧ ∀ d ∈ rest, kind.continues d = true

end TokenKind

namespace Lexer

open TokenKind

variable {c : Char} {kind kind' : TokenKind} {rest : List Char} {position : Nat}

theorem isNumeral_eq (c : Char) : isNumeral c = Decimal.numerals.contains c := by
  cases numeral : isNumeral c with
  | true =>
    have member := Decimal.mem_numerals numeral
    simp [member]
  | false =>
    have all : Decimal.numerals.all isNumeral = true := by decide
    have other : c ∉ Decimal.numerals := fun member => by simp [List.all_eq_true.1 all c member] at numeral
    simp [other]

theorem signKind?_eq_some_iff : signKind? c = some kind ↔ kind.sign? = some c := by
  constructor
  · intro sign
    unfold signKind? at sign
    split at sign <;> cases sign <;> rfl
  · intro sign
    unfold sign? at sign
    split at sign <;> cases sign <;> rfl

theorem isNone_signKind? (c : Char) : (signKind? c).isNone = !signs.contains c := by
  cases sign : signKind? c with
  | some kind =>
    unfold signKind? at sign
    split at sign <;> first | rfl | cases sign
  | none =>
    have all : (signs.all fun d => (signKind? d).isSome) = true := by decide
    have other : c ∉ signs := fun member => by simpa [sign] using List.all_eq_true.1 all c member
    simp [other]

theorem continues_number : continues .number = isNumeral :=
  funext fun c => (isNumeral_eq c).symm

theorem continues_name : continues .name = isNameRest :=
  funext fun c => by rw [isNameRest, isNone_signKind?, continues]

theorem signKind?_of_isNumeral (numeral : isNumeral c = true) : signKind? c = none := by
  have holds := Decimal.of_isNumeral (p := fun c => (signKind? c).isNone) (by decide) numeral
  simpa using holds

theorem not_isBlank_of_isNumeral (numeral : isNumeral c = true) : isBlank c = false := by
  have holds := Decimal.of_isNumeral (p := fun c => !isBlank c) (by decide) numeral
  simpa using holds

theorem not_isBlank_of_signKind? (sign : signKind? c = some kind) : isBlank c = false := by
  unfold signKind? at sign
  split at sign <;> first | rfl | cases sign

theorem not_isGap_of_not_isBlank (other : isBlank c = false) : isGap c = false := by
  cases gap : isGap c with
  | false => rfl
  | true => rw [isBlank_of_isGap gap] at other; cases other

/-- A number may stand in a name, though not at its beginning. -/
theorem isNameRest_of_isNumeral (numeral : isNumeral c = true) : isNameRest c = true := by
  simp [isNameRest, not_isBlank_of_isNumeral numeral, signKind?_of_isNumeral numeral]

/-- The three ways to begin a token. -/
theorem starts_cases (starts : kind.starts c = true) :
    signKind? c = some kind ∨ kind = .number ∧ isNumeral c = true ∨
      kind = .name ∧ isNameRest c = true ∧ isNumeral c = false := by
  cases kind with
  | number => exact .inr (.inl ⟨rfl, (isNumeral_eq c).trans starts⟩)
  | name =>
    simp only [TokenKind.starts, ← isNumeral_eq, ← isNone_signKind?, Bool.and_eq_true, Bool.not_eq_true'] at starts
    exact .inr (.inr ⟨rfl, by simp [isNameRest, starts.1], starts.2⟩)
  | _ => exact .inl (signKind?_eq_some_iff.2 (eq_of_beq starts))

theorem not_isBlank_of_starts (starts : kind.starts c = true) : isBlank c = false := by
  rcases starts_cases starts with sign | ⟨-, numeral⟩ | ⟨-, rest, -⟩
  · exact not_isBlank_of_signKind? sign
  · exact not_isBlank_of_isNumeral numeral
  · simp only [isNameRest, Bool.and_eq_true, Bool.not_eq_true'] at rest
    exact rest.1

/-- A gap goes on with no token. -/
theorem not_continues_of_isGap (gap : isGap c = true) : kind.continues c = false := by
  have blank := isBlank_of_isGap gap
  cases kind with
  | number =>
    rw [continues_number]
    cases numeral : isNumeral c with
    | false => rfl
    | true => rw [not_isBlank_of_isNumeral numeral] at blank; cases blank
  | name => simp [continues, blank]
  | _ => rfl

/-- A character that is no blank begins a token. -/
theorem exists_starts (other : isBlank c = false) : ∃ kind : TokenKind, kind.starts c = true := by
  cases sign : signKind? c with
  | some kind =>
    refine ⟨kind, ?_⟩
    unfold signKind? at sign
    split at sign <;> cases sign <;> rfl
  | none =>
    cases numeral : isNumeral c with
    | true => exact ⟨.number, (isNumeral_eq c).symm.trans numeral⟩
    | false =>
      refine ⟨.name, ?_⟩
      rw [TokenKind.starts, ← isNumeral_eq, ← isNone_signKind?, other, sign, numeral]
      rfl

theorem tokensFrom_gap (gap : isGap c = true) : tokensFrom position (c :: rest) = tokensFrom (position + 1) rest := by
  rw [tokensFrom, if_pos gap]

theorem tokensFrom_foreign (blank : isBlank c = true) (foreign : isGap c = false) :
    tokensFrom position (c :: rest) = .error (.unexpectedToken (String.singleton c) position .foreignBlank) := by
  have sign : signKind? c = none := by
    cases sign : signKind? c with
    | none => rfl
    | some kind => rw [not_isBlank_of_signKind? sign] at blank; cases blank
  have numeral : isNumeral c = false := by
    cases numeral : isNumeral c with
    | false => rfl
    | true => rw [not_isBlank_of_isNumeral numeral] at blank; cases blank
  rw [tokensFrom]
  simp [foreign, sign, numeral, blank]

/-- The longest token that the first character begins is taken. -/
theorem tokensFrom_starts (starts : kind.starts c = true) :
    tokensFrom position (c :: rest) =
      (tokensFrom (position + (c :: rest.takeWhile kind.continues).length) (rest.dropWhile kind.continues)).map
        (⟨kind, String.ofList (c :: rest.takeWhile kind.continues), position⟩ :: ·) := by
  have blank := not_isBlank_of_starts starts
  have gap := not_isGap_of_not_isBlank blank
  rcases starts_cases starts with sign | ⟨rfl, numeral⟩ | ⟨rfl, name, numeral⟩
  · have short : kind.continues = fun _ => false := by
      unfold signKind? at sign
      split at sign <;> cases sign <;> rfl
    have taken : rest.takeWhile (fun _ => false) = [] := by cases rest <;> rfl
    have left : rest.dropWhile (fun _ => false) = rest := by cases rest <;> rfl
    rw [tokensFrom]
    simp only [gap, Bool.false_eq_true, if_false, sign, short, taken, left]
    rfl
  · rw [tokensFrom]
    simp only [gap, Bool.false_eq_true, if_false, signKind?_of_isNumeral numeral, numeral, if_true, continues_number]
  · have sign : signKind? c = none := by simpa [isNameRest, blank] using name
    rw [tokensFrom]
    simp only [gap, Bool.false_eq_true, if_false, sign, numeral, blank, continues_name]

end Lexer

end Reckoner
