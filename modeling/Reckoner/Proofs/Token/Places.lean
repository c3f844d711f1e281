import Reckoner.Proofs.Token.Writing

/-!
# Where tokens stand

The position of a token is that of its first character: there the text reads like the token,
and behind it, after a gap, like the next one. A text that is not split into tokens is refused
at its first foreign blank.
-/

namespace Reckoner

open Text Lexer

/-- At the position the text goes on with these characters. -/
def ReadsAt (text : String) (position : Nat) (word : List Char) : Prop :=
  position < text.length ∧ word <+: text.toList.drop position

namespace TokenKind

variable {kind : TokenKind} {c : Char} {text : List Char}

/-- A token with a sign of its own is written with that sign alone. -/
theorem Spells.eq_sign (spelled : kind.Spells text) (sign : kind.sign? = some c) : text = [c] := by
  obtain ⟨first, rest, rfl, starts, continues⟩ := spelled
  have sole : (∀ d, kind.continues d = false) ∧ kind.starts first = (kind.sign? == some first) := by
    cases kind with
    | number => cases sign
    | name => cases sign
    | _ => exact ⟨fun _ => rfl, rfl⟩
  obtain rfl : c = first := by
    rw [sole.2, sign] at starts
    exact Option.some.inj (eq_of_beq starts)
  cases rest with
  | nil => rfl
  | cons d rest =>
    have more := continues d List.mem_cons_self
    rw [sole.1] at more
    cases more

/-- No token is written as a pair of parentheses. -/
theorem Spells.ne_parentheses (spelled : kind.Spells text) : text ≠ ['(', ')'] := by
  rintro rfl
  obtain ⟨first, rest, same, starts, continues⟩ := spelled
  obtain ⟨rfl, rfl⟩ := List.cons_eq_cons.1 same
  have second := continues ')' List.mem_cons_self
  cases kind <;> simp_all [TokenKind.starts, TokenKind.continues, signs, Decimal.numerals]

theorem continues_not_isBlank (continues : kind.continues c = true) : isBlank c = false := by
  cases kind with
  | number => exact not_isBlank_of_isNumeral ((congrFun continues_number c).symm.trans continues)
  | name =>
    simp only [TokenKind.continues, Bool.and_eq_true, Bool.not_eq_true'] at continues
    exact continues.1
  | _ => cases continues

end TokenKind

namespace Lexer

variable {text : List Char} {position : Nat} {cause : ParseError}

/-- `cause` is the first blank of the text that is no gap, at its place behind `position` characters. -/
def ForeignAt (position : Nat) (text : List Char) (cause : ParseError) : Prop :=
  ∃ before c after, text = before ++ c :: after ∧ isBlank c = true ∧ isGap c = false ∧
    (∀ d ∈ before, isBlank d = true → isGap d = true) ∧
    cause = .unexpectedToken (String.singleton c) (position + before.length) .foreignBlank

/-- What is passed over before it has no other blanks than gaps. -/
theorem ForeignAt.behind {passed : List Char} (h : ForeignAt (position + passed.length) text cause)
    (gaps : ∀ d ∈ passed, isBlank d = true → isGap d = true) : ForeignAt position (passed ++ text) cause := by
  obtain ⟨before, c, after, rfl, blank, foreign, earlier, rfl⟩ := h
  refine ⟨passed ++ before, c, after, by simp, blank, foreign, ?_, ?_⟩
  · intro d member
    rcases List.mem_append.1 member with inside | later
    · exact gaps d inside
    · exact earlier d later
  · rw [List.length_append, Nat.add_assoc]

/-- There is no blank in a word. -/
theorem no_blank_of_word {kind : TokenKind} {c d : Char} {rest : List Char} (blank : isBlank c = false)
    (member : d ∈ c :: rest.takeWhile kind.continues) : isBlank d = false := by
  rcases List.mem_cons.1 member with rfl | inner
  · exact blank
  · exact TokenKind.continues_not_isBlank (List.mem_takeWhile_imp inner)

/-- The first blank that is no gap is what a text is refused for. -/
theorem tokensFrom_error (refused : tokensFrom position text = .error cause) : ForeignAt position text cause := by
  induction size : text.length using Nat.strongRecOn generalizing text position with
  | ind n ih =>
    cases text with
    | nil =>
      rw [tokensFrom] at refused
      cases refused
    | cons c rest =>
      rw [List.length_cons] at size
      cases gap : isGap c with
      | true =>
        rw [tokensFrom_gap gap] at refused
        have later : ForeignAt (position + [c].length) rest cause := ih rest.length (by omega) refused rfl
        exact later.behind (by simp [gap])
      | false =>
        cases blank : isBlank c with
        | true =>
          rw [tokensFrom_foreign blank gap] at refused
          cases refused
          exact ⟨[], c, rest, rfl, blank, gap, by simp, rfl⟩
        | false =>
          obtain ⟨kind, starts⟩ := exists_starts blank
          rw [tokensFrom_starts starts] at refused
          cases behind : tokensFrom (position + (c :: rest.takeWhile kind.continues).length)
              (rest.dropWhile kind.continues) with
          | ok tokens =>
            rw [behind] at refused
            cases refused
          | error cause' =>
            rw [behind] at refused
            cases refused
            have shorter := length_dropWhile_le kind.continues rest
            have word : ∀ d ∈ c :: rest.takeWhile kind.continues, isBlank d = true → isGap d = true := by
              intro d member blank'
              rw [no_blank_of_word blank member] at blank'
              cases blank'
            have whole := (ih _ (by omega) behind rfl).behind word
            rwa [List.cons_append, List.takeWhile_append_dropWhile] at whole

end Lexer

variable {text : String} {before after tokens : List Token} {t u : Token} {words : List Word} {position : Nat}

/-- A list of words is cut where the list of their tokens is. -/
theorem Word.tokens_eq_append (same : Word.tokens position words = before ++ t :: after) :
    ∃ ws w ws', words = ws ++ w :: ws' ∧ t = ⟨w.kind, w.text, position + (ws.flatMap Word.written).length⟩ ∧
      after = Word.tokens (t.position + w.written.length) ws' := by
  induction words generalizing position before with
  | nil => simp [Word.tokens] at same
  | cons w words ih =>
    rw [Word.tokens] at same
    rcases List.cons_eq_append_iff.1 same with ⟨rfl, here⟩ | ⟨before', rfl, later⟩
    · obtain ⟨rfl, rfl⟩ := List.cons_eq_cons.1 here
      exact ⟨[], w, words, rfl, rfl, rfl⟩
    · obtain ⟨ws, w', ws', rfl, place, behind⟩ := ih later
      refine ⟨w :: ws, w', ws', rfl, ?_, behind⟩
      rw [place, List.flatMap_cons, List.length_append, Nat.add_assoc]

/-- Around a token the text is cut like that. -/
theorem exists_cut (accepted : tokenize text = .ok (before ++ t :: after)) :
    ∃ ahead gap behind, text.toList = ahead ++ (t.text.toList ++ (gap ++ behind)) ∧ ahead.length = t.position ∧
      t.kind.Spells t.text.toList ∧ (∀ c ∈ gap, isGap c = true) ∧ ∀ u ∈ after.head?, u.text.toList <+: behind := by
  obtain ⟨layout, rfl, cut⟩ := exists_layout accepted
  obtain ⟨ws, w, ws', split, rfl, rfl⟩ := Word.tokens_eq_append cut
  refine ⟨layout.lead ++ ws.flatMap Word.written, w.gap, ws'.flatMap Word.written, ?_, ?_, w.spelled, w.blank, ?_⟩
  · simp [Layout.text, split, Word.written]
  · rw [List.length_append]
  · intro u next
    cases ws' with
    | nil => cases next
    | cons v ws' =>
      cases next
      exact ⟨v.gap ++ ws'.flatMap Word.written, by simp [Word.written]⟩

theorem readsAt_of_cut {ahead word behind : List Char} (same : text.toList = ahead ++ (word ++ behind)) (filled : word ≠ []) :
    ReadsAt text ahead.length word := by
  constructor
  · have length := congrArg List.length same
    have positive := List.length_pos_iff.2 filled
    simp only [String.length_toList, List.length_append] at length
    omega
  · rw [same, List.drop_left]
    exact List.prefix_append word behind

theorem TokenKind.Spells.ne_nil {kind : TokenKind} {word : List Char} (spelled : kind.Spells word) : word ≠ [] := by
  obtain ⟨c, rest, rfl, -⟩ := spelled
  exact List.cons_ne_nil c rest

/-- A token is written as its kind asks for. -/
theorem spells_of_tokenize (accepted : tokenize text = .ok tokens) (member : t ∈ tokens) :
    t.kind.Spells t.text.toList := by
  obtain ⟨before, after, rfl⟩ := List.append_of_mem member
  obtain ⟨_, _, _, _, _, spelled, _⟩ := exists_cut accepted
  exact spelled

/-- The text reads like a token where that stands. -/
theorem readsAt_of_tokenize (accepted : tokenize text = .ok tokens) (member : t ∈ tokens) :
    ReadsAt text t.position t.text.toList := by
  obtain ⟨before, after, rfl⟩ := List.append_of_mem member
  obtain ⟨ahead, gap, behind, same, place, spelled, -⟩ := exists_cut accepted
  rw [← place]
  exact readsAt_of_cut same spelled.ne_nil

/-- The text reads like a token with the next one behind a gap. -/
theorem readsAt_of_adjacent (accepted : tokenize text = .ok (before ++ t :: u :: after)) :
    ∃ gap, (∀ c ∈ gap, isGap c = true) ∧ ReadsAt text t.position (t.text.toList ++ (gap ++ u.text.toList)) := by
  obtain ⟨ahead, gap, behind, same, place, spelled, blank, next⟩ := exists_cut accepted
  obtain ⟨rest, rfl⟩ := next u rfl
  refine ⟨gap, blank, ?_⟩
  rw [← place]
  have cut : text.toList = ahead ++ ((t.text.toList ++ (gap ++ u.text.toList)) ++ rest) := by simpa using same
  exact readsAt_of_cut cut fun none => spelled.ne_nil (List.append_eq_nil_iff.1 none).1

/-- A text that is not split into tokens reads like the foreign blank where that stands. -/
theorem readsAt_of_refused {cause : ParseError} (refused : tokenize text = .error cause) :
    ∃ c position, isBlank c = true ∧ isGap c = false ∧ ReadsAt text position [c] ∧
      cause = .unexpectedToken (String.singleton c) position .foreignBlank := by
  obtain ⟨before, c, after, same, blank, foreign, -, rfl⟩ := Lexer.tokensFrom_error refused
  have cut : text.toList = before ++ ([c] ++ after) := same
  refine ⟨c, before.length, blank, foreign, readsAt_of_cut cut (List.cons_ne_nil c []), ?_⟩
  rw [Nat.zero_add]

end Reckoner
