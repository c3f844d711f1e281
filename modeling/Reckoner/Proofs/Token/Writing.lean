import Mathlib.Data.List.Chain
import Reckoner.Proofs.Token.Spelling

/-!
# Writing tokens down

A `Layout` is a text cut into words with gaps around them. A gap may be empty unless
the words on both sides would run together. Its `text` is what is written, and its
`tokens` are the words at the places where they are written. Splitting a text into
tokens is the inverse: a text is accepted exactly if it is the text of a layout,
and then its tokens are those of the layout.
-/

namespace Reckoner

open Text Lexer

/-- Written without a gap, a token of the second kind would become part of one of the first. -/
def TokenKind.merges : TokenKind → TokenKind → Bool
  | .number, .number => true
  | .name, .name => true
  | .name, .number => true
  | _, _ => false

/-- A token without its place, and the gap behind it. -/
structure Word where
  kind : TokenKind
  text : String
  gap : List Char
  spelled : kind.Spells text.toList
  blank : ∀ c ∈ gap, isGap c = true

namespace Word

def written (w : Word) : List Char := w.text.toList ++ w.gap

/-- The gap between two words is wide enough to tell them apart. -/
def Apart (v w : Word) : Prop := v.gap = [] → v.kind.merges w.kind = false

/-- The words as tokens, the first of them at `position`. -/
def tokens (position : Nat) : List Word → List Token
  | [] => []
  | w :: rest => ⟨w.kind, w.text, position⟩ :: tokens (position + w.written.length) rest

end Word

/-- Words with gaps before, between and after them. -/
structure Layout where
  lead : List Char
  words : List Word
  blank : ∀ c ∈ lead, isGap c = true
  apart : words.IsChain Word.Apart

namespace Layout

/-- The text that is written. -/
def text (l : Layout) : String := String.ofList (l.lead ++ l.words.flatMap Word.written)

/-- The tokens that are written, each at its place. -/
def tokens (l : Layout) : List Token := Word.tokens l.lead.length l.words

end Layout

namespace Lexer

variable {c : Char} {kind kind' : TokenKind} {text rest gap more : List Char} {position : Nat} {words : List Word}
  {tokens : List Token}

/-- Whether the first character of a token goes on with another token depends on the two kinds alone. -/
theorem continues_of_starts (starts : kind'.starts c = true) : kind.continues c = kind.merges kind' := by
  have number := congrFun continues_number c
  have name := congrFun continues_name c
  rcases starts_cases starts with sign | ⟨rfl, numeral⟩ | ⟨rfl, inner, numeral⟩
  · have neither : isNumeral c = false ∧ isNameRest c = false := by
      constructor
      · cases numeral : isNumeral c with
        | false => rfl
        | true => rw [signKind?_of_isNumeral numeral] at sign; cases sign
      · simp [isNameRest, sign]
    have other : ∀ k : TokenKind, k.merges kind' = false := by
      unfold signKind? at sign
      split at sign <;> cases sign <;> intro k <;> cases k <;> rfl
    rw [other kind]
    cases kind with
    | number => exact number.trans neither.1
    | name => exact name.trans neither.2
    | _ => rfl
  · cases kind with
    | number => exact number.trans numeral
    | name => exact name.trans (isNameRest_of_isNumeral numeral)
    | _ => rfl
  · cases kind with
    | number => exact number.trans numeral
    | name => exact name.trans inner
    | _ => rfl

theorem tokensFrom_lead (blank : ∀ c ∈ gap, isGap c = true) :
    tokensFrom position (gap ++ rest) = tokensFrom (position + gap.length) rest := by
  induction gap generalizing position with
  | nil => rfl
  | cons c gap ih =>
    have later : tokensFrom (position + 1) (gap ++ rest) = tokensFrom (position + 1 + gap.length) rest :=
      ih fun d member => blank d (List.mem_cons_of_mem c member)
    rw [List.cons_append, tokensFrom_gap (blank c List.mem_cons_self), later, List.length_cons]
    congr 1
    omega

/-- A word is taken as a whole if what follows does not go on with it. -/
theorem tokensFrom_word (spelled : kind.Spells text) (stops : ∀ d ∈ rest.head?, kind.continues d = false) :
    tokensFrom position (text ++ rest) =
      (tokensFrom (position + text.length) rest).map (⟨kind, String.ofList text, position⟩ :: ·) := by
  obtain ⟨c, inner, rfl, starts, continues⟩ := spelled
  have taken : (inner ++ rest).takeWhile kind.continues = inner := by
    rw [List.takeWhile_append_of_pos continues]
    cases rest with
    | nil => simp
    | cons d rest => simp [stops d rfl]
  have left : (inner ++ rest).dropWhile kind.continues = rest := by
    rw [List.dropWhile_append_of_pos continues]
    cases rest with
    | nil => rfl
    | cons d rest => simp [stops d rfl]
  rw [List.cons_append, tokensFrom_starts starts, taken, left]

/-- What follows a word in a layout does not go on with it. -/
theorem stops_of_isChain {w : Word} (apart : (w :: words).IsChain Word.Apart) :
    ∀ d ∈ (w.gap ++ words.flatMap Word.written).head?, w.kind.continues d = false := by
  intro d member
  cases gap : w.gap with
  | cons g gap' =>
    obtain rfl : g = d := by simpa [gap] using member
    exact not_continues_of_isGap (w.blank g (by simp [gap]))
  | nil =>
    cases words with
    | nil => simp [gap] at member
    | cons v words =>
      obtain ⟨first, rest, spelling, starts, -⟩ := v.spelled
      obtain rfl : first = d := by simpa [gap, Word.written, spelling] using member
      rw [continues_of_starts starts]
      exact (List.isChain_cons.1 apart).1 v rfl gap

/-- The words of a layout are read back, each at its place. -/
theorem tokensFrom_words (apart : words.IsChain Word.Apart) :
    tokensFrom position (words.flatMap Word.written) = .ok (Word.tokens position words) := by
  induction words generalizing position with
  | nil => rw [List.flatMap_nil, tokensFrom]; rfl
  | cons w words ih =>
    have later : tokensFrom (position + w.text.toList.length + w.gap.length) (words.flatMap Word.written) =
        .ok (Word.tokens (position + w.text.toList.length + w.gap.length) words) := ih (List.isChain_cons.1 apart).2
    rw [List.flatMap_cons, Word.written, List.append_assoc, tokensFrom_word w.spelled (stops_of_isChain apart),
      tokensFrom_lead w.blank, later, Except.map, String.ofList_toList, Word.tokens, Word.written, List.length_append,
      Nat.add_assoc]

/-- A word that ends only where it cannot go on is apart from the words behind it. -/
theorem isChain_of_dropWhile {w : Word} (apart : words.IsChain Word.Apart)
    (cut : rest.dropWhile w.kind.continues = w.gap ++ words.flatMap Word.written) : (w :: words).IsChain Word.Apart := by
  refine List.isChain_cons.2 ⟨fun v first none => ?_, apart⟩
  obtain ⟨d, more, spelling, starts, -⟩ := v.spelled
  obtain ⟨later, rfl⟩ : ∃ later, words = v :: later := by
    cases words with
    | nil => cases first
    | cons u later => cases first; exact ⟨later, rfl⟩
  have head := List.head?_dropWhile_not w.kind.continues rest
  rw [cut, none] at head
  simp only [List.nil_append, List.flatMap_cons, Word.written, spelling, List.cons_append, List.head?_cons] at head
  exact (continues_of_starts starts).symm.trans head

/-- Every accepted text is cut into words and gaps. -/
theorem exists_words (accepted : tokensFrom position text = .ok tokens) :
    ∃ lead words, (∀ c ∈ lead, isGap c = true) ∧ words.IsChain Word.Apart ∧
      text = lead ++ words.flatMap Word.written ∧ tokens = Word.tokens (position + lead.length) words := by
  induction size : text.length using Nat.strongRecOn generalizing text position tokens with
  | ind n ih =>
    cases text with
    | nil =>
      rw [tokensFrom] at accepted
      cases accepted
      exact ⟨[], [], by simp, .nil, rfl, rfl⟩
    | cons c rest =>
      rw [List.length_cons] at size
      cases gap : isGap c with
      | true =>
        rw [tokensFrom_gap gap] at accepted
        obtain ⟨lead, words, blank, apart, rfl, rfl⟩ := ih rest.length (by omega) accepted rfl
        refine ⟨c :: lead, words, ?_, apart, rfl, ?_⟩
        · intro d member
          rcases List.mem_cons.1 member with rfl | later
          · exact gap
          · exact blank d later
        · rw [List.length_cons, Nat.add_right_comm, Nat.add_assoc]
      | false =>
        cases blank : isBlank c with
        | true =>
          rw [tokensFrom_foreign blank gap] at accepted
          cases accepted
        | false =>
          obtain ⟨kind, starts⟩ := exists_starts blank
          rw [tokensFrom_starts starts] at accepted
          cases behind : tokensFrom (position + (c :: rest.takeWhile kind.continues).length)
              (rest.dropWhile kind.continues) with
          | error cause => rw [behind] at accepted; cases accepted
          | ok tokens' =>
            rw [behind] at accepted
            cases accepted
            have shorter : (rest.dropWhile kind.continues).length < n := by
              have := length_dropWhile_le kind.continues rest
              omega
            obtain ⟨lead, words, gaps, apart, cut, rfl⟩ := ih _ shorter behind rfl
            have spelled : kind.Spells (String.ofList (c :: rest.takeWhile kind.continues)).toList :=
              ⟨c, rest.takeWhile kind.continues, String.toList_ofList, starts, fun d => List.mem_takeWhile_imp⟩
            let word : Word := ⟨kind, String.ofList (c :: rest.takeWhile kind.continues), lead, spelled, gaps⟩
            have written : word.written = (c :: rest.takeWhile kind.continues) ++ lead := by
              simp only [word, Word.written, String.toList_ofList]
            refine ⟨[], word :: words, by simp, isChain_of_dropWhile apart cut, ?_, ?_⟩
            · rw [List.nil_append, List.flatMap_cons, written, List.append_assoc, ← cut, List.cons_append,
                List.takeWhile_append_dropWhile]
            · rw [Word.tokens, written, List.length_append, List.length_nil, Nat.add_zero, Nat.add_assoc]

end Lexer

/-- A text that is split into tokens is written with words and gaps. -/
theorem exists_layout {text : String} {tokens : List Token} (accepted : tokenize text = .ok tokens) :
    ∃ layout : Layout, layout.text = text ∧ layout.tokens = tokens := by
  obtain ⟨lead, words, blank, apart, cut, rfl⟩ := Lexer.exists_words accepted
  refine ⟨⟨lead, words, blank, apart⟩, ?_, ?_⟩
  · rw [Layout.text, ← cut, String.ofList_toList]
  · rw [Layout.tokens, Nat.zero_add]

/-- What is written is split into the tokens that it is written for. -/
theorem Layout.tokenize_text (layout : Layout) : tokenize layout.text = .ok layout.tokens := by
  rw [tokenize, Layout.text, String.toList_ofList, Lexer.tokensFrom_lead layout.blank, Lexer.tokensFrom_words layout.apart,
    Layout.tokens, Nat.zero_add]

/-- A text is split into tokens exactly if they are written there with gaps between them. -/
theorem tokenize_eq_ok_iff {text : String} {tokens : List Token} :
    tokenize text = .ok tokens ↔ ∃ layout : Layout, layout.text = text ∧ layout.tokens = tokens := by
  constructor
  · exact exists_layout
  · rintro ⟨layout, rfl, rfl⟩
    exact layout.tokenize_text

/-- A number ends where a name begins, and a name goes on with digits. -/
example : tokenize "2pi" = .ok [⟨.number, "2", 0⟩, ⟨.name, "pi", 1⟩] ∧ tokenize "pi2" = .ok [⟨.name, "pi2", 0⟩] := by
  decide +kernel

end Reckoner
