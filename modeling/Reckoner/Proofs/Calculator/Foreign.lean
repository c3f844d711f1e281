import Reckoner.Proofs.Calculator.Bounds

/-!
# Foreign blanks

A blank that is no gap is foreign: it stands in no token and between none. So a text is split
into tokens exactly if it holds no foreign blank, and the first one is what it is refused for. Only
a text of gaps alone has no tokens, which the calculator has refused as blank before.
-/

namespace Reckoner

open Text Lexer

/-- A blank that may not stand between two tokens. -/
def Text.isForeign (c : Char) : Bool := isBlank c && !isGap c

/-- The text has its first foreign blank `c` at `position`. -/
def FirstForeign (text : String) (position : Nat) (c : Char) : Prop :=
  text.toList[position]? = some c ∧ isForeign c = true ∧
    ∀ i d, i < position → text.toList[i]? = some d → isForeign d = false

section

variable {text : String} {tokens : List Token} {c : Char} {position : Nat} {kind : TokenKind} {word : List Char}

theorem isForeign_of_blank (blank : isBlank c = true) (other : isGap c = false) : isForeign c = true := by
  rw [isForeign, blank, other]
  rfl

theorem not_isForeign_of_isGap (gap : isGap c = true) : isForeign c = false := by
  rw [isForeign, gap, Bool.not_true, Bool.and_false]

/-- No token is written with a blank in it. -/
theorem TokenKind.Spells.not_isBlank (spelled : kind.Spells word) (member : c ∈ word) : isBlank c = false := by
  obtain ⟨first, rest, rfl, starts, continues⟩ := spelled
  rcases List.mem_cons.1 member with rfl | later
  · exact not_isBlank_of_starts starts
  · exact continues_not_isBlank (continues c later)

/-- What is written down has no blanks but gaps. -/
theorem Layout.not_isForeign (l : Layout) (member : c ∈ l.text.toList) : isForeign c = false := by
  rw [Layout.text, String.toList_ofList, List.mem_append, List.mem_flatMap] at member
  rcases member with lead | ⟨w, -, written⟩
  · exact not_isForeign_of_isGap (l.blank c lead)
  · rcases List.mem_append.1 written with word | gap
    · rw [isForeign, w.spelled.not_isBlank word, Bool.false_and]
    · exact not_isForeign_of_isGap (w.blank c gap)

/-- There is one first foreign blank at most. -/
theorem FirstForeign.unique {c' : Char} {position' : Nat} (h : FirstForeign text position c)
    (h' : FirstForeign text position' c') : position = position' ∧ c = c' := by
  obtain ⟨here, foreign, earlier⟩ := h
  obtain ⟨here', foreign', earlier'⟩ := h'
  have same : position = position' := by
    rcases Nat.lt_trichotomy position position' with before | same | behind
    · rw [earlier' position c before here] at foreign
      cases foreign
    · exact same
    · rw [earlier position' c' behind here'] at foreign'
      cases foreign'
  subst same
  exact ⟨rfl, Option.some.inj (here.symm.trans here')⟩

/-- A refused text is refused for its first foreign blank. -/
theorem firstForeign_of_error {cause : ParseError} (refused : tokenize text = .error cause) :
    ∃ position c, FirstForeign text position c ∧
      cause = .unexpectedToken (String.singleton c) position .foreignBlank := by
  obtain ⟨before, c, after, same, blank, foreign, earlier, rfl⟩ := tokensFrom_error refused
  refine ⟨before.length, c, ⟨?_, isForeign_of_blank blank foreign, ?_⟩, by rw [Nat.zero_add]⟩
  · rw [same, List.getElem?_append_right (Nat.le_refl _), Nat.sub_self]
    rfl
  · intro i d inside here
    rw [same, List.getElem?_append_left inside] at here
    cases blank' : isBlank d with
    | false => rw [isForeign, blank', Bool.false_and]
    | true => exact not_isForeign_of_isGap (earlier d (List.mem_of_getElem? here) blank')

/-- A text with a foreign blank is refused. -/
theorem not_isForeign_of_ok (accepted : tokenize text = .ok tokens) (member : c ∈ text.toList) : isForeign c = false := by
  obtain ⟨layout, rfl, -⟩ := exists_layout accepted
  exact layout.not_isForeign member

theorem tokenize_eq_error_iff {cause : ParseError} :
    tokenize text = .error cause ↔ ∃ position c, FirstForeign text position c ∧
      cause = .unexpectedToken (String.singleton c) position .foreignBlank := by
  constructor
  · exact firstForeign_of_error
  · rintro ⟨position, c, first, rfl⟩
    cases result : tokenize text with
    | ok tokens =>
      have none := not_isForeign_of_ok result (List.mem_of_getElem? first.1)
      rw [first.2.1] at none
      cases none
    | error cause =>
      obtain ⟨position', c', first', rfl⟩ := firstForeign_of_error result
      obtain ⟨rfl, rfl⟩ := first.unique first'
      rfl

/-- Only gaps are split into no tokens. -/
theorem tokenize_eq_nil_iff : tokenize text = .ok [] ↔ ∀ c ∈ text.toList, isGap c = true := by
  constructor
  · intro accepted
    obtain ⟨⟨lead, words, blank, apart⟩, rfl, none⟩ := exists_layout accepted
    cases words with
    | cons w rest => cases none
    | nil =>
      intro c member
      rw [Layout.text, String.toList_ofList, List.flatMap_nil, List.append_nil] at member
      exact blank c member
  · intro gaps
    let layout : Layout := ⟨text.toList, [], gaps, .nil⟩
    have written : layout.text = text := by
      rw [Layout.text, List.flatMap_nil, List.append_nil, String.ofList_toList]
    rw [← written]
    exact layout.tokenize_text

/-- A text of gaps alone is blank. -/
theorem isBlankText_of_nil (accepted : tokenize text = .ok []) : isBlankText text = true :=
  List.all_eq_true.2 fun c member => isBlank_of_isGap (tokenize_eq_nil_iff.1 accepted c member)

/-- Only a blank text is refused as empty: every other one has a token, or a foreign blank. -/
theorem parse_eq_emptyInput_iff {catalog : Catalog} {constants : List (String × Float)} {settings : Settings} :
    parse catalog constants settings (some text) = .error .emptyInput ↔ isBlankText text = true := by
  constructor
  · intro refused
    rw [parse_some] at refused
    split at refused
    · next blank => exact blank
    split at refused
    · cases refused
    cases result : tokenize text with
    | error cause =>
      obtain ⟨position, c, -, rfl⟩ := firstForeign_of_error result
      rw [result] at refused
      cases refused
    | ok tokens =>
      rw [result, Except.bind] at refused
      split at refused
      · next none =>
        rw [List.isEmpty_iff.1 none] at result
        exact isBlankText_of_nil result
      · obtain built | ⟨root, built⟩ : (catalog.withConstants constants).expression tokens = .error .emptyInput ∨
            ∃ root, (catalog.withConstants constants).expression tokens = .ok root := by
          cases built : (catalog.withConstants constants).expression tokens with
          | ok root => exact .inr ⟨root, rfl⟩
          | error cause =>
            rw [built] at refused
            exact .inl refused
        · exact (not_limit_of_refused built trivial).elim
        · rw [built, Except.bind] at refused
          split at refused <;> cases refused
  · intro blank
    rw [parse_some, if_pos blank]

end

/-- For every text: it is not split into tokens exactly if there is a foreign blank in it, and the error then names the
first one and its place. Otherwise there are tokens, none of them exactly if all is gaps. So a text that is
not blank has a token or is refused by the lexer, and is never refused as empty. -/
theorem tokenize_foreign (text : String) :
    ((∃ cause, tokenize text = .error cause) ↔ ∃ c ∈ text.toList, isForeign c = true) ∧
    (∀ cause, tokenize text = .error cause ↔ ∃ position c, FirstForeign text position c ∧
      cause = .unexpectedToken (String.singleton c) position .foreignBlank) ∧
    ((∃ tokens, tokenize text = .ok tokens) ↔ ∀ c ∈ text.toList, isForeign c = false) ∧
    (tokenize text = .ok [] ↔ ∀ c ∈ text.toList, isGap c = true) ∧
    (isBlankText text = true ∨ (∃ token rest, tokenize text = .ok (token :: rest)) ∨ ∃ cause, tokenize text = .error cause) ∧
    ∀ catalog constants settings,
      parse catalog constants settings (some text) = .error .emptyInput ↔ isBlankText text = true := by
  have refused : (∃ cause, tokenize text = .error cause) → ∃ c ∈ text.toList, isForeign c = true := by
    rintro ⟨cause, refused⟩
    obtain ⟨position, c, first, -⟩ := firstForeign_of_error refused
    exact ⟨c, List.mem_of_getElem? first.1, first.2.1⟩
  have accepted : (∃ tokens, tokenize text = .ok tokens) → ∀ c ∈ text.toList, isForeign c = false := by
    rintro ⟨tokens, accepted⟩ c member
    exact not_isForeign_of_ok accepted member
  refine ⟨⟨refused, ?_⟩, fun cause => tokenize_eq_error_iff, ⟨accepted, ?_⟩, tokenize_eq_nil_iff, ?_,
    fun _ _ _ => parse_eq_emptyInput_iff⟩
  · rintro ⟨c, member, foreign⟩
    cases result : tokenize text with
    | error cause => exact ⟨cause, rfl⟩
    | ok tokens =>
      rw [not_isForeign_of_ok result member] at foreign
      cases foreign
  · intro none
    cases result : tokenize text with
    | ok tokens => exact ⟨tokens, rfl⟩
    | error cause =>
      obtain ⟨c, member, foreign⟩ := refused ⟨cause, result⟩
      rw [none c member] at foreign
      cases foreign
  · cases result : tokenize text with
    | error cause => exact .inr (.inr ⟨cause, rfl⟩)
    | ok tokens =>
      cases tokens with
      | nil => exact .inl (isBlankText_of_nil result)
      | cons token rest => exact .inr (.inl ⟨token, rest, rfl⟩)

/-- The name before a foreign blank ends there, and the blank behind it does not count. -/
example : tokenize "pi\u000Bx\u00A0" = .error (.unexpectedToken "\u000B" 2 .foreignBlank) := by decide +kernel

end Reckoner
