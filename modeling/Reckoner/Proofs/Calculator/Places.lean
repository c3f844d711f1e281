import Reckoner.Proofs.Calculator.Parse
import Reckoner.Proofs.Stack.Parentheses
import Reckoner.Proofs.Token.Places

/-!
# The places that errors name

An error that names a place names one where the text reads as the error says. Unless the text
is refused before it has been split into tokens, that is the place of a token.
-/

namespace Reckoner

open Assembly Grammar Text

/-- The token that an error may show for a place among the tokens: the one that stands there, also known by the sign of
its kind, or an empty pair of parentheses that begins there. -/
inductive Blames (tokens : List Token) : String → Nat → Prop where
  | token {t} (member : t ∈ tokens) : Blames tokens t.text t.position
  | sign {t sign} (member : t ∈ tokens) (kind : t.kind.sign? = some sign) : Blames tokens (String.singleton sign) t.position
  | pair {before o q after} (same : tokens = before ++ o :: q :: after) (opening : o.kind = .opening)
      (closing : q.kind = .closing) : Blames tokens "()" o.position

/-- A token of the text stands at the position. -/
def TokenAt (text : String) (position : Nat) : Prop :=
  ∃ tokens t, tokenize text = .ok tokens ∧ t ∈ tokens ∧ t.position = position

namespace Grammar

variable {c : Catalog} {next : Option TokenKind} {ts : List Token} {a : Assembly} {o : Opening} {token : String}
  {position : Nat} {why : Misplacement}

/-- A parenthesis on top of the stack is the token that has been read last. -/
theorem Reached.ends_opening (h : Reached c next ts a) (top : a.stack.head? = some (.opening o)) :
    ∃ vs t, ts = vs ++ [t] ∧ t.kind = .opening := by
  cases h with
  | awaiting h =>
    cases h with
    | start => cases top
    | pending => cases top
    | group _ _ _ kind => exact ⟨_, _, rfl, kind⟩
    | call _ _ kind _ given =>
      cases given with
      | nil => exact ⟨_, _, rfl, kind⟩
      | snoc => cases top
  | operand => cases top
  | callee => cases top

theorem last_of_opening (regular : c.Regular) (fed : Assembly.empty.feedAll c next ts = .ok a)
    (top : a.stack.head? = some (.opening o)) (innermost : a.groups.head? = some o) :
    ∃ vs t, ts = vs ++ [t] ∧ t.kind = .opening ∧ t.position = o.position := by
  obtain ⟨vs, t, rfl, opening⟩ := (reached_of_feedAll regular fed).ends_opening top
  obtain ⟨b, -, last⟩ := feedAll_of_concat fed
  rw [feed_opening opening] at last
  cases last
  cases innermost
  exact ⟨vs, t, rfl, opening, rfl⟩

/-- An unexpected token is one of those that are read. -/
theorem blames_of_unexpected (regular : c.Regular) (refused : c.expression ts = .error (.unexpectedToken token position why)) :
    Blames ts token position := by
  rcases refusal_cases refused with ⟨before, t, after, a, failure, rfl, read, failed, same⟩ | ⟨a, failure, -, failed, same⟩
  · have member : t ∈ before ++ t :: after := by simp
    have placed := refusedAt_feed failed
    rw [same] at placed
    cases placed with
    | nowhere none => cases none
    | token => exact .token member
    | comma _ kind =>
      have sign : t.kind.sign? = some ',' := by rw [kind]; rfl
      exact .sign member sign
    | closing _ kind =>
      have sign : t.kind.sign? = some ')' := by rw [kind]; rfl
      exact .sign member sign
    | empty closing top innermost =>
      obtain ⟨vs, u, rfl, opening, place⟩ := last_of_opening regular read top innermost
      rw [← place]
      have adjacent : vs ++ [u] ++ t :: after = vs ++ u :: t :: after := by simp
      exact .pair adjacent opening closing
  · rcases finish_error failed with none | ⟨o, -, unclosed⟩
    · rw [same] at none
      cases none
    · rw [same] at unclosed
      cases unclosed

end Grammar

variable {catalog : Catalog} {constants : List (String × Float)} {settings : Settings} {text : String} {tokens : List Token}
  {token : String} {position : Nat} {cause : ParseError}

/-- An error with a place comes from the lexer or from the tokens. -/
theorem refused_with_place (refused : parse catalog constants settings (some text) = .error cause)
    (placed : cause.place? = some position) : tokenize text = .error cause ∨
      ∃ tokens, tokenize text = .ok tokens ∧ (catalog.withConstants constants).expression tokens = .error cause := by
  rcases parse_error_cases refused with limit | lexed | ⟨tokens, tokenized, -, failed⟩
  · cases cause with
    | emptyInput => cases placed
    | inputTooLong => cases placed
    | expressionTooDeep => cases placed
    | _ => exact limit.elim
  · exact .inl lexed
  · exact .inr ⟨tokens, tokenized, failed⟩

/-- One that is no unexpected token comes from the tokens. -/
theorem refused_by_tokens (refused : parse catalog constants settings (some text) = .error cause)
    (placed : cause.place? = some position) (other : ∀ token position why, cause ≠ .unexpectedToken token position why) :
    ∃ tokens, tokenize text = .ok tokens ∧ (catalog.withConstants constants).expression tokens = .error cause := by
  refine (refused_with_place refused placed).resolve_left fun lexed => ?_
  obtain ⟨c, position, -, -, -, same⟩ := readsAt_of_refused lexed
  exact other _ _ _ same

theorem readsAt_of_sign {t : Token} {sign : Char} (tokenized : tokenize text = .ok tokens) (member : t ∈ tokens)
    (kind : t.kind.sign? = some sign) : ReadsAt text t.position [sign] := by
  rw [← (spells_of_tokenize tokenized member).eq_sign kind]
  exact readsAt_of_tokenize tokenized member

theorem getElem?_of_readsAt {sign : Char} (reads : ReadsAt text position [sign]) : text.toList[position]? = some sign := by
  obtain ⟨rest, same⟩ := reads.2
  rw [← List.head?_drop, ← same]
  rfl

/-- The sign of a token stands at its place. -/
theorem sign_stands {before after : List Token} {t : Token} {sign : Char}
    (tokenized : tokenize text = .ok (before ++ t :: after)) (kind : t.kind.sign? = some sign) :
    text.toList[t.position]? = some sign ∧ TokenAt text t.position := by
  have member : t ∈ before ++ t :: after := by simp
  exact ⟨getElem?_of_readsAt (readsAt_of_sign tokenized member kind), _, t, tokenized, member, rfl⟩

theorem singleton_ne_pair (c : Char) : String.singleton c ≠ "()" := by
  intro same
  have chars := congrArg String.toList same
  rw [String.toList_singleton] at chars
  cases chars

/-- Where an error shows a token the text reads like that, apart from the gap in a pair of parentheses. -/
theorem readsAt_of_blames (tokenized : tokenize text = .ok tokens) (blames : Blames tokens token position) :
    (token = "()" → ∃ gap, (∀ c ∈ gap, isGap c = true) ∧ ReadsAt text position ('(' :: (gap ++ [')']))) ∧
      (token ≠ "()" → ReadsAt text position token.toList) ∧ TokenAt text position := by
  cases blames with
  | token member =>
    refine ⟨fun pair => ?_, fun _ => readsAt_of_tokenize tokenized member, _, _, tokenized, member, rfl⟩
    have spelled := spells_of_tokenize tokenized member
    rw [pair] at spelled
    exact absurd rfl spelled.ne_parentheses
  | @sign t sign member kind =>
    refine ⟨fun pair => absurd pair (singleton_ne_pair sign), fun _ => ?_, _, _, tokenized, member, rfl⟩
    rw [String.toList_singleton]
    exact readsAt_of_sign tokenized member kind
  | @pair before o q after same opening closing =>
    subst same
    refine ⟨fun _ => ?_, fun other => absurd rfl other, _, o, tokenized, by simp, rfl⟩
    obtain ⟨gap, blank, reads⟩ := readsAt_of_adjacent tokenized
    have first := (spells_of_tokenize tokenized (t := o) (by simp)).eq_sign (c := '(') (by rw [opening]; rfl)
    have second := (spells_of_tokenize tokenized (t := q) (by simp)).eq_sign (c := ')') (by rw [closing]; rfl)
    rw [first, second] at reads
    exact ⟨gap, blank, reads⟩

/-- For every text, any constants and settings: an unexpected token stands where the error says, inside the text. The
empty pair of parentheses alone may be written with a gap in it. The error for a parenthesis without a match names
the place of one. All of them are places of tokens, unless the text is not even split into tokens. -/
theorem error_places (constants : List (String × Float)) (settings : Settings) (text : String) :
    (∀ token position why, parse .standard constants settings (some text) = .error (.unexpectedToken token position why) →
      position < text.length ∧
      (token = "()" → ∃ gap, (∀ c ∈ gap, isGap c = true) ∧ '(' :: (gap ++ [')']) <+: text.toList.drop position) ∧
      (token ≠ "()" → token.toList <+: text.toList.drop position) ∧
      (tokenize text = .error (.unexpectedToken token position why) ∨ TokenAt text position)) ∧
    (∀ position, parse .standard constants settings (some text) = .error (.unclosedParenthesis position) →
      text.toList[position]? = some '(' ∧ TokenAt text position) ∧
    ∀ position, parse .standard constants settings (some text) = .error (.unmatchedParenthesis position) →
      text.toList[position]? = some ')' ∧ TokenAt text position := by
  have regular : (Catalog.standard.withConstants constants).Regular := Catalog.regular_withConstants constants
  refine ⟨fun token position why refused => ?_, fun position refused => ?_, fun position refused => ?_⟩
  · rcases refused_with_place refused rfl with lexed | ⟨tokens, tokenized, failed⟩
    · obtain ⟨c, position, -, -, reads, same⟩ := readsAt_of_refused lexed
      cases same
      refine ⟨reads.1, fun pair => absurd pair (singleton_ne_pair c), fun _ => ?_, .inl lexed⟩
      rw [String.toList_singleton]
      exact reads.2
    · obtain ⟨pair, other, stands⟩ := readsAt_of_blames tokenized (blames_of_unexpected regular failed)
      have inside : position < text.length := by
        by_cases parentheses : token = "()"
        · obtain ⟨gap, -, reads⟩ := pair parentheses
          exact reads.1
        · exact (other parentheses).1
      refine ⟨inside, fun parentheses => ?_, fun single => (other single).2, .inr stands⟩
      obtain ⟨gap, blank, reads⟩ := pair parentheses
      exact ⟨gap, blank, reads.2⟩
  · obtain ⟨tokens, tokenized, failed⟩ := refused_by_tokens refused rfl (by simp)
    obtain ⟨-, -, before, o, after, rfl, last, rfl⟩ := expression_unclosed_iff.1 failed
    exact sign_stands tokenized (by rw [last.opening]; rfl)
  · obtain ⟨tokens, tokenized, failed⟩ := refused_by_tokens refused rfl (by simp)
    obtain ⟨before, q, after, rfl, first, rfl, -⟩ := expression_unmatched_iff.1 failed
    exact sign_stands tokenized (by rw [first.closing]; rfl)

/-- In `2( )` the error shows an empty pair of parentheses at the first one, and in `(1` it names the open one. -/
theorem error_places_parentheses :
    parse .standard [] {} (some "2( )") = .error (.unexpectedToken "()" 1 .emptyParentheses) ∧
      (∃ gap, (∀ c ∈ gap, isGap c = true) ∧ '(' :: (gap ++ [')']) <+: "2( )".toList.drop 1) ∧
    parse .standard [] {} (some "(1") = .error (.unclosedParenthesis 0) ∧ TokenAt "(1" 0 := by
  let tokens : List Token := [⟨.number, "2", 0⟩, ⟨.opening, "(", 1⟩, ⟨.closing, ")", 3⟩]
  have tokenized : tokenize "2( )" = .ok tokens := by decide +kernel
  have pair : parse .standard [] {} (some "2( )") = .error (.unexpectedToken "()" 1 .emptyParentheses) :=
    parse_of_refused (by decide) (by decide) tokenized rfl rfl
  let tokens' : List Token := [⟨.opening, "(", 0⟩, ⟨.number, "1", 1⟩]
  have tokenized' : tokenize "(1" = .ok tokens' := by decide +kernel
  have unclosed : parse .standard [] {} (some "(1") = .error (.unclosedParenthesis 0) :=
    parse_of_refused (by decide) (by decide) tokenized' rfl rfl
  exact ⟨pair, ((error_places [] {} _).1 _ _ _ pair).2.1 rfl, unclosed, ((error_places [] {} _).2.1 0 unclosed).2⟩

end Reckoner
