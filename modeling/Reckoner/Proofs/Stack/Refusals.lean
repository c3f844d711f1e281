import Reckoner.Proofs.Stack.Calls

/-!
# The places of refusals

A text is refused at the first token that cannot be read, or at its end. The error names the
place of that token, or that of the open parenthesis right before it, or no place at all:
what goes wrong on the stack alone is not known by a place.
-/

namespace Reckoner

/-- The place that an error names. -/
def ParseError.place? : ParseError → Option Nat
  | .unclosedParenthesis position | .unmatchedParenthesis position | .unexpectedToken _ position _ => some position
  | _ => none

/-- The causes for which a step on the stack alone can fail. None of them names a place. -/
def ParseError.Unplaced : ParseError → Prop
  | .unknownFunction _ | .unbalanced _ | .fault _ => True
  | _ => False

namespace Assembly

/-- A step on the stack that fails names no place. -/
def Placeless {α : Type} (result : StackResult α) : Prop :=
  ∀ cause left, result = .error (cause, left) → cause.Unplaced

/-- How the error names its place when the token `t` is refused by `a`. -/
inductive RefusedAt (a : Assembly) (t : Token) : ParseError → Prop where
  | nowhere {cause} (h : cause.Unplaced) : RefusedAt a t cause
  | token (why) : RefusedAt a t (.unexpectedToken t.text t.position why)
  | comma (why) (kind : t.kind = .comma) : RefusedAt a t (.unexpectedToken "," t.position why)
  | closing (why) (kind : t.kind = .closing) : RefusedAt a t (.unexpectedToken ")" t.position why)
  | unmatched (kind : t.kind = .closing) (none_open : a.groups = []) : RefusedAt a t (.unmatchedParenthesis t.position)
  /-- The pair of parentheses is named by its first one. -/
  | empty {o} (kind : t.kind = .closing) (top : a.stack.head? = some (.opening o)) (innermost : a.groups.head? = some o) :
      RefusedAt a t (.unexpectedToken "()" o.position .emptyParentheses)

variable {α β : Type} {c : Catalog} {next : Option TokenKind} {o : Operator} {piece : Piece} {S : List Piece}
  {e : Expression} {result : StackResult α} {a : Assembly} {t : Token}

namespace Placeless

theorem ok (x : α) : Placeless (.ok x : StackResult α) := by
  intro cause left failed
  cases failed

theorem error {cause : ParseError} {left : List Piece} (h : cause.Unplaced) :
    Placeless (.error (cause, left) : StackResult α) := by
  intro cause' left' failed
  cases failed
  exact h

theorem map (h : Placeless result) (f : α → β) : Placeless (result.map f) := by
  cases result with
  | error failure => exact error (h _ _ rfl)
  | ok x => exact ok (f x)

end Placeless

theorem placeless_settle : Placeless (settle o piece S) := by
  induction S generalizing piece with
  | nil => exact .ok _
  | cons top below ih =>
    cases top with
    | operand top =>
      rw [settle]
      split
      · split
        · exact ih
        · exact .ok _
        · exact .error trivial
      · exact .ok _
    | opening => exact .ok _
    | comma => exact .ok _

theorem placeless_settleBefore : Placeless (settleBefore next piece S) := by
  unfold settleBefore
  split
  · exact placeless_settle
  · exact .ok _

/-- The sign of a product that is not written is looked up like any other. -/
theorem unplaced_of_operator {symbol : String} {cause : ParseError} (failed : c.operator symbol = .error cause) :
    cause.Unplaced := by
  unfold Catalog.operator at failed
  split at failed
  · cases failed
  · cases failed
    trivial

theorem unplaced_of_juxtapose {left right : Expression} {cause : ParseError}
    (failed : juxtapose c left right = .error cause) : cause.Unplaced := by
  unfold juxtapose product at failed
  split at failed
  · cases known : c.operator "*" with
    | error cause' =>
      rw [known] at failed
      cases failed
      exact unplaced_of_operator known
    | ok entry =>
      rw [known] at failed
      cases failed
  · cases failed

theorem placeless_place : Placeless (place c next piece S) := by
  unfold place
  split
  · split
    · split
      · exact placeless_settleBefore
      · next failed => exact .error (unplaced_of_juxtapose failed)
    · exact placeless_settleBefore
  · exact placeless_settleBefore

theorem placeless_chain : Placeless (chain e S) := by
  induction S generalizing e with
  | nil => exact .ok _
  | cons top below ih =>
    cases top with
    | operand previous =>
      rw [chain]
      split
      · exact ih
      · exact .error trivial
    | opening => exact .ok _
    | comma => exact .ok _

theorem placeless_link : Placeless (link S) := by
  unfold link
  split
  · split
    · exact placeless_chain
    · exact .error trivial
  · exact .error trivial

theorem placeless_collect (later : List Expression) (S : List Piece) : Placeless (collect later S) := by
  induction later, S using collect.induct with
  | case1 later argument position below ih => exact ih
  | case2 => exact .ok _
  | case3 later S no_comma no_opening =>
    unfold collect
    split
    · exact absurd rfl (no_comma _ _ _)
    · exact absurd rfl (no_opening _ _ _)
    · exact .error trivial

theorem placeless_closeScope : Placeless (closeScope S) := by
  unfold closeScope
  split
  · exact .ok _
  · exact (placeless_collect _ _).map _
  · exact .error trivial
  · next failed =>
    intro cause left same
    cases same
    exact placeless_link _ _ failed

/-- Only an empty pair of parentheses that is no call is refused by its place. -/
theorem placeless_placeGroup {opening : Opening} {content : Option Expression}
    (filled : opening.opensCall = true ∨ content.isSome = true) : Placeless (placeGroup c next opening content S) := by
  unfold placeGroup
  split
  · split
    · exact .error trivial
    · split
      · exact placeless_place
      · exact .error trivial
  · next plain =>
    obtain ⟨content, rfl⟩ := Option.isSome_iff_exists.1 (filled.resolve_left plain)
    exact placeless_place

theorem refusedAt_onStack {b : Assembly} {result : StackResult (List Piece)} {failure : Failure} (h : Placeless result)
    (failed : b.onStack result = .error failure) : RefusedAt a t failure.cause := by
  cases result with
  | ok stack => cases failed
  | error pair =>
    cases failed
    exact .nowhere (h _ _ rfl)

theorem refusedAt_operatorNode {entry : Entry} {cause : ParseError} (failed : operatorNode entry t S = .error cause) :
    RefusedAt a t cause := by
  unfold operatorNode at failed
  split at failed
  · cases failed
  · split at failed
    · split at failed
      · cases failed
      · cases failed
        exact .token _
    · cases failed
      exact .token _

/-- The operator and the factorial sign are refused alike. -/
theorem refusedAt_sign {symbol : String} {cause : ParseError}
    (failed : ((c.operator symbol).bind fun entry => operatorNode entry t S) = .error cause) : RefusedAt a t cause := by
  cases known : c.operator symbol with
  | error cause' =>
    rw [known] at failed
    cases failed
    exact .nowhere (unplaced_of_operator known)
  | ok entry =>
    rw [known] at failed
    exact refusedAt_operatorNode failed

theorem refusedAt_comma {failure : Failure} (kind : t.kind = .comma) (failed : a.feedComma t = .error failure) :
    RefusedAt a t failure.cause := by
  unfold feedComma at failed
  split at failed
  · split at failed
    · cases failed
      exact .comma _ kind
    · cases failed
      exact .comma _ kind
    · exact refusedAt_onStack (placeless_link.map _) failed
  · cases failed
    exact .comma _ kind

theorem refusedAt_closing {failure : Failure} (kind : t.kind = .closing)
    (failed : a.feedClosing c t next = .error failure) : RefusedAt a t failure.cause := by
  unfold feedClosing at failed
  split at failed
  · next none_open =>
    cases failed
    exact .unmatched kind none_open
  · next opening groups same =>
    split at failed
    · next top below stack =>
      split at failed
      · next matched =>
        obtain rfl : top = opening := eq_of_beq matched
        by_cases call : top.opensCall = true
        · exact refusedAt_onStack (placeless_placeGroup (.inl call)) failed
        · simp only [placeGroup, call] at failed
          cases failed
          exact .empty kind (by simp [stack]) (by simp [same])
      · cases failed
        exact .closing _ kind
    · cases failed
      exact .closing _ kind
    · refine refusedAt_onStack ?_ failed
      cases closed : closeScope a.stack with
      | error pair => exact .error (placeless_closeScope _ _ closed)
      | ok pair => exact placeless_placeGroup (.inr rfl)

/-- Every refusal of a token is placed. -/
theorem refusedAt_feed {failure : Failure} (failed : a.feed c t next = .error failure) : RefusedAt a t failure.cause := by
  unfold feed at failed
  split at failed
  · unfold feedNumber at failed
    split at failed
    · exact refusedAt_onStack placeless_place failed
    · cases failed
      exact .token _
  · unfold feedName at failed
    split at failed
    · cases failed
      exact .nowhere trivial
    · split at failed
      · cases failed
      · split at failed
        · exact refusedAt_onStack placeless_place failed
        · cases failed
          exact .token _
  · unfold feedOperator at failed
    split at failed
    · cases failed
    · next refused =>
      cases failed
      exact refusedAt_sign refused
  · unfold feedBang at failed
    split at failed
    · exact refusedAt_onStack placeless_place failed
    · next refused =>
      cases failed
      exact refusedAt_sign refused
  · cases failed
  · next kind => exact refusedAt_closing kind failed
  · next kind => exact refusedAt_comma kind failed

/-- A list of tokens is refused at the first one that cannot be read. -/
theorem refused_token {failure : Failure} {ts : List Token} (failed : a.feedAll c next ts = .error failure) :
    ∃ before t after b, ts = before ++ t :: after ∧ a.feedAll c (some t.kind) before = .ok b ∧
      b.feed c t ((after.head?.map Token.kind).or next) = .error failure := by
  induction ts generalizing a with
  | nil => cases failed
  | cons t rest ih =>
    rw [feedAll] at failed
    cases fed : a.feed c t ((rest.head?.map Token.kind).or next) with
    | error failure' =>
      rw [fed] at failed
      cases failed
      exact ⟨[], t, rest, a, rfl, rfl, fed⟩
    | ok b =>
      rw [fed] at failed
      obtain ⟨before, u, after, b', rfl, read, refused⟩ := ih failed
      refine ⟨t :: before, u, after, b', rfl, ?_, refused⟩
      have upcoming : ((before ++ u :: after).head?.map Token.kind).or next = (before.head?.map Token.kind).or (some u.kind) := by
        cases before <;> rfl
      rw [upcoming] at fed
      rw [feedAll, fed]
      exact read

end Assembly

namespace Grammar

open Assembly

variable {c : Catalog} {ts : List Token} {cause : ParseError}

/-- A refused list is refused at one of its tokens, or at its end when all of them have been read. -/
theorem refusal_cases (refused : c.expression ts = .error cause) :
    (∃ before t after a failure, ts = before ++ t :: after ∧ Assembly.empty.feedAll c (some t.kind) before = .ok a ∧
      a.feed c t (after.head?.map Token.kind) = .error failure ∧ failure.cause = cause) ∨
    ∃ a failure, Assembly.empty.feedAll c none ts = .ok a ∧ a.finish = .error failure ∧ failure.cause = cause := by
  rw [Catalog.expression, build] at refused
  cases fed : Assembly.empty.feedAll c none ts with
  | error failure =>
    rw [fed] at refused
    cases refused
    obtain ⟨before, t, after, b, rfl, read, failed⟩ := refused_token fed
    rw [Option.or_none] at failed
    exact .inl ⟨before, t, after, b, failure, rfl, read, failed, rfl⟩
  | ok a =>
    rw [fed, Except.bind] at refused
    cases finished : a.finish with
    | error failure =>
      rw [finished] at refused
      cases refused
      exact .inr ⟨a, failure, rfl, finished, rfl⟩
    | ok result =>
      rw [finished] at refused
      cases refused

/-- At the end only an open group is refused by its place. -/
theorem finish_error {a : Assembly} {failure : Failure} (failed : a.finish = .error failure) :
    failure.cause.Unplaced ∨ ∃ o ∈ a.groups.head?, failure.cause = .unclosedParenthesis o.position := by
  unfold finish at failed
  split at failed
  · next o G same =>
    cases failed
    exact .inr ⟨o, by simp [same], rfl⟩
  · split at failed
    · cases failed
    · cases failed
      exact .inl trivial
    · next linked =>
      cases failed
      exact .inl (placeless_link _ _ linked)

end Grammar

end Reckoner
