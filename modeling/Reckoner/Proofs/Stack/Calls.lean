import Mathlib.Data.List.Forall2
import Mathlib.Data.List.Induction
import Reckoner.Proofs.Grammar.Exact
import Reckoner.Proofs.Grammar.Groups
import Reckoner.Proofs.Stack.Fed

/-!
# What is called

The open groups of a parser are those of the text that it has read. A group is a call
exactly if a name stands right before it, or a constant that is an operand by itself and
ends with a parenthesis. Commas and empty pairs of parentheses are refused in any other group.
-/

namespace Reckoner.Grammar

open Assembly Expression

variable {c : Catalog} {next : Option TokenKind} {l : Level} {ts gs : List Token} {a b : Assembly} {t : Token}
  {P : List Piece} {es : List Expression}

theorem Given.asksOperand (given : Given c gs P es) (filled : gs ≠ []) : AsksOperand gs := by
  cases given with
  | nil => exact absurd rfl filled
  | snoc _ _ _ comma => simp [AsksOperand, comma, TokenKind.asksOperand]

/-- Where an operand is awaited, the text asks for one. -/
theorem Awaiting.asksOperand (h : Awaiting c ts a l) : AsksOperand ts := by
  cases h with
  | start => rfl
  | pending _ h _ =>
    cases h with
    | binary _ sign => simp [AsksOperand, sign, TokenKind.asksOperand]
    | negation sign => simp [AsksOperand, sign, TokenKind.asksOperand]
  | group _ _ _ kind => simp [AsksOperand, kind, TokenKind.asksOperand]
  | @call _ _ _ _ _ _ _ _ _ gs _ _ _ _ kind _ given =>
    by_cases filled : gs = []
    · simp [AsksOperand, filled, kind, TokenKind.asksOperand]
    · rw [asksOperand_append (List.cons_ne_nil _ _), ← List.singleton_append, asksOperand_append filled]
      exact given.asksOperand filled

/-- And the other way round. -/
theorem Reached.awaiting_of_asksOperand (h : Reached c next ts a) (asks : AsksOperand ts) :
    ∃ l, Awaiting c ts a l := by
  cases h with
  | awaiting h => exact ⟨_, h⟩
  | operand _ phrase =>
    rw [asksOperand_append phrase.ne_nil] at asks
    exact absurd asks phrase.not_asksOperand
  | callee _ _ kind => simp [AsksOperand, kind, TokenKind.asksOperand] at asks

theorem reached_of_feedAll (regular : c.Regular) (fed : Assembly.empty.feedAll c next ts = .ok a) :
    Reached c next ts a := by
  have outcome : Outcome c next ([] ++ ts) (Assembly.empty.feedAll c next ts) :=
    feedAll_outcome regular (.awaiting .start)
  rw [fed] at outcome
  exact outcome

/-- Reading a list of tokens begins with reading its first part. -/
theorem feedAll_of_append {us : List Token} (fed : a.feedAll c next (ts ++ us) = .ok b) :
    ∃ a', a.feedAll c ((us.head?.map Token.kind).or next) ts = .ok a' ∧ a'.feedAll c next us = .ok b := by
  rw [feedAll_append] at fed
  cases first : a.feedAll c ((us.head?.map Token.kind).or next) ts with
  | error failure =>
    rw [first] at fed
    cases fed
  | ok a' =>
    rw [first] at fed
    exact ⟨a', rfl, fed⟩

theorem feedAll_of_concat (fed : a.feedAll c next (ts ++ [t]) = .ok b) :
    ∃ a', a.feedAll c (some t.kind) ts = .ok a' ∧ a'.feed c t next = .ok b := by
  obtain ⟨a', first, last⟩ := feedAll_of_append fed
  rw [feedAll_singleton] at last
  exact ⟨a', first, last⟩

/-- A call is awaited behind a callee and nowhere else. -/
theorem callAwaited_iff (regular : c.Regular) (fed : Assembly.empty.feedAll c (some .opening) ts = .ok a) :
    callAwaited a.stack = true ↔ EndsWithCallee c ts := by
  have reached := reached_of_feedAll regular fed
  constructor
  · intro call
    cases reached with
    | awaiting below =>
      rw [below.slot.not_callAwaited regular] at call
      cases call
    | @operand _ vs S G l k us e below phrase fits ready =>
      cases (ready : k = Level.run)
      obtain ⟨entry, rfl, nullary⟩ := (((phrase.denotes regular).1 (by decide)).shaped).of_awaitsCall call
      have lone := phrase.lone (by decide) rfl nullary
      have closed : lastKind us = some .closing :=
        lone.lastKind_eq.resolve_left fun name => phrase.apart name rfl
      exact .inr ⟨vs, us, entry, rfl, below.asksOperand, lone, closed⟩
    | callee _ _ kind => exact .inl (by simp [kind])
  · rintro (name | ⟨vs, us, entry, rfl, asks, lone, closed⟩)
    · cases reached with
      | awaiting below =>
        have asks := below.asksOperand
        simp [AsksOperand, name, TokenKind.asksOperand] at asks
      | operand _ phrase => exact absurd rfl (phrase.apart (lastKind_of_append name phrase.ne_nil))
      | callee _ _ _ known => exact awaitsCall_reference (regular.named known).kind
    · -- What is read before the constant leaves a slot, and the constant stays there alone.
      obtain ⟨b, first, last⟩ := feedAll_of_append fed
      obtain ⟨r, below⟩ := (reached_of_feedAll regular first).awaiting_of_asksOperand asks
      have run := lone.run closed (some .opening)
      have put := (run.reads regular).settles le_rfl b.groups below.slot
      rw [settleBefore_of_not_operator rfl] at put
      cases last.symm.trans put
      exact awaitsCall_reference (.inr (.inr lone.phrase.1))

/-- The open groups of a parser are those of the text, and the calls among them are those behind callees. -/
theorem groups_of_feedAll (regular : c.Regular) (fed : Assembly.empty.feedAll c next ts = .ok a) :
    List.Forall₂ (fun ahead o => o.opensCall = true ↔ EndsWithCallee c ahead) (openGroups ts) a.groups := by
  induction ts using List.reverseRecOn generalizing next a with
  | nil =>
    cases fed
    exact .nil
  | append_singleton ts t ih =>
    obtain ⟨b, before, last⟩ := feedAll_of_concat fed
    have inner := ih before
    by_cases opening : t.kind = .opening
    · rw [opening] at before
      obtain ⟨o, call, opened⟩ := feedOpening_eq t b
      rw [feed_opening opening, opened] at last
      cases last
      rw [openGroups_opening ts opening]
      exact .cons (by rw [call, callAwaited_iff regular before]) inner
    · rw [openGroups_other ts opening, groups_of_feed last opening]
      split
      · rw [← List.drop_one, ← List.drop_one]
        exact List.forall₂_drop 1 inner
      · exact inner

/-- The innermost group of a parser is a call exactly if that of the text is behind a callee. -/
theorem opensCall_iff (regular : c.Regular) (fed : Assembly.empty.feedAll c next ts = .ok a) :
    (a.groups.head?.map Opening.opensCall).getD false = true ↔
      ∃ ahead ∈ (openGroups ts).head?, EndsWithCallee c ahead := by
  have groups := groups_of_feedAll regular fed
  cases same : openGroups ts with
  | nil =>
    rw [same, List.forall₂_nil_left_iff] at groups
    simp [groups]
  | cons ahead rest =>
    rw [same] at groups
    obtain ⟨o, G, call, -, opened⟩ := List.forall₂_cons_left_iff.1 groups
    simp [opened, call]

/-- In a group that is no call, a comma is refused, and so is the parenthesis that would leave it empty. -/
theorem feed_needsCall (next : Option TokenKind) (regular : c.Regular)
    (fed : Assembly.empty.feedAll c (some t.kind) ts = .ok a) (needs : NeedsCall ts t)
    (plain : ¬ ∃ ahead ∈ (openGroups ts).head?, EndsWithCallee c ahead) :
    ∃ token position why rest, a.feed c t next = .error ⟨.unexpectedToken token position why, rest⟩ := by
  rw [← opensCall_iff regular fed] at plain
  rcases needs with comma | ⟨closing, opening⟩
  · refine ⟨",", t.position, .commaOutsideCall, a, ?_⟩
    rw [feed_comma comma, feedComma, if_neg plain]
    rfl
  · obtain ⟨o, last, kind⟩ := Option.map_eq_some_iff.1 opening
    obtain ⟨vs, rfl⟩ := List.getLast?_eq_some_iff.1 last
    obtain ⟨b, -, opened⟩ := feedAll_of_concat fed
    obtain ⟨group, -, same⟩ := feedOpening_eq o b
    rw [feed_opening kind, same] at opened
    cases opened
    have call : group.opensCall = false := by simpa using plain
    refine ⟨"()", group.position, .emptyParentheses, b, ?_⟩
    rw [feed_closing closing]
    simp only [feedClosing, beq_self_eq_true, if_true, placeGroup, call, Bool.false_eq_true, if_false, onStack]

/-- A token that is refused is the reason why the whole list is. -/
theorem expression_of_refused {after : List Token} {failure : Failure}
    (fed : Assembly.empty.feedAll c (some t.kind) ts = .ok a)
    (refused : a.feed c t (after.head?.map Token.kind) = .error failure) :
    c.expression (ts ++ t :: after) = .error failure.cause := by
  have upcoming : ((t :: after).head?.map Token.kind).or none = some t.kind := rfl
  have upcoming' : (after.head?.map Token.kind).or none = after.head?.map Token.kind := by simp
  rw [Catalog.expression, build, feedAll_append, upcoming, fed, Except.bind, feedAll_cons, upcoming', refused]
  rfl

/-- What is built has been read, and finished. -/
theorem finish_of_expression {root : Expression} (built : c.expression ts = .ok root) :
    ∃ a left, Assembly.empty.feedAll c none ts = .ok a ∧ a.finish = .ok (root, left) := by
  rw [Catalog.expression, build] at built
  cases fed : Assembly.empty.feedAll c none ts with
  | error failure =>
    rw [fed] at built
    cases built
  | ok a =>
    rw [fed, Except.bind] at built
    cases finished : a.finish with
    | error failure =>
      rw [finished] at built
      cases built
    | ok result =>
      rw [finished] at built
      cases built
      exact ⟨a, result.2, rfl, finished⟩

theorem feedAll_of_expression {after : List Token} {root : Expression} (built : c.expression (ts ++ after) = .ok root) :
    ∃ a, Assembly.empty.feedAll c (after.head?.map Token.kind) ts = .ok a := by
  obtain ⟨b, left, fed, -⟩ := finish_of_expression built
  obtain ⟨a, first, -⟩ := feedAll_of_append fed
  rw [Option.or_none] at first
  exact ⟨a, first⟩

/-- Over the standard operations and any constants, the open groups of the parser are those of the text that it
has read, and it reads one of them as an argument list exactly if a name stands right before it, or a constant
that is an operand by itself and ends with a parenthesis. A comma or an empty pair of parentheses in any other
group is an unexpected token, and in an expression each of them belongs to such a group. -/
theorem calls_follow_callees (constants : List (String × Float)) (tokens : List Token) :
    let c := Catalog.standard.withConstants constants
    (∀ before after a, tokens = before ++ after →
      Assembly.empty.feedAll c (after.head?.map Token.kind) before = .ok a →
        List.Forall₂ (fun ahead o => o.opensCall = true ↔ lastKind ahead = some .name ∨ EndsWithConstant c ahead)
          (openGroups before) a.groups) ∧
    (∀ before t after a, tokens = before ++ t :: after → NeedsCall before t →
      Assembly.empty.feedAll c (some t.kind) before = .ok a →
        (∃ ahead ∈ (openGroups before).head?, lastKind ahead = some .name ∨ EndsWithConstant c ahead) ∨
          ∃ token position why, c.expression tokens = .error (.unexpectedToken token position why)) ∧
    ∀ root, c.expression tokens = .ok root → ∀ before t after, tokens = before ++ t :: after → NeedsCall before t →
      ∃ ahead ∈ (openGroups before).head?, lastKind ahead = some .name ∨ EndsWithConstant c ahead := by
  intro c
  have regular : c.Regular := Catalog.regular_withConstants constants
  have refused : ∀ before t after a, tokens = before ++ t :: after → NeedsCall before t →
      Assembly.empty.feedAll c (some t.kind) before = .ok a →
        (∃ ahead ∈ (openGroups before).head?, EndsWithCallee c ahead) ∨
          ∃ token position why, c.expression tokens = .error (.unexpectedToken token position why) := by
    rintro before t after a rfl needs fed
    by_cases call : ∃ ahead ∈ (openGroups before).head?, EndsWithCallee c ahead
    · exact .inl call
    · obtain ⟨token, position, why, rest, failed⟩ :=
        feed_needsCall (after.head?.map Token.kind) regular fed needs call
      exact .inr ⟨token, position, why, expression_of_refused fed failed⟩
  refine ⟨fun before after a _ fed => groups_of_feedAll regular fed, refused, ?_⟩
  rintro root built before t after rfl needs
  obtain ⟨a, fed⟩ := feedAll_of_expression built
  rcases refused before t after a rfl needs fed with call | ⟨token, position, why, failed⟩
  · exact call
  · rw [failed] at built
    cases built

/-- The comma of `mod(5, 3)` belongs to a group behind a name. -/
theorem calls_follow_callees_remainder :
    let c := Catalog.standard.withConstants []
    let before : List Token := [⟨.name, "mod", 0⟩, ⟨.opening, "(", 3⟩, ⟨.number, "5", 4⟩]
    let after : List Token := [⟨.number, "3", 7⟩, ⟨.closing, ")", 8⟩]
    (∃ root, c.expression (before ++ ⟨.comma, ",", 5⟩ :: after) = .ok root) ∧ NeedsCall before ⟨.comma, ",", 5⟩ ∧
      ∃ ahead ∈ (openGroups before).head?, lastKind ahead = some .name ∨ EndsWithConstant c ahead := by
  intro c before after
  obtain ⟨root, built⟩ : ∃ root, c.expression (before ++ ⟨.comma, ",", 5⟩ :: after) = .ok root := ⟨_, rfl⟩
  have needs : NeedsCall before ⟨.comma, ",", 5⟩ := .inl rfl
  exact ⟨⟨root, built⟩, needs, (calls_follow_callees [] _).2.2 root built before _ after rfl needs⟩

/-- In `(pi)(1,2)` the comma stands in a group that follows no name, and yet the tokens are read. -/
theorem constant_takes_arguments :
    let c := Catalog.standard.withConstants []
    let before : List Token :=
      [⟨.opening, "(", 0⟩, ⟨.name, "pi", 1⟩, ⟨.closing, ")", 3⟩, ⟨.opening, "(", 4⟩, ⟨.number, "1", 5⟩]
    let after : List Token := [⟨.number, "2", 7⟩, ⟨.closing, ")", 8⟩]
    (∃ root, c.expression (before ++ ⟨.comma, ",", 6⟩ :: after) = .ok root) ∧ NeedsCall before ⟨.comma, ",", 6⟩ ∧
      ∀ ahead ∈ (openGroups before).head?, lastKind ahead ≠ some .name := by
  intro c before after
  refine ⟨⟨_, rfl⟩, .inl rfl, ?_⟩
  decide

end Reckoner.Grammar
