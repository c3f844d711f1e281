import Reckoner.Proofs.Stack.Reached

/-!
# One token

Every token handler leads from a reached assembly to a reached one, or refuses the
token for one of the causes that a text can have.
-/

namespace Reckoner

open Grammar

/-- The causes that reading tokens can have: no fault of the parser, and no pieces that
do not join. -/
def ParseError.Refusal : ParseError → Prop
  | .fault _ => False
  | .unbalanced (.rightOperandMissing _) => True
  | .unbalanced _ => False
  | _ => True

namespace Grammar

open Assembly Expression

/-- What one token may lead to. -/
def Outcome (c : Catalog) (next : Option TokenKind) (ts : List Token) : Except Failure Assembly → Prop
  | .ok a => Reached c next ts a
  | .error failure => failure.cause.Refusal

variable {c : Catalog} {next : Option TokenKind} {k l : Level} {ts us gs : List Token} {a : Assembly}
  {e : Expression} {entry : Entry} {t : Token} {S P : List Piece} {es : List Expression} {o : Opening}
  {run : Option Expression}

/-- The arguments before the last one, and that one, as the content of a call. -/
def contentOf (es : List Expression) (e : Expression) : Expression :=
  if es = [] then e else .arguments (es ++ [e])

theorem asArguments_contentOf (single : e.isList = false) : (contentOf es e).asArguments = es ++ [e] := by
  unfold contentOf
  split
  · next none => rw [asArguments_of_not_list single, none, List.nil_append]
  · rfl

theorem Given.phrase (regular : c.Regular) (given : Given c gs P es) (last : Phrase c true next .sum us e) :
    Phrase c true next .arguments (gs ++ us) (contentOf es e) := by
  induction given generalizing next us e with
  | nil => exact last.loosen (by decide)
  | @snoc gs P es vs e' t position before last' comma ih =>
    have phrase := (ih last').argument comma last
    rw [asArguments_contentOf ((last'.denotes regular).1 le_rfl).root] at phrase
    simpa [contentOf] using phrase

theorem Given.collect (later : List Expression) (given : Given c gs P es) (comma : P ≠ []) :
    collect later (P.tail ++ .opening o :: S) = .ok (es ++ later, S) := by
  induction given generalizing later with
  | nil => exact absurd rfl comma
  | @snoc gs P es us e t position before last kind ih =>
    rw [List.tail_cons]
    cases before with
    | nil => rfl
    | snoc _ before' last' kind' =>
      rw [List.append_assoc]
      exact ih (e :: later) (by simp)

theorem Given.closeScope (given : Given c gs P es) {T : List Piece}
    (linked : link T = .ok (e, P ++ .opening o :: S)) : closeScope T = .ok (contentOf es e, S) := by
  have gathered : P ≠ [] → Assembly.collect [e] (P.tail ++ .opening o :: S) = .ok (es ++ [e], S) := given.collect [e]
  unfold Assembly.closeScope
  rw [linked]
  cases given with
  | nil => rfl
  | @snoc gs P es us e' t position before last kind =>
    have collected := gathered (by simp)
    rw [List.tail_cons] at collected
    simp only [List.cons_append] at collected ⊢
    rw [collected]
    simp [Except.map, contentOf]

theorem link_complete (complete : e.isComplete = true) : link (.operand e :: S) = chain e S := by
  simp [link, complete]

/-- An expression without a comma is a sum. -/
theorem Phrase.sum_or_list {extended : Bool} (h : Phrase c extended next l ts e) :
    Phrase c extended next .sum ts e ∨ e.isList = true := by
  induction h with
  | loosen _ _ ih => exact ih
  | argument => exact .inr rfl
  | @binary _ o _ _ _ _ _ _ left sign known right =>
    exact .inl (.loosen (.binary left sign known right) (by cases o <;> decide))
  | negation sign known operand => exact .inl (.loosen (.negation sign known operand) (by decide))
  | factorial operand sign known => exact .inl (.loosen (.factorial operand sign known) (by decide))
  | juxtaposition left right known => exact .inl (.loosen (.juxtaposition left right known) (by decide))
  | number kind read => exact .inl (.loosen (.number kind read) (by decide))
  | constant kind known nullary apart => exact .inl (.loosen (.constant kind known nullary apart) (by decide))
  | group opening content closing => exact .inl (.loosen (.group opening content closing) (by decide))
  | call name known opening content closing =>
    exact .inl (.loosen (.call name known opening content closing) (by decide))
  | emptyCall name known opening closing => exact .inl (.loosen (.emptyCall name known opening closing) (by decide))
  | reuse allowed callee nullary opening content several closing =>
    exact .inl (.loosen (.reuse allowed callee nullary opening content several closing) (by decide))
  | emptyReuse allowed callee nullary opening closing =>
    exact .inl (.loosen (.emptyReuse allowed callee nullary opening closing) (by decide))

/-- A constant that is a run of its own takes any group behind it. -/
theorem Phrase.apply (regular : c.Regular) {q : Token}
    (callee : Phrase c true (some .opening) .run ts (.reference entry)) (nullary : entry.kind = .nullary)
    (opening : t.kind = .opening) (content : Phrase c true (some .closing) .arguments us e)
    (closing : q.kind = .closing) :
    Phrase c true next .run (ts ++ t :: (us ++ [q])) ((reference entry).withRight e) := by
  rcases content.sum_or_list with single | several
  · obtain ⟨star, known, -, -⟩ := regular.sign .star
    have group : Phrase c true next .element (t :: (us ++ [q])) e := .group opening single closing
    have joined : (reference entry).beside star e = (reference entry).withRight e := by simp [beside, reference]
    rw [← joined]
    exact .juxtaposition (by simpa [opening] using callee) group known
  · exact .reuse rfl callee nullary opening content several closing

/-- A call goes on with the run before its callee, or is a run of its own. -/
theorem Callee.applied (regular : c.Regular) (next : Option TokenKind) {q : Token} {content : Option Expression} {call : Expression}
    (callee : Callee c us run entry) (opening : t.kind = .opening) (closing : q.kind = .closing)
    (filled : content = none ∧ gs = [] ∧ call = emptyCall entry ∨
      ∃ e, content = some e ∧ Phrase c true (some .closing) .arguments gs e ∧ call = (reference entry).withRight e) :
    ∃ whole, Phrase c true next .run (us ++ t :: (gs ++ [q])) whole ∧ ∀ S r, Slot c S r →
      place c next (.operand call) (onTop run S) = settleBefore next (.operand whole) S := by
  cases callee with
  | @name vs run n entry before kind known =>
    have element : Phrase c true next .element (n :: t :: (gs ++ [q])) call := by
      rcases filled with ⟨-, rfl, rfl⟩ | ⟨e, -, phrase, rfl⟩
      · exact .emptyCall kind known opening closing
      · exact .call kind known opening phrase closing
    obtain ⟨whole, phrase, placed⟩ := Running.extend regular (by simpa [kind] using before) element
    exact ⟨whole, by simpa using phrase, placed⟩
  | constant phrase nullary =>
    refine ⟨call, ?_, fun S r slot => slot.place regular⟩
    rcases filled with ⟨-, rfl, rfl⟩ | ⟨e, -, content, rfl⟩
    · rw [emptyCall, if_pos nullary]
      exact .emptyReuse rfl phrase nullary opening closing
    · exact phrase.apply regular nullary opening content closing

/-- A call is put down where its callee stood. -/
theorem Callee.close (regular : c.Regular) (next : Option TokenKind) {q : Token} {content : Option Expression} {call : Expression}
    (below : Awaiting c ts a l) (callee : Callee c us run entry) (opening : t.kind = .opening) (closing : q.kind = .closing)
    (filled : content = none ∧ gs = [] ∧ call = emptyCall entry ∨
      ∃ e, content = some e ∧ Phrase c true (some .closing) .arguments gs e ∧ call = (reference entry).withRight e) :
    ∃ S, place c next (.operand call) (onTop run a.stack) = .ok S ∧
      Reached c next (ts ++ (us ++ t :: (gs ++ [q]))) ⟨S, a.groups⟩ := by
  obtain ⟨whole, phrase, placed⟩ := callee.applied regular next opening closing filled
  rw [placed _ _ below.slot]
  exact below.settleBefore regular phrase

theorem feedNumber_outcome (regular : c.Regular) (kind : t.kind = .number) (below : Awaiting c ts a l)
    (before : Running c (some .number) us run) :
    Outcome c next (ts ++ us ++ [t]) (Assembly.feedNumber c t next ⟨onTop run a.stack, a.groups⟩) := by
  unfold feedNumber
  cases read : Decimal.read? t.text with
  | none => trivial
  | some value =>
    have element : Phrase c true next .element [t] (.literal value) := .number kind read
    obtain ⟨S, placed, reached⟩ := below.place regular (by simpa [kind] using before) element
    simp only [onStack, placed]
    rw [List.append_assoc]
    exact reached

theorem feedName_outcome (regular : c.Regular) (kind : t.kind = .name) (below : Awaiting c ts a l)
    (before : Running c (some .name) us run) :
    Outcome c next (ts ++ us ++ [t]) (Assembly.feedName c t next ⟨onTop run a.stack, a.groups⟩) := by
  unfold feedName
  cases known : c.lookup? t.text with
  | none => trivial
  | some entry =>
    dsimp only
    by_cases opening : next = some .opening
    · subst opening
      exact .callee below before kind known
    · rw [if_neg (by simpa using opening)]
      by_cases nullary : entry.kind = .nullary
      · have element : Phrase c true next .element [t] (.reference entry) := .constant kind known nullary opening
        obtain ⟨S, placed, reached⟩ := below.place regular (by simpa [kind] using before) element
        simp only [nullary, beq_self_eq_true, if_true, onStack, placed]
        rw [List.append_assoc]
        exact reached
      · rw [if_neg (by simpa using nullary)]
        trivial

/-- An operator where an operand is awaited can only be a minus sign. -/
theorem operatorNode_slot (regular : c.Regular) (slot : Slot c S l) :
    operatorNode entry t S = if entry.symbol = some "-" then .ok (.reference entry, S)
      else .error (.unexpectedToken t.text t.position .leftOperandMissing) := by
  unfold operatorNode
  rw [slot.opensOperand regular]
  by_cases minus : entry.symbol = some "-"
  · simp [minus]
  · simp only [beq_eq_false_iff_ne.2 minus, Bool.false_and, Bool.false_eq_true, if_false, minus]
    cases slot with
    | bounded h =>
      match S, h with
      | [], _ => rfl
      | .opening _ :: _, _ => rfl
      | .comma _ :: _, _ => rfl
    | pending h => simp [h.not_complete regular]

/-- An operator takes the operand on top. -/
theorem operatorNode_operand (shaped : e.WellShaped) :
    operatorNode entry t (.operand e :: S) = .ok (⟨.reference entry, some e, none⟩, S) := by
  simp [operatorNode, opensOperand, shaped.not_awaitsOperand, shaped.isComplete]

theorem operator_eq_ok {symbol : String} (known : c.operator? symbol = some entry) :
    c.operator symbol = .ok entry := by
  rw [Catalog.operator, known]

theorem feedOperator_outcome {o : Operator} (regular : c.Regular) (kind : t.kind = .operator o)
    (h : Reached c (some t.kind) ts a) : Outcome c next (ts ++ [t]) (a.feedOperator c o.symbol t) := by
  obtain ⟨entry, known, -, -⟩ := regular.sign o
  have symbol := (regular.of_sign known).2.2
  unfold feedOperator
  rw [operator_eq_ok known]
  simp only [Except.bind]
  rw [kind] at h
  cases h with
  | awaiting below =>
    rw [operatorNode_slot regular below.slot, symbol]
    by_cases minus : o = .minus
    · subst minus
      exact .awaiting (.pending below (.negation kind known) below.le_unary)
    · rw [if_neg (by cases o <;> simp_all [Operator.symbol])]
      trivial
  | operand below phrase fits ready =>
    obtain ⟨left, le⟩ : o.leftLevel ≤ _ ∧ _ ≤ o.resultLevel := ready
    have shaped := ((phrase.denotes regular).1 ((show Level.sum ≤ o.leftLevel by cases o <;> decide).trans left)).shaped
    rw [operatorNode_operand shaped, List.append_assoc]
    exact .awaiting (.pending below (.binary (phrase.loosen left) kind known) le)

theorem feedBang_outcome (regular : c.Regular) (kind : t.kind = .bang) (h : Reached c (some t.kind) ts a) :
    Outcome c next (ts ++ [t]) (a.feedBang c t next) := by
  obtain ⟨entry, known, -, -⟩ := regular.bang
  have symbol := (regular.of_bang known).2.2
  unfold feedBang
  rw [operator_eq_ok known]
  simp only [Except.bind]
  rw [kind] at h
  cases h with
  | awaiting below =>
    rw [operatorNode_slot regular below.slot, symbol, if_neg (by decide)]
    trivial
  | operand below phrase fits ready =>
    cases (ready : _ = Level.run)
    have factorial : Phrase c true next .run (_ ++ [t]) ⟨.reference entry, some _, none⟩ := .factorial phrase kind known
    have shaped := ((phrase.denotes regular).1 (by decide)).shaped
    obtain ⟨S, settled, reached⟩ := below.settleBefore regular factorial
    rw [operatorNode_operand shaped]
    simp only [below.slot.place regular, settled, onStack]
    rw [List.append_assoc]
    exact reached

/-- The piece on top is a name that an open parenthesis turns into a call. -/
def callAwaited : List Piece → Bool
  | .operand top :: _ => top.awaitsCall
  | _ => false

theorem feedOpening_eq (t : Token) (a : Assembly) :
    ∃ o : Opening, o.opensCall = callAwaited a.stack ∧ a.feedOpening t = ⟨.opening o :: a.stack, o :: a.groups⟩ :=
  ⟨_, rfl, rfl⟩

theorem Slot.not_callAwaited (regular : c.Regular) (slot : Slot c S l) : callAwaited S = false := by
  cases slot with
  | bounded h =>
    match S, h with
    | [], _ => rfl
    | .opening _ :: _, _ => rfl
    | .comma _ :: _, _ => rfl
  | pending h => exact h.not_awaitsCall regular

theorem feedOpening_outcome (regular : c.Regular) (kind : t.kind = .opening) (h : Reached c (some t.kind) ts a) :
    Reached c next (ts ++ [t]) (a.feedOpening t) := by
  rw [kind] at h
  obtain ⟨o, call, opened⟩ := feedOpening_eq t a
  rw [opened]
  cases h with
  | awaiting below =>
    rw [below.slot.not_callAwaited regular] at call
    have group := Awaiting.group below .fresh (by simp) kind call
    rw [List.append_nil] at group
    exact .awaiting group
  | @operand _ _ S G l k us e below phrase fits ready =>
    cases (ready : k = Level.run)
    by_cases constant : e.awaitsCall = true
    · have shaped := ((phrase.denotes regular).1 (by decide)).shaped
      obtain ⟨entry, rfl, nullary⟩ := shaped.of_awaitsCall constant
      exact .awaiting (.call below (.constant phrase nullary) kind (call.trans constant) .nil)
    · rw [Bool.not_eq_true] at constant
      refine .awaiting (.group below (.going phrase) ?_ kind (call.trans constant))
      rintro _ ⟨⟩
      exact constant
  | @callee _ S G l us run n entry below before name known =>
    have awaits := awaitsCall_reference (regular.named known).kind
    have opened := Awaiting.call below (.name before name known) kind (call.trans awaits) .nil
    rw [← List.append_assoc] at opened
    exact .awaiting opened

theorem feedComma_outcome (regular : c.Regular) (kind : t.kind = .comma) (h : Reached c (some t.kind) ts a) :
    Outcome c next (ts ++ [t]) (a.feedComma t) := by
  rw [kind] at h
  obtain ⟨stack, groups⟩ := a
  unfold feedComma
  split
  · next call =>
    cases h with
    | awaiting below =>
      cases below with
      | start => cases call
      | pending _ pending _ => simp [link, pending.not_complete regular, Except.map, onStack, Outcome, ParseError.Refusal]
      | group => trivial
      | call _ _ _ _ given =>
        cases given with
        | nil => trivial
        | snoc => trivial
    | @operand _ _ S G l k us e below phrase fits ready =>
      cases (ready : k = Level.run)
      have complete := ((phrase.denotes regular).1 (by decide)).shaped.isComplete
      obtain ⟨vs, ws, content, T, split, within, bounded, last, chained⟩ := below.chain regular phrase fits
      rw [split]
      simp only [link_complete complete, chained, Except.map, onStack]
      cases within with
      | start => cases call
      | pending => exact bounded.elim
      | group _ _ _ _ plain => simp [plain] at call
      | call around callee opening call given =>
        have more := Awaiting.call around callee opening call (given.snoc t.position last kind)
        simpa [Outcome] using Reached.awaiting more
  · trivial

theorem feedClosing_outcome (regular : c.Regular) (kind : t.kind = .closing) (h : Reached c (some t.kind) ts a) :
    Outcome c next (ts ++ [t]) (a.feedClosing c t next) := by
  rw [kind] at h
  obtain ⟨stack, groups⟩ := a
  unfold feedClosing
  cases groups with
  | nil => trivial
  | cons o G =>
    cases h with
    | awaiting below =>
      cases below with
      | pending _ pending _ =>
        simp [closeScope, link, pending.not_complete regular, Except.bind, onStack, Outcome, ParseError.Refusal]
      | group _ _ _ _ plain => simp [placeGroup, plain, onStack, Outcome, ParseError.Refusal]
      | @call ts S G l us run entry t' o gs P es below callee opening call given =>
        cases given with
        | nil =>
          obtain ⟨T, placed, reached⟩ := callee.close regular next below opening kind (.inl ⟨rfl, rfl, rfl⟩)
          have called : callOf none (.operand (.reference entry)) = some (.operand (emptyCall entry)) := by
            simp only [callOf, withArguments, entry?, Expression.reference, Option.map_some, emptyCall, beq_iff_eq]
          simp only [List.nil_append, beq_self_eq_true, if_true, placeGroup, call, called, placed, onStack]
          simpa [Outcome] using reached
        | snoc => simp [Assembly.fail, Outcome, ParseError.Refusal]
    | @operand _ _ S _ l k us e below phrase fits ready =>
      cases (ready : k = Level.run)
      have complete := ((phrase.denotes regular).1 (by decide)).shaped.isComplete
      obtain ⟨vs, ws, content, T, split, within, bounded, last, chained⟩ := below.chain regular phrase fits
      rw [split]
      have linked := (link_complete complete).trans chained
      cases within with
      | pending => exact bounded.elim
      | group below before apart opening plain =>
        have closed := (Given.nil : Given c [] [] []).closeScope linked
        rw [contentOf, if_pos rfl] at closed
        have element : Phrase c true next .element (_ :: (ws ++ [t])) content := .group opening last kind
        obtain ⟨T, placed, reached⟩ := below.place regular (by simpa [opening] using before) element
        simp only [closed, Except.bind, placeGroup, plain, Bool.false_eq_true, if_false, placed, onStack]
        simpa [Outcome] using reached
      | @call ts S' G l us run entry t' o gs P es below callee opening call given =>
        have closed := given.closeScope linked
        obtain ⟨T, placed, reached⟩ := callee.close regular next below opening kind
          (.inr ⟨_, rfl, given.phrase regular last, rfl⟩)
        simp only [closed, Except.bind, placeGroup, call, if_true, callOf, withArguments, Option.map_some, placed, onStack]
        simpa [Outcome] using reached

/-- Where a token that is no operator and no parenthesis follows, a run may be on top. -/
theorem Reached.running {kind : TokenKind} (h : Reached c (some kind) ts a) (operator : kind.operator? = none)
    (opening : kind ≠ .opening) :
    ∃ vs us S l run, ts = vs ++ us ∧ a = ⟨onTop run S, a.groups⟩ ∧ Awaiting c vs ⟨S, a.groups⟩ l ∧
      Running c (some kind) us run := by
  cases h with
  | @awaiting _ _ a l below => exact ⟨ts, [], a.stack, l, none, by simp, rfl, below, .fresh⟩
  | @operand _ vs S G l k us e below phrase fits ready =>
    have same : k = Level.run := by simpa [Ready, operator] using ready
    subst same
    exact ⟨vs, us, S, l, some e, rfl, rfl, below, .going phrase⟩
  | callee => exact absurd rfl opening

/-- Every token leads from a reached assembly to a reached one or is refused. -/
theorem feed_outcome (regular : c.Regular) (h : Reached c (some t.kind) ts a) :
    Outcome c next (ts ++ [t]) (a.feed c t next) := by
  unfold feed
  split
  · next kind =>
    obtain ⟨vs, us, S, l, run, rfl, same, below, before⟩ := h.running (by rw [kind]; rfl) (by rw [kind]; decide)
    rw [same]
    exact feedNumber_outcome regular kind below (by rwa [kind] at before)
  · next kind =>
    obtain ⟨vs, us, S, l, run, rfl, same, below, before⟩ := h.running (by rw [kind]; rfl) (by rw [kind]; decide)
    rw [same]
    exact feedName_outcome regular kind below (by rwa [kind] at before)
  · next o kind => exact feedOperator_outcome regular kind h
  · next kind => exact feedBang_outcome regular kind h
  · next kind => exact feedOpening_outcome regular kind h
  · next kind => exact feedClosing_outcome regular kind h
  · next kind => exact feedComma_outcome regular kind h

/-- The same for any number of tokens. -/
theorem feedAll_outcome (regular : c.Regular) (h : Reached c ((us.head?.map Token.kind).or next) ts a) :
    Outcome c next (ts ++ us) (a.feedAll c next us) := by
  induction us generalizing ts a with
  | nil => simpa [Outcome, feedAll] using h
  | cons t rest ih =>
    have step : Outcome c _ (ts ++ [t]) (a.feed c t ((rest.head?.map Token.kind).or next)) :=
      feed_outcome regular (by simpa using h)
    rw [feedAll]
    cases fed : a.feed c t ((rest.head?.map Token.kind).or next) with
    | error failure =>
      rw [fed] at step
      exact step
    | ok b =>
      rw [fed] at step
      simpa [Except.bind] using ih step

/-- At the end one expression is left: a sum that all tokens make up. -/
theorem finish_phrase (regular : c.Regular) (h : Reached c none ts a) {root : Expression} {b : Assembly}
    (finished : a.finish = .ok (root, b)) : Phrase c true none .sum ts root ∧ b = .empty := by
  obtain ⟨stack, groups⟩ := a
  cases groups with
  | cons => cases finished
  | nil =>
    simp only [finish] at finished
    cases h with
    | awaiting below =>
      cases below with
      | start => cases finished
      | pending _ pending _ => simp [link, pending.not_complete regular] at finished
    | @operand _ _ S _ l k us e below phrase fits ready =>
      cases (ready : k = Level.run)
      have complete := ((phrase.denotes regular).1 (by decide)).shaped.isComplete
      obtain ⟨vs, ws, content, T, split, within, bounded, last, chained⟩ := below.chain regular phrase fits
      rw [split]
      rw [(link_complete complete).trans chained] at finished
      cases within with
      | pending => exact bounded.elim
      | start =>
        cases finished
        exact ⟨last, rfl⟩

/-- What a fresh parser builds is a phrase of the grammar. -/
theorem build_phrase (regular : c.Regular) {root : Expression} {b : Assembly}
    (built : Assembly.empty.build c ts = .ok (root, b)) : Phrase c true none .sum ts root ∧ b = .empty := by
  have outcome : Outcome c none ([] ++ ts) (Assembly.empty.feedAll c none ts) :=
    feedAll_outcome regular (.awaiting .start)
  unfold build at built
  cases fed : Assembly.empty.feedAll c none ts with
  | error failure => simp [fed, Except.bind] at built
  | ok a =>
    rw [fed] at outcome built
    exact finish_phrase regular outcome built

end Grammar

end Reckoner
