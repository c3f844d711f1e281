import Reckoner.Proofs.Stack.Refusals

/-!
# What the token before tells

A parser decides by the piece on top of its stack whether an operand stands there, whether a minus sign
negates, and whether another operator lacks its left operand. The last token that has been read tells the
same: `Standing` says what is on top behind each kind of token. Only a constant that is an operand by itself
and ends with a parenthesis is not told apart from its name when another parenthesis follows.
-/

namespace Reckoner

/-- The piece on top is an operand to which nothing is missing. -/
def operandOnTop : List Piece → Bool
  | .operand top :: _ => top.isComplete
  | _ => false

/-- The piece on top is an operator that waits for its right operand. -/
def operatorOnTop : List Piece → Bool
  | .operand top :: _ => top.awaitsOperand
  | _ => false

/-- The piece on top is an open parenthesis or a comma. -/
def boundaryOnTop : List Piece → Bool
  | .opening _ :: _ | .comma _ :: _ => true
  | _ => false

/-- An operand ends with the tokens: their last one is a number, a closing parenthesis, a factorial sign, or a name
that no open parenthesis follows. -/
def EndsOperand (next : Option TokenKind) (ts : List Token) : Prop :=
  lastKind ts = some .number ∨ lastKind ts = some .bang ∨ lastKind ts = some .closing ∨
    lastKind ts = some .name ∧ next ≠ some .opening

namespace Grammar

open Assembly Expression

variable {c : Catalog} {next : Option TokenKind} {l : Level} {ts : List Token} {a : Assembly} {t : Token} {e : Expression}
  {S : List Piece}

/-- What stands on top, and the last token by which it is known. -/
inductive Standing (next : Option TokenKind) (ts : List Token) (S : List Piece) : Prop where
  | start (none : S = []) (unread : ts = [])
  | operator {p below} (o : Operator) (top : S = .operand p :: below) (waits : p.awaitsOperand = true)
      (lacks : p.isComplete = false) (last : lastKind ts = some (.operator o))
  | boundary (top : boundaryOnTop S = true) (last : lastKind ts = some .opening ∨ lastKind ts = some .comma)
  | operand {e below} (top : S = .operand e :: below) (shaped : e.WellShaped) (last : EndsOperand next ts)
  | callee {e below} (top : S = .operand e :: below) (awaits : e.awaitsCall = true) (filled : e.awaitsOperand = false)
      (follows : next = some .opening) (last : lastKind ts = some .name)

theorem operandOnTop_eq_true_iff : operandOnTop S = true ↔ ∃ e below, S = .operand e :: below ∧ e.isComplete = true := by
  constructor
  · intro complete
    match S, complete with
    | .operand e :: below, complete => exact ⟨e, below, rfl, complete⟩
  · rintro ⟨e, below, rfl, complete⟩
    exact complete

/-- On a boundary an operand may begin and nothing else. -/
theorem of_boundaryOnTop (h : boundaryOnTop S = true) :
    operandOnTop S = false ∧ operatorOnTop S = false ∧ opensOperand S = true := by
  match S, h with
  | .opening _ :: _, _ => exact ⟨rfl, rfl, rfl⟩
  | .comma _ :: _, _ => exact ⟨rfl, rfl, rfl⟩

theorem Awaiting.standing (regular : c.Regular) (next : Option TokenKind) (h : Awaiting c ts a l) :
    Standing next ts a.stack := by
  cases h with
  | start => exact .start rfl rfl
  | pending below h fits =>
    have waits := h.awaitsOperand regular
    have lacks := h.not_complete regular
    cases h with
    | @binary o _ us t _ _ sign => exact .operator o rfl waits lacks (by simp [sign])
    | negation sign => exact .operator .minus rfl waits lacks (by simp [sign])
  | group _ _ _ kind => exact .boundary rfl (.inl (by simp [kind]))
  | call _ _ kind _ given =>
    cases given with
    | nil => exact .boundary rfl (.inl (by simp [kind]))
    | snoc _ _ _ comma => exact .boundary rfl (.inr (by simp [comma]))

/-- A phrase ends an operand before whatever may follow it. -/
theorem Phrase.endsOperand {extended : Bool} (h : Phrase c extended next l ts e) (before : List Token) :
    EndsOperand next (before ++ ts) := by
  obtain ⟨kind, last, closed⟩ := h.lastKind_eq
  have same : lastKind (before ++ ts) = some kind := by rw [lastKind_append, last, Option.some_or]
  unfold EndsOperand
  rw [same]
  cases kind with
  | number => exact .inl rfl
  | bang => exact .inr (.inl rfl)
  | closing => exact .inr (.inr (.inl rfl))
  | name => exact .inr (.inr (.inr ⟨rfl, h.apart last⟩))
  | operator | opening | comma => cases closed

theorem Reached.standing (regular : c.Regular) (h : Reached c next ts a) : Standing next ts a.stack := by
  cases h with
  | awaiting h => exact h.standing regular next
  | @operand _ vs S G l k us e below phrase fits ready =>
    have sum : Level.sum ≤ k := by
      unfold Ready at ready
      split at ready
      · next o _ => exact (show Level.sum ≤ o.leftLevel by cases o <;> decide).trans ready.1
      · exact ready ▸ by decide
    exact .operand rfl ((phrase.denotes regular).1 sum).shaped (phrase.endsOperand vs)
  | callee below before kind known =>
    have callable := (regular.named known).kind
    refine .callee rfl (awaitsCall_reference callable) ?_ rfl (by simp [kind])
    rcases callable with kind | kind | kind <;> simp [awaitsOperand, isOperator, entry?, reference, kind]

/-- Behind an operand none has to begin. -/
theorem not_asksOperand_of_endsOperand (h : EndsOperand next ts) : ¬ AsksOperand ts := by
  rcases h with last | last | last | ⟨last, -⟩ <;> simp [AsksOperand, last, TokenKind.asksOperand]

/-- An operator is on top behind one and nowhere else. -/
theorem Standing.operatorOnTop_iff (h : Standing next ts S) :
    operatorOnTop S = true ↔ ∃ o, lastKind ts = some (.operator o) := by
  cases h with
  | start none unread => simp [none, unread, operatorOnTop]
  | operator o top waits _ last => simp [top, operatorOnTop, waits, last]
  | boundary top last => rcases last with last | last <;> simp [(of_boundaryOnTop top).2.1, last]
  | operand top shaped last =>
    rw [top, operatorOnTop, shaped.not_awaitsOperand]
    rcases last with last | last | last | ⟨last, -⟩ <;> simp [last]
  | callee top _ filled _ last => simp [top, operatorOnTop, filled, last]

/-- A boundary is on top behind an open parenthesis or a comma and nowhere else. -/
theorem Standing.boundaryOnTop_iff (h : Standing next ts S) :
    boundaryOnTop S = true ↔ lastKind ts = some .opening ∨ lastKind ts = some .comma := by
  cases h with
  | start none unread => simp [none, unread, boundaryOnTop]
  | operator o top _ _ last => simp [top, boundaryOnTop, last]
  | boundary top last => exact iff_of_true top last
  | operand top _ last => rcases last with last | last | last | ⟨last, -⟩ <;> simp [top, boundaryOnTop, last]
  | callee top _ _ _ last => simp [top, boundaryOnTop, last]

/-- A minus sign may open an operand where one has to begin and nowhere else. -/
theorem Standing.opensOperand_iff (h : Standing next ts S) : opensOperand S = true ↔ AsksOperand ts := by
  cases h with
  | start none unread => simp [none, unread, opensOperand, AsksOperand]
  | operator o top waits _ last => simp [top, opensOperand, waits, AsksOperand, last, TokenKind.asksOperand]
  | boundary top last =>
    rcases last with last | last <;> simp [(of_boundaryOnTop top).2.2, AsksOperand, last, TokenKind.asksOperand]
  | operand top shaped last =>
    rw [top, opensOperand, shaped.not_awaitsOperand]
    exact iff_of_false Bool.false_ne_true (not_asksOperand_of_endsOperand last)
  | callee top _ filled _ last => simp [top, opensOperand, filled, AsksOperand, last, TokenKind.asksOperand]

/-- Before any token but an open parenthesis an operand is on top or one has to begin. -/
theorem Standing.operandOnTop_iff (h : Standing next ts S) (apart : next ≠ some .opening) :
    operandOnTop S = true ↔ ¬ AsksOperand ts := by
  cases h with
  | start none unread => simp [none, unread, operandOnTop, AsksOperand]
  | operator o top _ lacks last => simp [top, operandOnTop, lacks, AsksOperand, last, TokenKind.asksOperand]
  | boundary top last =>
    rcases last with last | last <;> simp [(of_boundaryOnTop top).1, AsksOperand, last, TokenKind.asksOperand]
  | operand top shaped last =>
    rw [top, operandOnTop, shaped.isComplete]
    exact iff_of_true rfl (not_asksOperand_of_endsOperand last)
  | callee _ _ _ follows => exact absurd follows apart

/-- The same before an open parenthesis, a name behind which it follows apart. -/
theorem Standing.operandOnTop_of_unnamed (h : Standing next ts S) (unnamed : lastKind ts ≠ some .name) :
    operandOnTop S = true ↔ EndsOperand next ts := by
  cases h with
  | start none unread => simp [none, unread, operandOnTop, EndsOperand]
  | operator o top _ lacks last => simp [top, operandOnTop, lacks, EndsOperand, last]
  | boundary top last => rcases last with last | last <;> simp [(of_boundaryOnTop top).1, EndsOperand, last]
  | operand top shaped last =>
    rw [top, operandOnTop, shaped.isComplete]
    exact iff_of_true rfl last
  | callee _ _ _ _ last => exact absurd last unnamed

theorem endsOperand_iff (apart : next ≠ some .opening) : EndsOperand next ts ↔ ¬ AsksOperand ts := by
  constructor
  · exact not_asksOperand_of_endsOperand
  · intro settled
    cases kind : lastKind ts with
    | none => simp [AsksOperand, kind] at settled
    | some k => cases k <;> simp_all [AsksOperand, EndsOperand, TokenKind.asksOperand]

/-- An operand that no call is going to take is on top behind the end of an operand, unless that is a constant which the
open parenthesis that follows is going to call. -/
theorem operandOnTop_iff (regular : c.Regular) (fed : Assembly.empty.feedAll c next ts = .ok a) :
    operandOnTop a.stack = true ∧ ¬ (callAwaited a.stack = true ∧ next = some .opening) ↔
      EndsOperand next ts ∧ ¬ (EndsWithConstant c ts ∧ next = some .opening) := by
  have standing := (reached_of_feedAll regular fed).standing regular
  by_cases opening : next = some .opening
  · subst opening
    rw [callAwaited_iff regular fed, EndsWithCallee]
    by_cases name : lastKind ts = some .name
    · simp [name, EndsOperand]
    · rw [standing.operandOnTop_of_unnamed name]
      simp [name]
  · rw [standing.operandOnTop_iff opening, endsOperand_iff opening]
    simp [opening]

/-- A minus sign negates where an operand has to begin, and is read as a subtraction elsewhere. -/
theorem feed_minus (regular : c.Regular) (standing : Standing (some t.kind) ts a.stack) (kind : t.kind = .operator .minus) :
    ∃ node below, a.feed c t next = .ok ⟨.operand node :: below, a.groups⟩ ∧
      (node.isNegation = true ↔ AsksOperand ts) := by
  obtain ⟨entry, known, -, -⟩ := regular.sign .minus
  obtain ⟨binary, -, symbol⟩ := regular.of_sign known
  have apart : some t.kind ≠ some TokenKind.opening := by simp [kind]
  rw [feed_operator kind, feedOperator, operator_eq_ok known, Except.bind]
  unfold operatorNode
  rw [symbol]
  by_cases asks : AsksOperand ts
  · refine ⟨.reference entry, a.stack, ?_, iff_of_true ?_ asks⟩
    · rw [standing.opensOperand_iff.2 asks]
      rfl
    · simp [isNegation, isOperator, symbol?, entry?, reference, binary, symbol, Operator.symbol]
  · obtain ⟨left, below, top, complete⟩ := operandOnTop_eq_true_iff.1 ((standing.operandOnTop_iff apart).2 asks)
    have shut : opensOperand a.stack = false := by
      rw [← Bool.not_eq_true, standing.opensOperand_iff]
      exact asks
    refine ⟨⟨.reference entry, some left, none⟩, below, ?_, iff_of_false ?_ asks⟩
    · rw [shut, top]
      simp [complete]
    · simp [isNegation]

/-- Any other sign lacks its left operand where one has to begin and nowhere else. -/
theorem operatorNode_of_other {entry : Entry} (standing : Standing (some t.kind) ts S) (apart : t.kind ≠ .opening)
    (other : entry.symbol ≠ some "-") :
    if AsksOperand ts then operatorNode entry t S = .error (.unexpectedToken t.text t.position .leftOperandMissing)
    else ∃ node below, operatorNode entry t S = .ok (node, below) := by
  have minus : (entry.symbol == some "-") = false := beq_eq_false_iff_ne.2 other
  have settled := standing.operandOnTop_iff fun same => apart (Option.some.inj same)
  unfold operatorNode
  rw [minus, Bool.false_and, if_neg Bool.false_ne_true]
  split
  · next asks =>
    split
    · next left below =>
      have lacks : left.isComplete = false := by
        rw [← Bool.not_eq_true]
        exact fun complete => settled.1 complete asks
      rw [lacks, if_neg Bool.false_ne_true]
    · rfl
  · next asks =>
    obtain ⟨left, below, rfl, complete⟩ := operandOnTop_eq_true_iff.1 (settled.2 asks)
    exact ⟨_, _, if_pos complete⟩

/-- A sign that cannot negate is refused for its left operand where an operand has to begin and nowhere else. -/
theorem feed_sign_error_iff (regular : c.Regular) (standing : Standing (some t.kind) ts a.stack)
    (sign : (∃ o, o ≠ .minus ∧ t.kind = .operator o) ∨ t.kind = .bang) :
    (∃ left, a.feed c t next = .error ⟨.unexpectedToken t.text t.position .leftOperandMissing, left⟩) ↔ AsksOperand ts := by
  rcases sign with ⟨o, other, kind⟩ | kind
  · obtain ⟨entry, known, -, -⟩ := regular.sign o
    have symbol : entry.symbol ≠ some "-" := by
      rw [(regular.of_sign known).2.2]
      cases o <;> simp_all [Operator.symbol]
    have node := operatorNode_of_other standing (by simp [kind]) symbol
    rw [feed_operator kind, feedOperator, operator_eq_ok known, Except.bind]
    split at node
    · next asks =>
      rw [node]
      exact iff_of_true ⟨a, rfl⟩ asks
    · next asks =>
      obtain ⟨made, below, node⟩ := node
      rw [node]
      refine iff_of_false ?_ asks
      rintro ⟨_, failed⟩
      cases failed
  · obtain ⟨entry, known, -, -⟩ := regular.bang
    have symbol : entry.symbol ≠ some "-" := by
      rw [(regular.of_bang known).2.2]
      decide
    have node := operatorNode_of_other standing (by simp [kind]) symbol
    rw [feed_bang kind, feedBang, operator_eq_ok known, Except.bind]
    split at node
    · next asks =>
      rw [node]
      exact iff_of_true ⟨a, rfl⟩ asks
    · next asks =>
      obtain ⟨made, below, node⟩ := node
      rw [node]
      refine iff_of_false ?_ asks
      rintro ⟨left, failed⟩
      -- Putting the factorial down can only fail without a place.
      cases placed : place c next (.operand made) below with
      | ok stack =>
        simp only [placed, onStack] at failed
        cases failed
      | error pair =>
        have unplaced := placeless_place _ _ placed
        simp only [placed, onStack, Except.error.injEq, Failure.mk.injEq] at failed
        rw [failed.1] at unplaced
        exact unplaced

/-- Over the standard operations and any constants, wherever a parser has come without an error: an operand that no call
is going to take is on top exactly behind a number, a closing parenthesis, a factorial sign or a name that no open
parenthesis follows, except that an open parenthesis calls a constant which is an operand by itself and ends with a
parenthesis. An operator that waits is on top exactly behind an operator, and a boundary exactly behind an open
parenthesis or a comma. So a minus sign negates exactly at the beginning and behind an operator, an open parenthesis or a
comma, and any other sign lacks its left operand exactly there. -/
theorem stack_follows_tokens (constants : List (String × Float)) (before after : List Token) :
    let c := Catalog.standard.withConstants constants
    let next := after.head?.map Token.kind
    ∀ a, Assembly.empty.feedAll c next before = .ok a →
      (operandOnTop a.stack = true ∧ ¬ (callAwaited a.stack = true ∧ next = some .opening) ↔
        EndsOperand next before ∧ ¬ (EndsWithConstant c before ∧ next = some .opening)) ∧
      (operatorOnTop a.stack = true ↔ ∃ o, lastKind before = some (.operator o)) ∧
      (boundaryOnTop a.stack = true ↔ lastKind before = some .opening ∨ lastKind before = some .comma) ∧
      ∀ t rest, after = t :: rest →
        (t.kind = .operator .minus → ∃ node below,
          a.feed c t (rest.head?.map Token.kind) = .ok ⟨.operand node :: below, a.groups⟩ ∧
            (node.isNegation = true ↔ AsksOperand before)) ∧
        ((∃ o, o ≠ .minus ∧ t.kind = .operator o) ∨ t.kind = .bang →
          ((∃ left, a.feed c t (rest.head?.map Token.kind) =
            .error ⟨.unexpectedToken t.text t.position .leftOperandMissing, left⟩) ↔ AsksOperand before)) := by
  intro c next a fed
  have regular : c.Regular := Catalog.regular_withConstants constants
  have standing : Standing next before a.stack := (reached_of_feedAll regular fed).standing regular
  refine ⟨operandOnTop_iff regular fed, standing.operatorOnTop_iff, standing.boundaryOnTop_iff, ?_⟩
  rintro t rest rfl
  exact ⟨fun minus => feed_minus regular standing minus, fun sign => feed_sign_error_iff regular standing sign⟩

/-- Behind `2*` a minus sign negates; no constant is near. -/
theorem stack_follows_tokens_product :
    let c := Catalog.standard.withConstants []
    let before : List Token := [⟨.number, "2", 0⟩, ⟨.operator .star, "*", 1⟩]
    let minus : Token := ⟨.operator .minus, "-", 2⟩
    ∃ a, Assembly.empty.feedAll c (some minus.kind) before = .ok a ∧ operatorOnTop a.stack = true ∧ AsksOperand before ∧
      ∃ node below, a.feed c minus none = .ok ⟨.operand node :: below, a.groups⟩ ∧ node.isNegation = true := by
  intro c before minus
  obtain ⟨a, fed⟩ : ∃ a, Assembly.empty.feedAll c (some minus.kind) before = .ok a := ⟨_, rfl⟩
  obtain ⟨-, operator, -, signs⟩ := stack_follows_tokens [] before [minus] a fed
  obtain ⟨node, below, read, negation⟩ := (signs minus [] rfl).1 rfl
  have asks : AsksOperand before := by decide
  exact ⟨a, fed, operator.2 ⟨.star, by decide⟩, asks, node, below, read, negation.2 asks⟩

/-- Behind `(pi)` an operand ends, and yet the constant on top awaits a call, so that the pair of parentheses in `(pi)()`
is read. -/
theorem constant_awaits_call :
    let c := Catalog.standard.withConstants []
    let before : List Token := [⟨.opening, "(", 0⟩, ⟨.name, "pi", 1⟩, ⟨.closing, ")", 3⟩]
    let after : List Token := [⟨.opening, "(", 4⟩, ⟨.closing, ")", 5⟩]
    EndsOperand (some .opening) before ∧
      (∃ a, Assembly.empty.feedAll c (some .opening) before = .ok a ∧ operandOnTop a.stack = true ∧
        callAwaited a.stack = true) ∧
      ∃ root, c.expression (before ++ after) = .ok root := by
  intro c before after
  exact ⟨.inr (.inr (.inl (by decide))), ⟨_, rfl, rfl, rfl⟩, _, rfl⟩

end Grammar

end Reckoner
