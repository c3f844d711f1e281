import Reckoner.Proofs.Grammar.Follow
import Reckoner.Proofs.Stack.Step

/-!
# Every phrase is read

The tokens of a phrase, read where an operand is awaited, leave the tree of the
phrase on the stack. An element is placed, a run is settled, and a looser phrase
is put down in pieces that link to its tree; the four notions below say so for a
list of tokens and a tree, and `Phrase.read` has them for every phrase.
-/

namespace Reckoner.Grammar

open Assembly Expression

variable {c : Catalog} {next : Option TokenKind} {k l r : Level} {ts us gs : List Token} {a b : Assembly}
  {e e' : Expression} {entry : Entry} {t q : Token} {S : List Piece} {G : List Opening}

theorem feedAll_append : a.feedAll c next (ts ++ us) =
    (a.feedAll c ((us.head?.map Token.kind).or next) ts).bind (Assembly.feedAll c next us) := by
  induction ts generalizing a with
  | nil => rfl
  | cons t rest ih =>
    have upcoming : ((rest ++ us).head?.map Token.kind).or next =
        (rest.head?.map Token.kind).or ((us.head?.map Token.kind).or next) := by
      cases rest <;> rfl
    rw [List.cons_append, feedAll, feedAll, upcoming]
    cases a.feed c t ((rest.head?.map Token.kind).or ((us.head?.map Token.kind).or next)) with
    | error failure => rfl
    | ok b => exact ih

theorem feedAll_cons : a.feedAll c next (t :: us) =
    (a.feed c t ((us.head?.map Token.kind).or next)).bind (Assembly.feedAll c next us) := rfl

theorem feedAll_singleton : a.feedAll c next [t] = a.feed c t next := by
  rw [feedAll_cons, List.head?_nil, Option.map_none, Option.none_or]
  cases a.feed c t next <;> rfl

theorem feed_number (kind : t.kind = .number) : a.feed c t next = a.feedNumber c t next := by
  simp only [feed, kind]

theorem feed_name (kind : t.kind = .name) : a.feed c t next = a.feedName c t next := by
  simp only [feed, kind]

theorem feed_operator {o : Operator} (kind : t.kind = .operator o) :
    a.feed c t next = a.feedOperator c o.symbol t := by
  simp only [feed, kind]

theorem feed_bang (kind : t.kind = .bang) : a.feed c t next = a.feedBang c t next := by
  simp only [feed, kind]

theorem feed_opening (kind : t.kind = .opening) : a.feed c t next = .ok (a.feedOpening t) := by
  simp only [feed, kind]

theorem feed_closing (kind : t.kind = .closing) : a.feed c t next = a.feedClosing c t next := by
  simp only [feed, kind]

theorem feed_comma (kind : t.kind = .comma) : a.feed c t next = a.feedComma t := by
  simp only [feed, kind]

/-- Only the open groups matter to a step on the stack. -/
theorem onStack_congr {result : StackResult (List Piece)} (same : a.groups = b.groups) :
    a.onStack result = b.onStack result := by
  cases result <;> simp [onStack, same]

theorem settleBefore_of_not_operator {piece : Piece} (other : next.bind TokenKind.operator? = none) :
    settleBefore next piece S = .ok (piece :: S) := by
  simp only [settleBefore, other]

/-- The tokens place `e` on the stack, behind the run on top if there is one. -/
def Places (c : Catalog) (next : Option TokenKind) (ts : List Token) (e : Expression) : Prop :=
  ∀ ⦃S r⦄ G run, Slot c S r → (∀ top, run = some top → top.WellShaped) →
    Assembly.feedAll c next ts ⟨onTop run S, G⟩ =
      Assembly.onStack ⟨onTop run S, G⟩ (place c next (.operand e) (onTop run S))

/-- The tokens put down `e` where an operand is awaited. -/
def Settles (c : Catalog) (next : Option TokenKind) (ts : List Token) (e : Expression) : Prop :=
  ∀ ⦃S r⦄ G, Slot c S r →
    Assembly.feedAll c next ts ⟨S, G⟩ = Assembly.onStack ⟨S, G⟩ (settleBefore next (.operand e) S)

/-- The tokens leave pieces that make up `e`: before an operator to whose left `e` may
stand they are settled, and otherwise they link to `e`. -/
structure Lands (c : Catalog) (next : Option TokenKind) (l : Level) (ts : List Token) (e : Expression) :
    Prop where
  settles {S : List Piece} {r : Level} {o : Operator} (G : List Opening) (slot : Slot c S r) (le : r ≤ l)
    (follows : next = some (.operator o)) (left : o.leftLevel ≤ l) :
    Assembly.feedAll c next ts ⟨S, G⟩ = Assembly.onStack ⟨S, G⟩ (settle o (.operand e) S)
  links {S : List Piece} {r : Level} (G : List Opening) (slot : Slot c S r) (le : r ≤ l)
    (other : next.bind TokenKind.operator? = none) :
    ∃ top rest, Assembly.feedAll c next ts ⟨S, G⟩ = .ok ⟨.operand top :: rest, G⟩ ∧
      link (.operand top :: rest) = chain e S

/-- The tokens are arguments in an open call; `e` is what closing it takes them for. -/
def Gathers (c : Catalog) (next : Option TokenKind) (ts : List Token) (e : Expression) : Prop :=
  ∀ ⦃o : Opening⦄ S G, o.opensCall = true → next.bind TokenKind.operator? = none →
    ∃ gs P es us last top rest,
      Assembly.feedAll c next ts ⟨.opening o :: S, o :: G⟩ = .ok ⟨.operand top :: rest, o :: G⟩ ∧
      link (.operand top :: rest) = .ok (last, P ++ .opening o :: S) ∧
      Given c gs P es ∧ Phrase c true next .sum us last ∧ contentOf es last = e

theorem Places.settles (regular : c.Regular) (h : Places c next ts e) : Settles c next ts e := by
  intro S r G slot
  have placed := h G none slot (by simp)
  rw [onTop, slot.place regular] at placed
  exact placed

theorem Settles.lands (h : Settles c next ts e) (complete : e.isComplete = true) : Lands c next l ts e where
  settles G slot _ follows _ := by
    rw [h G slot, follows]
    rfl
  links {S _} G slot _ other := by
    refine ⟨e, S, ?_, link_complete complete⟩
    rw [h G slot, settleBefore_of_not_operator other]
    rfl

theorem Lands.gathers (h : Lands c next .sum ts e) (phrase : Phrase c true next .sum ts e) :
    Gathers c next ts e := by
  intro o S G call other
  have slot : Slot c (.opening o :: S) .sum := .bounded trivial
  obtain ⟨top, rest, fed, linked⟩ := h.links (o :: G) slot le_rfl other
  exact ⟨[], [], [], ts, e, top, rest, fed, linked, .nil, phrase, rfl⟩

/-- A closed group is placed like its content, also where it is taken for the arguments of a
constant in front of it. -/
theorem placeGroup_content (regular : c.Regular) {o : Opening} {run : Option Expression} (slot : Slot c S r)
    (shaped : ∀ top, run = some top → top.WellShaped) (call : o.opensCall = callAwaited (onTop run S)) :
    placeGroup c next o (some e) (onTop run S) = place c next (.operand e) (onTop run S) := by
  cases run with
  | none =>
    rw [onTop, slot.not_callAwaited regular] at call
    simp [placeGroup, call, onTop]
  | some top =>
    by_cases constant : top.awaitsCall = true
    · have complete := (shaped top rfl).isComplete
      obtain ⟨entry, rfl, nullary⟩ := (shaped top rfl).of_awaitsCall constant
      have joined : juxtapose c (.reference entry) e = .ok ((reference entry).withRight e) := by
        simp [juxtapose, reference]
      have called : placeGroup c next o (some e) (onTop (some (.reference entry)) S) =
          place c next (.operand ((reference entry).withRight e)) S := by
        simp [placeGroup, call, callAwaited, onTop, constant, callOf, withArguments]
      rw [called, slot.place regular]
      simp only [onTop, place, complete, if_true, Piece.asOperand, joined]
    · rw [Bool.not_eq_true] at constant
      simp [placeGroup, call, onTop, callAwaited, constant]

theorem Lands.group (regular : c.Regular) (h : Lands c (some .closing) .sum ts e) (opening : t.kind = .opening)
    (closing : q.kind = .closing) : Places c next (t :: (ts ++ [q])) e := by
  intro S r G run slot shaped
  obtain ⟨o, call, opened⟩ := feedOpening_eq t ⟨onTop run S, G⟩
  have inside : Slot c (.opening o :: onTop run S) .sum := .bounded trivial
  obtain ⟨top, rest, fed, linked⟩ := h.links (o :: G) inside le_rfl rfl
  have closed := (Given.nil : Given c [] [] []).closeScope linked
  rw [contentOf, if_pos rfl] at closed
  have following : ([q].head?.map Token.kind).or next = some .closing := by simp [closing]
  rw [feedAll_cons, feed_opening opening, opened, Except.bind, feedAll_append, following, fed, Except.bind,
    feedAll_singleton, feed_closing closing]
  simp only [feedClosing, closed, Except.bind, placeGroup_content regular slot shaped call]
  exact onStack_congr rfl

/-- A pair of parentheses behind a callee makes a call of it. -/
theorem Gathers.call (h : Gathers c (some .closing) us e) (awaits : (reference entry).awaitsCall = true)
    (opening : t.kind = .opening) (closing : q.kind = .closing) :
    Assembly.feedAll c next (t :: (us ++ [q])) ⟨.operand (.reference entry) :: S, G⟩ =
      Assembly.onStack ⟨S, G⟩ (place c next (.operand ((reference entry).withRight e)) S) := by
  obtain ⟨o, call, opened⟩ := feedOpening_eq t ⟨.operand (.reference entry) :: S, G⟩
  replace call : o.opensCall = true := call.trans awaits
  obtain ⟨gs, P, es, vs, last, top, rest, fed, linked, given, -, rfl⟩ :=
    h (.operand (.reference entry) :: S) G call rfl
  have closed := given.closeScope linked
  have following : ([q].head?.map Token.kind).or next = some .closing := by simp [closing]
  rw [feedAll_cons, feed_opening opening, opened, Except.bind, feedAll_append, following, fed, Except.bind,
    feedAll_singleton, feed_closing closing]
  simp only [feedClosing, closed, Except.bind, placeGroup, call, if_true, callOf, withArguments, Option.map_some]
  exact onStack_congr rfl

theorem feedAll_emptyCall (awaits : (reference entry).awaitsCall = true) (opening : t.kind = .opening)
    (closing : q.kind = .closing) :
    Assembly.feedAll c next [t, q] ⟨.operand (.reference entry) :: S, G⟩ =
      Assembly.onStack ⟨S, G⟩ (place c next (.operand (.emptyCall entry)) S) := by
  obtain ⟨o, call, opened⟩ := feedOpening_eq t ⟨.operand (.reference entry) :: S, G⟩
  replace call : o.opensCall = true := call.trans awaits
  have called : callOf none (.operand (.reference entry)) = some (.operand (emptyCall entry)) := by
    simp only [callOf, withArguments, entry?, Expression.reference, Option.map_some, emptyCall, beq_iff_eq]
  rw [feedAll_cons, feed_opening opening, opened, Except.bind, feedAll_singleton, feed_closing closing]
  simp only [feedClosing, beq_self_eq_true, if_true, placeGroup, call, called]
  exact onStack_congr rfl

theorem feedName_callee (known : c.lookup? t.text = some entry) :
    a.feedName c t (some .opening) = .ok ⟨.operand (.reference entry) :: a.stack, a.groups⟩ := by
  simp [feedName, known]

theorem places_number {value : Float} (kind : t.kind = .number) (read : Decimal.read? t.text = some value) :
    Places c next [t] (.literal value) := by
  intro S r G run slot shaped
  rw [feedAll_singleton, feed_number kind]
  simp only [feedNumber, read]

theorem places_constant (kind : t.kind = .name) (known : c.lookup? t.text = some entry)
    (nullary : entry.kind = .nullary) (apart : next ≠ some .opening) : Places c next [t] (.reference entry) := by
  intro S r G run slot shaped
  rw [feedAll_singleton, feed_name kind]
  simp [feedName, known, apart, nullary]

theorem Gathers.places (h : Gathers c (some .closing) us e) {n : Token} (name : n.kind = .name)
    (known : c.lookup? n.text = some entry) (awaits : (reference entry).awaitsCall = true)
    (opening : t.kind = .opening) (closing : q.kind = .closing) :
    Places c next (n :: t :: (us ++ [q])) ((reference entry).withRight e) := by
  intro S r G run slot shaped
  have following : ((t :: (us ++ [q])).head?.map Token.kind).or next = some .opening := by simp [opening]
  rw [feedAll_cons, following, feed_name name, feedName_callee known, Except.bind]
  exact h.call awaits opening closing

theorem places_emptyCall {n : Token} (name : n.kind = .name) (known : c.lookup? n.text = some entry)
    (awaits : (reference entry).awaitsCall = true) (opening : t.kind = .opening) (closing : q.kind = .closing) :
    Places c next [n, t, q] (.emptyCall entry) := by
  intro S r G run slot shaped
  have following : ([t, q].head?.map Token.kind).or next = some .opening := by simp [opening]
  rw [feedAll_cons, following, feed_name name, feedName_callee known, Except.bind]
  exact feedAll_emptyCall awaits opening closing

theorem Settles.juxtaposition {left right : Expression} {star : Entry}
    (h : Settles c (us.head?.map Token.kind) ts left) (shaped : left.WellShaped)
    (element : Phrase c true next .element us right) (placed : Places c next us right)
    (known : c.operator? "*" = some star) : Settles c next (ts ++ us) (left.beside star right) := by
  intro S r G slot
  obtain ⟨t, rest, rfl, other⟩ := element.element_head le_rfl
  have apart : ((t :: rest).head?.map Token.kind).bind TokenKind.operator? = none := other
  have put := h G slot
  rw [settleBefore_of_not_operator apart] at put
  have added := placed G (some left) slot (by rintro _ ⟨⟩; exact shaped)
  rw [onTop, place_beside shaped known] at added
  rw [feedAll_append, show (((t :: rest).head?.map Token.kind).or next) = (t :: rest).head?.map Token.kind from rfl,
    put, onStack, Except.bind, added]
  exact onStack_congr rfl

theorem Settles.factorial (regular : c.Regular) (h : Settles c (some .bang) ts e) (shaped : e.WellShaped)
    (sign : t.kind = .bang) (known : c.operator? "!" = some entry) :
    Settles c next (ts ++ [t]) ⟨.reference entry, some e, none⟩ := by
  intro S r G slot
  have put := h G slot
  rw [settleBefore_of_not_operator rfl] at put
  have following : ([t].head?.map Token.kind).or next = some .bang := by simp [sign]
  rw [feedAll_append, following, put, onStack, Except.bind, feedAll_singleton, feed_bang sign, feedBang,
    operator_eq_ok known]
  simp only [Except.bind, operatorNode_operand shaped, slot.place regular]
  exact onStack_congr rfl

theorem Settles.reuse (regular : c.Regular) (h : Settles c (some .opening) ts (.reference entry))
    (awaits : (reference entry).awaitsCall = true) (opening : t.kind = .opening) (closing : q.kind = .closing)
    (content : Gathers c (some .closing) us e) :
    Settles c next (ts ++ t :: (us ++ [q])) ((reference entry).withRight e) := by
  intro S r G slot
  have put := h G slot
  rw [settleBefore_of_not_operator rfl] at put
  have following : ((t :: (us ++ [q])).head?.map Token.kind).or next = some .opening := by simp [opening]
  rw [feedAll_append, following, put, onStack, Except.bind, content.call awaits opening closing,
    slot.place regular]

theorem Settles.emptyReuse (regular : c.Regular) (h : Settles c (some .opening) ts (.reference entry))
    (nullary : entry.kind = .nullary) (opening : t.kind = .opening) (closing : q.kind = .closing) :
    Settles c next (ts ++ [t, q]) (.reference entry) := by
  intro S r G slot
  have put := h G slot
  rw [settleBefore_of_not_operator rfl] at put
  have awaits := awaitsCall_reference (.inr (.inr nullary))
  have following : ([t, q].head?.map Token.kind).or next = some .opening := by simp [opening]
  rw [feedAll_append, following, put, onStack, Except.bind, feedAll_emptyCall awaits opening closing,
    slot.place regular, emptyCall, if_pos nullary]

/-- A phrase that begins with a pending operator lands if its right operand does. -/
theorem Lands.pending (regular : c.Regular) {p : Expression} {vs : List Token} (h : Pending c k vs p l)
    (opens : ∀ S r G, Slot c S r → r ≤ k →
      Assembly.feedAll c next ts ⟨S, G⟩ = Assembly.feedAll c next us ⟨.operand p :: S, G⟩)
    (operand : Lands c next l us e) : Lands c next k ts (p.withRight e) where
  settles {S r o} G slot le follows left := by
    rw [opens S r G slot le, operand.settles G (.pending h) le_rfl follows (h.leftLevel_le left),
      h.settle regular, if_pos left]
    exact onStack_congr rfl
  links {S r} G slot le other := by
    obtain ⟨top, rest, fed, linked⟩ := operand.links G (.pending h) le_rfl other
    refine ⟨top, rest, ?_, ?_⟩
    · rw [opens S r G slot le, fed]
    · rw [linked, h.chain regular]

theorem Lands.binary (regular : c.Regular) {o : Operator} {left right : Expression}
    (phrase : Phrase c true (some (.operator o)) o.leftLevel ts left)
    (h : Lands c (some (.operator o)) o.leftLevel ts left) (sign : t.kind = .operator o)
    (known : c.operator? o.symbol = some entry) (operand : Lands c next o.rightLevel us right) :
    Lands c next o.resultLevel (ts ++ t :: us) ⟨.reference entry, some left, some right⟩ := by
  have shaped := ((phrase.denotes regular).1 (by cases o <;> decide)).shaped
  refine Lands.pending regular (.binary phrase sign known) (fun S r G slot le => ?_) operand
  have fits : r ≤ o.leftLevel := le.trans (by cases o <;> decide)
  have put := h.settles G slot fits rfl le_rfl
  rw [slot.settle_of_le regular le] at put
  have following : ((t :: us).head?.map Token.kind).or next = some (.operator o) := by simp [sign]
  rw [feedAll_append, following, put, onStack, Except.bind, feedAll_cons, feed_operator sign, feedOperator,
    operator_eq_ok known]
  simp only [Except.bind, operatorNode_operand shaped]

theorem Lands.negation (regular : c.Regular) (sign : t.kind = .operator .minus)
    (known : c.operator? "-" = some entry) (operand : Lands c next .unary ts e) :
    Lands c next .unary (t :: ts) ⟨.reference entry, none, some e⟩ := by
  refine Lands.pending regular (.negation sign known) (fun S r G slot _ => ?_) operand
  have symbol : entry.symbol = some "-" := (regular.of_sign (o := .minus) known).2.2
  have node : operatorNode entry t S = .ok (.reference entry, S) := by
    rw [operatorNode_slot regular slot, if_pos symbol]
  rw [feedAll_cons, feed_operator sign, feedOperator, show Operator.symbol .minus = "-" from rfl,
    operator_eq_ok known]
  simp only [Except.bind, node]

theorem Lands.loosen (h : Lands c next l ts e) (le : k ≤ l) : Lands c next k ts e where
  settles G slot fits follows left := h.settles G slot (fits.trans le) follows (left.trans le)
  links G slot fits other := h.links G slot (fits.trans le) other

theorem Gathers.argument (regular : c.Regular) (h : Gathers c (some .comma) ts e) (comma : t.kind = .comma)
    (phrase : Phrase c true next .sum us e') (last : Lands c next .sum us e') :
    Gathers c next (ts ++ t :: us) (.arguments (e.asArguments ++ [e'])) := by
  intro o S G call other
  obtain ⟨gs, P, es, vs, a, top, rest, fed, linked, given, before, rfl⟩ := h S G call rfl
  have more : Given c (gs ++ (vs ++ [t])) (.comma t.position :: .operand a :: P) (es ++ [a]) :=
    given.snoc t.position before comma
  have slot : Slot c (.comma t.position :: .operand a :: P ++ .opening o :: S) .sum := .bounded trivial
  obtain ⟨top', rest', fed', linked'⟩ := last.links (o :: G) slot le_rfl other
  refine ⟨_, _, _, us, e', top', rest', ?_, ?_, more, phrase, ?_⟩
  · have following : ((t :: us).head?.map Token.kind).or next = some .comma := by simp [comma]
    rw [feedAll_append, following, fed, Except.bind, feedAll_cons, feed_comma comma]
    simp only [feedComma, List.head?_cons, Option.map_some, Option.getD_some, call, if_true, linked, Except.map,
      onStack, Except.bind]
    exact fed'
  · exact linked'.trans (Bounded.chain trivial)
  · rw [asArguments_contentOf ((before.denotes regular).1 le_rfl).root]
    simp [contentOf]

/-- What reading the tokens of a phrase does, by the level of the phrase. -/
structure Reads (c : Catalog) (next : Option TokenKind) (l : Level) (ts : List Token) (e : Expression) : Prop where
  places : .element ≤ l → Places c next ts e
  settles : .run ≤ l → Settles c next ts e
  lands : .sum ≤ l → Lands c next l ts e
  gathers : Gathers c next ts e

namespace Reads

theorem of_gathers (h : Gathers c next ts e) : Reads c next .arguments ts e :=
  ⟨fun le => absurd le (by decide), fun le => absurd le (by decide), fun le => absurd le (by decide), h⟩

theorem of_lands (phrase : Phrase c true next l ts e) (h : Lands c next l ts e) (sum : .sum ≤ l)
    (loose : ¬ .run ≤ l) : Reads c next l ts e where
  places le := absurd (show Level.run ≤ l from le_trans (by decide) le) loose
  settles le := absurd le loose
  lands _ := h
  gathers := (h.loosen sum).gathers (phrase.loosen sum)

theorem of_settles (regular : c.Regular) (phrase : Phrase c true next .run ts e) (h : Settles c next ts e) :
    Reads c next .run ts e where
  places le := absurd le (by decide)
  settles _ := h
  lands _ := h.lands ((phrase.denotes regular).1 (by decide)).shaped.isComplete
  gathers := (h.lands ((phrase.denotes regular).1 (by decide)).shaped.isComplete).gathers (phrase.loosen (by decide))

theorem of_places (regular : c.Regular) (phrase : Phrase c true next .element ts e) (h : Places c next ts e) :
    Reads c next .element ts e where
  places _ := h
  settles _ := h.settles regular
  lands _ := (h.settles regular).lands ((phrase.denotes regular).1 (by decide)).shaped.isComplete
  gathers := ((h.settles regular).lands ((phrase.denotes regular).1 (by decide)).shaped.isComplete).gathers
    (phrase.loosen (by decide))

theorem loosen (h : Reads c next l ts e) (le : k ≤ l) : Reads c next k ts e where
  places element := h.places (element.trans le)
  settles run := h.settles (run.trans le)
  lands sum := (h.lands (sum.trans le)).loosen le
  gathers := h.gathers

end Reads

/-- Every phrase is read as its level asks for. -/
theorem Phrase.reads (regular : c.Regular) (h : Phrase c true next l ts e) : Reads c next l ts e := by
  induction h with
  | loosen _ le ih => exact ih.loosen le
  | argument before comma last ih_before ih_last =>
    exact .of_gathers (ih_before.gathers.argument regular comma last (ih_last.lands le_rfl))
  | @binary _ o _ _ _ _ _ _ left sign known right ih_left ih_right =>
    have sum : .sum ≤ o.leftLevel ∧ .sum ≤ o.rightLevel := by cases o <;> decide
    have lands := Lands.binary regular left (ih_left.lands sum.1) sign known (ih_right.lands sum.2)
    exact .of_lands (.binary left sign known right) lands (by cases o <;> decide) (by cases o <;> decide)
  | negation sign known operand ih =>
    have lands := Lands.negation regular sign known (ih.lands (by decide))
    exact .of_lands (.negation sign known operand) lands (by decide) (by decide)
  | factorial operand sign known ih =>
    have shaped := ((operand.denotes regular).1 (by decide)).shaped
    exact .of_settles regular (.factorial operand sign known) ((ih.settles le_rfl).factorial regular shaped sign known)
  | juxtaposition left right known ih_left ih_right =>
    have shaped := ((left.denotes regular).1 (by decide)).shaped
    exact .of_settles regular (.juxtaposition left right known)
      ((ih_left.settles le_rfl).juxtaposition shaped right (ih_right.places le_rfl) known)
  | number kind read => exact .of_places regular (.number kind read) (places_number kind read)
  | constant kind known nullary apart =>
    exact .of_places regular (.constant kind known nullary apart) (places_constant kind known nullary apart)
  | group opening content closing ih =>
    exact .of_places regular (.group opening content closing) ((ih.lands le_rfl).group regular opening closing)
  | call name known opening content closing ih =>
    have awaits := awaitsCall_reference (regular.named known).kind
    exact .of_places regular (.call name known opening content closing)
      (ih.gathers.places name known awaits opening closing)
  | emptyCall name known opening closing =>
    have awaits := awaitsCall_reference (regular.named known).kind
    exact .of_places regular (.emptyCall name known opening closing)
      (places_emptyCall name known awaits opening closing)
  | reuse allowed callee nullary opening content several closing ih_callee ih =>
    have awaits := awaitsCall_reference (.inr (.inr nullary))
    exact .of_settles regular (.reuse allowed callee nullary opening content several closing)
      ((ih_callee.settles le_rfl).reuse regular awaits opening closing ih.gathers)
  | emptyReuse allowed callee nullary opening closing ih =>
    exact .of_settles regular (.emptyReuse allowed callee nullary opening closing)
      ((ih.settles le_rfl).emptyReuse regular nullary opening closing)

/-- A fresh parser builds the tree of every phrase that all tokens make up. -/
theorem Phrase.build (regular : c.Regular) (h : Phrase c true none .sum ts e) :
    Assembly.empty.build c ts = .ok (e, .empty) := by
  obtain ⟨top, rest, fed, linked⟩ := ((h.reads regular).lands le_rfl).links [] (.bounded trivial : Slot c [] .sum) le_rfl rfl
  have whole : Assembly.empty.feedAll c none ts = .ok ⟨.operand top :: rest, []⟩ := fed
  rw [Assembly.build, whole, Except.bind]
  simp only [finish, linked, Assembly.chain]

/-- The parser and the extended grammar agree. -/
theorem build_eq_ok_iff (regular : c.Regular) :
    Assembly.empty.build c ts = .ok (e, .empty) ↔ Phrase c true none .sum ts e :=
  ⟨fun built => (build_phrase regular built).1, fun phrase => phrase.build regular⟩

end Reckoner.Grammar
