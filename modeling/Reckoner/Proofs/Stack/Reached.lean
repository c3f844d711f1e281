import Reckoner.Proofs.Stack.Pending

/-!
# The stacks that a token list can lead to

`Reached c next ts a` describes the assembly `a` after the tokens `ts`, when a token
of the kind `next` follows: what lies on its stack is cut into phrases, pending
operators and open groups that together make up `ts`. `Awaiting` is the part of
it that waits for an operand.
-/

namespace Reckoner.Grammar

open Assembly Expression

/-- The run that has been read where a further element may follow, if there is one. -/
inductive Running (c : Catalog) (next : Option TokenKind) : List Token → Option Expression → Prop where
  | fresh : Running c next [] none
  | going {us e} (run : Phrase c true next .run us e) : Running c next us (some e)

/-- The stack with a run on top of it. -/
def onTop (run : Option Expression) (S : List Piece) : List Piece :=
  match run with
  | none => S
  | some e => .operand e :: S

/-- What an open call calls: a name on top of the run before it, or a run that is
itself a constant. -/
inductive Callee (c : Catalog) : List Token → Option Expression → Entry → Prop where
  | name {us run n entry} (before : Running c (some .name) us run) (kind : n.kind = .name)
      (known : c.lookup? n.text = some entry) : Callee c (us ++ [n]) run entry
  | constant {us entry} (run : Phrase c true (some .opening) .run us (.reference entry))
      (nullary : entry.kind = .nullary) : Callee c us none entry

/-- The arguments of an open call that a comma has ended. -/
inductive Given (c : Catalog) : List Token → List Piece → List Expression → Prop where
  | nil : Given c [] [] []
  | snoc {gs P es us e t} (position : Nat) (before : Given c gs P es)
      (last : Phrase c true (some .comma) .sum us e) (comma : t.kind = .comma) :
      Given c (gs ++ (us ++ [t])) (.comma position :: .operand e :: P) (es ++ [e])

/-- The tokens `ts` lead to the assembly, and an operand of level `l` has to follow. -/
inductive Awaiting (c : Catalog) : List Token → Assembly → Level → Prop where
  | start : Awaiting c [] .empty .sum
  | pending {ts S G l k us p r} (below : Awaiting c ts ⟨S, G⟩ l) (h : Pending c k us p r) (fits : l ≤ k) :
      Awaiting c (ts ++ us) ⟨.operand p :: S, G⟩ r
  | group {ts S G l us run t o} (below : Awaiting c ts ⟨S, G⟩ l) (before : Running c (some .opening) us run)
      (apart : ∀ e, run = some e → e.awaitsCall = false) (kind : t.kind = .opening)
      (plain : o.opensCall = false) :
      Awaiting c (ts ++ us ++ [t]) ⟨.opening o :: onTop run S, o :: G⟩ .sum
  | call {ts S G l us run entry t o gs P es} (below : Awaiting c ts ⟨S, G⟩ l) (callee : Callee c us run entry)
      (kind : t.kind = .opening) (call : o.opensCall = true) (given : Given c gs P es) :
      Awaiting c (ts ++ us ++ t :: gs)
        ⟨P ++ .opening o :: .operand (.reference entry) :: onTop run S, o :: G⟩ .sum

/-- Whether an operand of level `k` in a slot of level `l` may wait for the next token: it is a
whole run, and before an operator it is what goes to the left of that. -/
def Ready (next : Option TokenKind) (l k : Level) : Prop :=
  match next.bind TokenKind.operator? with
  | some o => o.leftLevel ≤ k ∧ l ≤ o.resultLevel
  | none => k = .run

/-- The assemblies after `ts` and before a token of the kind `next`. -/
inductive Reached (c : Catalog) : Option TokenKind → List Token → Assembly → Prop where
  | awaiting {next ts a l} (h : Awaiting c ts a l) : Reached c next ts a
  | operand {next ts S G l k us e} (below : Awaiting c ts ⟨S, G⟩ l) (h : Phrase c true next k us e)
      (fits : l ≤ k) (ready : Ready next l k) : Reached c next (ts ++ us) ⟨.operand e :: S, G⟩
  | callee {ts S G l us run n entry} (below : Awaiting c ts ⟨S, G⟩ l) (before : Running c (some .name) us run)
      (kind : n.kind = .name) (known : c.lookup? n.text = some entry) :
      Reached c (some .opening) (ts ++ us ++ [n]) ⟨.operand (.reference entry) :: onTop run S, G⟩

variable {c : Catalog} {next : Option TokenKind} {k l r : Level} {ts us gs : List Token} {a : Assembly}
  {e : Expression} {o : Operator} {S P : List Piece} {es : List Expression}

/-- Below the next argument of an open call lies a boundary. -/
theorem Given.bounded {o : Opening} (h : Given c gs P es) : Bounded (P ++ .opening o :: S) := by
  cases h with
  | nil => trivial
  | snoc => trivial

theorem Awaiting.slot (h : Awaiting c ts a l) : Slot c a.stack l := by
  cases h with
  | start => exact .bounded trivial
  | pending _ h _ => exact .pending h
  | group => exact .bounded trivial
  | call _ _ _ _ given => exact .bounded given.bounded

/-- No slot asks for more than a power. -/
theorem Awaiting.le_unary (h : Awaiting c ts a l) : l ≤ .unary := by
  cases h with
  | pending _ h _ =>
    cases h with
    | @binary o => cases o <;> decide
    | negation => decide
  | _ => decide

/-- An operand settles into the pending operators that bind before the next one. -/
theorem Awaiting.settle (regular : c.Regular) (h : Awaiting c ts a l)
    (operand : Phrase c true (some (.operator o)) k us e) (fits : l ≤ k) (left : o.leftLevel ≤ k) :
    ∃ S, settle o (.operand e) a.stack = .ok S ∧ Reached c (some (.operator o)) (ts ++ us) ⟨S, a.groups⟩ := by
  have stays : l ≤ o.resultLevel → Assembly.settle o (.operand e) a.stack = .ok (.operand e :: a.stack) →
      ∃ S, Assembly.settle o (.operand e) a.stack = .ok S ∧
        Reached c (some (.operator o)) (ts ++ us) ⟨S, a.groups⟩ :=
    fun le stop => ⟨_, stop, .operand h operand fits ⟨left, le⟩⟩
  induction h generalizing k us e with
  | @pending ts S G l k' us' p r below h fits' ih =>
    by_cases binds : o.leftLevel ≤ k'
    · obtain ⟨S', settled, reached⟩ := ih (h.complete operand fits) fits' binds fun le stop =>
        ⟨_, stop, .operand below (h.complete operand fits) fits' ⟨binds, le⟩⟩
      refine ⟨S', ?_, ?_⟩
      · rw [h.settle regular, if_pos binds]
        exact settled
      · rw [List.append_assoc]
        exact reached
    · refine stays (h.le_resultLevel_iff.2 binds) ?_
      rw [h.settle regular, if_neg binds]
  | start => exact stays (by cases o <;> decide) rfl
  | group => exact stays (by cases o <;> decide) rfl
  | call _ _ _ _ given => exact stays (by cases o <;> decide) given.bounded.settle

/-- A run is put down where an operand is awaited. -/
theorem Awaiting.settleBefore (regular : c.Regular) (h : Awaiting c ts a l) (run : Phrase c true next .run us e) :
    ∃ S, settleBefore next (.operand e) a.stack = .ok S ∧ Reached c next (ts ++ us) ⟨S, a.groups⟩ := by
  have fits : l ≤ .run := h.le_unary.trans (by decide)
  unfold Assembly.settleBefore
  cases operator : next.bind TokenKind.operator? with
  | none => exact ⟨_, rfl, .operand h run fits (by simp only [Ready, operator])⟩
  | some o =>
    have same : next = some (.operator o) := by
      obtain ⟨kind, rfl, found⟩ := Option.bind_eq_some_iff.1 operator
      cases kind <;> simp_all [TokenKind.operator?]
    subst same
    exact h.settle regular run fits (by cases o <;> decide)

/-- A complete operand on top is joined with the one that is placed. -/
theorem place_beside {star : Entry} {left : Expression} (shaped : left.WellShaped) (known : c.operator? "*" = some star) :
    place c next (.operand e) (.operand left :: S) = settleBefore next (.operand (left.beside star e)) S := by
  have joined : juxtapose c left e = .ok (left.beside star e) := by
    unfold juxtapose product beside
    split
    · rw [Catalog.operator, known]
      rfl
    · rfl
  simp only [Assembly.place, shaped.isComplete, if_true, Piece.asOperand, joined]

/-- The two ways in which a run goes on, or begins, with an element. -/
theorem Running.extend (regular : c.Regular) {before : Option Expression} (h : Running c (us.head?.map Token.kind) ts before)
    (element : Phrase c true next .element us e) :
    ∃ run, Phrase c true next .run (ts ++ us) run ∧ ∀ S r, Slot c S r →
      place c next (.operand e) (onTop before S) = settleBefore next (.operand run) S := by
  cases h with
  | fresh => exact ⟨e, element.loosen (by decide), fun S r slot => slot.place regular⟩
  | @going _ left run =>
    obtain ⟨star, known, -, -⟩ := regular.sign .star
    have shaped := ((run.denotes regular).1 (by decide)).shaped
    exact ⟨left.beside star e, run.juxtaposition element known, fun S r slot => place_beside shaped known⟩

/-- An element is put down on the run that it continues. -/
theorem Awaiting.place (regular : c.Regular) (h : Awaiting c ts a l) {before : Option Expression}
    {ws : List Token} (running : Running c (ws.head?.map Token.kind) us before)
    (element : Phrase c true next .element ws e) :
    ∃ S, place c next (.operand e) (onTop before a.stack) = .ok S ∧
      Reached c next (ts ++ (us ++ ws)) ⟨S, a.groups⟩ := by
  obtain ⟨run, phrase, placed⟩ := running.extend regular element
  rw [placed _ _ h.slot]
  exact h.settleBefore regular phrase

/-- Everything above the innermost boundary is one expression. -/
theorem Awaiting.chain (regular : c.Regular) (h : Awaiting c ts a l) (operand : Phrase c true next k us e)
    (fits : l ≤ k) : ∃ vs ws content S, ts ++ us = vs ++ ws ∧ Awaiting c vs ⟨S, a.groups⟩ .sum ∧ Bounded S ∧
      Phrase c true next .sum ws content ∧ chain e a.stack = .ok (content, S) := by
  induction h generalizing k us e with
  | pending below h fits' ih =>
    obtain ⟨vs, ws, content, S, split, awaiting, bounded, phrase, linked⟩ := ih (h.complete operand fits) fits'
    refine ⟨vs, ws, content, S, by rw [List.append_assoc, split], awaiting, bounded, phrase, ?_⟩
    rw [h.chain regular]
    exact linked
  | start => exact ⟨[], us, e, [], rfl, .start, trivial, operand.loosen fits, rfl⟩
  | group below before apart kind plain =>
    exact ⟨_, us, e, _, rfl, .group below before apart kind plain, trivial, operand.loosen fits, rfl⟩
  | call below callee kind call given =>
    exact ⟨_, us, e, _, rfl, .call below callee kind call given, given.bounded, operand.loosen fits,
      given.bounded.chain⟩

end Reckoner.Grammar
