import Reckoner.Proofs.Stack.Step

/-!
# No piece is missing

Between two tokens every piece on the stack lies on a piece that it can be joined
with, and the open groups are the open parentheses on the stack. So whatever a
token is joined with is there and is an expression: a parser that starts from
nothing finds no boundary where it looks for an operand, never looks below the
bottom of the stack, and leaves nothing behind when it is done. One that is
used again and again therefore builds what a fresh one would.
-/

namespace Reckoner

open Expression Grammar

/-- The parenthesis that a piece is. -/
def Piece.opening? : Piece → Option Opening
  | .opening o => some o
  | _ => none

namespace Assembly

/-- The boundary on top separates the arguments of a call. -/
def InCall : List Piece → Prop
  | .comma _ :: _ => True
  | .opening o :: _ => o.opensCall = true
  | _ => False

/-- What lies right below a piece. The parenthesis of a call lies on the name that is
called, a comma on an argument in a call, and an operand on a boundary or on an
operator that waits for it. Only a name that is about to be called may lie on any operand. -/
def LiesOn (below : List Piece) : Piece → Prop
  | .opening o => o.opensCall = true → ∃ callee rest, below = .operand callee :: rest ∧ callee.awaitsCall = true
  | .comma _ => ∃ argument rest, below = .operand argument :: rest ∧ argument.isComplete = true ∧ InCall rest
  | .operand e => ∀ lower rest, below = .operand lower :: rest → lower.awaitsOperand = true ∨ e.awaitsCall = true

/-- Every piece lies on what it needs. -/
def Supported : List Piece → Prop
  | [] => True
  | piece :: below => LiesOn below piece ∧ Supported below

/-- The pieces support each other, and the groups are the parentheses among them. -/
structure Sound (a : Assembly) : Prop where
  supported : Supported a.stack
  inStep : a.groups = a.stack.filterMap Piece.opening?

/-- What is built from several token lists, one after the other, by a parser that is
not put back to its beginning in between. -/
def buildEach (catalog : Catalog) : List (List Token) → Assembly → Except Failure (List Expression × Assembly)
  | [], a => .ok ([], a)
  | tokens :: rest, a => do
    let (root, a) ← a.build catalog tokens
    let (roots, a) ← buildEach catalog rest a
    return (root :: roots, a)

end Assembly

namespace Grammar

open Assembly

variable {c : Catalog} {next : Option TokenKind} {k l : Level} {ts us gs : List Token} {a : Assembly}
  {e : Expression} {entry : Entry} {S P : List Piece} {es : List Expression} {o : Opening} {run : Option Expression}

/-- Any operand may be put down where one is awaited. -/
theorem Slot.liesOn (regular : c.Regular) (slot : Slot c S l) : LiesOn S (.operand e) := by
  rintro lower rest rfl
  cases slot with
  | bounded h => exact h.elim
  | pending h => exact .inl (h.awaitsOperand regular)

theorem Slot.supported_onTop (regular : c.Regular) (slot : Slot c S l) (below : Supported S) :
    Supported (onTop run S) := by
  cases run with
  | none => exact below
  | some e => exact ⟨slot.liesOn regular, below⟩

theorem opening?_onTop : (onTop run S).filterMap Piece.opening? = S.filterMap Piece.opening? := by
  cases run <;> rfl

/-- What is called awaits its call. -/
theorem Callee.awaitsCall (regular : c.Regular) (callee : Callee c us run entry) :
    (Expression.reference entry).awaitsCall = true := by
  cases callee with
  | name _ _ known => exact awaitsCall_reference (regular.named known).kind
  | constant _ nullary => exact awaitsCall_reference (.inr (.inr nullary))

/-- A name may be put down on anything that an element may follow. -/
theorem Slot.supported_callee (regular : c.Regular) (slot : Slot c S l) (below : Supported S)
    (awaits : (Expression.reference entry).awaitsCall = true) :
    Supported (.operand (.reference entry) :: onTop run S) :=
  ⟨fun _ _ _ => .inr awaits, slot.supported_onTop regular below⟩

theorem Given.inCall (given : Given c gs P es) (call : o.opensCall = true) : InCall (P ++ .opening o :: S) := by
  cases given with
  | nil => exact call
  | snoc => trivial

/-- The arguments of an open call, each closed by a comma, lie on its parenthesis. -/
theorem Given.supported (regular : c.Regular) (given : Given c gs P es) (call : o.opensCall = true)
    (below : Supported (.opening o :: S)) : Supported (P ++ .opening o :: S) := by
  induction given with
  | nil => exact below
  | @snoc gs P es us e t position before last comma ih =>
    have complete := ((last.denotes regular).1 le_rfl).shaped.isComplete
    refine ⟨⟨e, P ++ .opening o :: S, rfl, complete, before.inCall call⟩, ?_, ih⟩
    rintro lower rest (same : P ++ .opening o :: S = _)
    have bounded : Bounded (P ++ .opening o :: S) := before.bounded
    rw [same] at bounded
    exact bounded.elim

theorem Given.opening?_eq (given : Given c gs P es) : (P ++ S).filterMap Piece.opening? = S.filterMap Piece.opening? := by
  induction given with
  | nil => rfl
  | snoc _ _ _ _ ih => exact ih

/-- The stack is sound where an operand is awaited. -/
theorem Awaiting.sound (regular : c.Regular) (h : Awaiting c ts a l) : a.Sound := by
  induction h with
  | start => exact ⟨trivial, rfl⟩
  | pending below h fits ih => exact ⟨⟨below.slot.liesOn regular, ih.supported⟩, ih.inStep⟩
  | @group ts S G l us run t o below before apart kind plain ih =>
    constructor
    · refine ⟨fun call => ?_, below.slot.supported_onTop regular ih.supported⟩
      rw [plain] at call
      cases call
    · show o :: G = o :: (onTop run S).filterMap Piece.opening?
      rw [opening?_onTop, ← ih.inStep]
  | @call ts S G l us run entry t o gs P es below callee kind call given ih =>
    have awaits := callee.awaitsCall regular
    constructor
    · refine given.supported regular call ⟨fun _ => ⟨_, _, rfl, awaits⟩, ?_⟩
      exact below.slot.supported_callee regular ih.supported awaits
    · have groups : G = (onTop run S).filterMap Piece.opening? := by
        rw [opening?_onTop]
        exact ih.inStep
      show o :: G = (P ++ _).filterMap Piece.opening?
      rw [given.opening?_eq, groups]
      rfl

/-- The stack is sound between any two tokens. -/
theorem Reached.sound (regular : c.Regular) (h : Reached c next ts a) : a.Sound := by
  cases h with
  | awaiting h => exact h.sound regular
  | operand below h fits ready =>
    have sound := below.sound regular
    exact ⟨⟨below.slot.liesOn regular, sound.supported⟩, sound.inStep⟩
  | @callee ts S G l us run n entry below before kind known =>
    have sound := below.sound regular
    refine ⟨below.slot.supported_callee regular sound.supported (awaitsCall_reference (regular.named known).kind), ?_⟩
    show G = (onTop run S).filterMap Piece.opening?
    rw [opening?_onTop]
    exact sound.inStep

/-- What reading `tokens` from nothing may end with: an expression and nothing else, or a
refusal for a cause that a text can have. Only of no tokens at all no operand is left. -/
def Ending (tokens : List Token) : Except Failure (Expression × Assembly) → Prop
  | .ok (_, rest) => rest = .empty
  | .error failure => failure.cause.Refusal ∨ tokens = [] ∧ failure.cause = .unbalanced .operandMissing

/-- At the end an operand is missing on the right, a group is open, or everything is joined. -/
theorem finish_ending (regular : c.Regular) (h : Reached c none ts a) : Ending ts a.finish := by
  cases finished : a.finish with
  | ok result => exact (finish_phrase regular h finished).2
  | error failure =>
    obtain ⟨stack, groups⟩ := a
    cases groups with
    | cons o G =>
      cases finished
      exact .inl trivial
    | nil =>
      simp only [finish] at finished
      cases h with
      | awaiting below =>
        cases below with
        | start =>
          cases finished
          exact .inr ⟨rfl, rfl⟩
        | pending _ pending _ =>
          simp only [link, pending.not_complete regular] at finished
          cases finished
          exact .inl trivial
      | operand below phrase fits ready =>
        cases (ready : _ = Level.run)
        have complete := ((phrase.denotes regular).1 (by decide)).shaped.isComplete
        obtain ⟨vs, ws, content, T, split, within, bounded, last, chained⟩ := below.chain regular phrase fits
        rw [(link_complete complete).trans chained] at finished
        cases within with
        | pending => exact bounded.elim
        | start => cases finished

theorem build_ending (regular : c.Regular) (ts : List Token) : Ending ts (Assembly.empty.build c ts) := by
  have outcome : Outcome c none ([] ++ ts) (Assembly.empty.feedAll c none ts) :=
    feedAll_outcome regular (.awaiting .start)
  rw [build]
  cases fed : Assembly.empty.feedAll c none ts with
  | error failure =>
    rw [fed] at outcome
    exact .inl outcome
  | ok a =>
    rw [fed] at outcome
    exact finish_ending regular outcome

/-- A parser that is used again builds what a fresh one builds, up to the first refusal. -/
theorem buildEach_eq (regular : c.Regular) (sources : List (List Token)) :
    Assembly.empty.buildEach c sources =
      (sources.mapM fun tokens => Assembly.empty.build c tokens).map fun results => (results.map Prod.fst, .empty) := by
  induction sources with
  | nil => rfl
  | cons tokens rest ih =>
    rw [List.mapM_cons, buildEach]
    cases built : Assembly.empty.build c tokens with
    | error failure => rfl
    | ok result =>
      obtain ⟨root, b⟩ := result
      obtain ⟨-, rfl⟩ := build_phrase regular built
      simp only [bind, Except.bind, ih]
      cases rest.mapM fun tokens => Assembly.empty.build c tokens <;> rfl

/-- A parser over the standard operations and any constants that starts from nothing: between any two
tokens its stack is sound; it ends with nothing left or refuses the tokens for a cause that a text can
have, unless there are none; and used again it builds what a fresh one builds. -/
theorem build_sound (constants : List (String × Float)) (tokens : List Token) (sources : List (List Token)) :
    let c := Catalog.standard.withConstants constants
    (∀ n, match Assembly.empty.feedAll c ((tokens.drop n).head?.map Token.kind) (tokens.take n) with
      | .ok a => a.Sound
      | .error failure => failure.cause.Refusal) ∧
    Ending tokens (Assembly.empty.build c tokens) ∧
    Assembly.empty.buildEach c sources =
      (sources.mapM fun tokens => Assembly.empty.build c tokens).map fun results => (results.map Prod.fst, .empty) := by
  intro c
  have regular : c.Regular := Catalog.regular_withConstants constants
  refine ⟨fun n => ?_, build_ending regular tokens, buildEach_eq regular sources⟩
  have outcome : Outcome c ((tokens.drop n).head?.map Token.kind) ([] ++ tokens.take n)
      (Assembly.empty.feedAll c ((tokens.drop n).head?.map Token.kind) (tokens.take n)) :=
    feedAll_outcome regular (.awaiting .start)
  cases fed : Assembly.empty.feedAll c ((tokens.drop n).head?.map Token.kind) (tokens.take n) with
  | error failure =>
    rw [fed] at outcome
    exact outcome
  | ok a =>
    rw [fed] at outcome
    exact Reached.sound regular outcome

end Grammar

end Reckoner
