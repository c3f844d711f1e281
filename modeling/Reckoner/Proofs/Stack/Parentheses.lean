import Reckoner.Proofs.Grammar.Unclosed
import Reckoner.Proofs.Stack.Refusals
import Reckoner.Proofs.Stack.Sound

/-!
# Parentheses of a parser

Between two tokens the open groups of a parser are the open parentheses without a match that it
has read, on its list of groups and on its stack alike. So it can name the parenthesis that has no
match: the first one that closes nothing, at once, or the last one that is not closed, at the end.
-/

namespace Reckoner.Grammar

open Assembly

/-- The opening has been made by the parenthesis behind `ahead`. -/
def MadeAt (ts ahead : List Token) (o : Opening) : Prop :=
  ∃ t inside, ts = ahead ++ t :: inside ∧ t.kind = .opening ∧ o.position = t.position

/-- Every closing parenthesis of the tokens has a match. -/
def ClosesMatches (ts : List Token) : Prop :=
  ∀ before q after, ts = before ++ q :: after → q.kind = .closing → ¬ Unopened before

/-- The token behind `before` is the first closing parenthesis without a match. -/
structure FirstUnmatched (before : List Token) (q : Token) : Prop where
  closing : q.kind = .closing
  unmatched : Unopened before
  earlier : ClosesMatches before

/-- The token before `after` is the last open parenthesis without a match. -/
structure LastUnclosed (o : Token) (after : List Token) : Prop where
  opening : o.kind = .opening
  unclosed : Unclosed after
  later : ∀ first t last, after = first ++ t :: last → t.kind = .opening → ¬ Unclosed last

variable {c : Catalog} {next : Option TokenKind} {ts us ahead inside before after : List Token} {a : Assembly} {t o q : Token}
  {groups : List (List Token)} {p : Nat}

theorem openGroups_eq_nil_iff : openGroups ts = [] ↔ Unopened ts := by
  constructor
  · intro none
    have leaves := leavesOpen_openGroups ts
    rw [none] at leaves
    cases leaves with
    | none unopened => exact unopened
  · intro unopened
    cases same : openGroups ts with
    | nil => rfl
    | cons ahead rest =>
      obtain ⟨o, inside, rfl, opening, unclosed⟩ := mem_openGroups_iff.1 (same ▸ List.mem_cons_self)
      have level := unclosed.height_nonneg
      have below := unopened_iff.1 unopened ahead (o :: inside) rfl
      rw [height_cons, rise_opening opening] at below
      omega

/-- What has been read of the innermost group is balanced. -/
theorem balanced_of_head (first : openGroups ts = ahead :: groups) (same : ts = ahead ++ o :: inside) :
    Balanced inside := by
  have leaves := leavesOpen_openGroups ts
  rw [first, same] at leaves
  generalize whole : ahead ++ o :: inside = us at leaves
  cases leaves with
  | @group _ o' inside' _ _ _ balanced =>
    obtain ⟨rfl, rfl⟩ := List.cons_eq_cons.1 (List.append_cancel_left whole)
    exact balanced

theorem MadeAt.append {o : Opening} (h : MadeAt ts ahead o) (us : List Token) : MadeAt (ts ++ us) ahead o := by
  obtain ⟨t, inside, rfl, opening, place⟩ := h
  exact ⟨t, inside ++ us, by simp, opening, place⟩

/-- The open groups of a parser have been made by those parentheses that have no match, in their order. -/
theorem madeAt_of_feedAll (fed : Assembly.empty.feedAll c next ts = .ok a) :
    List.Forall₂ (MadeAt ts) (openGroups ts) a.groups := by
  induction ts using List.reverseRecOn generalizing next a with
  | nil =>
    cases fed
    exact .nil
  | append_singleton ts t ih =>
    obtain ⟨b, first, last⟩ := feedAll_of_concat fed
    have inner : List.Forall₂ (MadeAt (ts ++ [t])) (openGroups ts) b.groups :=
      (ih first).imp fun _ _ made => made.append [t]
    by_cases opening : t.kind = .opening
    · rw [feed_opening opening] at last
      cases last
      rw [openGroups_opening ts opening]
      exact .cons ⟨t, [], rfl, opening, rfl⟩ inner
    · rw [openGroups_other ts opening, groups_of_feed last opening]
      split
      · rw [← List.drop_one, ← List.drop_one]
        exact List.forall₂_drop 1 inner
      · exact inner

theorem groups_eq_nil_iff (fed : Assembly.empty.feedAll c next ts = .ok a) : a.groups = [] ↔ Unopened ts := by
  rw [← openGroups_eq_nil_iff, ← List.length_eq_zero_iff, ← List.length_eq_zero_iff, (madeAt_of_feedAll fed).length_eq]

/-- A closing parenthesis that has been read has closed a group. -/
theorem closesMatches_of_feedAll (fed : Assembly.empty.feedAll c next ts = .ok a) : ClosesMatches ts := by
  rintro before q after rfl closing unopened
  obtain ⟨b, first, last⟩ := feedAll_of_append fed
  have none := (groups_eq_nil_iff first).2 unopened
  rw [feedAll_cons, feed_closing closing, feedClosing, none] at last
  cases last

/-- There is one such parenthesis at most. -/
theorem LastUnclosed.unique {before' after' : List Token} {o' : Token} (h : LastUnclosed o after)
    (h' : LastUnclosed o' after') (same : before ++ o :: after = before' ++ o' :: after') : o = o' := by
  rcases List.append_eq_append_iff.1 same with ⟨more, rfl, behind⟩ | ⟨more, rfl, behind⟩
  · rcases List.cons_eq_append_iff.1 behind with ⟨rfl, here⟩ | ⟨more, rfl, rfl⟩
    · exact (List.cons_eq_cons.1 here).1.symm
    · exact absurd h'.unclosed (h.later _ _ _ rfl h'.opening)
  · rcases List.cons_eq_append_iff.1 behind with ⟨rfl, here⟩ | ⟨more, rfl, rfl⟩
    · exact (List.cons_eq_cons.1 here).1
    · exact absurd h.unclosed (h'.later _ _ _ rfl h.opening)

/-- The innermost open group of a parser is that of the last open parenthesis without a match. -/
theorem lastUnclosed_of_head {group : Opening} (fed : Assembly.empty.feedAll c next ts = .ok a)
    (innermost : a.groups.head? = some group) :
    ∃ before o after, ts = before ++ o :: after ∧ LastUnclosed o after ∧ o.position = group.position := by
  obtain ⟨G, opened⟩ := List.head?_eq_some_iff.1 innermost
  have made := madeAt_of_feedAll fed
  rw [opened] at made
  obtain ⟨ahead, rest, ⟨o, inside, same, opening, place⟩, -, first⟩ := List.forall₂_cons_right_iff.1 made
  have balanced := balanced_of_head first same
  refine ⟨ahead, o, inside, same, ⟨opening, balanced.unclosed, ?_⟩, place.symm⟩
  rintro between t last rfl opening' unclosed
  exact unclosed.not_balanced opening' balanced

/-- A closing parenthesis is refused by its place exactly if it is the first one without a match and all tokens before
it have been read. -/
theorem expression_unmatched_iff : c.expression ts = .error (.unmatchedParenthesis p) ↔
    ∃ before q after, ts = before ++ q :: after ∧ FirstUnmatched before q ∧ q.position = p ∧
      ∃ a, Assembly.empty.feedAll c (some q.kind) before = .ok a := by
  constructor
  · intro refused
    rcases refusal_cases refused with ⟨before, q, after, a, failure, rfl, read, failed, same⟩ | ⟨a, failure, -, failed, same⟩
    · have placed := refusedAt_feed failed
      rw [same] at placed
      cases placed with
      | nowhere none => cases none
      | unmatched closing none_open =>
        exact ⟨before, q, after, rfl, ⟨closing, (groups_eq_nil_iff read).1 none_open, closesMatches_of_feedAll read⟩,
          rfl, a, read⟩
    · rcases finish_error failed with none | ⟨o, -, unclosed⟩
      · rw [same] at none
        cases none
      · rw [same] at unclosed
        cases unclosed
  · rintro ⟨before, q, after, rfl, first, rfl, a, read⟩
    have none := (groups_eq_nil_iff read).2 first.unmatched
    have refused : a.feed c q (after.head?.map Token.kind) = .error ⟨.unmatchedParenthesis q.position, a⟩ := by
      rw [feed_closing first.closing, feedClosing, none]
      rfl
    exact expression_of_refused read refused

/-- An open parenthesis is refused by its place exactly if it is the last one without a match, every closing one has a
match and all tokens have been read. -/
theorem expression_unclosed_iff : c.expression ts = .error (.unclosedParenthesis p) ↔
    (∃ a, Assembly.empty.feedAll c none ts = .ok a) ∧ ClosesMatches ts ∧
      ∃ before o after, ts = before ++ o :: after ∧ LastUnclosed o after ∧ o.position = p := by
  constructor
  · intro refused
    rcases refusal_cases refused with ⟨before, t, after, a, failure, rfl, read, failed, same⟩ | ⟨a, failure, read, failed, same⟩
    · have placed := refusedAt_feed failed
      rw [same] at placed
      cases placed with
      | nowhere none => cases none
    · rcases finish_error failed with none | ⟨group, innermost, unclosed⟩
      · rw [same] at none
        cases none
      · rw [same] at unclosed
        cases unclosed
        exact ⟨⟨a, read⟩, closesMatches_of_feedAll read, lastUnclosed_of_head read innermost⟩
  · rintro ⟨⟨a, read⟩, -, before, o, after, same, last, rfl⟩
    have some_open : a.groups ≠ [] := by
      rw [Ne, groups_eq_nil_iff read, ← openGroups_eq_nil_iff]
      exact List.ne_nil_of_mem (mem_openGroups_iff.2 ⟨o, after, same, last.opening, last.unclosed⟩)
    obtain ⟨group, G, opened⟩ := List.exists_cons_of_ne_nil some_open
    obtain ⟨before', o', after', same', last', place⟩ := lastUnclosed_of_head read (by rw [opened, List.head?_cons])
    rw [last.unique last' (same.symm.trans same'), place, Catalog.expression, build, read, Except.bind, finish, opened]

/-- Over the standard operations and any constants, the open groups of a parser that has read tokens without an error
are, from the innermost one on, the open parentheses without a match among them, and so are the parentheses on its
stack. Only balanced tokens are an expression. A parser that names a closing parenthesis names the first one without a
match, and one that names an open parenthesis has read all tokens, has found a match for every closing one, and
names the last open one that has none. -/
theorem parentheses_diagnosed (constants : List (String × Float)) (tokens : List Token) :
    let c := Catalog.standard.withConstants constants
    (∀ before after a, tokens = before ++ after →
      Assembly.empty.feedAll c (after.head?.map Token.kind) before = .ok a →
        List.Forall₂ (MadeAt before) (openGroups before) a.groups ∧
        a.stack.filterMap Piece.opening? = a.groups ∧
        (∀ ahead, ahead ∈ openGroups before ↔
          ∃ o inside, before = ahead ++ o :: inside ∧ o.kind = .opening ∧ Unclosed inside) ∧
        (openGroups before).Pairwise fun inner outer => outer.length < inner.length) ∧
    (∀ root, c.expression tokens = .ok root → Balanced tokens) ∧
    (∀ position, c.expression tokens = .error (.unmatchedParenthesis position) ↔
      ∃ before q after, tokens = before ++ q :: after ∧ FirstUnmatched before q ∧ q.position = position ∧
        ∃ a, Assembly.empty.feedAll c (some q.kind) before = .ok a) ∧
    ∀ position, c.expression tokens = .error (.unclosedParenthesis position) ↔
      (∃ a, Assembly.empty.feedAll c none tokens = .ok a) ∧ ClosesMatches tokens ∧
        ∃ before o after, tokens = before ++ o :: after ∧ LastUnclosed o after ∧ o.position = position := by
  intro c
  have regular : c.Regular := Catalog.regular_withConstants constants
  refine ⟨fun before after a _ fed => ?_, fun root built => ?_, fun _ => expression_unmatched_iff,
    fun _ => expression_unclosed_iff⟩
  · exact ⟨madeAt_of_feedAll fed, ((reached_of_feedAll regular fed).sound regular).inStep.symm,
      fun _ => mem_openGroups_iff, openGroups_pairwise before⟩
  · exact ((expression_eq_ok_iff regular).1 built).balanced

/-- In `(1)(2(3)` the second parenthesis is not closed, and in `1)(` the only closing one closes nothing. -/
theorem parentheses_diagnosed_groups :
    let c := Catalog.standard.withConstants []
    let unclosed : List Token :=
      [⟨.opening, "(", 0⟩, ⟨.number, "1", 1⟩, ⟨.closing, ")", 2⟩, ⟨.opening, "(", 3⟩, ⟨.number, "2", 4⟩,
        ⟨.opening, "(", 5⟩, ⟨.number, "3", 6⟩, ⟨.closing, ")", 7⟩]
    let unmatched : List Token := [⟨.number, "1", 0⟩, ⟨.closing, ")", 1⟩, ⟨.opening, "(", 2⟩]
    (∃ a, Assembly.empty.feedAll c none unclosed = .ok a ∧
      List.Forall₂ (MadeAt unclosed) (openGroups unclosed) a.groups) ∧
    (c.expression unclosed = .error (.unclosedParenthesis 3) ∧ ClosesMatches unclosed ∧
      ∃ before o after, unclosed = before ++ o :: after ∧ LastUnclosed o after ∧ o.position = 3) ∧
    c.expression unmatched = .error (.unmatchedParenthesis 1) ∧
      ∃ before q after, unmatched = before ++ q :: after ∧ FirstUnmatched before q ∧ q.position = 1 := by
  intro c unclosed unmatched
  have open_left : c.expression unclosed = .error (.unclosedParenthesis 3) := rfl
  have none_open : c.expression unmatched = .error (.unmatchedParenthesis 1) := rfl
  obtain ⟨⟨a, read⟩, closes, last⟩ := ((parentheses_diagnosed [] unclosed).2.2.2 3).1 open_left
  obtain ⟨made, -⟩ := (parentheses_diagnosed [] unclosed).1 unclosed [] a (by simp) read
  obtain ⟨before, q, after, same, first, place, -⟩ := ((parentheses_diagnosed [] unmatched).2.2.1 1).1 none_open
  exact ⟨⟨a, read, made⟩, ⟨open_left, closes, last⟩, none_open, before, q, after, same, first, place⟩

end Reckoner.Grammar
