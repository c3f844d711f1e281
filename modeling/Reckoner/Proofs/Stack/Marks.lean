import Reckoner.Proofs.Grammar.Marks
import Reckoner.Proofs.Stack.Calls
import Reckoner.Proofs.Stack.Sound

/-!
# Marks on the stack

No step of a parser loses a mark of the pieces on its stack: what has once been put into a node
stays in the tree, up to the finished expression. An operand is put on the right of another
one only where that has no right operand, and a group closes onto the piece that it lies on.
-/

namespace Reckoner

open Expression Grammar

namespace Piece

/-- What a piece shows; a boundary shows nothing. -/
def marks : Piece → List Mark
  | .operand e => e.marks
  | _ => []

@[simp] theorem marks_operand (e : Expression) : (operand e).marks = e.marks := rfl

@[simp] theorem marks_opening (o : Opening) : (opening o).marks = [] := rfl

@[simp] theorem marks_comma (position : Nat) : (comma position).marks = [] := rfl

theorem marks_asOperand (piece : Piece) : piece.asOperand.marks = piece.marks := by
  cases piece <;> rfl

end Piece

theorem Expression.marks_arguments (items : List Expression) : (arguments items).marks = marksList items := by
  simp [arguments, marks]

namespace Assembly

/-- What the pieces show, from the top down. -/
def marksOn (S : List Piece) : List Mark :=
  S.flatMap Piece.marks

variable {c : Catalog} {next : Option TokenKind} {o : Operator} {piece call : Piece} {S S' front : List Piece}
  {e e' joined left right top : Expression} {later items : List Expression} {content : Option Expression} {a b : Assembly}
  {t : Token} {entry : Entry} {opening : Opening}

@[simp] theorem marksOn_cons (piece : Piece) (S : List Piece) : marksOn (piece :: S) = piece.marks ++ marksOn S := by
  rw [marksOn, List.flatMap_cons, marksOn]

theorem free_of_awaitsOperand (awaits : e.awaitsOperand = true) : e.right = none := by
  simp only [awaitsOperand, Bool.and_eq_true, Option.isNone_iff_eq_none] at awaits
  exact awaits.2

theorem free_of_awaitsCall (awaits : e.awaitsCall = true) : e.right = none := by
  simp only [awaitsCall, Bool.and_eq_true, Option.isNone_iff_eq_none] at awaits
  exact awaits.2

/-- A piece that becomes the right operand of the one below it is shown with that. -/
theorem marksOn_withRight (free : top.right = none) (piece : Piece) (S : List Piece) :
    marksOn (piece :: .operand top :: S) ⊆ marksOn (.operand (top.withRight piece.asOperand) :: S) := by
  intro m
  simp only [marksOn_cons, Piece.marks_operand, marks_withRight free, Piece.marks_asOperand, List.mem_append]
  tauto

theorem marks_juxtapose (done : juxtapose c left right = .ok joined) : left.marks ++ right.marks ⊆ joined.marks := by
  unfold juxtapose product at done
  split at done
  · cases known : c.operator "*" with
    | error cause =>
      rw [known] at done
      cases done
    | ok star =>
      rw [known] at done
      cases done
      intro m
      simp only [marks_of_reference, marksOption_some, List.mem_append, List.mem_cons]
      tauto
  · next free =>
    cases done
    rw [marks_withRight (by simpa using free)]
    exact List.Subset.refl _

theorem marksOn_settle (settled : settle o piece S = .ok S') : marksOn (piece :: S) ⊆ marksOn S' := by
  induction S generalizing piece with
  | nil =>
    cases settled
    exact List.Subset.refl _
  | cons top below ih =>
    cases top with
    | operand top =>
      rw [settle] at settled
      split at settled
      · next awaits =>
        split at settled
        · exact List.Subset.trans (marksOn_withRight (free_of_awaitsOperand awaits) piece below) (ih settled)
        · cases settled
          exact List.Subset.refl _
        · cases settled
      · cases settled
        exact List.Subset.refl _
    | opening =>
      cases settled
      exact List.Subset.refl _
    | comma =>
      cases settled
      exact List.Subset.refl _

theorem marksOn_settleBefore (settled : settleBefore next piece S = .ok S') : marksOn (piece :: S) ⊆ marksOn S' := by
  unfold settleBefore at settled
  split at settled
  · exact marksOn_settle settled
  · cases settled
    exact List.Subset.refl _

theorem marksOn_place (placed : place c next piece S = .ok S') : marksOn (piece :: S) ⊆ marksOn S' := by
  unfold place at placed
  split at placed
  · next top below =>
    split at placed
    · split at placed
      · next joined done =>
        refine List.Subset.trans ?_ (marksOn_settleBefore placed)
        have shown := marks_juxtapose done
        rw [Piece.marks_asOperand] at shown
        intro m member
        simp only [marksOn_cons, Piece.marks_operand, List.mem_append] at member ⊢
        rcases member with here | above | under
        · exact .inl (shown (List.mem_append_right _ here))
        · exact .inl (shown (List.mem_append_left _ above))
        · exact .inr under
      · cases placed
    · exact marksOn_settleBefore placed
  · exact marksOn_settleBefore placed

theorem marksOn_chain (linked : chain e S = .ok (e', S')) : marksOn (.operand e :: S) ⊆ marksOn (.operand e' :: S') := by
  induction S generalizing e with
  | nil =>
    cases linked
    exact List.Subset.refl _
  | cons top below ih =>
    cases top with
    | operand previous =>
      rw [chain] at linked
      split at linked
      · next awaits =>
        exact List.Subset.trans (marksOn_withRight (free_of_awaitsOperand awaits) (.operand e) below) (ih linked)
      · cases linked
    | opening =>
      cases linked
      exact List.Subset.refl _
    | comma =>
      cases linked
      exact List.Subset.refl _

theorem marksOn_link (linked : link S = .ok (e, S')) : marksOn S ⊆ marksOn (.operand e :: S') := by
  unfold link at linked
  split at linked
  · split at linked
    · exact marksOn_chain linked
    · cases linked
  · cases linked

theorem marksOn_collect (collected : collect later S = .ok (items, S')) :
    marksList later ++ marksOn S ⊆ marksList items ++ marksOn S' := by
  fun_induction collect later S with
  | case1 later argument position below ih =>
    refine List.Subset.trans ?_ (ih collected)
    intro m
    simp only [marksOn_cons, Piece.marks_operand, Piece.marks_comma, marksList, List.mem_append, List.nil_append]
    tauto
  | case2 later argument o below =>
    cases collected
    intro m
    simp only [marksOn_cons, Piece.marks_operand, Piece.marks_opening, marksList, List.mem_append, List.nil_append]
    tauto
  | case3 => cases collected

/-- A scope that is closed holds one expression, or the arguments up to its last comma and the one behind it. -/
theorem closeScope_cases (closed : closeScope S = .ok (e, S')) :
    (∃ o, link S = .ok (e, .opening o :: S')) ∨ ∃ last position below items,
      link S = .ok (last, .comma position :: below) ∧ collect [last] below = .ok (items, S') ∧ e = arguments items := by
  unfold closeScope at closed
  split at closed
  · next linked =>
    cases closed
    exact .inl ⟨_, linked⟩
  · next last position below linked =>
    cases collected : collect [last] below with
    | error failure =>
      rw [collected] at closed
      cases closed
    | ok pair =>
      rw [collected] at closed
      cases closed
      exact .inr ⟨last, position, below, _, linked, collected, rfl⟩
  · cases closed
  · cases closed

theorem marksOn_closeScope (closed : closeScope S = .ok (e, S')) : marksOn S ⊆ marksOn (.operand e :: S') := by
  rcases closeScope_cases closed with ⟨o, linked⟩ | ⟨last, position, below, items, linked, collected, rfl⟩
  · simpa using marksOn_link linked
  · have inside := marksOn_collect collected
    have shown := marksOn_link linked
    simp only [marksOn_cons, Piece.marks_operand, Piece.marks_comma, marks_arguments, marksList, List.append_nil,
      List.nil_append] at inside shown ⊢
    exact List.Subset.trans shown inside

theorem chain_suffix (linked : chain e S = .ok (e', S')) : ∃ front, S = front ++ S' ∧ front.filterMap Piece.opening? = [] := by
  induction S generalizing e with
  | nil =>
    cases linked
    exact ⟨[], rfl, rfl⟩
  | cons top below ih =>
    cases top with
    | operand previous =>
      rw [chain] at linked
      split at linked
      · obtain ⟨front, rfl, operands⟩ := ih linked
        exact ⟨.operand previous :: front, rfl, operands⟩
      · cases linked
    | opening =>
      cases linked
      exact ⟨[], rfl, rfl⟩
    | comma =>
      cases linked
      exact ⟨[], rfl, rfl⟩

theorem link_suffix (linked : link S = .ok (e, S')) : ∃ front, S = front ++ S' ∧ front.filterMap Piece.opening? = [] := by
  unfold link at linked
  split at linked
  · next current below =>
    split at linked
    · obtain ⟨front, rfl, operands⟩ := chain_suffix linked
      exact ⟨.operand current :: front, rfl, operands⟩
    · cases linked
  · cases linked

theorem collect_suffix (collected : collect later S = .ok (items, S')) :
    ∃ front o, S = front ++ .opening o :: S' ∧ front.filterMap Piece.opening? = [] := by
  fun_induction collect later S with
  | case1 later argument position below ih =>
    obtain ⟨front, o, rfl, operands⟩ := ih collected
    exact ⟨.operand argument :: .comma position :: front, o, rfl, operands⟩
  | case2 later argument o below =>
    cases collected
    exact ⟨[.operand argument], o, rfl, rfl⟩
  | case3 => cases collected

/-- Closing a scope takes away the innermost open parenthesis, and no other. -/
theorem closeScope_suffix (closed : closeScope S = .ok (e, S')) :
    ∃ front o, S = front ++ .opening o :: S' ∧ front.filterMap Piece.opening? = [] := by
  rcases closeScope_cases closed with ⟨o, linked⟩ | ⟨last, position, below, items, linked, collected, -⟩
  · obtain ⟨front, rfl, operands⟩ := link_suffix linked
    exact ⟨front, o, rfl, operands⟩
  · obtain ⟨front, rfl, operands⟩ := link_suffix linked
    obtain ⟨front', o, rfl, operands'⟩ := collect_suffix collected
    refine ⟨front ++ .comma position :: front', o, by simp, ?_⟩
    rw [List.filterMap_append, operands]
    exact operands'

theorem Supported.of_append (h : Supported (front ++ S)) : Supported S := by
  induction front with
  | nil => exact h
  | cons piece front ih => exact ih h.2

/-- The innermost group is that of the innermost parenthesis on the stack. -/
theorem Sound.innermost {G : List Opening} (sound : a.Sound) (groups : a.groups = opening :: G) {first : Opening}
    (stack : a.stack = front ++ .opening first :: S) (operands : front.filterMap Piece.opening? = []) :
    LiesOn S (.opening opening) := by
  have same := sound.inStep
  rw [groups, stack, List.filterMap_append, operands] at same
  obtain ⟨rfl, -⟩ := List.cons_eq_cons.1 same
  have supported := sound.supported
  rw [stack] at supported
  exact supported.of_append.1

/-- A group is placed with its content and what it calls. -/
theorem marksOn_placeGroup (lies : LiesOn S (.opening opening)) (placed : placeGroup c next opening content S = .ok S') :
    marksOption content ++ marksOn S ⊆ marksOn S' := by
  unfold placeGroup at placed
  split at placed
  · next call =>
    obtain ⟨callee, rest, rfl, awaits⟩ := lies call
    have free := free_of_awaitsCall awaits
    simp only at placed
    split at placed
    · next piece called =>
      refine List.Subset.trans ?_ (marksOn_place placed)
      obtain ⟨whole, applied, rfl⟩ := Option.map_eq_some_iff.1 called
      have shown : marksOption content ++ callee.marks ⊆ whole.marks := by
        cases content with
        | some content =>
          cases applied
          rw [marks_withRight free]
          intro m
          simp only [marksOption_some, List.mem_append]
          tauto
        | none =>
          obtain ⟨entry, -, rfl⟩ := Option.map_eq_some_iff.1 applied
          split
          · exact List.Subset.refl _
          · rw [marks_withRight free]
            exact List.subset_append_left _ _
      rw [marksOn_cons, marksOn_cons, Piece.marks_operand, Piece.marks_operand, ← List.append_assoc]
      intro m member
      rcases List.mem_append.1 member with inside | under
      · exact List.mem_append_left _ (shown inside)
      · exact List.mem_append_right _ under
    · cases placed
  · split at placed
    · next content => simpa using marksOn_place placed
    · cases placed

/-- The operand that an operator takes on its left is shown with it. -/
theorem marksOn_operatorNode (known : operatorNode entry t S = .ok (e, S')) : marksOn S ⊆ marksOn (.operand e :: S') := by
  unfold operatorNode at known
  split at known
  · cases known
    rw [marksOn_cons]
    exact List.subset_append_right _ _
  · split at known
    · split at known
      · cases known
        intro m
        simp only [marksOn_cons, Piece.marks_operand, marks_of_reference, marksOption_some, List.mem_append, List.mem_cons]
        tauto
      · cases known
    · cases known

/-- A token leaves every mark on the stack. -/
theorem marksOn_feed (sound : a.Sound) (fed : a.feed c t next = .ok b) : marksOn a.stack ⊆ marksOn b.stack := by
  have onTop {piece : Piece} {S : List Piece} : marksOn S ⊆ marksOn (piece :: S) := by
    rw [marksOn_cons]
    exact List.subset_append_right _ _
  cases fed_of_feed fed with
  | number _ _ placed => exact List.Subset.trans onTop (marksOn_place placed)
  | callee => exact onTop
  | constant _ _ _ placed => exact List.Subset.trans onTop (marksOn_place placed)
  | operator _ _ made => exact marksOn_operatorNode made
  | bang _ _ made placed => exact List.Subset.trans (marksOn_operatorNode made) (marksOn_place placed)
  | opening => exact onTop
  | comma _ _ linked => simpa using marksOn_link linked
  | @emptyGroup o below groups stack _ innermost top placed =>
    have first : a.stack = [] ++ .opening o :: below := top
    have shown := marksOn_placeGroup (sound.innermost innermost first rfl) placed
    simpa [top] using shown
  | group _ innermost closed placed =>
    obtain ⟨front, first, stack, operands⟩ := closeScope_suffix closed
    have shown := marksOn_placeGroup (sound.innermost innermost stack operands) placed
    rw [marksOption_some] at shown
    exact List.Subset.trans (marksOn_closeScope closed) (by simpa using shown)

theorem marks_finish {root : Expression} (finished : a.finish = .ok (root, b)) : marksOn a.stack ⊆ root.marks := by
  unfold finish at finished
  split at finished
  · cases finished
  · split at finished
    · next linked =>
      cases finished
      simpa [marksOn] using marksOn_link linked
    · cases finished
    · cases finished

end Assembly

namespace Grammar

open Assembly

variable {c : Catalog} {next : Option TokenKind} {ts us : List Token} {a b : Assembly}

/-- So does any number of tokens. -/
theorem marksOn_feedAll (regular : c.Regular) (h : Reached c ((us.head?.map Token.kind).or next) ts a)
    (fed : a.feedAll c next us = .ok b) : marksOn a.stack ⊆ marksOn b.stack := by
  induction us generalizing ts a with
  | nil =>
    cases fed
    exact List.Subset.refl _
  | cons t rest ih =>
    rw [feedAll_cons] at fed
    have outcome : Outcome c ((rest.head?.map Token.kind).or next) (ts ++ [t]) (a.feed c t ((rest.head?.map Token.kind).or next)) :=
      feed_outcome regular h
    cases first : a.feed c t ((rest.head?.map Token.kind).or next) with
    | error failure =>
      rw [first] at fed
      cases fed
    | ok a' =>
      rw [first] at fed outcome
      exact List.Subset.trans (marksOn_feed (h.sound regular) first) (ih outcome fed)

/-- What has been read to any point is shown by the finished expression. -/
theorem marks_of_read (regular : c.Regular) {root : Expression} (built : c.expression (ts ++ us) = .ok root)
    (read : Assembly.empty.feedAll c (us.head?.map Token.kind) ts = .ok a) : marksOn a.stack ⊆ root.marks := by
  obtain ⟨b, left, fed, finished⟩ := finish_of_expression built
  obtain ⟨a', first, later⟩ := feedAll_of_append fed
  rw [Option.or_none] at first
  cases first.symm.trans read
  have reached := reached_of_feedAll regular read
  exact List.Subset.trans (marksOn_feedAll regular (by rwa [Option.or_none]) later) (marks_finish finished)

end Grammar

end Reckoner
