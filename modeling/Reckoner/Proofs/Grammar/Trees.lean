import Reckoner.Proofs.Catalog.Regular
import Reckoner.Proofs.Expression.Shape
import Reckoner.Proofs.Grammar.Phrase

/-!
# The trees of phrases

Every phrase from the level of sums on stands for a well-formed tree, and the
arguments of a call stand for one such tree or for a list of two or more.
-/

namespace Reckoner.Grammar

open Expression

/-- What the content of a group may be: one expression, or two and more of them. -/
inductive Content : Expression → Prop where
  | single {e : Expression} (h : e.WellFormed) : Content e
  | list {items : List Expression} (length : 2 ≤ items.length) (h : ∀ item ∈ items, item.WellFormed) :
      Content (.arguments items)

variable {c : Catalog} {extended : Bool} {next : Option TokenKind} {l : Level} {ts : List Token}
  {e : Expression} {entry : Entry}

theorem Content.shaped (h : Content e) : ∀ n ∈ e.nodes, n.WellShaped := by
  cases h with
  | single h => exact h.nodes
  | list length h => exact wellShaped_arguments (by omega) h

theorem Content.items_ne (h : Content e) (list : e.isList = true) : e.operation.items ≠ [] := by
  cases h with
  | single h => rw [h.root] at list; cases list
  | @list items length h =>
    rintro (same : items = [])
    rw [same] at length
    exact absurd length (by decide)

theorem asArguments_of_not_list (h : e.isList = false) : e.asArguments = [e] := by
  obtain ⟨operation, left, right⟩ := e
  cases operation <;> simp_all [isList, asArguments]

theorem Content.asArguments (h : Content e) : ∀ a ∈ e.asArguments, a.WellFormed := by
  cases h with
  | single h =>
    rw [asArguments_of_not_list h.root]
    simpa using h
  | list length h => exact h

theorem Content.asArguments_ne (h : Content e) : e.asArguments ≠ [] := by
  cases h with
  | single h => simp [asArguments_of_not_list h.root]
  | @list items length h =>
    rintro (same : items = [])
    rw [same] at length
    exact absurd length (by decide)

/-- A call of a regular entry with any content is well-formed. -/
theorem Content.call (h : Content e) (kind : entry.kind = .unary ∨ entry.kind = .variadic ∨ entry.kind = .nullary) :
    ((reference entry).withRight e).WellFormed := by
  refine WellFormed.reference ⟨?_, by simp [reference], ?_⟩ (by simp [reference]) ?_
  · rcases kind with kind | kind | kind <;> simp [HasOperands, reference, kind]
  · rintro r hr list
    obtain rfl := Option.some.inj hr
    exact ⟨entry, rfl, kind.imp_right fun h' => h'.imp_right fun h' => ⟨h', h.items_ne list⟩⟩
  · rintro r hr
    obtain rfl := Option.some.inj hr
    exact h.shaped

theorem wellFormed_constant (kind : entry.kind = .nullary) : (reference entry).WellFormed :=
  WellFormed.reference ⟨by simp [HasOperands, kind], by simp, by simp⟩ (by simp) (by simp)

theorem wellFormed_emptyCall (kind : entry.kind = .unary ∨ entry.kind = .variadic ∨ entry.kind = .nullary) :
    (emptyCall entry).WellFormed := by
  unfold emptyCall
  split
  · next nullary => exact wellFormed_constant nullary
  · next other =>
    have kind : entry.kind = .unary ∨ entry.kind = .variadic := by simpa [other] using kind
    refine WellFormed.reference ⟨?_, by simp [reference], ?_⟩ (by simp [reference]) ?_
    · rcases kind with kind | kind <;> simp [HasOperands, reference, kind]
    · rintro r hr -
      exact ⟨entry, rfl, kind.imp_right .inl⟩
    · rintro r hr
      obtain rfl := Option.some.inj hr
      exact wellShaped_arguments (by simp) (by simp)

theorem wellFormed_binary {a b : Expression} (kind : entry.kind = .binary) (ha : a.WellFormed) (hb : b.WellFormed) :
    WellFormed ⟨.reference entry, some a, some b⟩ := by
  refine WellFormed.reference ⟨by simp [HasOperands, kind], ?_, ?_⟩ ?_ ?_
  · rintro _ ⟨⟩; exact ha.root
  · rintro _ ⟨⟩ list; rw [hb.root] at list; cases list
  · rintro _ ⟨⟩; exact ha.nodes
  · rintro _ ⟨⟩; exact hb.nodes

theorem wellFormed_negation {a : Expression} (kind : entry.kind = .binary) (symbol : entry.symbol = some "-")
    (ha : a.WellFormed) : WellFormed ⟨.reference entry, none, some a⟩ := by
  refine WellFormed.reference ⟨by simp [HasOperands, kind, symbol], by simp, ?_⟩ (by simp) ?_
  · rintro _ ⟨⟩ list; rw [ha.root] at list; cases list
  · rintro _ ⟨⟩; exact ha.nodes

theorem wellFormed_factorial {a : Expression} (kind : entry.kind = .suffix) (ha : a.WellFormed) :
    WellFormed ⟨.reference entry, some a, none⟩ := by
  refine WellFormed.reference ⟨by simp [HasOperands, kind], ?_, by simp⟩ ?_ (by simp)
  · rintro _ ⟨⟩; exact ha.root
  · rintro _ ⟨⟩; exact ha.nodes

/-- A node whose right slot is empty takes any expression there. -/
theorem wellFormed_withRight {a b : Expression} (ha : a.WellFormed) (hb : b.WellFormed) (free : a.right = none) :
    (a.withRight b).WellFormed := by
  have shaped := ha.shaped
  have root := ha.root
  refine ⟨forall_nodes.2 ⟨⟨?_, shaped.left, ?_⟩, fun child member => ?_⟩, root⟩
  · have operands := shaped.operands
    unfold HasOperands at operands ⊢
    cases operation : a.operation with
    | reference entry =>
      simp only [operation, free, Option.isSome_none] at operands
      simp only [withRight, operation]
      cases kind : entry.kind <;> simp_all
    | arguments items => simp [isList, operation] at root
    | _ => simp_all [withRight]
  · rintro _ ⟨⟩ list
    rw [hb.root] at list
    cases list
  · simp only [children, withRight, List.mem_append, Option.mem_toList] at member
    rcases member with (h | h) | h
    · exact (forall_nodes.1 ha.nodes).2 child (by simp [children, h])
    · cases h; exact hb.nodes
    · exact (forall_nodes.1 ha.nodes).2 child (by simp [children, h])

theorem wellFormed_beside {a b : Expression} (kind : entry.kind = .binary) (ha : a.WellFormed) (hb : b.WellFormed) :
    (a.beside entry b).WellFormed := by
  unfold beside
  split
  · exact wellFormed_binary kind ha hb
  · next free => exact wellFormed_withRight ha hb (by simpa using free)

/-- The tree of a phrase: well-formed from the level of sums on, and a content always. -/
theorem Phrase.denotes (regular : c.Regular) (h : Phrase c extended next l ts e) :
    (.sum ≤ l → e.WellFormed) ∧ Content e := by
  induction h with
  | loosen _ le ih => exact ⟨fun h => ih.1 (h.trans le), ih.2⟩
  | argument _ _ _ before last =>
    refine ⟨fun h => absurd h (by decide), .list ?_ ?_⟩
    · have := List.length_pos_iff.2 before.2.asArguments_ne
      simp only [List.length_append, List.length_singleton]
      omega
    · intro item member
      rcases List.mem_append.1 member with h | h
      · exact before.2.asArguments item h
      · rw [List.mem_singleton.1 h]
        exact last.1 le_rfl
  | @binary _ o _ _ _ _ _ _ _ _ known _ left right =>
    have wf := wellFormed_binary (regular.of_sign known).1 (left.1 (by cases o <;> decide))
      (right.1 (by cases o <;> decide))
    exact ⟨fun _ => wf, .single wf⟩
  | negation _ known _ operand =>
    have sign := regular.of_sign (o := .minus) known
    have wf := wellFormed_negation sign.1 sign.2.2 (operand.1 (by decide))
    exact ⟨fun _ => wf, .single wf⟩
  | factorial _ _ known operand =>
    have wf := wellFormed_factorial (regular.of_bang known).1 (operand.1 (by decide))
    exact ⟨fun _ => wf, .single wf⟩
  | juxtaposition _ _ known left right =>
    have wf := wellFormed_beside (regular.of_sign (o := .star) known).1 (left.1 (by decide)) (right.1 (by decide))
    exact ⟨fun _ => wf, .single wf⟩
  | number => exact ⟨fun _ => .literal _, .single (.literal _)⟩
  | constant _ _ nullary _ => exact ⟨fun _ => wellFormed_constant nullary, .single (wellFormed_constant nullary)⟩
  | group _ _ _ content => exact ⟨fun _ => content.1 le_rfl, content.2⟩
  | call _ known _ _ _ content =>
    have wf := content.2.call (regular.named known).kind
    exact ⟨fun _ => wf, .single wf⟩
  | emptyCall _ known _ _ =>
    have wf := wellFormed_emptyCall (regular.named known).kind
    exact ⟨fun _ => wf, .single wf⟩
  | reuse _ _ nullary _ _ _ _ _ content =>
    have wf := content.2.call (.inr (.inr nullary))
    exact ⟨fun _ => wf, .single wf⟩
  | emptyReuse _ _ nullary _ _ _ =>
    exact ⟨fun _ => wellFormed_constant nullary, .single (wellFormed_constant nullary)⟩

/-- From the level of sums on, the tree of a phrase is no argument list. -/
theorem Phrase.not_isList (regular : c.Regular) (h : Phrase c extended next l ts e) (sum : .sum ≤ l) :
    e.isList = false :=
  ((h.denotes regular).1 sum).root

end Reckoner.Grammar
