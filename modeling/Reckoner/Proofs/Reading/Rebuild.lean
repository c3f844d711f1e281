import Reckoner.Expression.Outline
import Reckoner.Proofs.Decimal.Unsigned
import Reckoner.Proofs.Expression.Depth
import Reckoner.Proofs.Reading.Origins
import Reckoner.Proofs.Token.Places

/-!
# Trees from their outlines

An outline says which operation stands at a node by its symbol or its name only, and an argument list loses
what else its node holds. `rebuild?` looks the operations up again. What comes from a
text is rebuilt to the same tree, so outlines that compare as equal are those of one tree.
-/

namespace Reckoner

open Expression

namespace Outline

mutual

/-- The tree of an outline over `c`. An operation with a symbol is looked up by that, any other one by its name. -/
def rebuild? (c : Catalog) : Outline → Option Expression
  | .literal value left right => do
    let left ← rebuildOption? c left
    let right ← rebuildOption? c right
    return ⟨.literal value, left, right⟩
  | .function name _ symbol left right => do
    let entry ← symbol.elim (c.lookup? name) c.operator?
    let left ← rebuildOption? c left
    let right ← rebuildOption? c right
    return ⟨.reference entry, left, right⟩
  | .arguments items => (rebuildList? c items).map Expression.arguments
  | .unknown _ => none

def rebuildOption? (c : Catalog) : Option Outline → Option (Option Expression)
  | none => some none
  | some o => (o.rebuild? c).map some

def rebuildList? (c : Catalog) : List Outline → Option (List Expression)
  | [] => some []
  | o :: rest => do
    let first ← o.rebuild? c
    let others ← rebuildList? c rest
    return first :: others

end

mutual

/-- Two outlines compare as equal: the same parts, and numbers that compare as equal. -/
def same : Outline → Outline → Bool
  | .literal value left right, .literal value' left' right' =>
    value == value' && sameOption left left' && sameOption right right'
  | .function name kind symbol left right, .function name' kind' symbol' left' right' =>
    name == name' && kind == kind' && symbol == symbol' && sameOption left left' && sameOption right right'
  | .arguments items, .arguments items' => sameList items items'
  | .unknown description, .unknown description' => description == description'
  | _, _ => false

def sameOption : Option Outline → Option Outline → Bool
  | none, none => true
  | some o, some o' => o.same o'
  | _, _ => false

def sameList : List Outline → List Outline → Bool
  | [], [] => true
  | o :: rest, o' :: rest' => o.same o' && sameList rest rest'
  | _, _ => false

end

end Outline

open Outline

variable {c : Catalog} {tokens : List Token} {root e : Expression} {entry : Entry} {symbol : String}

theorem shownSymbol?_of_sign (sign : symbol ∈ operatorSigns) (known : c.operator? symbol = some entry) :
    shownSymbol? entry = some symbol := by
  have shown : ∀ symbol ∈ operatorSigns, (some symbol).filter (fun s => !s.isEmpty) = some symbol := by decide
  rw [shownSymbol?, Catalog.of_operator? known]
  exact shown symbol sign

theorem shownSymbol?_of_name {name : String} (known : c.lookup? name = some entry) : shownSymbol? entry = none := by
  rw [shownSymbol?, (Catalog.of_lookup? known).2]
  rfl

/-- What is shown of a reference leads back to its entry. -/
theorem Origin.found {left right : Option Expression} (origin : Origin c tokens ⟨.reference entry, left, right⟩) :
    (shownSymbol? entry).elim (c.lookup? entry.name) c.operator? = some entry := by
  cases origin with
  | sign sign known =>
    rw [shownSymbol?_of_sign sign known]
    exact known
  | name token kind known =>
    rw [shownSymbol?_of_name known, Option.elim_none, (Catalog.of_lookup? known).1]
    exact known

theorem rebuildOption?_of_some {o : Option Expression} (known : ∀ child ∈ o, child.outline.rebuild? c = some child) :
    rebuildOption? c (outlineOption o) = some o := by
  cases o with
  | none => rfl
  | some child => rw [outlineOption, rebuildOption?, known child rfl, Option.map_some]

theorem rebuildList?_of_some {items : List Expression} (known : ∀ child ∈ items, child.outline.rebuild? c = some child) :
    rebuildList? c (outlineList items) = some items := by
  induction items with
  | nil => rfl
  | cons child rest ih =>
    have others := ih fun child later => known child (List.mem_cons_of_mem _ later)
    rw [outlineList, rebuildList?, known child List.mem_cons_self, others]
    rfl

/-- A tree whose nodes have an origin is rebuilt from its outline. -/
theorem rebuild?_outline (genuine : ∀ n ∈ e.nodes, Origin c tokens n) : e.outline.rebuild? c = some e := by
  induction e using induction_on_children with
  | step e ih =>
    obtain ⟨here, below⟩ := forall_nodes.1 genuine
    have known : ∀ child ∈ e.children, child.outline.rebuild? c = some child :=
      fun child member => ih child member (below child member)
    obtain ⟨operation, left, right⟩ := e
    have left_known := rebuildOption?_of_some fun child there => known child (left_mem_children there)
    have right_known := rebuildOption?_of_some fun child there => known child (right_mem_children there)
    cases operation with
    | literal value =>
      rw [outline, rebuild?, left_known, right_known]
      rfl
    | reference entry =>
      rw [outline, rebuild?, here.found, left_known, right_known]
      rfl
    | arguments items =>
      have items_known := rebuildList?_of_some fun child there => known child (item_mem_children there)
      cases here
      rw [outline, rebuild?, items_known]
      rfl
    | bare => cases here
    | boundary => cases here

/-- A literal has the value of a numeral without a sign. -/
def Expression.HasNumeral (n : Expression) : Prop :=
  ∀ value, n.operation = .literal value → Decimal.Unsigned value

/-- The numbers of a text are written with digits and points. -/
theorem plain_of_tokenize {text : String} {t : Token} (tokenized : tokenize text = .ok tokens) (member : t ∈ tokens)
    (kind : t.kind = .number) : Decimal.Plain t.text.toList := by
  obtain ⟨first, rest, written, starts, continues⟩ := spells_of_tokenize tokenized member
  rw [kind] at starts continues
  rw [written]
  intro ch there
  rw [Lexer.isNumeral_eq]
  rcases List.mem_cons.1 there with rfl | later
  · exact starts
  · exact continues ch later

theorem Origin.hasNumeral {text : String} (tokenized : tokenize text = .ok tokens) (origin : Origin c tokens e) :
    e.HasNumeral := by
  rintro value operation
  cases origin with
  | literal token kind read =>
    cases operation
    exact Decimal.unsigned_of_read? (plain_of_tokenize tokenized token kind) read
  | sign | name | arguments => cases operation

theorem outlineOption_eq_of_same {o o' : Option Expression}
    (known : ∀ a ∈ o, ∀ b ∈ o', a.outline.same b.outline = true → a.outline = b.outline)
    (equal : sameOption (outlineOption o) (outlineOption o') = true) : outlineOption o = outlineOption o' := by
  cases o with
  | none =>
    cases o' with
    | none => rfl
    | some b => cases equal
  | some a =>
    cases o' with
    | none => cases equal
    | some b => exact congrArg some (known a rfl b rfl equal)

theorem outlineList_eq_of_same {items items' : List Expression}
    (known : ∀ a ∈ items, ∀ b ∈ items', a.outline.same b.outline = true → a.outline = b.outline)
    (equal : sameList (outlineList items) (outlineList items') = true) : outlineList items = outlineList items' := by
  induction items generalizing items' with
  | nil =>
    cases items' with
    | nil => rfl
    | cons b rest' => cases equal
  | cons a rest ih =>
    cases items' with
    | nil => cases equal
    | cons b rest' =>
      rw [outlineList, outlineList, sameList, Bool.and_eq_true] at equal
      have others := ih (fun a later b later' => known a (List.mem_cons_of_mem _ later) b (List.mem_cons_of_mem _ later'))
        equal.2
      rw [outlineList, outlineList, known a List.mem_cons_self b List.mem_cons_self equal.1, others]

/-- Outlines that compare as equal are one outline, if all their numbers are written without a sign. -/
theorem outline_eq_of_same {e' : Expression} (numerals : ∀ n ∈ e.nodes, n.HasNumeral)
    (numerals' : ∀ n ∈ e'.nodes, n.HasNumeral) (equal : e.outline.same e'.outline = true) : e.outline = e'.outline := by
  induction e using induction_on_children generalizing e' with
  | step e ih =>
    obtain ⟨here, below⟩ := forall_nodes.1 numerals
    obtain ⟨here', below'⟩ := forall_nodes.1 numerals'
    have known : ∀ a ∈ e.children, ∀ b ∈ e'.children, a.outline.same b.outline = true → a.outline = b.outline :=
      fun a member b member' => ih a member (below a member) (below' b member')
    obtain ⟨operation, left, right⟩ := e
    obtain ⟨operation', left', right'⟩ := e'
    have left_eq := outlineOption_eq_of_same fun a there b there' =>
      known a (left_mem_children there) b (left_mem_children there')
    have right_eq := outlineOption_eq_of_same fun a there b there' =>
      known a (right_mem_children there) b (right_mem_children there')
    cases operation with
    | literal value =>
      cases operation' with
      | literal value' =>
        simp only [outline, same, Bool.and_eq_true] at equal ⊢
        rw [left_eq equal.1.2, right_eq equal.2, (here value rfl).eq_of_beq (here' value' rfl) equal.1.1]
      | reference | arguments | bare | boundary => simp [outline, same] at equal
    | reference entry =>
      cases operation' with
      | reference entry' =>
        simp only [outline, same, Bool.and_eq_true, beq_iff_eq] at equal ⊢
        obtain ⟨⟨⟨⟨name, kind⟩, symbol⟩, left_same⟩, right_same⟩ := equal
        rw [name, kind, symbol, left_eq left_same, right_eq right_same]
      | literal | arguments | bare | boundary => simp [outline, same] at equal
    | arguments items =>
      cases operation' with
      | arguments items' =>
        simp only [outline, same] at equal ⊢
        rw [outlineList_eq_of_same (fun a there b there' => known a (item_mem_children there) b (item_mem_children there'))
          equal]
      | literal | reference | bare | boundary => simp [outline, same] at equal
    | bare =>
      cases operation' with
      | bare | boundary => simpa [outline, same] using equal
      | literal | reference | arguments => simp [outline, same] at equal
    | boundary =>
      cases operation' with
      | bare | boundary => simpa [outline, same] using equal
      | literal | reference | arguments => simp [outline, same] at equal

/-- Over the standard operations and any constants, the tree that is built is rebuilt from its outline. Trees of texts whose
outlines compare as equal are the same. -/
theorem expression_of_outline (constants : List (String × Float)) :
    (∀ tokens root, (Catalog.standard.withConstants constants).expression tokens = .ok root →
      root.outline.rebuild? (Catalog.standard.withConstants constants) = some root) ∧
    ∀ text text' tokens tokens' root root', tokenize text = .ok tokens → tokenize text' = .ok tokens' →
      (Catalog.standard.withConstants constants).expression tokens = .ok root →
      (Catalog.standard.withConstants constants).expression tokens' = .ok root' →
        root.outline.same root'.outline = true → root = root' := by
  have regular := Catalog.regular_withConstants constants
  generalize Catalog.standard.withConstants constants = c at *
  have rebuilt : ∀ tokens root, c.expression tokens = .ok root → root.outline.rebuild? c = some root := by
    intro tokens root built
    exact rebuild?_outline fun n member => origin_of_expression regular built member
  refine ⟨rebuilt, ?_⟩
  intro text text' tokens tokens' root root' tokenized tokenized' built built' equal
  have outlines : root.outline = root'.outline := by
    apply outline_eq_of_same _ _ equal
    · intro n member
      exact (origin_of_expression regular built member).hasNumeral tokenized
    · intro n member
      exact (origin_of_expression regular built' member).hasNumeral tokenized'
  have again := rebuilt tokens root built
  rw [outlines, rebuilt tokens' root' built'] at again
  exact (Option.some.inj again).symm

/-- A constant that bears the name of an operator, beside a number that is written in two ways. -/
theorem expression_of_outline_add :
    let c := Catalog.standard.withConstants [("add", 5)]
    let tokens : List Token := [⟨.number, "1", 0⟩, ⟨.operator .plus, "+", 1⟩, ⟨.name, "add", 2⟩]
    let tokens' : List Token := [⟨.number, "1.0", 0⟩, ⟨.operator .plus, "+", 4⟩, ⟨.name, "add", 6⟩]
    tokenize "1+add" = .ok tokens ∧ tokenize "1.0 + add" = .ok tokens' ∧
      ∃ root root', c.expression tokens = .ok root ∧ c.expression tokens' = .ok root' ∧
        root.outline.same root'.outline = true ∧ root.outline.rebuild? c = some root ∧ root = root' := by
  intro c tokens tokens'
  have tokenized : tokenize "1+add" = .ok tokens := by decide +kernel
  have tokenized' : tokenize "1.0 + add" = .ok tokens' := by decide +kernel
  obtain ⟨root, root', built, built', equal⟩ : ∃ root root', c.expression tokens = .ok root ∧
      c.expression tokens' = .ok root' ∧ root.outline.same root'.outline = true := ⟨_, _, rfl, rfl, by decide +kernel⟩
  obtain ⟨rebuilt, determined⟩ := expression_of_outline [("add", 5)]
  exact ⟨tokenized, tokenized', root, root', built, built', equal, rebuilt tokens root built,
    determined _ _ _ _ _ _ tokenized tokenized' built built' equal⟩

end Reckoner
