import Reckoner.Catalog.Registry
import Reckoner.Proofs.Calculator.Parse
import Reckoner.Proofs.Catalog.Regular
import Reckoner.Proofs.Stack.Agreement

/-!
# A text shows what it needs of a catalog

What a text is read as, and its value, depend on the six signs and on the names in the text only. Constants
under other names do not matter, those added later count before the earlier ones, and adding them to a registry
leaves every registry that exists as it is.
-/

namespace Reckoner

/-- The constants `k` over `c` and the constants `l` over `d` give a text the same tree or error and the same value. -/
def SameAnswers (settings : Settings) (source : Option String) (c : Catalog) (k : List (String × Float)) (d : Catalog)
    (l : List (String × Float)) : Prop :=
  parse c k settings source = parse d l settings source ∧
    ∀ levels draws, evaluateText c k settings levels draws source = evaluateText d l settings levels draws source

section

variable {c d : Catalog} {k l extra : List (String × Float)} {settings : Settings} {source : Option String}
  {tokens : List Token} {name : String}

/-- The constants are the same on both sides. -/
theorem Catalog.Agree.withConstants (agree : c.Agree d tokens) (constants : List (String × Float)) :
    (c.withConstants constants).Agree (d.withConstants constants) tokens where
  sign symbol sign := by
    rw [operator?_withConstants, operator?_withConstants, agree.sign symbol sign]
  name t member kind := by
    rw [lookup?_of_constants, lookup?_of_constants, agree.name t member kind]

/-- Constants added to one catalog agree if they have the same values for the names among the tokens. -/
theorem Catalog.agree_of_constants
    (same : ∀ t ∈ tokens, t.kind = .name → constantValue? k t.text = constantValue? l t.text) :
    (c.withConstants k).Agree (c.withConstants l) tokens where
  sign symbol _ := by
    rw [operator?_withConstants, operator?_withConstants]
  name t member kind := by
    rw [lookup?_of_constants, lookup?_of_constants, same t member kind]

/-- A name has no value if no constant bears it. -/
theorem constantValue?_eq_none (absent : ∀ p ∈ extra, p.1 ≠ name) : constantValue? extra name = none := by
  rw [constantValue?, List.lookup_eq_none_iff]
  intro p member
  have other : name ≠ p.1 := fun same => absent p (List.mem_reverse.1 member) same.symm
  simpa using other

theorem constantValue?_append (k l : List (String × Float)) (name : String) :
    constantValue? (k ++ l) name = (constantValue? l name).or (constantValue? k name) := by
  rw [constantValue?, List.reverse_append, List.lookup_append]
  rfl

/-- Constants added to added ones are behind them. -/
theorem Catalog.withConstants_append (c : Catalog) (k l : List (String × Float)) :
    c.withConstants (k ++ l) = (c.withConstants k).withConstants l :=
  List.foldl_append

theorem parse_congr
    (agree : ∀ text tokens, source = some text → tokenize text = .ok tokens →
      (c.withConstants k).Agree (d.withConstants l) tokens) :
    parse c k settings source = parse d l settings source := by
  cases source with
  | none => rfl
  | some text =>
    rw [parse_some, parse_some]
    cases tokenized : tokenize text with
    | error cause => rfl
    | ok tokens => simp only [Except.bind, (agree text tokens rfl tokenized).expression]

theorem sameAnswers_of_agree
    (agree : ∀ text tokens, source = some text → tokenize text = .ok tokens →
      (c.withConstants k).Agree (d.withConstants l) tokens) :
    SameAnswers settings source c k d l := by
  have same : parse c k settings source = parse d l settings source := parse_congr agree
  refine ⟨same, fun levels draws => ?_⟩
  unfold evaluateText
  rw [same]

end

/-- A text sees of a catalog the six signs and the names that stand in it. Over catalogs that agree on these, with the same
constants added, it is read as the same tree or refused with the same error, and has the same value whatever is
drawn. So constants under names that the text does not hold change nothing, whether they are injected before or with
the others, and constants added to added ones answer as their union, in which the later ones win. The
registry they are added to keeps its catalog, and so does every other one. -/
theorem answers_of_agreement (settings : Settings) (source : Option String) :
    (∀ c d : Catalog, (∀ text tokens, source = some text → tokenize text = .ok tokens → c.Agree d tokens) →
      ∀ constants, SameAnswers settings source c constants d constants) ∧
    (∀ (c : Catalog) constants extra,
      (∀ text tokens t, source = some text → tokenize text = .ok tokens → t ∈ tokens → t.kind = .name →
        ∀ p ∈ extra, p.1 ≠ t.text) →
      SameAnswers settings source (c.withConstants extra) constants c constants ∧
        SameAnswers settings source c (constants ++ extra) c constants) ∧
    (∀ (c : Catalog) first second union,
      (∀ name, constantValue? union name = (constantValue? second name).or (constantValue? first name)) →
      ∀ constants,
        SameAnswers settings source ((c.withConstants first).withConstants second) constants (c.withConstants union)
          constants) ∧
    ∀ (r : Registry) tables c constants, r.catalog? tables = some c →
      ∃ added tables', r.withConstants constants tables = some (added, tables') ∧
        added.catalog? tables' = some (c.withConstants constants) ∧
          ∀ (s : Registry) d, s.catalog? tables = some d → s.catalog? tables' = some d := by
  refine ⟨?_, ?_, ?_, ?_⟩
  · intro c d agree constants
    exact sameAnswers_of_agree fun text tokens written tokenized =>
      (agree text tokens written tokenized).withConstants constants
  · intro c constants extra absent
    have unnamed : ∀ text tokens, source = some text → tokenize text = .ok tokens → ∀ t ∈ tokens, t.kind = .name →
        constantValue? extra t.text = none := by
      intro text tokens written tokenized t member kind
      exact constantValue?_eq_none (absent text tokens t written tokenized member kind)
    constructor
    · apply sameAnswers_of_agree
      intro text tokens written tokenized
      rw [← Catalog.withConstants_append]
      apply Catalog.agree_of_constants
      intro t member kind
      rw [constantValue?_append, unnamed text tokens written tokenized t member kind, Option.or_none]
    · apply sameAnswers_of_agree
      intro text tokens written tokenized
      apply Catalog.agree_of_constants
      intro t member kind
      rw [constantValue?_append, unnamed text tokens written tokenized t member kind, Option.none_or]
  · intro c first second union same constants
    apply sameAnswers_of_agree
    intro text tokens _ _
    apply Catalog.Agree.withConstants
    rw [← Catalog.withConstants_append]
    apply Catalog.agree_of_constants
    intro t _ _
    rw [constantValue?_append, same]
  · intro r tables c constants held
    exact r.withConstants_spec held constants

/-- The text `2 x` does not see a constant `y`, which one of two catalogs has and which is then injected into one that
has none; the later `x` wins; a registry and its extension are two. -/
theorem answers_of_agreement_product :
    let x : String × Float := ("x", 1)
    let y : String × Float := ("y", 2)
    let x' : String × Float := ("x", 3)
    let tokens : List Token := [⟨.number, "2", 0⟩, ⟨.name, "x", 2⟩]
    let start := Registry.create .standard .empty
    tokenize "2 x" = .ok tokens ∧
    ((Catalog.standard.withConstants [x, y]).Agree (Catalog.standard.withConstants [x]) tokens ∧
      SameAnswers {} (some "2 x") (Catalog.standard.withConstants [x, y]) [] (Catalog.standard.withConstants [x]) []) ∧
    (y.1 ≠ "x" ∧ SameAnswers {} (some "2 x") (Catalog.standard.withConstants [y]) [x] .standard [x]) ∧
    ((∀ name, constantValue? [x'] name = (constantValue? [x'] name).or (constantValue? [x] name)) ∧
      SameAnswers {} (some "2 x") ((Catalog.standard.withConstants [x]).withConstants [x']) []
        (Catalog.standard.withConstants [x']) []) ∧
    start.1.catalog? start.2 = some .standard ∧
      ∃ added tables', start.1.withConstants [x] start.2 = some (added, tables') ∧
        added.catalog? tables' = some (Catalog.standard.withConstants [x]) ∧ start.1.catalog? tables' = some .standard := by
  intro x y x' tokens start
  have tokenized : tokenize "2 x" = .ok tokens := by decide +kernel
  have names : ∀ t ∈ tokens, t.kind = .name → t.text = "x" := by
    intro t member kind
    simp only [tokens, List.mem_cons, List.not_mem_nil, or_false] at member
    rcases member with rfl | rfl
    · cases kind
    · rfl
  obtain ⟨agreeing, hidden, united, kept⟩ := answers_of_agreement {} (some "2 x")
  have agree : (Catalog.standard.withConstants [x, y]).Agree (Catalog.standard.withConstants [x]) tokens := by
    apply Catalog.agree_of_constants
    intro t member kind
    rw [names t member kind]
    rfl
  have later : ∀ name, constantValue? [x'] name = (constantValue? [x'] name).or (constantValue? [x] name) := by
    intro name
    show List.lookup name [x'] = (List.lookup name [x']).or (List.lookup name [x])
    simp only [List.lookup_cons, x, x']
    cases name == "x" <;> rfl
  have held : start.1.catalog? start.2 = some .standard := Registry.catalog?_create_new
  obtain ⟨added, tables', extended, own, others⟩ := kept start.1 start.2 .standard [x] held
  refine ⟨tokenized, ⟨agree, ?_⟩, ⟨by decide, ?_⟩, ⟨later, ?_⟩, held, added, tables', extended, own, others _ _ held⟩
  · refine agreeing _ _ ?_ []
    intro text tokens' written tokenized'
    cases written
    cases tokenized.symm.trans tokenized'
    exact agree
  · refine (hidden .standard [x] [y] ?_).1
    intro text tokens' t written tokenized' member kind p injected
    cases written
    cases tokenized.symm.trans tokenized'
    rw [names t member kind, List.mem_singleton.1 injected]
    decide
  · exact united .standard [x] [x'] [x'] later []

end Reckoner
