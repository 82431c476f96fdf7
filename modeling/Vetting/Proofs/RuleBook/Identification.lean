import Vetting.Proofs.Field.Steady
import Vetting.Proofs.RuleBook.Registration
import Vetting.Record

/-!
# Names that stand for identifiers

Names of fields are identified in three places: where a rule is registered, for
the fields that it reads; where it loses fields, for its discards; and by the
source of dependencies that keeps to known fields. All three come to the same by
what is answered about the shape of the owner, save that the last drops what is
no identifier. Identifiers stand for themselves, so it does not matter that the
names are identified once more when such dependencies are registered.
-/

namespace Vetting

/-- The names as identifiers, by what was answered about the shape that they belong to. Without a
shape they are kept. -/
def NameSet.identifiedBy (names : NameSet) : Except Fault Shape → NameSet
  | .ok shape => names.map shape.identify
  | .error _ => names

def identifiersOf : Except Fault Shape → List String
  | .ok shape => shape.names
  | .error _ => []

/-- Asked about a type again, the source tells no other shape than it has just told. -/
def ShapeSource.Retells {σ : Type} (source : ShapeSource σ) (ty : TypeKey) (s : σ) : Prop :=
  ∀ shape shape', (source.ask ty .reading s).1 = .ok shape →
    (source.ask ty .reading (source.ask ty .reading s).2).1 = .ok shape' → shape' = shape

section
variable {σ ι : Type} {names : NameSet} {x : String} {answer : Except Fault Shape}

theorem NameSet.identifiedBy_identifiedBy (names : NameSet) (answer : Except Fault Shape) :
    (names.identifiedBy answer).identifiedBy answer = names.identifiedBy answer := by
  cases answer with
  | error fault => rfl
  | ok shape =>
    ext x
    simp only [identifiedBy, mem_map]
    constructor
    · rintro ⟨_, ⟨a, ha, rfl⟩, rfl⟩
      exact ⟨a, ha, (shape.identify_identify a).symm⟩
    · rintro ⟨a, ha, rfl⟩
      exact ⟨_, ⟨a, ha, rfl⟩, shape.identify_identify a⟩

theorem NameSet.identifiedBy_eq_self
    (h : ∀ shape, answer = .ok shape → ∀ a ∈ names, a ∈ shape.names) :
    names.identifiedBy answer = names := by
  cases answer with
  | error fault => rfl
  | ok shape =>
    have hself : ∀ a ∈ names, shape.identify a = a :=
      fun a ha => Shape.identify_of_mem (h shape rfl a ha)
    ext x
    simp only [identifiedBy, mem_map]
    constructor
    · rintro ⟨a, ha, rfl⟩
      rw [hself a ha]
      exact ha
    · intro hx
      exact ⟨x, hx, hself x hx⟩

/-! ## The three places -/

theorem RuleBook.identified_eq (book : RuleBook σ ι) (owner : TypeKey) (names : NameSet) (s : σ) :
    (book.identified owner names s).1 =
      names.identifiedBy (book.shapes.ask owner .reading s).1 := by
  unfold identified
  rcases book.shapes.ask owner .reading s with ⟨answer, s'⟩
  cases answer <;> rfl

theorem lostFields_eq_identifiedBy (r : Rule ι) (b : Binding σ) {memo : Memo} (s : σ)
    (h : memo.discards = none) : (r.lostFields (some b) memo s).1 =
      (NameSet.ofList (r.discards.map FieldRef.name)).identifiedBy
        (b.shapes.ask b.owner .reading s).1 := by
  unfold Rule.lostFields
  rw [h]
  dsimp only
  rcases b.shapes.ask b.owner .reading s with ⟨answer, s'⟩
  cases answer with
  | error fault => rfl
  | ok shape =>
    ext x
    simp [NameSet.identifiedBy]

theorem DependencySource.ask_known (shapes : ShapeSource σ) (owner : TypeKey) (info : RuleInfo)
    (s : σ) : (known shapes).ask owner info s =
      (match (shapes.ask owner .reading s).1 with
        | .error _ => ∅
        | .ok shape => info.reads.filterMap fun a => (shape.resolve? a).map Field.name,
      (shapes.ask owner .reading s).2) := by
  unfold known
  dsimp only
  rcases shapes.ask owner .reading s with ⟨answer, s'⟩
  cases answer <;> rfl

theorem mem_known_iff (shapes : ShapeSource σ) (owner : TypeKey) (info : RuleInfo) (s : σ) :
    x ∈ ((DependencySource.known shapes).ask owner info s).1 ↔
      x ∈ info.reads.identifiedBy (shapes.ask owner .reading s).1 ∧
        x ∈ identifiersOf (shapes.ask owner .reading s).1 := by
  rw [DependencySource.ask_known]
  cases (shapes.ask owner .reading s).1 with
  | error fault => simp [identifiersOf, NameSet.not_mem_empty]
  | ok shape =>
    simp only [identifiersOf, NameSet.identifiedBy, NameSet.mem_map, NameSet.mem_filterMap]
    constructor
    · rintro ⟨a, ha, hx⟩
      obtain ⟨f, hf, rfl⟩ := Option.map_eq_some_iff.1 hx
      rcases shape.identify_cases a with ⟨f', hf', hname, hmem⟩ | ⟨hnone, -⟩
      · cases hf.symm.trans hf'
        exact ⟨⟨a, ha, hname⟩, hname ▸ hmem⟩
      · rw [hf] at hnone
        cases hnone
    · rintro ⟨⟨a, ha, rfl⟩, hmem⟩
      rcases shape.identify_cases a with ⟨f, hf, hname, -⟩ | ⟨-, hkept, hno⟩
      · exact ⟨a, ha, by rw [hf, hname]; rfl⟩
      · -- a name that is kept is no identifier
        rw [hkept] at hmem
        exact absurd hmem hno

/-! ## Registration -/

theorem Schema.Offers.retells {source : ShapeSource Schema} (h : Offers source) (ty : TypeKey)
    (s : Schema) : source.Retells ty s := by
  intro shape shape' hfirst hsecond
  rw [h.answer_eq h] at hsecond
  exact Except.ok.inj (hsecond.symm.trans hfirst)

theorem RuleBook.dependencies_of_register (book : RuleBook σ ι) (p : Posting ι) (owner : TypeKey)
    {bindings : Bindings σ} (s : σ) (h : bindings.get? p.id = none) :
    ∃ e, book.register p owner bindings s = .ok e ∧
      e.bindings.dependencies p.id = (book.reading owner p.rule.toRuleInfo s).1 := by
  obtain ⟨e, hok, -, hbindings, -⟩ := book.register_of_unbound owner s h
  refine ⟨e, hok, ?_⟩
  rw [Bindings.dependencies, hbindings, Table.get?_set, if_pos rfl]
  rfl

theorem RuleBook.reading_eq (book : RuleBook σ ι) (owner : TypeKey) (info : RuleInfo) (s : σ) :
    (book.reading owner info s).1 =
      NameSet.identifiedBy (book.dependencies.ask owner info s).1
        (book.shapes.ask owner .reading (book.dependencies.ask owner info s).2).1 ∪
      info.params := by
  rw [← identified_eq]
  rfl

theorem RuleBook.mem_reading_known (book : RuleBook σ ι) (owner : TypeKey) (info : RuleInfo) (s : σ)
    (h : book.dependencies = .known book.shapes) (hagain : book.shapes.Retells owner s) :
    x ∈ (book.reading owner info s).1 ↔
      (x ∈ info.reads.identifiedBy (book.shapes.ask owner .reading s).1 ∧
        x ∈ identifiersOf (book.shapes.ask owner .reading s).1) ∨ x ∈ info.params := by
  have hknown : ∀ a, a ∈ ((DependencySource.known book.shapes).ask owner info s).1 ↔ _ :=
    fun a => mem_known_iff book.shapes owner info s
  have hstate : ((DependencySource.known book.shapes).ask owner info s).2 =
      (book.shapes.ask owner .reading s).2 := by rw [DependencySource.ask_known]
  rw [reading_eq, NameSet.mem_union, h, hstate, NameSet.identifiedBy_eq_self, hknown]
  intro shape' hshape' a ha
  have hmem := ((hknown a).1 ha).2
  cases hshape : (book.shapes.ask owner .reading s).1 with
  | error fault =>
    rw [hshape] at hmem
    cases hmem
  | ok shape =>
    rw [hshape] at hmem
    rw [hagain shape shape' hshape hshape']
    exact hmem

/-- A rule that is registered depends on its reads as identifiers, and a rule that has these names
for discards loses the same, whenever it is told the same of the owner. To identify them once more
changes nothing. Registered with known fields, the rule depends on those of the identifiers that the
owner has. -/
theorem names_agree (book : RuleBook σ ι) (p : Posting ι) (owner : TypeKey) {bindings : Bindings σ}
    (s : σ) (hfree : bindings.get? p.id = none) (hagain : book.shapes.Retells owner s) :
    let answer := (book.shapes.ask owner .reading s).1
    let names := p.rule.reads.identifiedBy answer
    (∃ e, RuleBook.register { book with dependencies := .declared } p owner bindings s = .ok e ∧
      e.bindings.dependencies p.id = names ∪ p.rule.params) ∧
    (∀ (r : Rule ι) (b : Binding σ) (memo : Memo) (s' : σ),
      .ofList (r.discards.map FieldRef.name) = p.rule.reads → b.owner = owner →
      b.shapes = book.shapes → memo.discards = none →
      (book.shapes.ask owner .reading s').1 = answer →
      (r.lostFields (some b) memo s').1 = names) ∧
    (∀ s', (book.shapes.ask owner .reading s').1 = answer →
      (book.identified owner names s').1 = names) ∧
    ∃ e, RuleBook.register { book with dependencies := .known book.shapes } p owner bindings s =
        .ok e ∧
      ∀ x, x ∈ e.bindings.dependencies p.id ↔
        (x ∈ names ∧ x ∈ identifiersOf answer) ∨ x ∈ p.rule.params := by
  intro answer names
  refine ⟨?_, ?_, ?_, ?_⟩
  · obtain ⟨e, hok, hdependencies⟩ :=
      RuleBook.dependencies_of_register { book with dependencies := .declared } p owner s hfree
    rw [RuleBook.reading_eq] at hdependencies
    exact ⟨e, hok, hdependencies⟩
  · rintro r b memo s' hdiscards rfl hshapes hmemo hsame
    rw [lostFields_eq_identifiedBy r b s' hmemo, hdiscards, hshapes, hsame]
  · intro s' hsame
    rw [RuleBook.identified_eq, hsame]
    exact NameSet.identifiedBy_identifiedBy _ _
  · obtain ⟨e, hok, hdependencies⟩ := RuleBook.dependencies_of_register
      { book with dependencies := .known book.shapes } p owner s hfree
    refine ⟨e, hok, fun x => ?_⟩
    rw [hdependencies]
    exact RuleBook.mem_reading_known { book with dependencies := .known book.shapes } owner
      p.rule.toRuleInfo s rfl hagain

end

/-- Names that stand in each other's way: `b` is an identifier, and two other fields are declared
under it; `c` is declared for the field `b`. -/
def crossedNames : ShapeBook :=
  ⟨.ofList [("T", ⟨[⟨"a", "a", "b", false⟩, ⟨"b", "b", "c", false⟩, ⟨"d", "d", "b", false⟩]⟩)]⟩

def crossedReader : Posting Record where
  id := 0
  rule := {
    name := "r", params := .ofList ["a"], reads := .ofList ["b", "c", "zzz"], signature := .method
    check := .returning fun _ _ => .ok ()
    target := none, discards := ["zzz", "c", "b"], owner := none }

theorem names_agree_crossed :
    let s : Schema := { lineage := ∅, shapes := crossedNames, asked := 0, memo := ∅ }
    let book : RuleBook Schema Record := ⟨Schema.lineage, Schema.memoised, .declared, ∅⟩
    let b : Binding Schema := ⟨"T", ∅, Schema.memoised⟩
    (crossedReader.rule.lostFields (some b) ∅ s).1 = .ofList ["b", "zzz"] ∧
      (∃ e, RuleBook.register { book with dependencies := .declared } crossedReader "T" ∅ s =
          .ok e ∧ e.bindings.dependencies crossedReader.id = .ofList ["a", "b", "zzz"]) ∧
      ∃ e, RuleBook.register { book with dependencies := .known book.shapes } crossedReader "T" ∅
          s = .ok e ∧ e.bindings.dependencies crossedReader.id = .ofList ["a", "b"] := by
  intro s book b
  have hfree : (∅ : Bindings Schema).get? crossedReader.id = none := rfl
  have hagain : book.shapes.Retells "T" s := Schema.Offers.memoised.retells "T" s
  have hreads : crossedReader.rule.reads.identifiedBy (book.shapes.ask "T" .reading s).1 =
      .ofList ["b", "zzz"] := by decide
  have hfields : identifiersOf (book.shapes.ask "T" .reading s).1 = ["a", "b", "d"] := by decide
  have hagrees := names_agree book crossedReader "T" s hfree hagain
  simp only [hreads, hfields] at hagrees
  obtain ⟨⟨e, hok, hdeclared⟩, hlost, -, e', hok', hknown⟩ := hagrees
  refine ⟨hlost crossedReader.rule b ∅ s (by decide) rfl rfl rfl rfl, ⟨e, hok, ?_⟩, e', hok', ?_⟩
  · rw [hdeclared]
    decide
  · ext x
    rw [hknown]
    simp only [crossedReader, NameSet.mem_ofList, List.mem_cons, List.not_mem_nil, or_false]
    constructor
    · rintro (⟨rfl | rfl, hfield⟩ | rfl)
      · exact Or.inr rfl
      · exact absurd hfield (by decide)
      · exact Or.inl rfl
    · rintro (rfl | rfl)
      · exact Or.inr rfl
      · exact Or.inl ⟨Or.inl rfl, Or.inr (Or.inl rfl)⟩

end Vetting
