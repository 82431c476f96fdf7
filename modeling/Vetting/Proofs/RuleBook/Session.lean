import Vetting.Proofs.History
import Vetting.Proofs.RuleBook.Registration
import Vetting.Proofs.Validation.Memory
import Vetting.Schema

/-!
# Sessions with a rule book

A session defines shapes, registers rules in one book and validates objects, in
any order. The book asks the shapes as they are and takes reads as they are
declared. A rule is bound by the one call that has registered it: its
dependencies are what its reads stood for at that time, and no later call
changes them. Whatever a book lists was registered.
-/

namespace Vetting

/-- The identifier of the field of `ty` that a name stands for. A name that stands for none is kept,
and so is every name while the type has no shape. -/
def ShapeBook.identify (book : ShapeBook) (ty : TypeKey) (name : String) : String :=
  ((book.shapes.get? ty).map (·.identify name)).getD name

structure Session (ι : Type) where
  book : RuleBook Schema ι
  bindings : Bindings Schema
  memos : Memos
  schema : Schema

namespace Session

inductive Act (ι : Type) where
  | define (ty : TypeKey) (fields : List Field)
  | register (p : Posting ι) (owner : TypeKey)
  | validate (x : ι) (args : Option Arguments)
  | relate (lineage : Lineage)

variable {ι : Type}

def bookOf (lists : Table TypeKey (List (Posting ι))) : RuleBook Schema ι :=
  ⟨Schema.lineage, Schema.book, .declared, lists⟩

def start : Session ι := ⟨bookOf ∅, ∅, ∅, ∅⟩

def line [Typed ι] (s : Session ι) (x : ι) : List (Posting ι) :=
  (s.book.rulesFor s.schema (Typed.typeOf x)).1

def perform [Typed ι] (s : Session ι) : Act ι → Session ι
  | .define ty fields =>
    { s with schema.shapes := stateAfter (fun book => book) (s.schema.shapes.define ty fields) }
  | .register p owner =>
    let left := s.book.offer p owner s.bindings s.schema
    { s with book := left.book, bindings := left.bindings, schema := left.state }
  | .validate x args =>
    let run := s.book.validate x args s.bindings s.memos s.schema
    { s with memos := run.memos, schema := run.state }
  | .relate lineage => { s with schema := { s.schema with lineage } }

def after [Typed ι] (acts : List (Act ι)) : Session ι := acts.foldl perform start

end Session

theorem Schema.book_still : Schema.book.Still := fun _ _ _ => rfl

theorem NameSet.map_eq_self {f : String → String} (h : ∀ a, f a = a) (names : NameSet) :
    names.map f = names := by
  ext a
  simp [h]

theorem ShapeBook.identify_cases (book : ShapeBook) (ty : TypeKey) :
    (book.contains ty = false ∧ book.shapeOf ty .reading = .error (.unknownType ty) ∧
      ∀ a, book.identify ty a = a) ∨
    ∃ shape, book.contains ty = true ∧ book.shapeOf ty .reading = .ok shape ∧
      ∀ a, book.identify ty a = shape.identify a := by
  unfold contains Table.contains shapeOf identify
  cases book.shapes.get? ty with
  | none => exact Or.inl ⟨rfl, rfl, fun _ => rfl⟩
  | some shape => exact Or.inr ⟨shape, rfl, rfl, fun _ => rfl⟩

namespace Session

section
variable {ι : Type} {s : Session ι} {p q : Posting ι} {owner ty : TypeKey}

theorem identified_bookOf (lists : Table TypeKey (List (Posting ι))) (names : NameSet)
    (schema : Schema) : (bookOf lists).identified owner names schema =
      (names.map (schema.shapes.identify owner), schema) := by
  have hask : (bookOf lists).shapes.ask owner .reading schema =
      (schema.shapes.shapeOf owner .reading, schema) := rfl
  unfold RuleBook.identified
  rw [hask]
  rcases schema.shapes.identify_cases owner with ⟨-, hshape, hname⟩ | ⟨shape, -, hshape, hname⟩
  · simp only [hshape, NameSet.map_eq_self hname]
  · simp only [hshape, funext hname]

def binding (schema : Schema) (p : Posting ι) (owner : TypeKey) : Binding Schema :=
  ⟨owner, p.rule.reads.map (schema.shapes.identify owner) ∪ p.rule.params, Schema.book⟩

theorem reading_bookOf (lists : Table TypeKey (List (Posting ι))) (info : RuleInfo)
    (schema : Schema) : (bookOf lists).reading owner info schema =
      (info.reads.map (schema.shapes.identify owner) ∪ info.params, schema) := by
  have hask : (bookOf lists).dependencies.ask owner info schema = (info.reads, schema) := rfl
  simp only [RuleBook.reading, hask, identified_bookOf]

theorem offer_bookOf (lists : Table TypeKey (List (Posting ι))) (p : Posting ι) (owner : TypeKey)
    (bindings : Bindings Schema) (schema : Schema) : ∃ lists',
      ((bookOf lists).offer p owner bindings schema).book = bookOf lists' ∧
        ((bookOf lists).offer p owner bindings schema).state = schema := by
  cases h : bindings.get? p.id with
  | some b =>
    rw [RuleBook.offer_of_bound h]
    exact ⟨lists, rfl, rfl⟩
  | none =>
    rw [RuleBook.offer_of_unbound h, reading_bookOf]
    exact ⟨_, rfl, rfl⟩

/-! ## One call -/

variable [Typed ι] {acts before before' : List (Act ι)} {act : Act ι} {id : RuleId}
  {b : Binding Schema}

theorem get?_perform_iff : (s.perform act).bindings.get? id = some b ↔
    s.bindings.get? id = some b ∨ ∃ p owner, act = .register p owner ∧
      s.bindings.get? p.id = none ∧ p.id = id ∧
      b = ⟨owner, (s.book.reading owner p.rule.toRuleInfo s.schema).1, s.book.shapes⟩ := by
  cases act with
  | register p owner =>
    refine RuleBook.get?_offer_iff.trans (or_congr_right ?_)
    constructor
    · exact fun h => ⟨p, owner, rfl, h⟩
    · rintro ⟨_, _, hact, h⟩
      cases hact
      exact h
  | _ => exact (or_iff_left nofun).symm

theorem mem_own_perform_iff : p ∈ (s.perform act).book.own ty ↔
    p ∈ s.book.own ty ∨ act = .register p ty ∧ s.bindings.get? p.id = none := by
  cases act with
  | register q owner =>
    refine RuleBook.mem_own_offer_iff.trans (or_congr_right ?_)
    constructor
    · rintro ⟨hnew, rfl, rfl⟩
      exact ⟨rfl, hnew⟩
    · rintro ⟨hact, hnew⟩
      cases hact
      exact ⟨hnew, rfl, rfl⟩
  | _ => exact (or_iff_left nofun).symm

/-! ## All calls -/

theorem after_concat (acts : List (Act ι)) (act : Act ι) :
    after (acts ++ [act]) = (after acts).perform act :=
  List.foldl_concat perform start act acts

theorem book_after (acts : List (Act ι)) : ∃ lists, (after acts).book = bookOf lists := by
  refine List.foldlRecOn (b := start) (motive := fun s => ∃ lists, s.book = bookOf lists) acts
    perform ⟨∅, rfl⟩ fun s hbook act _ => ?_
  cases act with
  | register p owner =>
    obtain ⟨lists, hbook⟩ := hbook
    obtain ⟨lists', hleft, -⟩ := offer_bookOf lists p owner s.bindings s.schema
    rw [← hbook] at hleft
    exact ⟨lists', hleft⟩
  | _ => exact hbook

/-- The call that follows `before` in `acts` has registered `p` for `owner`. -/
structure Registered (acts before : List (Act ι)) (p : Posting ι) (owner : TypeKey) : Prop where
  called : before ++ [.register p owner] <+: acts
  answer : ∃ e, (after before).book.register p owner (after before).bindings
    (after before).schema = .ok e

theorem registered_iff : Registered acts before p owner ↔
    before ++ [.register p owner] <+: acts ∧ (after before).bindings.get? p.id = none := by
  constructor
  · rintro ⟨hcalled, hanswer⟩
    exact ⟨hcalled, RuleBook.exists_register_iff.1 hanswer⟩
  · rintro ⟨hcalled, hnew⟩
    exact ⟨hcalled, RuleBook.exists_register_iff.2 hnew⟩

/-- A rule is bound as it was when it was registered. -/
theorem binding_after_iff : (after acts).bindings.get? id = some b ↔
    ∃ before p owner, Registered acts before p owner ∧ p.id = id ∧
      b = binding (after before).schema p owner := by
  have hbinding : ∀ (before : List (Act ι)) (p : Posting ι) (owner : TypeKey),
      ⟨owner, ((after before).book.reading owner p.rule.toRuleInfo (after before).schema).1,
        (after before).book.shapes⟩ = binding (after before).schema p owner := by
    intro before p owner
    obtain ⟨lists, hbook⟩ := book_after before
    rw [hbook, reading_bookOf]
    rfl
  refine (foldl_iff_exists_moment perform start (fun s => s.bindings.get? id = some b)
    (Option.some_ne_none b).symm fun s act => get?_perform_iff).trans ?_
  constructor
  · rintro ⟨before, _, hcalled, p, owner, rfl, hnew, hid, hb⟩
    exact ⟨before, p, owner, registered_iff.2 ⟨hcalled, hnew⟩, hid,
      hb.trans (hbinding before p owner)⟩
  · rintro ⟨before, p, owner, hreg, hid, hb⟩
    obtain ⟨hcalled, hnew⟩ := registered_iff.1 hreg
    exact ⟨before, _, hcalled, p, owner, rfl, hnew, hid, hb.trans (hbinding before p owner).symm⟩

theorem mem_own_after_iff : p ∈ (after acts).book.own owner ↔
    ∃ before, Registered acts before p owner := by
  refine (foldl_iff_exists_moment perform start (fun s => p ∈ s.book.own owner)
    List.not_mem_nil fun s act => mem_own_perform_iff).trans ?_
  simp only [registered_iff]
  constructor
  · rintro ⟨before, _, hcalled, rfl, hnew⟩
    exact ⟨before, hcalled, hnew⟩
  · rintro ⟨before, hcalled, hnew⟩
    exact ⟨before, _, hcalled, rfl, hnew⟩

theorem Registered.get? (h : Registered acts before p owner) :
    (after acts).bindings.get? p.id = some (binding (after before).schema p owner) :=
  binding_after_iff.2 ⟨before, p, owner, h, rfl, rfl⟩

theorem bindings_still (acts : List (Act ι)) : (after acts).bindings.Still := by
  intro id b h
  obtain ⟨before, p, owner, -, -, rfl⟩ := binding_after_iff.1 h
  exact Schema.book_still

theorem registered_of_mem_line {x : ι} (h : p ∈ (after acts).line x) :
    ∃ before owner, Registered acts before p owner := by
  obtain ⟨owner, hown⟩ := RuleBook.mem_own_of_mem_rulesFor h
  obtain ⟨before, hreg⟩ := mem_own_after_iff.1 hown
  exact ⟨before, owner, hreg⟩

theorem Registered.of_prefix {acts' : List (Act ι)} (h : Registered acts before p owner)
    (hpre : acts <+: acts') : Registered acts' before p owner :=
  ⟨h.called.trans hpre, h.answer⟩

theorem Registered.not_again (h : Registered acts before p owner) (hid : p.id = q.id)
    (h' : Registered acts before' q ty) : ¬ before ++ [.register p owner] <+: before' := by
  intro hpre
  obtain ⟨-, hnew⟩ := registered_iff.1 h'
  have hbound := Registered.get? (⟨hpre, h.answer⟩ : Registered before' before p owner)
  rw [hid, hnew] at hbound
  cases hbound

theorem registered_unique (h : Registered acts before p owner)
    (h' : Registered acts before' q ty) (hid : p.id = q.id) :
    before = before' ∧ p = q ∧ owner = ty := by
  have hsame : ∀ {a b : List (Act ι)}, a ++ [.register p owner] = b ++ [.register q ty] →
      a = b ∧ p = q ∧ owner = ty := by
    intro a b heq
    obtain ⟨hab, hact⟩ := List.append_singleton_inj.1 heq
    cases hact
    exact ⟨hab, rfl, rfl⟩
  rcases List.prefix_or_prefix_of_prefix h.called h'.called with hpre | hpre
  · rcases List.prefix_concat_iff.1 hpre with heq | hpre
    · exact hsame heq
    · exact absurd hpre (h.not_again hid h')
  · rcases List.prefix_concat_iff.1 hpre with heq | hpre
    · exact hsame heq.symm
    · exact absurd hpre (h'.not_again hid.symm h)

end

end Session

end Vetting
