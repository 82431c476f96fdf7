import Vetting.RuleBook.Basic

/-!
# Registering a rule

A rule that is bound is refused, and book, bindings and sources are left as they
were. A rule that is not bound is listed last for its owner and bound to what is
read for it now. So whichever way an offer ends, no binding is lost and no list
but that of the owner changes; every run of offers goes by these two steps
(`get?_offer_iff`, `mem_own_offer_iff`).
-/

namespace Vetting.RuleBook

variable {σ ι : Type}

/-- What is left when a rule was offered to the book, registered or not. -/
def offer (book : RuleBook σ ι) (p : Posting ι) (owner : TypeKey) (bindings : Bindings σ) (s : σ) :
    Standing σ ι :=
  stateAfter Enrolment.toStanding (book.register p owner bindings s)

section
variable {book : RuleBook σ ι} {p q : Posting ι} {owner ty : TypeKey} {bindings : Bindings σ} {s : σ}
  {id : RuleId} {x : Binding σ}

/-! ## Lists -/

theorem own_enlist : (book.enlist owner p).own ty =
    book.own ty ++ if owner = ty then [p] else [] := by
  unfold own enlist
  rw [Table.get?_alter]
  by_cases h : ty = owner
  · simp [h]
  · simp [h, Ne.symm h]

theorem mem_own_of_mem_rulesFor (h : p ∈ (book.rulesFor s ty).1) : ∃ owner, p ∈ book.own owner := by
  obtain ⟨_, -, h⟩ := List.mem_flatMap.1 h
  obtain ⟨owner, -, h⟩ := List.mem_flatMap.1 h
  exact ⟨owner, h⟩

/-! ## One rule -/

theorem register_of_bound (book : RuleBook σ ι) (p : Posting ι) (owner : TypeKey) (s : σ)
    (h : bindings.get? p.id = some x) : book.register p owner bindings s =
      .error ⟨.alreadyBound p.rule.name x.owner, ⟨book, bindings, s⟩⟩ := by
  unfold register
  rw [h]

theorem register_of_unbound (book : RuleBook σ ι) (owner : TypeKey) (s : σ)
    (h : bindings.get? p.id = none) : ∃ e, book.register p owner bindings s = .ok e ∧
      e.book = book.enlist owner p ∧
      e.bindings = bindings.set p.id
        ⟨owner, (book.reading owner p.rule.toRuleInfo s).1, book.shapes⟩ ∧
      e.state = (book.reading owner p.rule.toRuleInfo s).2 ∧
      e.event = .registering owner p.rule.name (book.reading owner p.rule.toRuleInfo s).1 := by
  unfold register
  rw [h]
  exact ⟨_, rfl, rfl, rfl, rfl, rfl⟩

theorem exists_register_iff :
    (∃ e, book.register p owner bindings s = .ok e) ↔ bindings.get? p.id = none := by
  constructor
  · rintro ⟨e, h⟩
    cases hx : bindings.get? p.id with
    | none => rfl
    | some x =>
      rw [register_of_bound book p owner s hx] at h
      cases h
  · intro h
    obtain ⟨e, hok, -⟩ := register_of_unbound book owner s h
    exact ⟨e, hok⟩

/-- A rule that is refused leaves all as it was. -/
theorem register_eq_error {r : Rejection (Standing σ ι)}
    (h : book.register p owner bindings s = .error r) : r.state = ⟨book, bindings, s⟩ := by
  cases hx : bindings.get? p.id with
  | none =>
    obtain ⟨e, hok⟩ := exists_register_iff.2 hx
    cases hok.symm.trans h
  | some x =>
    rw [register_of_bound book p owner s hx] at h
    cases h
    rfl

/-! ## What an offer leaves -/

theorem offer_of_ok {e : Enrolment σ ι} (h : book.register p owner bindings s = .ok e) :
    book.offer p owner bindings s = e.toStanding := by
  rw [offer, h, stateAfter]

theorem offer_of_bound (h : bindings.get? p.id = some x) :
    book.offer p owner bindings s = ⟨book, bindings, s⟩ := by
  rw [offer, register_of_bound book p owner s h, stateAfter]

theorem offer_of_unbound (h : bindings.get? p.id = none) :
    book.offer p owner bindings s = ⟨book.enlist owner p,
      bindings.set p.id ⟨owner, (book.reading owner p.rule.toRuleInfo s).1, book.shapes⟩,
      (book.reading owner p.rule.toRuleInfo s).2⟩ := by
  unfold offer register
  rw [h]
  rfl

/-- An offer binds the rule if it is not bound, and changes no other binding. -/
theorem get?_offer_iff : (book.offer p owner bindings s).bindings.get? id = some x ↔
    bindings.get? id = some x ∨ bindings.get? p.id = none ∧ p.id = id ∧
      x = ⟨owner, (book.reading owner p.rule.toRuleInfo s).1, book.shapes⟩ := by
  cases hp : bindings.get? p.id with
  | some y => simp [offer_of_bound hp]
  | none =>
    rw [offer_of_unbound hp, Table.get?_set]
    by_cases hid : id = p.id
    · subst hid
      simp [hp, eq_comm]
    · simp [hid, Ne.symm hid]

theorem get?_offer (h : bindings.get? id = some x) :
    (book.offer p owner bindings s).bindings.get? id = some x :=
  get?_offer_iff.2 (Or.inl h)

theorem mem_own_offer_iff : q ∈ (book.offer p owner bindings s).book.own ty ↔
    q ∈ book.own ty ∨ bindings.get? p.id = none ∧ q = p ∧ ty = owner := by
  cases hp : bindings.get? p.id with
  | some x => simp [offer_of_bound hp]
  | none =>
    rw [offer_of_unbound hp, own_enlist]
    by_cases h : ty = owner
    · simp [h]
    · simp [h, Ne.symm h]

end

end Vetting.RuleBook
