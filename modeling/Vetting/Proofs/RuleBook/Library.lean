import Mathlib.Data.Finset.Card
import Mathlib.Logic.Function.Basic
import Vetting.Proofs.RuleBook.Registration
import Vetting.RuleBook.Batch

/-!
# Libraries of rule books

Several books can share rules. A rule that was posted has an identity, by which
it may be offered to any book and any number of times; a rule that is declared
or comes in a batch belongs to nobody else, and is posted as it is bound. What
was bound is kept in a log. The log tells what every book lists and what every
rule is bound to: each rule has one entry at most, and no later call takes
anything back.
-/

namespace Vetting

structure Library (β σ ι : Type) where
  books : β → RuleBook σ ι
  rules : List (Rule ι)
  bindings : Bindings σ
  state : σ

namespace Library

inductive Act (β σ ι : Type) where
  | post (r : Rule ι)
  | register (b : β) (id : RuleId) (owner : TypeKey)
  | declare (b : β) (r : Rule ι)
  | finalize (b : β) (rs : List (Rule ι)) (owner : TypeKey)
  | change (s : σ)

/-- A rule that was bound, and the dependencies that were found for it then. -/
structure Entry (β ι : Type) where
  book : β
  owner : TypeKey
  posting : Posting ι
  dependencies : NameSet

variable {β σ ι : Type}

def Act.place? : Act β σ ι → Option (β × TypeKey)
  | .register b _ owner | .finalize b _ owner => some (b, owner)
  | .declare b r => r.declaredOwner?.map (b, ·)
  | .post _ | .change _ => none

def postings (n : Nat) (rs : List (Rule ι)) : List (Posting ι) :=
  (rs.zipIdx n).map fun (r, id) => ⟨id, r⟩

def enter (b : β) (book : RuleBook σ ι) (owner : TypeKey) : List (Posting ι) → σ → List (Entry β ι)
  | [], _ => []
  | p :: ps, s =>
    let (dependencies, s) := book.reading owner p.rule.toRuleInfo s
    ⟨b, owner, p, dependencies⟩ :: enter b book owner ps s

def start (settings : β → RuleBook σ ι) (s : σ) : Library β σ ι :=
  ⟨fun b => { settings b with lists := ∅ }, [], ∅, s⟩

variable [DecidableEq β]

def leave (l : Library β σ ι) (b : β) (left : Standing σ ι) : Library β σ ι :=
  { l with
    books := Function.update l.books b left.book
    bindings := left.bindings
    state := left.state }

def call (l : Library β σ ι) : Act β σ ι → Except Fault (List (Posting ι)) × Library β σ ι
  | .post r => (.ok [], { l with rules := l.rules ++ [r] })
  | .register b id owner => match l.rules[id]? with
    | none => (.ok [], l)
    | some r => match (l.books b).register ⟨id, r⟩ owner l.bindings l.state with
      | .error e => (.error e.fault, l.leave b e.state)
      | .ok e => (.ok [⟨id, r⟩], l.leave b e.toStanding)
  | .declare b r =>
    let p : Posting ι := ⟨l.rules.length, r⟩
    match (l.books b).declare p l.bindings l.state with
    | .error e => (.error e.fault, l.leave b e.state)
    | .ok e => (.ok [p], { l.leave b e.toStanding with rules := l.rules ++ [r] })
  | .finalize b rs owner =>
    let batch : Batch ι := ⟨postings l.rules.length rs⟩
    let f := batch.finalize owner (l.books b) l.bindings l.state
    (f.result, { l.leave b ⟨f.book, f.bindings, f.state⟩ with rules := l.rules ++ rs })
  | .change s => (.ok [], { l with state := s })

/-- What a call adds to the log: nothing if it fails. -/
def entries (l : Library β σ ι) (act : Act β σ ι) : List (Entry β ι) :=
  match act.place?, (l.call act).1 with
  | some (b, owner), .ok ps => enter b (l.books b) owner ps l.state
  | _, _ => []

def run (l : Library β σ ι) (acts : List (Act β σ ι)) : Library β σ ι :=
  acts.foldl (fun l act => (l.call act).2) l

def log (l : Library β σ ι) : List (Act β σ ι) → List (Entry β ι)
  | [] => []
  | act :: acts => l.entries act ++ (l.call act).2.log acts

/-- The log tells all that the library lists and has bound. -/
structure Records (l : Library β σ ι) (log : List (Entry β ι)) : Prop where
  own : ∀ b ty, (l.books b).own ty =
    (log.filter fun e => e.book = b ∧ e.owner = ty).map Entry.posting
  distinct : (log.map (·.posting.id)).Nodup
  bound : ∀ id owner dependencies,
    (∃ x, l.bindings.get? id = some x ∧ x.owner = owner ∧ x.dependencies = dependencies) ↔
      ∃ e ∈ log, e.posting.id = id ∧ e.owner = owner ∧ e.dependencies = dependencies
  posted : ∀ e ∈ log, l.rules[e.posting.id]? = some e.posting.rule
  listed : ∀ b, ∀ ty ∈ (l.books b).lists.keys, (l.books b).own ty ≠ []

section
variable {l : Library β σ ι} {log : List (Entry β ι)} {p : Posting ι} {e : Entry β ι}

theorem records_start (settings : β → RuleBook σ ι) (s : σ) : Records (start settings s) [] where
  own _ _ := rfl
  distinct := .nil
  bound id owner dependencies := by
    refine iff_of_false ?_ ?_
    · rintro ⟨x, hx, -⟩
      cases hx
    · rintro ⟨e, he, -⟩
      cases he
  posted _ he := by cases he
  listed _ _ hty := by cases hty

theorem Records.get?_of_mem (h : Records l log) (he : e ∈ log) :
    ∃ x, l.bindings.get? e.posting.id = some x ∧ x.owner = e.owner ∧
      x.dependencies = e.dependencies :=
  (h.bound _ _ _).2 ⟨e, he, rfl, rfl, rfl⟩

theorem Records.get?_eq_none (h : Records l log) {id : RuleId} (hid : l.rules[id]? = none) :
    l.bindings.get? id = none := by
  refine Option.eq_none_iff_forall_ne_some.2 fun x hx => ?_
  obtain ⟨e, he, rfl, -⟩ := (h.bound id _ _).1 ⟨x, hx, rfl, rfl⟩
  rw [h.posted e he] at hid
  cases hid

theorem Records.post (h : Records l log) (rs : List (Rule ι)) :
    Records { l with rules := l.rules ++ rs } log :=
  { h with
    posted := fun e he => by
      have := h.posted e he
      rw [List.getElem?_append_left (List.getElem?_eq_some_iff.1 this).1]
      exact this }

theorem Records.change (h : Records l log) (s : σ) : Records { l with state := s } log :=
  { h with }

/-! ## Binding one rule -/

@[simp] theorem leave_self (l : Library β σ ι) (b : β) :
    l.leave b ⟨l.books b, l.bindings, l.state⟩ = l := by
  rw [leave, Function.update_eq_self]

theorem own_leave {b b' : β} {ty owner : TypeKey} {bindings : Bindings σ} {s : σ} :
    ((l.leave b ⟨(l.books b).enlist owner p, bindings, s⟩).books b').own ty =
      (l.books b').own ty ++ if b = b' ∧ owner = ty then [p] else [] := by
  unfold leave
  by_cases hb : b' = b
  · subst hb
    simp [RuleBook.own_enlist]
  · simp [hb, Ne.symm hb]

theorem mem_keys_leave {b b' : β} {ty owner : TypeKey} {bindings : Bindings σ} {s : σ}
    (h : ty ∈ ((l.leave b ⟨(l.books b).enlist owner p, bindings, s⟩).books b').lists.keys) :
    ty ∈ (l.books b').lists.keys ∨ b = b' ∧ owner = ty := by
  unfold leave at h
  by_cases hb : b' = b
  · subst hb
    simp only [Function.update_self, RuleBook.enlist, Table.keys_alter] at h
    split at h
    · exact Or.inl h
    · rcases List.mem_append.1 h with h | h
      · exact Or.inl h
      · exact Or.inr ⟨rfl, (List.mem_singleton.1 h).symm⟩
  · simp only [ne_eq, hb, not_false_eq_true, Function.update_of_ne] at h
    exact Or.inl h

theorem Records.ne_of_mem (h : Records l log) (hnew : l.bindings.get? p.id = none) (he : e ∈ log) :
    e.posting.id ≠ p.id := by
  intro hid
  obtain ⟨x, hx, -⟩ := h.get?_of_mem he
  rw [hid, hnew] at hx
  cases hx

theorem Records.distinct_concat (h : Records l log)
    (hnew : l.bindings.get? e.posting.id = none) :
    ((log ++ [e]).map (·.posting.id)).Nodup := by
  rw [List.map_append, List.nodup_append]
  refine ⟨h.distinct, by simp, ?_⟩
  rintro id hid _ hlast rfl
  obtain ⟨e', he', rfl⟩ := List.mem_map.1 hid
  exact h.ne_of_mem hnew he' (List.mem_singleton.1 hlast)

theorem Records.bound_concat (h : Records l log) (hnew : l.bindings.get? e.posting.id = none)
    {x : Binding σ} (howner : x.owner = e.owner) (hdependencies : x.dependencies = e.dependencies)
    (id : RuleId) (owner : TypeKey) (dependencies : NameSet) :
    (∃ y, (l.bindings.set e.posting.id x).get? id = some y ∧ y.owner = owner ∧
        y.dependencies = dependencies) ↔
      ∃ e' ∈ log ++ [e], e'.posting.id = id ∧ e'.owner = owner ∧
        e'.dependencies = dependencies := by
  rw [Table.get?_set]
  by_cases hid : id = e.posting.id
  · subst hid
    simp only [if_true, Option.some.injEq, exists_eq_left', List.mem_append, List.mem_singleton]
    rw [howner, hdependencies]
    constructor
    · intro hrest
      exact ⟨e, Or.inr rfl, rfl, hrest⟩
    · rintro ⟨e', he' | rfl, hid, hrest⟩
      · exact absurd hid (h.ne_of_mem hnew he')
      · exact hrest
  · rw [if_neg hid, h.bound]
    constructor
    · rintro ⟨e', he', hrest⟩
      exact ⟨e', List.mem_append_left _ he', hrest⟩
    · rintro ⟨e', he', hid', hrest⟩
      rcases List.mem_append.1 he' with he' | he'
      · exact ⟨e', he', hid', hrest⟩
      · rw [List.mem_singleton.1 he'] at hid'
        exact absurd hid'.symm hid

/-- A rule that is not bound can be bound, and the log has one entry more. -/
theorem Records.bind (h : Records l log) (hnew : l.bindings.get? p.id = none)
    (hrule : l.rules[p.id]? = some p.rule) (b : β) (owner : TypeKey) :
    ∃ e, (l.books b).register p owner l.bindings l.state = .ok e ∧
      e.state = ((l.books b).reading owner p.rule.toRuleInfo l.state).2 ∧
      e.book.reading = (l.books b).reading ∧
      e.bindings.get? p.id ≠ none ∧ (∀ id, id ≠ p.id → e.bindings.get? id = l.bindings.get? id) ∧
      Records (l.leave b e.toStanding)
        (log ++ [⟨b, owner, p, ((l.books b).reading owner p.rule.toRuleInfo l.state).1⟩]) := by
  obtain ⟨e, hok, hbook, -, hstate, -⟩ :=
    RuleBook.register_of_unbound (l.books b) owner l.state hnew
  have hleft := (RuleBook.offer_of_ok hok).symm.trans (RuleBook.offer_of_unbound hnew)
  refine ⟨e, hok, hstate, by rw [hbook]; rfl, ?_⟩
  rw [hleft]
  refine ⟨by simp, fun id hid => by simp [hid], ⟨?own, ?distinct, ?bound, ?posted, ?listed⟩⟩
  case own =>
    intro b' ty
    rw [own_leave, h.own, List.filter_append, List.map_append]
    congr 1
    by_cases hplace : b = b' ∧ owner = ty <;> simp [hplace]
  case distinct =>
    exact h.distinct_concat (e := ⟨b, owner, p, _⟩) hnew
  case bound =>
    exact h.bound_concat (e := ⟨b, owner, p, _⟩) hnew rfl rfl
  case posted =>
    intro e' he'
    rcases List.mem_append.1 he' with he' | he'
    · exact h.posted e' he'
    · rw [List.mem_singleton.1 he']
      exact hrule
  case listed =>
    intro b' ty hty
    rw [own_leave]
    rcases mem_keys_leave hty with hty | hplace
    · exact List.append_ne_nil_of_left_ne_nil (h.listed b' ty hty) _
    · rw [if_pos hplace]
      exact List.append_ne_nil_of_right_ne_nil _ (List.cons_ne_nil _ _)

end

end Library

end Vetting
