import Vetting.Proofs.RuleBook.Library
import Vetting.Proofs.RuleBook.Lookup
import Vetting.Proofs.RuleBook.Session

/-!
# The log of a library

A call binds what it is asked to bind, or it is refused and leaves the library
as it was. It is refused when a rule is offered that is bound, and when a rule
is declared that no owner is known for; a batch is never refused, since its
rules belong to nobody else. So after any calls the lists of all books and the
bindings of all rules are what the log of the calls tells.
-/

namespace Vetting.Library

inductive Refused {β σ ι : Type} (l : Library β σ ι) : Act β σ ι → Fault → Prop
  | bound {b : β} {id : RuleId} {owner : TypeKey} {r : Rule ι} {x : Binding σ} :
      l.rules[id]? = some r → l.bindings.get? id = some x →
      Refused l (.register b id owner) (.alreadyBound r.name x.owner)
  | untyped {b : β} {r : Rule ι} :
      r.declaredOwner? = none → Refused l (.declare b r) (.conflict (.untypedReceiver r.name))

section
variable {β σ ι : Type} [DecidableEq β] {l : Library β σ ι} {log : List (Entry β ι)}
  {p : Posting ι} {b : β} {owner ty : TypeKey}

/-! ## Batches -/

omit [DecidableEq β] in
theorem enter_cons (book : RuleBook σ ι) (ps : List (Posting ι)) (s : σ) :
    enter b book owner (p :: ps) s =
      ⟨b, owner, p, (book.reading owner p.rule.toRuleInfo s).1⟩ ::
        enter b book owner ps (book.reading owner p.rule.toRuleInfo s).2 :=
  rfl

omit [DecidableEq β] in
theorem enter_congr {book book' : RuleBook σ ι} (h : book.reading = book'.reading) :
    ∀ (ps : List (Posting ι)) (s : σ), enter b book owner ps s = enter b book' owner ps s
  | [], _ => rfl
  | p :: ps, s => by
    rw [enter_cons, enter_cons, h, enter_congr h]

theorem mem_postings {n : Nat} {rs : List (Rule ι)} (h : p ∈ postings n rs) :
    n ≤ p.id ∧ rs[p.id - n]? = some p.rule := by
  obtain ⟨⟨r, id⟩, hmem, rfl⟩ := List.mem_map.1 h
  exact List.mk_mem_zipIdx_iff_le_and_getElem?_sub.1 hmem

theorem nodup_postings (n : Nat) (rs : List (Rule ι)) : ((postings n rs).map Posting.id).Nodup := by
  have hids : (postings n rs).map Posting.id = List.range' n rs.length := by
    rw [postings, List.map_map]
    exact List.zipIdx_map_snd n rs
  rw [hids]
  exact List.nodup_range'

theorem Records.bindAll (b : β) (owner : TypeKey) : ∀ (ps : List (Posting ι)) {l : Library β σ ι}
    {log : List (Entry β ι)}, Records l log →
    (∀ p ∈ ps, l.bindings.get? p.id = none ∧ l.rules[p.id]? = some p.rule) →
    (ps.map Posting.id).Nodup → ∀ f, f = Batch.registerAll owner ps (l.books b) l.bindings l.state →
      f.result = .ok ps ∧ Records (l.leave b ⟨f.book, f.bindings, f.state⟩)
        (log ++ enter b (l.books b) owner ps l.state)
  | [], l, log, h, _, _, f, hf => by
    subst hf
    refine ⟨rfl, ?_⟩
    rw [enter, List.append_nil, Batch.registerAll, leave_self]
    exact h
  | p :: ps, l, log, h, hfree, hids, f, hf => by
    obtain ⟨hp, hps⟩ := List.nodup_cons.1 hids
    obtain ⟨hnew, hrule⟩ := hfree p List.mem_cons_self
    obtain ⟨e, hok, hstate, hreading, -, hother, hrecords⟩ := h.bind hnew hrule b owner
    have hrest : ∀ q ∈ ps, e.bindings.get? q.id = none ∧ l.rules[q.id]? = some q.rule := by
      intro q hq
      have hne : q.id ≠ p.id := fun hid => hp (hid ▸ List.mem_map_of_mem hq)
      rw [hother q.id hne]
      exact hfree q (List.mem_cons_of_mem p hq)
    obtain ⟨hresult, hall⟩ := hrecords.bindAll b owner ps hrest hps _ rfl
    simp only [leave, Function.update_self, Function.update_idem] at hresult hall
    simp only [Batch.registerAll, hok] at hf
    subst hf
    refine ⟨by rw [hresult]; rfl, ?_⟩
    rw [enter_cons, ← enter_congr hreading, ← hstate, List.append_cons]
    exact hall

/-! ## Calls -/

/-- A call binds what it is asked to bind, and the log grows by that, or it is refused. -/
inductive Ends (l : Library β σ ι) (log : List (Entry β ι)) (act : Act β σ ι) : Prop
  | bound {ps : List (Posting ι)} : (l.call act).1 = .ok ps →
      Records (l.call act).2 (log ++ l.entries act) → Ends l log act
  | refused {fault : Fault} : Refused l act fault → (l.call act).1 = .error fault →
      (l.call act).2 = l → Ends l log act

theorem Records.ends_register (h : Records l log) (b : β) (id : RuleId) (owner : TypeKey) :
    Ends l log (.register b id owner) := by
  cases hr : l.rules[id]? with
  | none =>
    have hcall : l.call (.register b id owner) = (.ok [], l) := by simp only [call, hr]
    refine .bound (by rw [hcall]) ?_
    simp only [entries, hcall, Act.place?, enter, List.append_nil]
    exact h
  | some r =>
    cases hx : l.bindings.get? id with
    | some x =>
      have hrefused := RuleBook.register_of_bound (l.books b) ⟨id, r⟩ owner l.state hx
      have hcall : l.call (.register b id owner) = (.error (.alreadyBound r.name x.owner), l) := by
        simp only [call, hr, hrefused, leave_self]
      exact .refused (.bound hr hx) (by rw [hcall]) (by rw [hcall])
    | none =>
      obtain ⟨e, hok, -, -, -, -, hrecords⟩ := h.bind (p := ⟨id, r⟩) hx hr b owner
      have hcall : l.call (.register b id owner) = (.ok [⟨id, r⟩], l.leave b e.toStanding) := by
        simp only [call, hr, hok]
      refine .bound (by rw [hcall]) ?_
      simp only [entries, hcall, Act.place?, enter]
      exact hrecords

theorem Records.ends_declare (h : Records l log) (b : β) (r : Rule ι) :
    Ends l log (.declare b r) := by
  cases ho : r.declaredOwner? with
  | none =>
    have hcall : l.call (.declare b r) = (.error (.conflict (.untypedReceiver r.name)), l) := by
      simp only [call, RuleBook.declare, ho, leave_self]
    exact .refused (.untyped ho) (by rw [hcall]) (by rw [hcall])
  | some owner =>
    have hnew := h.get?_eq_none (List.getElem?_eq_none (Nat.le_refl l.rules.length))
    have hrule : (l.rules ++ [r])[l.rules.length]? = some r := List.getElem?_concat_length
    obtain ⟨e, hok, -, -, -, -, hrecords⟩ :=
      (h.post [r]).bind (p := ⟨l.rules.length, r⟩) hnew hrule b owner
    have hcall : l.call (.declare b r) = (.ok [⟨l.rules.length, r⟩],
        { l.leave b e.toStanding with rules := l.rules ++ [r] }) := by
      simp only [call, RuleBook.declare, ho, hok]
    refine .bound (by rw [hcall]) ?_
    simp only [entries, hcall, Act.place?, ho, Option.map_some, enter]
    exact hrecords

theorem Records.ends_finalize (h : Records l log) (b : β) (rs : List (Rule ι)) (owner : TypeKey) :
    Ends l log (.finalize b rs owner) := by
  have hfree : ∀ p ∈ postings l.rules.length rs,
      l.bindings.get? p.id = none ∧ (l.rules ++ rs)[p.id]? = some p.rule := by
    intro p hp
    obtain ⟨hle, hrule⟩ := mem_postings hp
    exact ⟨h.get?_eq_none (List.getElem?_eq_none hle),
      (List.getElem?_append_right hle).trans hrule⟩
  obtain ⟨hresult, hrecords⟩ := (h.post rs).bindAll b owner _ hfree (nodup_postings _ rs) _ rfl
  have hcall : (l.call (.finalize b rs owner)).1 = .ok (postings l.rules.length rs) := hresult
  refine .bound hcall ?_
  simp only [entries, hcall, Act.place?]
  exact hrecords

theorem Records.ends (h : Records l log) (act : Act β σ ι) : Ends l log act := by
  cases act with
  | register b id owner => exact h.ends_register b id owner
  | declare b r => exact h.ends_declare b r
  | finalize b rs owner => exact h.ends_finalize b rs owner
  | post r =>
    refine .bound rfl ?_
    rw [entries, Act.place?, List.append_nil]
    exact h.post [r]
  | change s =>
    refine .bound rfl ?_
    rw [entries, Act.place?, List.append_nil]
    exact h.change s

theorem entries_of_error {act : Act β σ ι} {fault : Fault} (h : (l.call act).1 = .error fault) :
    l.entries act = [] := by
  rw [entries, h]
  cases act.place? <;> rfl

theorem Records.call (h : Records l log) (act : Act β σ ι) :
    Records (l.call act).2 (log ++ l.entries act) := by
  cases h.ends act with
  | bound _ hrecords => exact hrecords
  | refused _ hfault hsame =>
    rw [hsame, entries_of_error hfault, List.append_nil]
    exact h

/-! ## Runs -/

theorem Records.run (acts : List (Act β σ ι)) : ∀ {l : Library β σ ι} {log : List (Entry β ι)},
    Records l log → Records (l.run acts) (log ++ l.log acts) := by
  induction acts with
  | nil =>
    intro l log h
    rw [Library.log, List.append_nil]
    exact h
  | cons act acts ih =>
    intro l log h
    rw [Library.log, ← List.append_assoc]
    exact ih (h.call act)

theorem records_run (settings : β → RuleBook σ ι) (s : σ) (acts : List (Act β σ ι)) :
    Records ((start settings s).run acts) ((start settings s).log acts) :=
  (records_start settings s).run acts

/-! ## What the log tells -/

theorem Records.mem_own_iff (h : Records l log) : p ∈ (l.books b).own ty ↔
    ∃ e ∈ log, e.book = b ∧ e.owner = ty ∧ e.posting = p := by
  rw [h.own, List.mem_map]
  simp only [List.mem_filter, decide_eq_true_eq, and_assoc]

theorem Records.nodup_own (h : Records l log) : (((l.books b).own ty).map Posting.id).Nodup := by
  rw [h.own, List.map_map]
  exact h.distinct.sublist (List.filter_sublist.map _)

theorem Records.own_unique {b' : β} {ty' : TypeKey} {p' : Posting ι} (h : Records l log)
    (hp : p ∈ (l.books b).own ty) (hp' : p' ∈ (l.books b').own ty') (hid : p.id = p'.id) :
    b = b' ∧ ty = ty' ∧ p = p' := by
  obtain ⟨e, he, rfl, rfl, rfl⟩ := h.mem_own_iff.1 hp
  obtain ⟨e', he', rfl, rfl, rfl⟩ := h.mem_own_iff.1 hp'
  obtain rfl := List.inj_on_of_nodup_map h.distinct he he' hid
  exact ⟨rfl, rfl, rfl⟩

theorem Records.listed_iff (h : Records l log) {id : RuleId} :
    (∃ b, ∃ p ∈ (l.books b).own ty, p.id = id) ↔
      ∃ x, l.bindings.get? id = some x ∧ x.owner = ty := by
  constructor
  · rintro ⟨b, p, hp, rfl⟩
    obtain ⟨e, he, rfl, rfl, rfl⟩ := h.mem_own_iff.1 hp
    obtain ⟨x, hx, howner, -⟩ := h.get?_of_mem he
    exact ⟨x, hx, howner⟩
  · rintro ⟨x, hx, rfl⟩
    obtain ⟨e, he, hid, howner, -⟩ := (h.bound id _ _).1 ⟨x, hx, rfl, rfl⟩
    exact ⟨e.book, e.posting, h.mem_own_iff.2 ⟨e, he, rfl, howner, rfl⟩, hid⟩

theorem Records.size_eq (h : Records l log) (b : β) : ∃ tys : Finset TypeKey,
    (∀ ty, ty ∈ tys ↔ (l.books b).own ty ≠ []) ∧ (l.books b).size = tys.card := by
  refine ⟨(l.books b).lists.keys.toFinset, fun ty => ?_, ?_⟩
  · rw [List.mem_toFinset]
    refine ⟨h.listed b ty, fun hne => ?_⟩
    by_contra hnot
    have hget := Table.get?_eq_none_iff.2 hnot
    exact hne (by rw [RuleBook.own, hget]; rfl)
  · have hkeys : (l.books b).lists.keys.Nodup := (l.books b).lists.distinct
    rw [List.toFinset_card_of_nodup hkeys]
    exact (List.length_map _).symm

/-- After any calls every list of every book has just the rules that were bound there, in order. A
rule is listed at most once over all books and types; it is listed for a type exactly when it is
bound and the type is its owner; and owner and dependencies stay forever as they were found when it
was bound. A call that fails changes nothing, and the size of a book is the number of types that
rules are listed for. -/
theorem lists_and_bindings_follow_log (settings : β → RuleBook σ ι) (s : σ)
    (acts : List (Act β σ ι)) (l : Library β σ ι) (log : List (Entry β ι))
    (hl : l = (start settings s).run acts) (hlog : log = (start settings s).log acts) :
    (∀ b ty, (l.books b).own ty =
      (log.filter fun e => e.book = b ∧ e.owner = ty).map Entry.posting) ∧
    (∀ b ty, (((l.books b).own ty).map Posting.id).Nodup) ∧
    (∀ b b' ty ty' p p', p ∈ (l.books b).own ty → p' ∈ (l.books b').own ty' → p.id = p'.id →
      b = b' ∧ ty = ty' ∧ p = p') ∧
    (∀ id ty, (∃ b, ∃ p ∈ (l.books b).own ty, p.id = id) ↔
      ∃ x, l.bindings.get? id = some x ∧ x.owner = ty) ∧
    (∀ e ∈ log, ∀ later, ∃ x, (l.run later).bindings.get? e.posting.id = some x ∧
      x.owner = e.owner ∧ x.dependencies = e.dependencies) ∧
    (∀ act fault, (l.call act).1 = .error fault → Refused l act fault ∧ (l.call act).2 = l) ∧
    ∀ b, ∃ tys : Finset TypeKey, (∀ ty, ty ∈ tys ↔ (l.books b).own ty ≠ []) ∧
      (l.books b).size = tys.card := by
  have h : Records l log := by
    rw [hl, hlog]
    exact records_run settings s acts
  refine ⟨h.own, fun _ _ => h.nodup_own, fun _ _ _ _ _ _ => h.own_unique, fun _ _ => h.listed_iff,
    fun e he later => ?_, fun act fault hfault => ?_, h.size_eq⟩
  · exact (h.run later).get?_of_mem (List.mem_append_left _ he)
  · cases h.ends act with
    | bound hok _ => cases hok.symm.trans hfault
    | refused hrefused hfault' hsame =>
      cases hfault'.symm.trans hfault
      exact ⟨hrefused, hsame⟩

end

def twoBooks : Library Bool Schema Record := start (fun _ => Session.bookOf ∅) ∅

def offeredTwice : List (Act Bool Schema Record) :=
  [.post (Posting.refusing 0 "v").rule, .register true 0 "T", .register false 0 "U",
    .finalize false [(Posting.refusing 1 "w").rule, (Posting.refusing 2 "x").rule] "U"]

/-- The rule is listed where it was bound first, and may be offered again in vain. -/
theorem refused_of_offeredTwice :
    ((twoBooks.run offeredTwice).books true).own "T" = [.refusing 0 "v"] ∧
      ((twoBooks.run offeredTwice).books false).own "U" = [.refusing 1 "w", .refusing 2 "x"] ∧
      ((twoBooks.run offeredTwice).call (.register false 0 "T")).1 =
        .error (.alreadyBound "v" "T") ∧
      ((twoBooks.run offeredTwice).call (.register false 0 "T")).2 = twoBooks.run offeredTwice := by
  obtain ⟨hown, -, -, -, -, hfail, -⟩ :=
    lists_and_bindings_follow_log (fun _ : Bool => (Session.bookOf ∅ : RuleBook Schema Record)) ∅
      offeredTwice _ _ rfl rfl
  have hfault : ((twoBooks.run offeredTwice).call (.register false 0 "T")).1 =
      .error (.alreadyBound "v" "T") := rfl
  exact ⟨(hown true "T").trans rfl, (hown false "U").trans rfl, hfault, (hfail _ _ hfault).2⟩

end Vetting.Library
