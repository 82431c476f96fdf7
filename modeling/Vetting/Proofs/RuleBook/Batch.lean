import Vetting.Proofs.RuleBook.Lookup
import Vetting.Proofs.RuleBook.Registration
import Vetting.RuleBook.Batch

/-!
# Binding a batch

A batch has the rules that were added to it, in order, but for those that were
declared for an owner. To bind it is to register its rules one after another
until one is refused. So the rules before the first that is bound already are
bound and listed, and those after it are as they were (`registerAll_append`). A
rule belongs to the batch it was added to, so that no two rules of a batch have
the same identity.
-/

namespace Vetting

/-- The rule but for its signature. -/
def Posting.unsigned {ι : Type} (p : Posting ι) : Posting ι :=
  { p with rule := { p.rule with signature := .method } }

def Finalization.after {σ ι : Type} (f : Finalization σ ι) (ps : List (Posting ι))
    (events : List Event) : Finalization σ ι :=
  { f with result := f.result.map (ps ++ ·), events := events ++ f.events }

namespace Batch

section
variable {σ ι : Type}

def offer (b : Batch ι) (p : Posting ι) : Batch ι := stateAfter (fun b' => b') (b.add p)

def ofOffers (offers : List (Posting ι)) : Batch ι := offers.foldl offer ∅

def registerNext (owner : TypeKey) (f : Finalization σ ι) (p : Posting ι) : Finalization σ ι :=
  match f.result with
  | .error _ => f
  | .ok ps => match f.book.register p owner f.bindings f.state with
    | .error r => ⟨.error r.fault, r.state.book, r.state.bindings, r.state.state, f.events⟩
    | .ok e => ⟨.ok (ps ++ [p]), e.book, e.bindings, e.state, f.events ++ [e.event]⟩

/-- The rules `ps` were registered for `owner`, and nothing else was. -/
structure Enrolled (owner : TypeKey) (ps : List (Posting ι))
    (book book' : RuleBook σ ι) (bindings bindings' : Bindings σ) : Prop where
  settings : book' = { book with lists := book'.lists }
  own : ∀ ty, book'.own ty = book.own ty ++ if owner = ty then ps else []
  bound : ∀ p ∈ ps, ∃ x, bindings'.get? p.id = some x ∧ x.owner = owner
  others : ∀ id, id ∉ ps.map Posting.id → bindings'.get? id = bindings.get? id

/-- What is left behind is the same but for the signatures of rules. -/
structure Alike (f f' : Finalization σ ι) : Prop where
  result : f.result.map (List.map Posting.unsigned) = f'.result.map (List.map Posting.unsigned)
  own : ∀ ty, (f.book.own ty).map Posting.unsigned = (f'.book.own ty).map Posting.unsigned
  bindings : f.bindings = f'.bindings
  state : f.state = f'.state
  events : f.events = f'.events

variable {owner : TypeKey} {book : RuleBook σ ι} {bindings : Bindings σ} {s : σ}
  {p : Posting ι} {ps offers : List (Posting ι)}

/-! ## Adding -/

theorem add_eq_error {b : Batch ι} {r : Rejection (Batch ι)} (h : b.add p = .error r) :
    p.rule.owner.isNone = false ∧ r.state = b := by
  unfold add at h
  cases howner : p.rule.owner with
  | some ty =>
    rw [howner] at h
    cases h
    exact ⟨rfl, rfl⟩
  | none =>
    rw [howner] at h
    cases h

theorem pending_offer (b : Batch ι) (p : Posting ι) :
    (b.offer p).pending = b.pending ++ if p.rule.owner.isNone then [p] else [] := by
  unfold offer add
  cases h : p.rule.owner with
  | some ty => simp [stateAfter]
  | none => simp [stateAfter]

theorem pending_foldl_offer (offers : List (Posting ι)) (b : Batch ι) :
    (offers.foldl offer b).pending = b.pending ++ offers.filter (·.rule.owner.isNone) := by
  induction offers generalizing b with
  | nil => simp
  | cons p offers ih =>
    rw [List.foldl_cons, ih, pending_offer, List.append_assoc, List.filter_cons]
    by_cases h : p.rule.owner.isNone
    · simp [h]
    · simp [h]

theorem pending_ofOffers : (ofOffers offers).pending = offers.filter (·.rule.owner.isNone) :=
  (pending_foldl_offer offers ∅).trans (List.nil_append _)

/-! ## One by one -/

theorem after_nil (f : Finalization σ ι) : f.after [] [] = f := by
  unfold Finalization.after
  cases h : f.result <;> simp [Except.map, ← h]

theorem after_after (f : Finalization σ ι) (ps ps' : List (Posting ι)) (events events' : List Event) :
    (f.after ps events).after ps' events' = f.after (ps' ++ ps) (events' ++ events) := by
  unfold Finalization.after
  cases h : f.result <;> simp [Except.map]

theorem registerAll_cons {e : Enrolment σ ι} (h : book.register p owner bindings s = .ok e) :
    registerAll owner (p :: ps) book bindings s =
      (registerAll owner ps e.book e.bindings e.state).after [p] [e.event] := by
  simp only [registerAll, h]
  rfl

theorem registerAll_refused {r : Rejection (Standing σ ι)}
    (h : book.register p owner bindings s = .error r) :
    registerAll owner (p :: ps) book bindings s = ⟨.error r.fault, book, bindings, s, []⟩ := by
  simp only [registerAll, h, RuleBook.register_eq_error h]

theorem foldl_registerNext_refused {f : Finalization σ ι} {fault : Fault}
    (h : f.result = .error fault) : ps.foldl (registerNext owner) f = f := by
  induction ps with
  | nil => rfl
  | cons p ps ih =>
    have hnext : registerNext owner f p = f := by simp only [registerNext, h]
    rw [List.foldl_cons, hnext, ih]

theorem foldl_registerNext : ∀ (ps bound : List (Posting ι)) (book : RuleBook σ ι)
    (bindings : Bindings σ) (s : σ) (events : List Event),
    ps.foldl (registerNext owner) ⟨.ok bound, book, bindings, s, events⟩ =
      (registerAll owner ps book bindings s).after bound events
  | [], bound, book, bindings, s, events => by simp [registerAll, Finalization.after, Except.map]
  | p :: ps, bound, book, bindings, s, events => by
    rw [List.foldl_cons]
    cases h : book.register p owner bindings s with
    | error r =>
      rw [registerAll_refused h]
      have hnext : registerNext owner ⟨.ok bound, book, bindings, s, events⟩ p =
          ⟨.error r.fault, book, bindings, s, events⟩ := by
        simp only [registerNext, h, RuleBook.register_eq_error h]
      rw [hnext, foldl_registerNext_refused rfl]
      simp [Finalization.after, Except.map]
    | ok e =>
      have hnext : registerNext owner ⟨.ok bound, book, bindings, s, events⟩ p =
          ⟨.ok (bound ++ [p]), e.book, e.bindings, e.state, events ++ [e.event]⟩ := by
        simp only [registerNext, h]
      rw [hnext, foldl_registerNext ps, registerAll_cons h, after_after]

theorem finalize_eq_foldl (b : Batch ι) (owner : TypeKey) (book : RuleBook σ ι)
    (bindings : Bindings σ) (s : σ) : b.finalize owner book bindings s =
      b.pending.foldl (registerNext owner) ⟨.ok [], book, bindings, s, []⟩ := by
  rw [foldl_registerNext, after_nil]
  rfl

/-! ## Rules that are not bound -/

theorem Enrolled.nil : Enrolled owner [] book book bindings bindings where
  settings := rfl
  own ty := by simp
  bound p hp := by cases hp
  others id _ := rfl

theorem Enrolled.cons {book' : RuleBook σ ι} {bindings' : Bindings σ} {x : Binding σ}
    (hx : x.owner = owner) (hp : p.id ∉ ps.map Posting.id)
    (hps : Enrolled owner ps (book.enlist owner p) book' (bindings.set p.id x) bindings') :
    Enrolled owner (p :: ps) book book' bindings bindings' := by
  refine ⟨hps.settings, fun ty => ?_, fun q hq => ?_, fun id hid => ?_⟩
  · rw [hps.own, RuleBook.own_enlist, List.append_assoc]
    by_cases hty : owner = ty
    · simp [hty]
    · simp [hty]
  · rcases List.mem_cons.1 hq with hq | hq
    · rw [hq, hps.others p.id hp, Table.get?_set, if_pos rfl]
      exact ⟨x, rfl, hx⟩
    · exact hps.bound q hq
  · simp only [List.map_cons, List.mem_cons, not_or] at hid
    rw [hps.others id hid.2, Table.get?_set, if_neg hid.1]

/-- The rules of a batch that are bound to nothing yet are registered, and the rest is as if they had
been before. -/
theorem registerAll_append (owner : TypeKey) : ∀ (ps : List (Posting ι)) (book : RuleBook σ ι)
    {bindings : Bindings σ} (s : σ), (∀ p ∈ ps, bindings.get? p.id = none) →
    (ps.map Posting.id).Nodup → ∃ book' bindings' s' events,
      Enrolled owner ps book book' bindings bindings' ∧
      ∀ rest, registerAll owner (ps ++ rest) book bindings s =
        (registerAll owner rest book' bindings' s').after ps events
  | [], book, bindings, s, _, _ => by
    refine ⟨book, bindings, s, [], Enrolled.nil, fun rest => ?_⟩
    rw [after_nil, List.nil_append]
  | p :: ps, book, bindings, s, hfree, hids => by
    obtain ⟨hp, hps⟩ := List.nodup_cons.1 hids
    obtain ⟨e, hok, hbook, hbindings, -⟩ :=
      book.register_of_unbound owner s (hfree p List.mem_cons_self)
    have hfree' : ∀ q ∈ ps, e.bindings.get? q.id = none := by
      intro q hq
      have hne : q.id ≠ p.id := fun hid => hp (hid ▸ List.mem_map_of_mem hq)
      rw [hbindings, Table.get?_set, if_neg hne]
      exact hfree q (List.mem_cons_of_mem p hq)
    obtain ⟨book', bindings', s', events, henrolled, hrest⟩ :=
      registerAll_append owner ps e.book e.state hfree' hps
    rw [hbook, hbindings] at henrolled
    refine ⟨book', bindings', s', e.event :: events, henrolled.cons rfl hp, fun rest => ?_⟩
    rw [List.cons_append, registerAll_cons hok, hrest, after_after]
    rfl

theorem registerAll_of_free (hfree : ∀ p ∈ ps, bindings.get? p.id = none)
    (hids : (ps.map Posting.id).Nodup) :
    (registerAll owner ps book bindings s).result = .ok ps ∧
      Enrolled owner ps book (registerAll owner ps book bindings s).book bindings
        (registerAll owner ps book bindings s).bindings := by
  obtain ⟨book', bindings', s', events, henrolled, hrest⟩ :=
    registerAll_append owner ps book s hfree hids
  have hall := hrest []
  rw [List.append_nil] at hall
  rw [hall]
  exact ⟨congrArg Except.ok (List.append_nil ps), henrolled⟩

theorem registerAll_of_bound {before later : List (Posting ι)} {x : Binding σ}
    (hps : ps = before ++ p :: later) (hfree : ∀ q ∈ before, bindings.get? q.id = none)
    (hbound : bindings.get? p.id = some x) (hids : (ps.map Posting.id).Nodup) :
    (registerAll owner ps book bindings s).result = .error (.alreadyBound p.rule.name x.owner) ∧
      Enrolled owner before book (registerAll owner ps book bindings s).book bindings
        (registerAll owner ps book bindings s).bindings := by
  subst hps
  rw [List.map_append] at hids
  obtain ⟨hbefore, -, hdisjoint⟩ := List.nodup_append.1 hids
  obtain ⟨book', bindings', s', events, henrolled, hrest⟩ :=
    registerAll_append owner before book s hfree hbefore
  have hp : p.id ∉ before.map Posting.id := fun hmem => hdisjoint p.id hmem p.id (by simp) rfl
  have hbound' : bindings'.get? p.id = some x := by rw [henrolled.others p.id hp, hbound]
  have hrefused := book'.register_of_bound p owner s' hbound'
  rw [hrest, registerAll_refused hrefused]
  exact ⟨rfl, henrolled⟩

/-! ## Signatures -/

theorem eq_of_unsigned_eq {p' : Posting ι} (h : p.unsigned = p'.unsigned) :
    p.id = p'.id ∧ p.rule.toRuleInfo = p'.rule.toRuleInfo := by
  unfold Posting.unsigned at h
  have hid := congrArg (fun q : Posting ι => q.id) h
  have hinfo := congrArg (fun q : Posting ι => q.rule.toRuleInfo) h
  exact ⟨hid, hinfo⟩

theorem reading_congr {book' : RuleBook σ ι} (hdependencies : book.dependencies = book'.dependencies)
    (hshapes : book.shapes = book'.shapes) : book.reading = book'.reading := by
  unfold RuleBook.reading RuleBook.identified
  rw [hdependencies, hshapes]

theorem Alike.after {f f' : Finalization σ ι} {ps' : List (Posting ι)} (h : Alike f f')
    (hps : ps.map Posting.unsigned = ps'.map Posting.unsigned) (events : List Event) :
    Alike (f.after ps events) (f'.after ps' events) := by
  have hmap : ∀ (r : Except Fault (List (Posting ι))) (qs : List (Posting ι)),
      (r.map (qs ++ ·)).map (List.map Posting.unsigned) =
        (r.map (List.map Posting.unsigned)).map (qs.map Posting.unsigned ++ ·) := by
    intro r qs
    cases r with
    | error fault => rfl
    | ok rs => simp [Except.map]
  refine ⟨?_, h.own, h.bindings, h.state, congrArg (events ++ ·) h.events⟩
  show (f.result.map (ps ++ ·)).map _ = (f'.result.map (ps' ++ ·)).map _
  rw [hmap, hmap, h.result, hps]

theorem registerAll_alike (owner : TypeKey) : ∀ {ps ps' : List (Posting ι)}
    {book book' : RuleBook σ ι} (bindings : Bindings σ) (s : σ),
    ps.map Posting.unsigned = ps'.map Posting.unsigned →
    book.dependencies = book'.dependencies → book.shapes = book'.shapes →
    (∀ ty, (book.own ty).map Posting.unsigned = (book'.own ty).map Posting.unsigned) →
    Alike (registerAll owner ps book bindings s) (registerAll owner ps' book' bindings s)
  | [], [], book, book', bindings, s, _, _, _, hown => ⟨rfl, hown, rfl, rfl, rfl⟩
  | p :: ps, p' :: ps', book, book', bindings, s, hps, hdependencies, hshapes, hown => by
    obtain ⟨hp, hps⟩ := List.cons_eq_cons.1 hps
    obtain ⟨hid, hinfo⟩ := eq_of_unsigned_eq hp
    cases h : bindings.get? p.id with
    | some x =>
      have h' : bindings.get? p'.id = some x := hid ▸ h
      rw [registerAll_refused (book.register_of_bound p owner s h),
        registerAll_refused (book'.register_of_bound p' owner s h'), hinfo]
      exact ⟨rfl, hown, rfl, rfl, rfl⟩
    | none =>
      have h' : bindings.get? p'.id = none := hid ▸ h
      obtain ⟨e, hok, hbook, hbindings, hstate, hevent⟩ := book.register_of_unbound owner s h
      obtain ⟨e', hok', hbook', hbindings', hstate', hevent'⟩ :=
        book'.register_of_unbound owner s h'
      rw [reading_congr hdependencies hshapes, hshapes, hid, hinfo, ← hbindings'] at hbindings
      rw [reading_congr hdependencies hshapes, hinfo, ← hstate'] at hstate
      rw [reading_congr hdependencies hshapes, hinfo, ← hevent'] at hevent
      have hown' : ∀ ty, (e.book.own ty).map Posting.unsigned =
          (e'.book.own ty).map Posting.unsigned := by
        intro ty
        rw [hbook, hbook', RuleBook.own_enlist, RuleBook.own_enlist, List.map_append,
          List.map_append, hown]
        by_cases hty : owner = ty
        · simp [hty, hp]
        · simp [hty]
      rw [registerAll_cons hok, registerAll_cons hok', hbindings, hstate, hevent]
      refine (registerAll_alike owner _ _ hps ?_ ?_ hown').after (by simp [hp]) _
      · rw [hbook, hbook']
        exact hdependencies
      · rw [hbook, hbook']
        exact hshapes

theorem finalize_alike {offers' : List (Posting ι)} (owner : TypeKey) (book : RuleBook σ ι)
    (bindings : Bindings σ) (s : σ)
    (h : offers.map Posting.unsigned = offers'.map Posting.unsigned) :
    Alike ((ofOffers offers).finalize owner book bindings s)
      ((ofOffers offers').finalize owner book bindings s) := by
  have hpending : (ofOffers offers).pending.map Posting.unsigned =
      (ofOffers offers').pending.map Posting.unsigned := by
    have hfilter := congrArg (List.filter (·.rule.owner.isNone)) h
    rw [List.filter_map, List.filter_map] at hfilter
    rw [pending_ofOffers, pending_ofOffers]
    exact hfilter
  exact registerAll_alike owner bindings s hpending rfl rfl fun _ => rfl

/-- A batch holds the rules that were offered to it but for those that have an owner of their own,
which leave it as it was. Binding it is to register them one by one as far as the first that is refused, whatever their
signatures. Nothing is refused if none of them is bound yet; and the first that is bound names its
owner, when those before it are registered already, and leaves those after it as they were. -/
theorem finalize_registers_one_by_one (offers : List (Posting ι)) (owner : TypeKey)
    (book : RuleBook σ ι) (bindings : Bindings σ) (s : σ) :
    let b := ofOffers offers
    let f := b.finalize owner book bindings s
    b.pending = offers.filter (·.rule.owner.isNone) ∧
    (∀ p r, b.add p = .error r → p.rule.owner.isNone = false ∧ r.state = b) ∧
    f = b.pending.foldl (registerNext owner) ⟨.ok [], book, bindings, s, []⟩ ∧
    (∀ offers', offers.map Posting.unsigned = offers'.map Posting.unsigned →
      Alike f ((ofOffers offers').finalize owner book bindings s)) ∧
    ((b.pending.map Posting.id).Nodup →
      ((∀ p ∈ b.pending, bindings.get? p.id = none) → f.result = .ok b.pending ∧
        Enrolled owner b.pending book f.book bindings f.bindings) ∧
      ∀ before p later x, b.pending = before ++ p :: later →
        (∀ q ∈ before, bindings.get? q.id = none) → bindings.get? p.id = some x →
        f.result = .error (.alreadyBound p.rule.name x.owner) ∧
        Enrolled owner before book f.book bindings f.bindings ∧
        ∀ q ∈ later, f.bindings.get? q.id = bindings.get? q.id) := by
  refine ⟨pending_ofOffers, fun p r => add_eq_error, finalize_eq_foldl _ _ _ _ _,
    fun offers' h => finalize_alike owner book bindings s h, fun hids => ⟨fun hfree => ?_, ?_⟩⟩
  · exact registerAll_of_free hfree hids
  · intro before p later x hpending hfree hbound
    obtain ⟨hresult, henrolled⟩ := registerAll_of_bound hpending hfree hbound hids
    refine ⟨hresult, henrolled, fun q hq => henrolled.others q.id ?_⟩
    rw [hpending, List.map_append] at hids
    obtain ⟨-, -, hdisjoint⟩ := List.nodup_append.1 hids
    intro hmem
    exact hdisjoint q.id hmem q.id (List.mem_map_of_mem (List.mem_cons_of_mem p hq)) rfl

def fourOffers : List (Posting Record) :=
  let first := Posting.refusing 0 "first"
  let owned := Posting.refusing 1 "owned"
  [⟨0, { first.rule with signature := .function "U" }⟩, ⟨1, { owned.rule with owner := some "V" }⟩,
    .refusing 2 "taken", .refusing 3 "last"]

/-- The third of the rules is bound to `W`, so the first is bound to `T`, whatever is noted at its
signature, and the last to nothing. If the third were not bound, none would be refused. -/
theorem finalize_fourOffers :
    let taken : Bindings Unit := Table.ofList [(2, ⟨"W", ∅, .none⟩)]
    let f := (ofOffers fourOffers).finalize "T" .plain taken ()
    let f' := (ofOffers fourOffers).finalize "T" .plain ∅ ()
    f.result = .error (.alreadyBound "taken" "W") ∧ (f.book.own "T").map Posting.id = [0] ∧
      (f.bindings.get? 3).isNone ∧
      Alike f ((ofOffers (fourOffers.map Posting.unsigned)).finalize "T" .plain taken ()) ∧
      f'.result = .ok (ofOffers fourOffers).pending ∧
      (f'.book.own "T").map Posting.id = [0, 2, 3] := by
  intro taken f f'
  have hids : ((ofOffers fourOffers).pending.map Posting.id).Nodup := by decide
  obtain ⟨-, -, -, halike, hbound⟩ :=
    finalize_registers_one_by_one fourOffers "T" RuleBook.plain taken ()
  obtain ⟨-, -, -, -, hfree⟩ := finalize_registers_one_by_one fourOffers "T" RuleBook.plain ∅ ()
  obtain ⟨hresult, hfirst, hlater⟩ := (hbound hids).2 (fourOffers.take 1) (.refusing 2 "taken")
    [.refusing 3 "last"] ⟨"W", ∅, .none⟩ rfl (by decide) rfl
  obtain ⟨hresult', hall⟩ := (hfree hids).1 fun _ _ => rfl
  have hlast : f.bindings.get? 3 = taken.get? 3 := hlater _ (List.mem_singleton_self _)
  refine ⟨hresult, ?_, ?_, halike _ rfl, hresult', ?_⟩
  · rw [hfirst.own]
    rfl
  · rw [hlast]
    rfl
  · rw [hall.own]
    rfl

end

end Batch

end Vetting
