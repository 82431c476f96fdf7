import Vetting.Lineage.Walk

/-!
# Where a walk goes

From a type the stand-ins lead to one type after another. They may lead on for
ever, but only by coming back to a type: the walk is the part before that, and
it has every type that they lead to. Each of its types but the last stands in
for another, so it is no longer than the types that do and one.
-/

namespace Vetting.Lineage

def standIns (l : Lineage) (ty : TypeKey) : Nat → Option TypeKey
  | 0 => some ty
  | n + 1 => (l.standIns ty n).bind l.origin?

/-- `path` has the types that stand-ins lead to from `ty`, up to the first that repeats one of them
or was visited. That one is `back`, which is nothing if they lead to no such type. -/
structure Trail (l : Lineage) (visited : List TypeKey) (ty : TypeKey) (path : List TypeKey)
    (back : Option TypeKey) : Prop where
  steps : ∀ n < path.length, path[n]? = l.standIns ty n
  distinct : path.Nodup
  fresh : ∀ x ∈ path, x ∉ visited
  next : l.standIns ty path.length = back
  repeats : ∀ x, back = some x → x ∈ visited ∨ x ∈ path

section
variable {l : Lineage} {visited path : List TypeKey} {ty origin x : TypeKey}
  {back : Option TypeKey}

/-! ## Steps -/

theorem standIns_add (l : Lineage) (ty : TypeKey) (m n : Nat) :
    l.standIns ty (m + n) = (l.standIns ty m).bind (l.standIns · n) := by
  induction n with
  | zero => exact (Option.bind_fun_some _).symm
  | succ n ih =>
    rw [← Nat.add_assoc, standIns, ih, Option.bind_assoc]
    rfl

theorem standIns_succ (l : Lineage) (ty : TypeKey) (n : Nat) :
    l.standIns ty (n + 1) = (l.origin? ty).bind (l.standIns · n) := by
  rw [Nat.add_comm, standIns_add]
  rfl

/-! ## Trails -/

theorem trail_of_mem (h : ty ∈ visited) : l.Trail visited ty path back ↔
    path = [] ∧ back = some ty := by
  constructor
  · intro ht
    cases path with
    | nil => exact ⟨rfl, ht.next.symm⟩
    | cons a path =>
      have ha : some a = some ty := ht.steps 0 (by simp)
      cases ha
      exact absurd h (ht.fresh ty List.mem_cons_self)
  · rintro ⟨rfl, rfl⟩
    refine ⟨nofun, .nil, nofun, rfl, fun x hx => ?_⟩
    cases hx
    exact Or.inl h

theorem Trail.eq_cons (h : ty ∉ visited) (ht : l.Trail visited ty path back) :
    ∃ rest, path = ty :: rest := by
  cases path with
  | nil => exact absurd ((ht.repeats ty ht.next.symm).resolve_right List.not_mem_nil) h
  | cons a rest =>
    have ha : some a = some ty := ht.steps 0 (by simp)
    cases ha
    exact ⟨rest, rfl⟩

theorem trail_of_origin?_eq_none (h : ty ∉ visited) (ho : l.origin? ty = none) :
    l.Trail visited ty path back ↔ path = [ty] ∧ back = none := by
  have hend : l.standIns ty 1 = none := ho
  constructor
  · intro ht
    obtain ⟨rest, rfl⟩ := ht.eq_cons h
    cases rest with
    | nil => exact ⟨rfl, ht.next.symm.trans hend⟩
    | cons a rest =>
      have ha : some a = l.standIns ty 1 := ht.steps 1 (by simp)
      cases ha.trans hend
  · rintro ⟨rfl, rfl⟩
    refine ⟨fun n hn => ?_, List.pairwise_singleton _ ty, by simpa using h, hend, nofun⟩
    obtain rfl : n = 0 := by simpa using hn
    rfl

theorem trail_of_origin? (h : ty ∉ visited) (ho : l.origin? ty = some origin) :
    l.Trail visited ty path back ↔
      ∃ rest, path = ty :: rest ∧ l.Trail (ty :: visited) origin rest back := by
  have hstep : ∀ n, l.standIns ty (n + 1) = l.standIns origin n := by
    intro n
    rw [standIns_succ, ho, Option.bind_some]
  constructor
  · intro ht
    obtain ⟨rest, rfl⟩ := ht.eq_cons h
    obtain ⟨hty, hrest⟩ := List.nodup_cons.1 ht.distinct
    refine ⟨rest, rfl, fun n hn => ?_, hrest, fun x hx => ?_, ?_, fun x hx => ?_⟩
    · rw [← hstep, ← ht.steps (n + 1) (Nat.succ_lt_succ hn)]
      rfl
    · rw [List.mem_cons, not_or]
      exact ⟨fun e => hty (e ▸ hx), ht.fresh x (List.mem_cons_of_mem _ hx)⟩
    · rw [← hstep]
      exact ht.next
    · rcases ht.repeats x hx with hv | hx
      · exact Or.inl (List.mem_cons_of_mem _ hv)
      · rcases List.mem_cons.1 hx with rfl | hx
        · exact Or.inl List.mem_cons_self
        · exact Or.inr hx
  · rintro ⟨rest, rfl, ht⟩
    refine ⟨fun n hn => ?_, ?_, fun x hx => ?_, ?_, fun x hx => ?_⟩
    · cases n with
      | zero => rfl
      | succ n =>
        rw [hstep, ← ht.steps n (Nat.lt_of_succ_lt_succ hn)]
        rfl
    · exact List.nodup_cons.2 ⟨fun hx => ht.fresh ty hx List.mem_cons_self, ht.distinct⟩
    · rcases List.mem_cons.1 hx with rfl | hx
      · exact h
      · exact fun hv => ht.fresh x hx (List.mem_cons_of_mem _ hv)
    · rw [List.length_cons, hstep]
      exact ht.next
    · rcases ht.repeats x hx with hv | hx
      · rcases List.mem_cons.1 hv with rfl | hv
        · exact Or.inr List.mem_cons_self
        · exact Or.inl hv
      · exact Or.inr (List.mem_cons_of_mem _ hx)

/-! ## The walk -/

theorem walkFrom_eq_iff (l : Lineage) (visited : List TypeKey) (ty : TypeKey) :
    l.walkFrom visited ty = (path, back) ↔ l.Trail visited ty path back := by
  fun_induction walkFrom l visited ty generalizing path back with
  | case1 visited ty h =>
    rw [trail_of_mem h, Prod.mk.injEq]
    exact and_congr eq_comm eq_comm
  | case2 visited ty h ho =>
    rw [trail_of_origin?_eq_none h ho, Prod.mk.injEq]
    exact and_congr eq_comm eq_comm
  | case3 visited ty h origin ho _ rest back' hrest ih =>
    rw [trail_of_origin? h ho]
    constructor
    · intro heq
      cases heq
      exact ⟨rest, rfl, ih.1 hrest⟩
    · rintro ⟨rest', rfl, ht⟩
      have heq := hrest.symm.trans (ih.2 ht)
      cases heq
      rfl

theorem trail_walk (l : Lineage) (ty : TypeKey) : l.Trail [] ty (l.walk ty).1 (l.walk ty).2 :=
  (walkFrom_eq_iff l [] ty).1 rfl

theorem walk_eq_iff (l : Lineage) (ty : TypeKey) :
    l.walk ty = (path, back) ↔ l.Trail [] ty path back :=
  walkFrom_eq_iff l [] ty

theorem unvisited_le (l : Lineage) (visited : List TypeKey) :
    l.unvisited visited ≤ l.origins.size := by
  have hkeys : l.origins.keys.length = l.origins.size := List.length_map _
  rw [← hkeys]
  exact List.length_filter_le _ _

theorem Trail.length_le (h : l.Trail visited ty path back) :
    path.length + back.toList.length ≤ l.unvisited visited + 1 := by
  rw [← walkFrom_eq_iff] at h
  fun_induction walkFrom l visited ty generalizing path back with
  | case1 visited ty hv =>
    cases h
    simp
  | case2 visited ty hv ho =>
    cases h
    simp
  | case3 visited ty hv origin ho hlt rest back' hrest ih =>
    cases h
    have := ih hrest
    rw [List.length_cons]
    omega

theorem Trail.mem_iff (h : l.Trail [] ty path back) :
    x ∈ path ↔ ∃ n, l.standIns ty n = some x := by
  constructor
  · intro hx
    obtain ⟨n, hn, rfl⟩ := List.mem_iff_getElem.1 hx
    exact ⟨n, (h.steps n hn).symm.trans (List.getElem?_eq_getElem hn)⟩
  · rintro ⟨n, hn⟩
    induction n using Nat.strongRecOn with
    | ind n ih =>
      by_cases hlt : n < path.length
      · exact List.mem_of_getElem? ((h.steps n hlt).trans hn)
      -- beyond its end the trail starts again where it came back to
      · obtain ⟨k, rfl⟩ := Nat.exists_eq_add_of_le (Nat.le_of_not_lt hlt)
        rw [standIns_add, h.next] at hn
        obtain ⟨y, hy, hk⟩ := Option.bind_eq_some_iff.1 hn
        have hmem := (h.repeats y hy).resolve_left List.not_mem_nil
        obtain ⟨i, hi, rfl⟩ := List.mem_iff_getElem.1 hmem
        have hback : l.standIns ty i = some path[i] :=
          (h.steps i hi).symm.trans (List.getElem?_eq_getElem hi)
        refine ih (i + k) (by omega) ?_
        rw [standIns_add, hback, Option.bind_some]
        exact hk

theorem mem_walk_iff : x ∈ (l.walk ty).1 ↔ ∃ n, l.standIns ty n = some x :=
  (trail_walk l ty).mem_iff

theorem mem_walk_of_origin? {y : TypeKey}
    (h : ∀ origin, l.origin? x = some origin → origin ∈ (l.walk ty).1) (hy : y ∈ (l.walk x).1) :
    y = x ∨ y ∈ (l.walk ty).1 := by
  obtain ⟨n, hn⟩ := mem_walk_iff.1 hy
  cases n with
  | zero => exact Or.inl (Option.some.inj hn).symm
  | succ n =>
    rw [standIns_succ] at hn
    obtain ⟨origin, ho, hfrom⟩ := Option.bind_eq_some_iff.1 hn
    obtain ⟨m, hm⟩ := mem_walk_iff.1 (h origin ho)
    refine Or.inr (mem_walk_iff.2 ⟨m + n, ?_⟩)
    rw [standIns_add, hm, Option.bind_some]
    exact hfrom

end

end Vetting.Lineage
