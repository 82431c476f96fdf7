import Vetting.Lineage.Linearization

/-!
# Which sequences have a merge

Sequences have a merge exactly when some list without repetitions keeps the
order of every one of them, and then the merge is such a list. A list that
keeps the order of the sequences goes on doing so when a head is taken off, so
no choice of a head can spoil a merge that was possible; and the sequences that
are left have a head in no tail, since of their members one comes first in the
list.
-/

namespace Vetting.Linearization

/-- `l` repeats nothing and keeps the order of every sequence. -/
structure Orders {α : Type} (seqs : List (List α)) (l : List α) : Prop where
  nodup : l.Nodup
  keeps : ∀ s ∈ seqs, s.Sublist l

section
variable {α : Type} [DecidableEq α] {seqs : List (List α)} {s l r : List α} {a x : α}

/-! ## One round -/

omit [DecidableEq α] in
theorem mem_heads : a ∈ seqs.filterMap List.head? ↔ ∃ s ∈ seqs, s.head? = some a :=
  List.mem_filterMap

theorem not_mem_tail_of_next? (h : next? seqs = some a) : ∀ s ∈ seqs, a ∉ s.tail := by
  simpa using List.find?_some h

theorem exists_next? (ha : a ∈ seqs.filterMap List.head?) (ht : ∀ s ∈ seqs, a ∉ s.tail) :
    ∃ b, next? seqs = some b := by
  rw [← Option.isSome_iff_exists, next?, List.find?_isSome]
  exact ⟨a, ha, by simpa using ht⟩

theorem dropHead_sublist (a : α) (s : List α) : (dropHead a s).Sublist s := by
  cases s with
  | nil => exact List.Sublist.refl _
  | cons b s =>
    rw [dropHead]
    split
    · exact List.sublist_cons_self b s
    · exact List.Sublist.refl _

theorem sublist_cons_dropHead (a : α) (s : List α) : s.Sublist (a :: dropHead a s) := by
  cases s with
  | nil => exact List.nil_sublist _
  | cons b s =>
    rw [dropHead]
    split
    · rename_i h
      subst h
      exact List.Sublist.refl _
    · exact List.sublist_cons_self a (b :: s)

theorem mem_dropHead (h : a ∉ s.tail) : x ∈ dropHead a s ↔ x ∈ s ∧ x ≠ a := by
  cases s with
  | nil => simp [dropHead]
  | cons b s =>
    have hs : x ∈ s → x ≠ a := fun hx e => h (e ▸ hx)
    rw [dropHead]
    split
    · rename_i hb
      subst hb
      constructor
      · exact fun hx => ⟨List.mem_cons_of_mem _ hx, hs hx⟩
      · rintro ⟨hx, hne⟩
        exact (List.mem_cons.1 hx).resolve_left hne
    · rename_i hb
      constructor
      · intro hx
        refine ⟨hx, ?_⟩
        rcases List.mem_cons.1 hx with rfl | hx
        · exact hb
        · exact hs hx
      · exact And.left

/-! ## Merges -/

theorem merge_of_all_empty (h : seqs.all List.isEmpty = true) : merge seqs = some [] := by
  rw [merge, if_pos h]

theorem merge_of_next?_eq_none (h : ¬ seqs.all List.isEmpty = true) (hn : next? seqs = none) :
    merge seqs = none := by
  rw [merge, if_neg h]
  split
  · rfl
  · rename_i hb
    rw [hn] at hb
    cases hb

theorem merge_of_next? (h : next? seqs = some a) :
    merge seqs = (merge (seqs.map (dropHead a))).map (a :: ·) := by
  have hne : ¬ seqs.all List.isEmpty = true := by
    intro hall
    obtain ⟨s, hs, hhead⟩ := mem_heads.1 (mem_heads_of_next? h)
    rw [List.isEmpty_iff.1 (List.all_eq_true.1 hall s hs)] at hhead
    cases hhead
  rw [merge, if_neg hne]
  split
  · rename_i hn
    rw [h] at hn
    cases hn
  · rename_i hb
    rw [h] at hb
    cases hb
    rfl

theorem rounds_induction {motive : List (List α) → Prop}
    (done : ∀ seqs, seqs.all List.isEmpty = true → motive seqs)
    (stuck : ∀ seqs, ¬ seqs.all List.isEmpty = true → next? seqs = none → motive seqs)
    (round : ∀ seqs a, next? seqs = some a → motive (seqs.map (dropHead a)) → motive seqs)
    (seqs : List (List α)) : motive seqs :=
  if hall : seqs.all List.isEmpty = true then done seqs hall
  else match h : next? seqs with
    | none => stuck seqs hall h
    | some a =>
      have := total_map_dropHead_lt (mem_heads_of_next? h)
      round seqs a h (rounds_induction done stuck round (seqs.map (dropHead a)))
termination_by total seqs

theorem mem_of_next? (hn : next? seqs = some a) :
    (x = a ∨ ∃ s ∈ seqs.map (dropHead a), x ∈ s) ↔ ∃ s ∈ seqs, x ∈ s := by
  have htail := not_mem_tail_of_next? hn
  obtain ⟨s₀, hs₀, hhead⟩ := mem_heads.1 (mem_heads_of_next? hn)
  constructor
  · rintro (rfl | ⟨t, ht, hx⟩)
    · exact ⟨s₀, hs₀, List.mem_of_head? hhead⟩
    · obtain ⟨s, hs, rfl⟩ := List.mem_map.1 ht
      exact ⟨s, hs, (dropHead_sublist a s).subset hx⟩
  · rintro ⟨s, hs, hx⟩
    by_cases hxa : x = a
    · exact Or.inl hxa
    · exact Or.inr ⟨_, List.mem_map_of_mem hs, (mem_dropHead (htail s hs)).2 ⟨hx, hxa⟩⟩

theorem not_mem_of_next? (hn : next? seqs = some a) : ¬ ∃ s ∈ seqs.map (dropHead a), a ∈ s := by
  rintro ⟨t, ht, hx⟩
  obtain ⟨s, hs, rfl⟩ := List.mem_map.1 ht
  exact ((mem_dropHead (not_mem_tail_of_next? hn s hs)).1 hx).2 rfl

/-- What comes out repeats nothing, keeps every order, and has the members of the sequences. -/
theorem orders_of_merge (h : merge seqs = some r) :
    Orders seqs r ∧ ∀ x, x ∈ r ↔ ∃ s ∈ seqs, x ∈ s := by
  induction seqs using rounds_induction generalizing r with
  | done seqs hall =>
    rw [merge_of_all_empty hall] at h
    cases h
    have hnil : ∀ s ∈ seqs, s = [] := fun s hs => List.isEmpty_iff.1 (List.all_eq_true.1 hall s hs)
    refine ⟨⟨.nil, fun s hs => List.sublist_nil.2 (hnil s hs)⟩,
      fun x => ⟨fun hx => (List.not_mem_nil hx).elim, ?_⟩⟩
    rintro ⟨s, hs, hx⟩
    rwa [hnil s hs] at hx
  | stuck seqs hne hnext =>
    rw [merge_of_next?_eq_none hne hnext] at h
    cases h
  | round seqs a hnext ih =>
    rw [merge_of_next? hnext] at h
    obtain ⟨r, hr, rfl⟩ := Option.map_eq_some_iff.1 h
    obtain ⟨ho, hmem⟩ := ih hr
    have ha : a ∉ r := fun ha => not_mem_of_next? hnext ((hmem a).1 ha)
    refine ⟨⟨List.nodup_cons.2 ⟨ha, ho.nodup⟩, fun s hs => ?_⟩, fun x => ?_⟩
    · have hdrop : (dropHead a s).Sublist r := ho.keeps _ (List.mem_map_of_mem hs)
      exact (sublist_cons_dropHead a s).trans (hdrop.cons_cons a)
    · rw [List.mem_cons, hmem, mem_of_next? hnext]

/-! ## Sequences in one order have a merge -/

theorem Orders.map_dropHead (h : Orders seqs l) (a : α) : Orders (seqs.map (dropHead a)) l where
  nodup := h.nodup
  keeps := by
    intro t ht
    obtain ⟨s, hs, rfl⟩ := List.mem_map.1 ht
    exact (dropHead_sublist a s).trans (h.keeps s hs)

theorem Orders.exists_next? (h : Orders seqs l) (hne : ¬ seqs.all List.isEmpty = true) :
    ∃ a, next? seqs = some a := by
  -- the first member of `l` that is a head is in no tail
  induction l with
  | nil =>
    refine absurd (List.all_eq_true.2 fun s hs => ?_) hne
    exact List.isEmpty_iff.2 (List.sublist_nil.1 (h.keeps s hs))
  | cons b l ih =>
    obtain ⟨hb, hl⟩ := List.nodup_cons.1 h.nodup
    by_cases hhead : b ∈ seqs.filterMap List.head?
    · refine Linearization.exists_next? hhead fun s hs hmem => hb ?_
      have htail : s.tail.Sublist l := (h.keeps s hs).tail
      exact htail.subset hmem
    · refine ih ⟨hl, fun s hs => ?_⟩
      cases s with
      | nil => exact List.nil_sublist l
      | cons c s =>
        have hc : c ≠ b := fun e => hhead (mem_heads.2 ⟨_, hs, by rw [e]; rfl⟩)
        cases h.keeps _ hs with
        | cons _ h => exact h
        | cons_cons => exact absurd rfl hc

theorem Orders.merge_isSome (h : Orders seqs l) : (merge seqs).isSome = true := by
  induction seqs using rounds_induction with
  | done seqs hall =>
    rw [merge_of_all_empty hall]
    rfl
  | stuck seqs hne hnext =>
    obtain ⟨a, ha⟩ := h.exists_next? hne
    rw [hnext] at ha
    cases ha
  | round seqs a hnext ih =>
    rw [merge_of_next? hnext, Option.isSome_map]
    exact ih (h.map_dropHead a)

/-! ## The loop

Between the rounds a loop keeps the sequences that are not used up and the list
of what was taken off them.
-/

/-- The loop for at most `n` rounds, the last of which finds no sequence left or no head to take;
`none` means that they did not suffice. -/
def loop : Nat → List (List α) → List α → Option (Option (List α))
  | 0, _, _ => none
  | n + 1, seqs, taken =>
    let left := seqs.filter (!·.isEmpty)
    if left.isEmpty then some (some taken)
    else match next? left with
      | none => some none
      | some a => loop n (left.map (dropHead a)) (taken ++ [a])

omit [DecidableEq α] in
theorem heads_filter (seqs : List (List α)) :
    (seqs.filter (!·.isEmpty)).filterMap List.head? = seqs.filterMap List.head? := by
  rw [List.filterMap_filter]
  congr 1
  funext s
  cases s <;> rfl

theorem all_filter (a : α) (seqs : List (List α)) :
    ((seqs.filter (!·.isEmpty)).all fun s => a ∉ s.tail) = seqs.all fun s => a ∉ s.tail := by
  rw [List.all_filter]
  congr 1
  funext s
  cases s <;> simp

theorem next?_filter (seqs : List (List α)) : next? (seqs.filter (!·.isEmpty)) = next? seqs := by
  simp only [next?, heads_filter, all_filter]

theorem filter_map_dropHead (a : α) (seqs : List (List α)) :
    ((seqs.filter (!·.isEmpty)).map (dropHead a)).filter (!·.isEmpty) =
      (seqs.map (dropHead a)).filter (!·.isEmpty) := by
  induction seqs with
  | nil => rfl
  | cons s seqs ih => cases s <;> simp [dropHead, List.filter_cons, ih]

theorem loop_of_filter_eq (seqs : List (List α)) : ∀ {n : Nat} {seqs' : List (List α)},
    total seqs ≤ n → seqs'.filter (!·.isEmpty) = seqs.filter (!·.isEmpty) → ∀ taken : List α,
      loop (n + 1) seqs' taken = some ((merge seqs).map (taken ++ ·)) := by
  induction seqs using rounds_induction with
  | done seqs hall =>
    intro n seqs' _ hleft taken
    have hnil : seqs.filter (!·.isEmpty) = [] := by
      simpa [List.filter_eq_nil_iff] using hall
    simp only [loop, hleft, hnil, List.isEmpty_nil, if_true]
    rw [merge_of_all_empty hall, Option.map_some, List.append_nil]
  | stuck seqs hne hnext =>
    intro n seqs' _ hleft taken
    have hnil : (seqs.filter (!·.isEmpty)).isEmpty = false := by
      simpa [List.filter_eq_nil_iff] using hne
    simp only [loop, hleft, hnil, next?_filter, hnext, Bool.false_eq_true, if_false]
    rw [merge_of_next?_eq_none hne hnext, Option.map_none]
  | round seqs a hnext ih =>
    intro n seqs' hn hleft taken
    have hlt := total_map_dropHead_lt (mem_heads_of_next? hnext)
    obtain ⟨m, rfl⟩ : ∃ m, n = m + 1 := Nat.exists_eq_add_one_of_ne_zero (by omega)
    have hnil : (seqs.filter (!·.isEmpty)).isEmpty = false := by
      rw [List.isEmpty_eq_false_iff]
      intro hnil
      rw [← next?_filter, hnil] at hnext
      cases hnext
    rw [loop]
    simp only [hleft, hnil, next?_filter, hnext, Bool.false_eq_true, if_false]
    rw [ih (by omega) (filter_map_dropHead a seqs), merge_of_next? hnext, Option.map_map]
    simp [Function.comp_def]

theorem loop_eq_merge (seqs : List (List α)) :
    loop (total seqs + 1) seqs [] = some (merge seqs) := by
  rw [loop_of_filter_eq seqs (Nat.le_refl _) rfl]
  simp

theorem merge_eq_of_loop {result : Option (List α)}
    (h : loop (total seqs + 1) seqs [] = some result) : merge seqs = result :=
  Option.some.inj ((loop_eq_merge seqs).symm.trans h)

/-! ## The merge is decided -/

/-- The loop ends, after no more rounds than there are places and one; it finds a list exactly
when some list repeats nothing and keeps every order, and its own list does so and has the members
of the sequences and no others. -/
theorem merge_decides_orders (seqs : List (List α)) :
    loop (total seqs + 1) seqs [] = some (merge seqs) ∧
      ((merge seqs).isSome = true ↔ ∃ l, Orders seqs l) ∧
      ∀ r, merge seqs = some r → Orders seqs r ∧ ∀ x, x ∈ r ↔ ∃ s ∈ seqs, x ∈ s := by
  refine ⟨loop_eq_merge seqs, ⟨fun h => ?_, ?_⟩, fun r => orders_of_merge⟩
  · obtain ⟨r, hr⟩ := Option.isSome_iff_exists.1 h
    exact ⟨r, (orders_of_merge hr).1⟩
  · rintro ⟨l, hl⟩
    exact hl.merge_isSome

end

/-- Both sides of a diamond come before its foot, and neither of two orders can be kept. -/
theorem merge_diamond :
    merge [["left", "foot"], ["right", "foot"], ["left", "right"]] =
        some ["left", "right", "foot"] ∧
      Orders [["left", "foot"], ["right", "foot"], ["left", "right"]]
        ["left", "right", "foot"] ∧
      ¬ ∃ l, Orders [["left"], ["right", "left"], ["left", "right"]] l := by
  have hsome : merge [["left", "foot"], ["right", "foot"], ["left", "right"]] =
      some ["left", "right", "foot"] := merge_eq_of_loop rfl
  have hnone : merge [["left"], ["right", "left"], ["left", "right"]] = none :=
    merge_eq_of_loop rfl
  refine ⟨hsome, ((merge_decides_orders _).2.2 _ hsome).1, fun h => ?_⟩
  have hsome' := (merge_decides_orders _).2.1.2 h
  rw [hnone] at hsome'
  cases hsome'

end Vetting.Linearization
