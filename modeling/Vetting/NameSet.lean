/-!
# Sets of names

A set of names is its increasing list, so two sets with the same members are
equal (`NameSet.ext`). Names are put in one by one (`mem_insert`), and all other
sets are `ofList` of a list, so that their members follow from `mem_ofList`.
-/

namespace Vetting

def insertName (a : String) : List String → List String
  | [] => [a]
  | b :: l => if a < b then a :: b :: l else if a = b then b :: l else b :: insertName a l

theorem mem_insertName {a x : String} {l : List String} : x ∈ insertName a l ↔ x = a ∨ x ∈ l := by
  induction l with
  | nil => simp [insertName]
  | cons b l ih =>
    rw [insertName]
    split
    · simp
    · split
      · rename_i h; subst h; simp
      · simp only [List.mem_cons, ih]
        constructor
        · rintro (h | h | h) <;> simp [h]
        · rintro (h | h | h) <;> simp [h]

theorem pairwise_insertName {a : String} {l : List String} (h : l.Pairwise (· < ·)) :
    (insertName a l).Pairwise (· < ·) := by
  induction l with
  | nil => simp [insertName]
  | cons b l ih =>
    have hb := List.pairwise_cons.1 h
    rw [insertName]
    split
    · rename_i hab
      refine List.pairwise_cons.2 ⟨fun x hx => ?_, h⟩
      rcases List.mem_cons.1 hx with rfl | hx
      · exact hab
      · exact String.lt_trans hab (hb.1 x hx)
    · split
      · exact h
      · rename_i hab hne
        refine List.pairwise_cons.2 ⟨fun x hx => ?_, ih hb.2⟩
        rcases mem_insertName.1 hx with rfl | hx
        · rcases Std.lt_trichotomy x b with h' | h' | h'
          · exact absurd h' hab
          · exact absurd h' hne
          · exact h'
        · exact hb.1 x hx

structure NameSet where
  toList : List String
  increasing : toList.Pairwise (· < ·)
deriving DecidableEq

namespace NameSet

instance : Membership String NameSet := ⟨fun s a => a ∈ s.toList⟩

instance {a : String} {s : NameSet} : Decidable (a ∈ s) := inferInstanceAs (Decidable (a ∈ s.toList))

@[simp] theorem mem_toList {a : String} {s : NameSet} : a ∈ s.toList ↔ a ∈ s := Iff.rfl

protected def empty : NameSet := ⟨[], .nil⟩

instance : EmptyCollection NameSet := ⟨.empty⟩

instance : Inhabited NameSet := ⟨∅⟩

def isEmpty (s : NameSet) : Bool := s.toList.isEmpty

def size (s : NameSet) : Nat := s.toList.length

def insert (a : String) (s : NameSet) : NameSet :=
  ⟨insertName a s.toList, pairwise_insertName s.increasing⟩

def ofList : List String → NameSet
  | [] => ∅
  | a :: l => (ofList l).insert a

protected def union (s t : NameSet) : NameSet := ofList (s.toList ++ t.toList)

instance : Union NameSet := ⟨NameSet.union⟩

protected def inter (s t : NameSet) : NameSet := ofList (s.toList.filter (· ∈ t))

instance : Inter NameSet := ⟨NameSet.inter⟩

def map (f : String → String) (s : NameSet) : NameSet := ofList (s.toList.map f)

def filterMap (f : String → Option String) (s : NameSet) : NameSet := ofList (s.toList.filterMap f)

/-- Some name is in both sets. -/
def meets (s t : NameSet) : Bool := s.toList.any (· ∈ t)

theorem not_mem_empty (a : String) : a ∉ (∅ : NameSet) := List.not_mem_nil

@[simp] theorem mem_insert {a x : String} {s : NameSet} : x ∈ s.insert a ↔ x = a ∨ x ∈ s :=
  mem_insertName

@[simp] theorem mem_ofList {x : String} {l : List String} : x ∈ ofList l ↔ x ∈ l := by
  induction l with
  | nil => exact ⟨fun h => h, fun h => h⟩
  | cons a l ih => rw [ofList, mem_insert, ih, List.mem_cons]

@[simp] theorem mem_union {x : String} {s t : NameSet} : x ∈ s ∪ t ↔ x ∈ s ∨ x ∈ t := by
  show x ∈ ofList _ ↔ _
  simp

@[simp] theorem mem_inter {x : String} {s t : NameSet} : x ∈ s ∩ t ↔ x ∈ s ∧ x ∈ t := by
  show x ∈ ofList _ ↔ _
  simp

@[simp] theorem mem_map {x : String} {f : String → String} {s : NameSet} :
    x ∈ s.map f ↔ ∃ a ∈ s, f a = x := by
  simp [map]

@[simp] theorem mem_filterMap {x : String} {f : String → Option String} {s : NameSet} :
    x ∈ s.filterMap f ↔ ∃ a ∈ s, f a = some x := by
  simp [filterMap]

theorem meets_iff {s t : NameSet} : s.meets t = true ↔ ∃ a ∈ s, a ∈ t := by
  simp [meets]

@[simp] theorem meets_empty (s : NameSet) : s.meets ∅ = false :=
  List.any_eq_false.2 fun a _ => by simpa using not_mem_empty a

@[simp] theorem meets_union (s t u : NameSet) : s.meets (t ∪ u) = (s.meets t || s.meets u) := by
  rw [Bool.eq_iff_iff, Bool.or_eq_true, meets_iff, meets_iff, meets_iff]
  constructor
  · rintro ⟨a, ha, h⟩
    rcases mem_union.1 h with ht | hu
    · exact Or.inl ⟨a, ha, ht⟩
    · exact Or.inr ⟨a, ha, hu⟩
  · rintro (⟨a, ha, h⟩ | ⟨a, ha, h⟩)
    · exact ⟨a, ha, mem_union.2 (Or.inl h)⟩
    · exact ⟨a, ha, mem_union.2 (Or.inr h)⟩

theorem not_isEmpty_and_meets (s t : NameSet) : (!t.isEmpty && s.meets t) = s.meets t := by
  cases h : t.isEmpty with
  | false => simp
  | true =>
    have ht : t.toList = [] := List.isEmpty_iff.1 h
    have hs : s.meets t = false :=
      List.any_eq_false.2 fun a _ => by simp [← mem_toList, ht]
    rw [hs]; rfl

theorem increasing_ext : ∀ {l l' : List String}, l.Pairwise (· < ·) → l'.Pairwise (· < ·) →
    (∀ x, x ∈ l ↔ x ∈ l') → l = l'
  | [], [], _, _, _ => rfl
  | [], b :: l', _, _, h => absurd ((h b).2 (by simp)) (by simp)
  | a :: l, [], _, _, h => absurd ((h a).1 (by simp)) (by simp)
  | a :: l, b :: l', hl, hl', h => by
    have ha := List.pairwise_cons.1 hl
    have hb := List.pairwise_cons.1 hl'
    have hab : a = b := by
      rcases List.mem_cons.1 ((h a).1 (by simp)) with e | ha'
      · exact e
      · rcases List.mem_cons.1 ((h b).2 (by simp)) with e | hb'
        · exact e.symm
        · exact absurd (ha.1 b hb') (String.lt_asymm (hb.1 a ha'))
    subst hab
    rw [increasing_ext ha.2 hb.2 fun x => ?_]
    constructor
    · intro hx
      rcases List.mem_cons.1 ((h x).1 (List.mem_cons_of_mem _ hx)) with e | hx'
      · exact absurd (ha.1 x hx) (e ▸ String.lt_irrefl _)
      · exact hx'
    · intro hx
      rcases List.mem_cons.1 ((h x).2 (List.mem_cons_of_mem _ hx)) with e | hx'
      · exact absurd (hb.1 x hx) (e ▸ String.lt_irrefl _)
      · exact hx'

@[ext] theorem ext {s t : NameSet} (h : ∀ x, x ∈ s ↔ x ∈ t) : s = t := by
  have := increasing_ext s.increasing t.increasing h
  cases s; cases t; simp_all

@[simp] theorem union_empty (s : NameSet) : s ∪ ∅ = s := by
  ext x
  simp [not_mem_empty]

end NameSet

end Vetting
