import Mathlib.Data.List.Perm.Subperm
import Vetting.NameMap

/-!
# Restricting values by name

Restricted to some names, a map answers for these as before and for no other
(`get?_restrict`), so that two restrictions are one to the names of both
(`restrict_restrict`). A map has exactly the names that it has values for
(`hasExactly_iff`), and restricted to them it is the same map.
-/

namespace Vetting

theorem lookupEntry_filter {α : Type} (names : NameSet) (a : String) (l : List (String × α)) :
    lookupEntry a (l.filter (·.1 ∈ names)) = if a ∈ names then lookupEntry a l else none := by
  induction l with
  | nil => simp [lookupEntry]
  | cons e l ih =>
    obtain ⟨b, v⟩ := e
    by_cases hb : b ∈ names
    · rw [List.filter_cons_of_pos (by simpa using hb), lookupEntry, lookupEntry, ih]
      by_cases hab : b = a
      · subst hab
        simp [hb]
      · simp [hab]
    · rw [List.filter_cons_of_neg (by simpa using hb), ih, lookupEntry]
      by_cases hab : b = a
      · subst hab
        simp [hb]
      · simp [hab]

theorem NameSet.nodup_toList (s : NameSet) : s.toList.Nodup :=
  s.increasing.imp fun h => String.ne_of_lt h

namespace NameMap

variable {α : Type} {m : NameMap α} {names : NameSet}

theorem isEmpty_iff : m.isEmpty = true ↔ m = ∅ := by
  rw [isEmpty, List.isEmpty_iff]
  exact ⟨fun h => ext h, fun h => congrArg entries h⟩

theorem get?_eq_none_iff {a : String} : m.get? a = none ↔ a ∉ m.keys := lookupEntry_eq_none

theorem contains_iff {a : String} : m.contains a = true ↔ a ∈ m.keys := by
  rw [contains, ← not_iff_not, Bool.not_eq_true, Option.isSome_eq_false_iff,
    Option.isNone_iff_eq_none]
  exact get?_eq_none_iff

theorem mem_keys_iff {a : String} : a ∈ m.keys ↔ ∃ v, m.get? a = some v :=
  contains_iff.symm.trans Option.isSome_iff_exists

theorem get?_restrict (m : NameMap α) (names : NameSet) (a : String) :
    (m.restrict names).get? a = if a ∈ names then m.get? a else none :=
  lookupEntry_filter names a m.entries

theorem get?_restrict_of_mem {a : String} (h : a ∈ names) :
    (m.restrict names).get? a = m.get? a := by
  rw [get?_restrict, if_pos h]

theorem restrict_eq_self (h : ∀ a ∈ m.keys, a ∈ names) : m.restrict names = m := by
  refine ext_get? fun a => ?_
  rw [get?_restrict]
  by_cases ha : a ∈ names
  · rw [if_pos ha]
  · rw [if_neg ha]
    exact (get?_eq_none_iff.2 fun hkey => ha (h a hkey)).symm

theorem restrict_congr {m' : NameMap α} (h : ∀ a ∈ names, m.get? a = m'.get? a) :
    m.restrict names = m'.restrict names := by
  refine ext_get? fun a => ?_
  rw [get?_restrict, get?_restrict]
  by_cases ha : a ∈ names
  · rw [if_pos ha, if_pos ha, h a ha]
  · rw [if_neg ha, if_neg ha]

theorem restrict_restrict (m : NameMap α) (names others : NameSet) :
    (m.restrict names).restrict others = m.restrict (names ∩ others) := by
  refine ext_get? fun a => ?_
  rw [get?_restrict, get?_restrict, get?_restrict]
  by_cases ha : a ∈ names
  · simp [ha]
  · simp [ha]

theorem keys_restrict (m : NameMap α) (names : NameSet) :
    (m.restrict names).keys = m.keys ∩ names := by
  ext a
  rw [NameSet.mem_inter, mem_keys_iff, mem_keys_iff, get?_restrict]
  by_cases ha : a ∈ names
  · simp [ha]
  · simp [ha]

theorem keys_restrict_eq_iff : (m.restrict names).keys = names ↔ ∀ a ∈ names, a ∈ m.keys := by
  rw [keys_restrict]
  constructor
  · intro h a ha
    rw [← h] at ha
    exact (NameSet.mem_inter.1 ha).1
  · intro h
    ext a
    rw [NameSet.mem_inter]
    exact ⟨And.right, fun ha => ⟨h a ha, ha⟩⟩

/-- As many names that all have a value leave no room for another. -/
theorem hasExactly_iff : m.hasExactly names = true ↔ m.keys = names := by
  have hsize : m.size = m.keys.toList.length := (List.length_map _).symm
  rw [hasExactly, Bool.and_eq_true, beq_iff_eq, List.all_eq_true, hsize]
  constructor
  · rintro ⟨hlength, hall⟩
    have hsubset : names.toList ⊆ m.keys.toList := fun a ha => contains_iff.1 (hall a ha)
    have hsubperm := List.subperm_of_subset names.nodup_toList hsubset
    exact NameSet.ext fun a => (hsubperm.perm_of_length_le (Nat.le_of_eq hlength)).mem_iff.symm
  · rintro rfl
    exact ⟨rfl, fun a ha => contains_iff.2 ha⟩

theorem restrict_of_hasExactly (h : m.hasExactly names = true) : m.restrict names = m :=
  restrict_eq_self fun _ ha => hasExactly_iff.1 h ▸ ha

end NameMap

end Vetting
