import Vetting.NameSet
import Vetting.Table

/-!
# Values by name

A finite map from names to values is its list of entries in increasing order
of the names. Entering a name again replaces its value. Two maps that answer
alike are equal (`NameMap.ext_get?`).
-/

namespace Vetting

def insertEntry (a : String) (v : α) : List (String × α) → List (String × α)
  | [] => [(a, v)]
  | (b, w) :: l =>
    if a < b then (a, v) :: (b, w) :: l
    else if a = b then (a, v) :: l
    else (b, w) :: insertEntry a v l

theorem map_fst_insertEntry (a : String) (v : α) :
    ∀ l : List (String × α), (insertEntry a v l).map (·.1) = insertName a (l.map (·.1))
  | [] => rfl
  | (b, w) :: l => by
    simp only [insertEntry, insertName, List.map_cons]
    split
    · rfl
    · split
      · rename_i h; simp [h]
      · simp [map_fst_insertEntry a v l]

structure NameMap (α : Type) where
  entries : List (String × α)
  increasing : (entries.map (·.1)).Pairwise (· < ·)

namespace NameMap

variable {α : Type}

theorem increasing_nil : (([] : List (String × α)).map (·.1)).Pairwise (· < ·) := .nil

protected def empty : NameMap α := ⟨[], increasing_nil⟩

instance : EmptyCollection (NameMap α) := ⟨.empty⟩

instance : Inhabited (NameMap α) := ⟨∅⟩

def isEmpty (m : NameMap α) : Bool := m.entries.isEmpty

def size (m : NameMap α) : Nat := m.entries.length

def keys (m : NameMap α) : NameSet := ⟨m.entries.map (·.1), m.increasing⟩

def get? (m : NameMap α) (a : String) : Option α := lookupEntry a m.entries

def contains (m : NameMap α) (a : String) : Bool := (m.get? a).isSome

def insert (m : NameMap α) (a : String) (v : α) : NameMap α :=
  ⟨insertEntry a v m.entries, map_fst_insertEntry a v m.entries ▸ pairwise_insertName m.increasing⟩

def ofList (l : List (String × α)) : NameMap α := l.foldl (fun m e => m.insert e.1 e.2) ∅

def restrict (m : NameMap α) (names : NameSet) : NameMap α :=
  ⟨m.entries.filter (·.1 ∈ names),
    m.increasing.sublist ((List.filter_sublist (l := m.entries)).map _)⟩

/-- As many entries as names, and an entry for every name. -/
def hasExactly (m : NameMap α) (names : NameSet) : Bool :=
  m.size == names.size && names.toList.all m.contains

theorem ext {m n : NameMap α} (h : m.entries = n.entries) : m = n := by
  cases m; cases n; simp_all

@[simp] theorem get?_empty (a : String) : (∅ : NameMap α).get? a = none := rfl

theorem lookupEntry_insertEntry (a x : String) (v : α) :
    ∀ {l : List (String × α)}, (l.map (·.1)).Pairwise (· < ·) →
      lookupEntry x (insertEntry a v l) = if x = a then some v else lookupEntry x l
  | [], _ => by
    by_cases h : x = a
    · simp [insertEntry, lookupEntry, h]
    · simp [insertEntry, lookupEntry, h, Ne.symm h]
  | (b, w) :: l, hl => by
    have hb := List.pairwise_cons.1 hl
    rw [insertEntry]
    by_cases hx : x = a
    · subst hx
      split
      · simp [lookupEntry]
      · split
        · simp [lookupEntry]
        · rename_i hne
          simp [lookupEntry, Ne.symm hne, lookupEntry_insertEntry x x v hb.2]
    · split
      · simp [lookupEntry, Ne.symm hx]
      · split
        · rename_i hab
          subst hab
          simp [lookupEntry, Ne.symm hx]
        · simp only [lookupEntry, lookupEntry_insertEntry a x v hb.2, hx, if_false]

@[simp] theorem get?_insert (m : NameMap α) (a x : String) (v : α) :
    (m.insert a v).get? x = if x = a then some v else m.get? x :=
  lookupEntry_insertEntry a x v m.increasing

theorem lt_of_lookupEntry {a x : String} {v w : α} {l : List (String × α)}
    (hl : (((a, v) :: l).map (·.1)).Pairwise (· < ·)) (h : lookupEntry x l = some w) : a < x := by
  refine (List.pairwise_cons.1 hl).1 x (Decidable.byContradiction fun hx => ?_)
  rw [lookupEntry_eq_none.2 hx] at h
  cases h

theorem lookupEntry_head {a : String} {v : α} {l : List (String × α)}
    (hl : (((a, v) :: l).map (·.1)).Pairwise (· < ·)) : lookupEntry a l = none :=
  lookupEntry_eq_none.2 fun h => String.lt_irrefl a ((List.pairwise_cons.1 hl).1 a h)

theorem entries_ext : ∀ {l l' : List (String × α)}, (l.map (·.1)).Pairwise (· < ·) →
    (l'.map (·.1)).Pairwise (· < ·) → (∀ x, lookupEntry x l = lookupEntry x l') → l = l'
  | [], [], _, _, _ => rfl
  | [], (b, w) :: l', _, _, h => by simpa [lookupEntry] using h b
  | (a, v) :: l, [], _, _, h => by simpa [lookupEntry] using h a
  | (a, v) :: l, (b, w) :: l', hl, hl', h => by
    have hab : a = b := by
      refine Decidable.byContradiction fun hne => ?_
      have ha : lookupEntry a l' = some v := by simpa [lookupEntry, Ne.symm hne] using (h a).symm
      have hb : lookupEntry b l = some w := by simpa [lookupEntry, hne] using h b
      exact String.lt_asymm (lt_of_lookupEntry hl' ha) (lt_of_lookupEntry hl hb)
    subst hab
    have hvw : v = w := by simpa [lookupEntry] using h a
    rw [hvw, entries_ext (List.pairwise_cons.1 hl).2 (List.pairwise_cons.1 hl').2 fun x => ?_]
    by_cases hx : a = x
    · subst hx
      rw [lookupEntry_head hl, lookupEntry_head hl']
    · simpa [lookupEntry, hx] using h x

theorem ext_get? {m n : NameMap α} (h : ∀ a, m.get? a = n.get? a) : m = n :=
  ext (entries_ext m.increasing n.increasing h)

end NameMap

end Vetting
