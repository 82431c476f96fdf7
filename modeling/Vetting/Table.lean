/-!
# Tables in order of first entry

A table keeps one value per key, in the order in which the keys were first
entered. Changing the value of a key that is present leaves the key where it
is. `alterEntry` is the operation on bare entries, for the trees whose branches
are such a table at every node; `Table` packs the entries with the distinctness
of the keys.
-/

namespace Vetting

section
variable {κ α : Type} [DecidableEq κ]

/-- The value under `k` replaced by `f` of what was there; a new key goes last. -/
def alterEntry (k : κ) (f : Option α → α) : List (κ × α) → List (κ × α)
  | [] => [(k, f none)]
  | (k', a) :: l => if k' = k then (k', f (some a)) :: l else (k', a) :: alterEntry k f l

def lookupEntry (k : κ) : List (κ × α) → Option α
  | [] => none
  | (k', a) :: l => if k' = k then some a else lookupEntry k l

theorem lookupEntry_alterEntry (k x : κ) (f : Option α → α) (l : List (κ × α)) :
    lookupEntry x (alterEntry k f l) =
      if x = k then some (f (lookupEntry k l)) else lookupEntry x l := by
  induction l with
  | nil =>
    by_cases h : x = k
    · simp [alterEntry, lookupEntry, h]
    · simp [alterEntry, lookupEntry, h, Ne.symm h]
  | cons e l ih =>
    obtain ⟨k', a⟩ := e
    by_cases hk : k' = k
    · subst hk
      by_cases h : x = k'
      · simp [alterEntry, lookupEntry, h]
      · simp [alterEntry, lookupEntry, h, Ne.symm h]
    · by_cases hx : k' = x
      · subst hx
        simp [alterEntry, lookupEntry, hk]
      · simp [alterEntry, lookupEntry, hk, hx, ih]

theorem lookupEntry_eq_none {k : κ} {l : List (κ × α)} :
    lookupEntry k l = none ↔ k ∉ l.map (·.1) := by
  induction l with
  | nil => simp [lookupEntry]
  | cons e l ih =>
    obtain ⟨k', a⟩ := e
    by_cases h : k' = k
    · simp [lookupEntry, h]
    · simp [lookupEntry, h, Ne.symm h, ih]

theorem keys_alterEntry (k : κ) (f : Option α → α) (l : List (κ × α)) :
    (alterEntry k f l).map (·.1) =
      if k ∈ l.map (·.1) then l.map (·.1) else l.map (·.1) ++ [k] := by
  induction l with
  | nil => rfl
  | cons e l ih =>
    obtain ⟨k', a⟩ := e
    by_cases h : k' = k
    · simp [alterEntry, h]
    · by_cases hm : k ∈ l.map (·.1)
      · simp only [alterEntry, h, if_false, List.map_cons, ih, hm, if_true]
        simp [hm]
      · simp only [alterEntry, h, if_false, List.map_cons, ih, hm]
        simp [hm, Ne.symm h]

theorem alterEntry_alterEntry (k : κ) (f g : Option α → α) (l : List (κ × α)) :
    alterEntry k f (alterEntry k g l) = alterEntry k (fun a => f (some (g a))) l := by
  induction l with
  | nil => simp [alterEntry]
  | cons e l ih =>
    obtain ⟨k', a⟩ := e
    by_cases h : k' = k
    · simp [alterEntry, h]
    · simp [alterEntry, h, ih]

theorem alterEntry_comm {k k' : κ} (f g : Option α → α) (hne : k ≠ k') {l : List (κ × α)}
    (hk : k ∈ l.map (·.1)) :
    alterEntry k f (alterEntry k' g l) = alterEntry k' g (alterEntry k f l) := by
  induction l with
  | nil => cases hk
  | cons e l ih =>
    obtain ⟨x, a⟩ := e
    by_cases hx : x = k
    · subst hx
      simp [alterEntry, hne]
    · by_cases hx' : x = k'
      · subst hx'
        simp [alterEntry, hx]
      · have hl : k ∈ l.map (·.1) := by simpa [Ne.symm hx] using hk
        simp [alterEntry, hx, hx', ih hl]

theorem nodup_alterEntry {k : κ} {f : Option α → α} {l : List (κ × α)}
    (h : (l.map (·.1)).Nodup) : ((alterEntry k f l).map (·.1)).Nodup := by
  rw [keys_alterEntry]
  split
  · exact h
  · rename_i hk
    refine List.nodup_append.2 ⟨h, by simp, ?_⟩
    intro a ha b hb
    rw [List.mem_singleton.1 hb]
    exact fun e => hk (e ▸ ha)

end

/-- One value per key, in order of first entry. -/
structure Table (κ α : Type) where
  entries : List (κ × α)
  distinct : (entries.map (·.1)).Nodup

namespace Table

variable {κ α : Type}

protected def empty : Table κ α := ⟨[], .nil⟩

instance : EmptyCollection (Table κ α) := ⟨.empty⟩

instance : Inhabited (Table κ α) := ⟨∅⟩

def keys (t : Table κ α) : List κ := t.entries.map (·.1)

def values (t : Table κ α) : List α := t.entries.map (·.2)

def size (t : Table κ α) : Nat := t.entries.length

def isEmpty (t : Table κ α) : Bool := t.entries.isEmpty

variable [DecidableEq κ]

def get? (t : Table κ α) (k : κ) : Option α := lookupEntry k t.entries

def contains (t : Table κ α) (k : κ) : Bool := (t.get? k).isSome

def alter (t : Table κ α) (k : κ) (f : Option α → α) : Table κ α :=
  ⟨alterEntry k f t.entries, nodup_alterEntry t.distinct⟩

def set (t : Table κ α) (k : κ) (a : α) : Table κ α := t.alter k fun _ => a

def ofList (l : List (κ × α)) : Table κ α := l.foldl (fun t e => t.set e.1 e.2) ∅

@[simp] theorem get?_empty (k : κ) : (∅ : Table κ α).get? k = none := rfl

@[simp] theorem get?_alter (t : Table κ α) (k x : κ) (f : Option α → α) :
    (t.alter k f).get? x = if x = k then some (f (t.get? k)) else t.get? x :=
  lookupEntry_alterEntry k x f t.entries

@[simp] theorem get?_set (t : Table κ α) (k x : κ) (a : α) :
    (t.set k a).get? x = if x = k then some a else t.get? x :=
  get?_alter t k x _

theorem keys_alter (t : Table κ α) (k : κ) (f : Option α → α) :
    (t.alter k f).keys = if k ∈ t.keys then t.keys else t.keys ++ [k] :=
  keys_alterEntry k f t.entries

theorem get?_eq_none_iff {t : Table κ α} {k : κ} : t.get? k = none ↔ k ∉ t.keys :=
  lookupEntry_eq_none

theorem mem_keys_of_get? {t : Table κ α} {k : κ} {a : α} (h : t.get? k = some a) : k ∈ t.keys := by
  refine Decidable.byContradiction fun hk => ?_
  rw [get?_eq_none_iff.2 hk] at h
  cases h

end Table

end Vetting
