/-!
# Linearization

Several sequences are merged into one that keeps the order of each. At each
step the first head that is in no tail comes next and is taken off every
sequence that it heads; when every head is in some tail there is no merge.
-/

namespace Vetting.Linearization

variable {α : Type} [DecidableEq α]

/-- The first head, from left to right, that no sequence has further on. -/
def next? (seqs : List (List α)) : Option α :=
  (seqs.filterMap List.head?).find? fun a => seqs.all fun s => a ∉ s.tail

def dropHead (a : α) : List α → List α
  | [] => []
  | b :: s => if b = a then s else b :: s

omit [DecidableEq α] in
def total : List (List α) → Nat
  | [] => 0
  | s :: seqs => s.length + total seqs

theorem length_dropHead_le (a : α) (s : List α) : (dropHead a s).length ≤ s.length := by
  cases s with
  | nil => simp [dropHead]
  | cons b s => rw [dropHead]; split <;> simp

theorem total_map_dropHead_le (a : α) (seqs : List (List α)) :
    total (seqs.map (dropHead a)) ≤ total seqs := by
  induction seqs with
  | nil => simp [total]
  | cons s seqs ih =>
    have := length_dropHead_le a s
    rw [List.map_cons, total, total]
    omega

theorem total_map_dropHead_lt {a : α} {seqs : List (List α)} (h : a ∈ seqs.filterMap List.head?) :
    total (seqs.map (dropHead a)) < total seqs := by
  induction seqs with
  | nil => simp at h
  | cons s seqs ih =>
    rw [List.map_cons, total, total]
    cases s with
    | nil =>
      have := ih (by simpa using h)
      simp [dropHead]
      omega
    | cons b s =>
      have hle := total_map_dropHead_le a seqs
      by_cases hb : b = a
      · subst hb
        simp [dropHead]
        omega
      · have := ih (by simpa [Ne.symm hb] using h)
        have := length_dropHead_le a (b :: s)
        omega

theorem mem_heads_of_next? {a : α} {seqs : List (List α)} (h : next? seqs = some a) :
    a ∈ seqs.filterMap List.head? :=
  List.mem_of_find?_eq_some h

def merge (seqs : List (List α)) : Option (List α) :=
  if seqs.all List.isEmpty then some []
  else match h : next? seqs with
    | none => none
    | some a =>
      have := total_map_dropHead_lt (mem_heads_of_next? h)
      (merge (seqs.map (dropHead a))).map (a :: ·)
termination_by total seqs

end Vetting.Linearization
