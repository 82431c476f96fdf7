import Vetting.Json.Typed
import Vetting.Report.Basic

/-!
# Reports as JSON

A report is written as an object of its messages and its branches, each left
out when empty. Read back, a branch that is given twice keeps its first place
and its last value. Findings are objects of a path and a message.
-/

namespace Vetting

namespace ReportTree

mutual

def toJson : ReportTree → Json
  | node ms bs => .object
      ((if ms.isEmpty then [] else [("messages", .strings ms)]) ++
        (if bs.isEmpty then [] else [("children", .object (branchesToJson bs))]))

def branchesToJson : Branches → List (String × Json)
  | [] => []
  | (k, t) :: l => (k, t.toJson) :: branchesToJson l

end

mutual

def ofJson? (depth : Nat) : Json → Option ReportTree
  | .object es => if depth = 0 then none else ofParts? (depth - 1) es none none
  | .array [] => if depth = 0 then none else some (node [] [])
  | .array [ms] =>
    if depth = 0 then none else do pure (node (← ms.asStrings? (depth - 1)) [])
  | .array [ms, bs] =>
    if depth = 0 then none
    else do pure (node (← ms.asStrings? (depth - 1)) (← branchesOfJson? (depth - 1) bs))
  | _ => none

/-- The two parts, each at most once, and anything else skipped. -/
def ofParts? (depth : Nat) : List (String × Json) → Option (List String) → Option Branches →
    Option ReportTree
  | [], ms, bs => some (node (ms.getD []) (bs.getD []))
  | (k, j) :: l, ms, bs =>
    if k = "messages" then
      if ms.isSome then none else do ofParts? depth l (some (← j.asStrings? depth)) bs
    else if k = "children" then
      if bs.isSome then none else do ofParts? depth l ms (some (← branchesOfJson? depth j))
    else ofParts? depth l ms bs

def branchesOfJson? (depth : Nat) : Json → Option Branches
  | .object es => if depth = 0 then none else branchesOfEntries? (depth - 1) es []
  | _ => none

def branchesOfEntries? (depth : Nat) : List (String × Json) → Branches → Option Branches
  | [], bs => some bs
  | (k, j) :: l, bs => do
    let t ← ofJson? depth j
    branchesOfEntries? depth l (alterEntry k (fun _ => t) bs)

end

/-- Branches of distinct keys, all the way down. -/
def Sound (bs : Branches) : Prop := (bs.map (·.1)).Nodup ∧ AllDistinct bs

theorem sound_nil : Sound [] := ⟨.nil, trivial⟩

mutual

theorem distinct_ofJson? : ∀ {depth : Nat} {j : Json} {t : ReportTree},
    ofJson? depth j = some t → t.Distinct
  | depth, .object es, t, h => by
    rw [ofJson?] at h
    split at h
    · cases h
    · exact distinct_ofParts? (fun l (h : none = some l) => by cases h) h
  | depth, .array [], t, h => by
    rw [ofJson?] at h
    split at h
    · cases h
    · exact Option.some.inj h ▸ ⟨.nil, trivial⟩
  | depth, .array [ms], t, h => by
    rw [ofJson?] at h
    split at h
    · cases h
    · obtain ⟨ms', _, h⟩ := Option.bind_eq_some_iff.1 h
      exact Option.some.inj h ▸ ⟨.nil, trivial⟩
  | depth, .array [ms, bs], t, h => by
    rw [ofJson?] at h
    split at h
    · cases h
    · obtain ⟨ms', _, h⟩ := Option.bind_eq_some_iff.1 h
      obtain ⟨bs', hb, h⟩ := Option.bind_eq_some_iff.1 h
      exact Option.some.inj h ▸ sound_branchesOfJson? hb
  | _, .array (_ :: _ :: _ :: _), _, h => by simp [ofJson?] at h
  | _, .null, _, h => by simp [ofJson?] at h
  | _, .bool _, _, h => by simp [ofJson?] at h
  | _, .number _, _, h => by simp [ofJson?] at h
  | _, .string _, _, h => by simp [ofJson?] at h
  | _, .unreadable, _, h => by simp [ofJson?] at h

theorem distinct_ofParts? : ∀ {depth : Nat} {es : List (String × Json)} {ms : Option (List String)}
    {bs : Option Branches} {t : ReportTree}, (∀ l, bs = some l → Sound l) →
      ofParts? depth es ms bs = some t → t.Distinct
  | depth, [], ms, bs, t, hs, h => by
    rw [ofParts?] at h
    cases bs with
    | none => exact Option.some.inj h ▸ ⟨.nil, trivial⟩
    | some l => exact Option.some.inj h ▸ hs l rfl
  | depth, (k, j) :: l, ms, bs, t, hs, h => by
    rw [ofParts?] at h
    split at h
    · split at h
      · cases h
      · obtain ⟨ms', _, h⟩ := Option.bind_eq_some_iff.1 h
        exact distinct_ofParts? hs h
    · split at h
      · split at h
        · cases h
        · obtain ⟨bs', hb, h⟩ := Option.bind_eq_some_iff.1 h
          refine distinct_ofParts? (fun l hl => ?_) h
          exact Option.some.inj hl ▸ sound_branchesOfJson? hb
      · exact distinct_ofParts? hs h

theorem sound_branchesOfJson? : ∀ {depth : Nat} {j : Json} {bs : Branches},
    branchesOfJson? depth j = some bs → Sound bs
  | depth, .object es, bs, h => by
    rw [branchesOfJson?] at h
    split at h
    · cases h
    · exact sound_branchesOfEntries? sound_nil h
  | _, .array _, _, h => by simp [branchesOfJson?] at h
  | _, .null, _, h => by simp [branchesOfJson?] at h
  | _, .bool _, _, h => by simp [branchesOfJson?] at h
  | _, .number _, _, h => by simp [branchesOfJson?] at h
  | _, .string _, _, h => by simp [branchesOfJson?] at h
  | _, .unreadable, _, h => by simp [branchesOfJson?] at h

theorem sound_branchesOfEntries? : ∀ {depth : Nat} {es : List (String × Json)} {acc bs : Branches},
    Sound acc → branchesOfEntries? depth es acc = some bs → Sound bs
  | depth, [], acc, bs, hs, h => by
    rw [branchesOfEntries?] at h
    exact Option.some.inj h ▸ hs
  | depth, (k, j) :: l, acc, bs, hs, h => by
    rw [branchesOfEntries?] at h
    obtain ⟨t, ht, h⟩ := Option.bind_eq_some_iff.1 h
    have hd := distinct_ofJson? ht
    exact sound_branchesOfEntries?
      ⟨nodup_alterEntry hs.1, allDistinct_alterEntry hd (fun _ _ => hd) hs.2⟩ h

end

end ReportTree

namespace Report

def toJson (r : Report) : Json := r.tree.toJson

def ofJson? (j : Json) : Option Report :=
  match h : ReportTree.ofJson? Json.depthLimit j with
  | none => none
  | some t => some ⟨t, ReportTree.distinct_ofJson? h⟩

def read? (s : String) : Option Report := (Json.parse? s).bind ofJson?

end Report

namespace Finding

def toJson (f : Finding) : Json := .object [("loc", .strings f.path), ("err", .string f.text)]

def ofJson? (j : Json) : Option Finding :=
  match j.parts? Json.depthLimit ["loc", "err"] with
  | some [some path, some text] => do
    pure ⟨← path.asStrings? (Json.depthLimit - 1), ← text.asString?⟩
  | _ => none

def read? (s : String) : Option Finding := (Json.parse? s).bind ofJson?

end Finding

end Vetting
