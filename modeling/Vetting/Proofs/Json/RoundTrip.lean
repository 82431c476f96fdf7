import Vetting.Field.Basic
import Vetting.Proofs.Json.Written
import Vetting.Proofs.Report.Merge

/-!
# What is written is read back

A report is written without its empty parts and read back as it was, with the
branches of every node in their order, as long as its text nests no more
containers than a reader opens; a deeper one is not read at all. Findings,
fields and shapes never nest that deep, and always come back.
-/

namespace Vetting

namespace Json

mutual

/-- How many containers the value nests, and its text as well. -/
def depth : Json → Nat
  | array l => depthOfItems l + 1
  | object l => depthOfEntries l + 1
  | null | bool _ | number _ | string _ | unreadable => 0

def depthOfItems : List Json → Nat
  | [] => 0
  | j :: l => max j.depth (depthOfItems l)

def depthOfEntries : List (String × Json) → Nat
  | [] => 0
  | (_, j) :: l => max j.depth (depthOfEntries l)

end

theorem depthOfEntries_append (l l' : List (String × Json)) :
    depthOfEntries (l ++ l') = max (depthOfEntries l) (depthOfEntries l') := by
  induction l with
  | nil => simp [depthOfEntries]
  | cons e l ih => rw [List.cons_append, depthOfEntries, depthOfEntries, ih, Nat.max_assoc]

theorem allWordyEntries_append {l l' : List (String × Json)} (h : AllWordyEntries l)
    (h' : AllWordyEntries l') : AllWordyEntries (l ++ l') := by
  induction l with
  | nil => exact h'
  | cons e l ih => exact ⟨h.1, ih h.2⟩

/-! ## Lists of strings -/

theorem wordy_strings (l : List String) : (strings l).Wordy := by
  show AllWordy (l.map .string)
  induction l with
  | nil => trivial
  | cons s l ih => exact ⟨trivial, ih⟩

theorem depth_strings (l : List String) : (strings l).depth = 1 := by
  have hitems : depthOfItems (l.map .string) = 0 := by
    induction l with
    | nil => rfl
    | cons s l ih => rw [List.map_cons, depthOfItems, ih]; rfl
  show depthOfItems (l.map .string) + 1 = 1
  rw [hitems]

theorem mapM_map_eq_some {α β : Type} {write : α → β} {read : β → Option α}
    (h : ∀ a, read (write a) = some a) (l : List α) : (l.map write).mapM read = some l := by
  have hread : read ∘ write = fun a => pure a := funext h
  rw [List.mapM_map, hread]
  exact List.mapM_pure (m := Option) (f := id) |>.trans (congrArg some l.map_id)

theorem asStrings?_strings (n : Nat) (l : List String) :
    (strings l).asStrings? n = if n = 0 then none else some l := by
  unfold asStrings? items? strings
  by_cases hn : n = 0
  · simp [hn]
  · simp only [hn, if_false, Option.bind_some]
    have hread : ∀ s, asString? (.string s) = some s := fun _ => rfl
    exact mapM_map_eq_some hread l

end Json

/-! ## Reports -/

namespace ReportTree

mutual

theorem wordy_toJson : ∀ t : ReportTree, t.toJson.Wordy
  | node ms bs => by
    unfold toJson
    apply Json.allWordyEntries_append
    · split
      · trivial
      · exact ⟨Json.wordy_strings ms, trivial⟩
    · split
      · trivial
      · exact ⟨wordy_branchesToJson bs, trivial⟩

theorem wordy_branchesToJson : ∀ bs : Branches, Json.AllWordyEntries (branchesToJson bs)
  | [] => trivial
  | (_, t) :: l => ⟨wordy_toJson t, wordy_branchesToJson l⟩

end

theorem branchesToJson_eq_map (bs : Branches) :
    branchesToJson bs = bs.map fun e => (e.1, e.2.toJson) := by
  induction bs with
  | nil => rw [branchesToJson]; rfl
  | cons e l ih => rw [branchesToJson, ih]; rfl

theorem exists_parts (t : ReportTree) : ∃ parts, t.toJson = .object parts ∧
    ("messages" ∈ parts.map (·.1) ↔ t.messages ≠ []) ∧
    ("children" ∈ parts.map (·.1) ↔ t.branches ≠ []) ∧
    ∀ j, ("children", j) ∈ parts → j = .object (t.branches.map fun e => (e.1, e.2.toJson)) := by
  obtain ⟨ms, bs⟩ := t
  refine ⟨_, by rw [toJson], ?_, ?_, ?_⟩
  · cases ms <;> cases bs <;> simp [messages]
  · cases ms <;> cases bs <;> simp [branches]
  · intro j
    rw [branchesToJson_eq_map]
    cases ms <;> cases bs <;> simp [branches]

def messagesDepth (ms : List String) : Nat := if ms = [] then 0 else 1

def branchesDepth (bs : Branches) : Nat :=
  if bs = [] then 0 else Json.depthOfEntries (branchesToJson bs) + 1

theorem depth_toJson (ms : List String) (bs : Branches) :
    (node ms bs).toJson.depth = max (messagesDepth ms) (branchesDepth bs) + 1 := by
  rw [toJson, Json.depth, Json.depthOfEntries_append]
  cases ms <;> cases bs <;>
    simp [Json.depthOfEntries, Json.depth, Json.depth_strings, messagesDepth, branchesDepth]

theorem ofJson?_toJson_zero (t : ReportTree) : ofJson? 0 t.toJson = none := by
  obtain ⟨ms, bs⟩ := t
  rw [toJson]
  rfl

theorem ofJson?_toJson_succ (n : Nat) (ms : List String) (bs : Branches) :
    ofJson? (n + 1) (node ms bs).toJson =
      (if ms = [] then some [] else (Json.strings ms).asStrings? n).bind fun ms' =>
        (if bs = [] then some [] else branchesOfJson? n (.object (branchesToJson bs))).bind fun bs' =>
          some (node ms' bs') := by
  cases ms <;> cases bs <;> simp [toJson, ofJson?, ofParts?]

theorem messages_read_back (n : Nat) (ms : List String) :
    (if ms = [] then some [] else (Json.strings ms).asStrings? n) =
      if messagesDepth ms ≤ n then some ms else none := by
  rw [messagesDepth, Json.asStrings?_strings]
  by_cases hms : ms = []
  · simp [hms]
  · cases n <;> simp [hms]

mutual

theorem ofJson?_toJson : ∀ (n : Nat) (t : ReportTree), t.Distinct →
    ofJson? n t.toJson = if t.toJson.depth ≤ n then some t else none
  | 0, node ms bs, _ => by
    rw [ofJson?_toJson_zero, depth_toJson, if_neg (Nat.not_succ_le_zero _)]
  | n + 1, node ms bs, hd => by
    have hbranches : (if bs = [] then some [] else branchesOfJson? n (.object (branchesToJson bs))) =
        if branchesDepth bs ≤ n then some bs else none := by
      rw [branchesDepth, branchesOfJson?]
      by_cases hbs : bs = []
      · simp [hbs]
      · cases n with
        | zero => simp [hbs]
        | succ n => simpa [hbs] using branchesOfEntries?_branchesToJson n bs [] hd.1 hd.2
    rw [ofJson?_toJson_succ, messages_read_back, hbranches, depth_toJson]
    simp only [Nat.add_le_add_iff_right, Nat.max_le]
    by_cases hms : messagesDepth ms ≤ n <;> by_cases hbs : branchesDepth bs ≤ n <;>
      simp [hms, hbs]

theorem branchesOfEntries?_branchesToJson : ∀ (n : Nat) (bs acc : Branches),
    ((acc ++ bs).map (·.1)).Nodup → AllDistinct bs →
      branchesOfEntries? n (branchesToJson bs) acc =
        if Json.depthOfEntries (branchesToJson bs) ≤ n then some (acc ++ bs) else none
  | n, [], acc, _, _ => by simp [branchesToJson, branchesOfEntries?, Json.depthOfEntries]
  | n, (k, t) :: l, acc, hn, hd => by
    -- the key is new, so the branch goes after those that were read
    have hk : k ∉ acc.map (·.1) := by
      rw [List.map_append, List.map_cons] at hn
      intro hmem
      exact (List.nodup_append.1 hn).2.2 k hmem k (by simp) rfl
    have hrest := branchesOfEntries?_branchesToJson n l (acc ++ [(k, t)]) (by simpa using hn) hd.2
    rw [branchesToJson, branchesOfEntries?, ofJson?_toJson n t hd.1, Json.depthOfEntries]
    simp only [Nat.max_le]
    by_cases ht : t.toJson.depth ≤ n
    · simp [ht, alterEntry_of_not_mem hk, hrest]
    · simp [ht]

end

end ReportTree

namespace Report

theorem ofJson?_toJson (r : Report) :
    ofJson? r.toJson = if r.toJson.depth ≤ Json.depthLimit then some r else none := by
  have htree := ReportTree.ofJson?_toJson Json.depthLimit r.tree r.distinct
  unfold ofJson? toJson
  split
  · rename_i hnone
    rw [hnone] at htree
    split at htree
    · cases htree
    · rename_i hdeep
      rw [if_neg hdeep]
  · rename_i t hsome
    rw [hsome] at htree
    split at htree
    · rename_i hdepth
      rw [if_pos hdepth]
      exact congrArg some (ext (Option.some.inj htree))
    · cases htree

theorem read?_text (r : Report) :
    read? r.toJson.text = if r.toJson.depth ≤ Json.depthLimit then some r else none := by
  have hparse : Json.parse? r.toJson.text = some r.toJson := Json.parse?_text r.tree.wordy_toJson
  rw [read?, hparse]
  exact ofJson?_toJson r

end Report

/-! ## Findings, fields and shapes -/

theorem Finding.ofJson?_toJson (f : Finding) : ofJson? f.toJson = some f := by
  simp [ofJson?, toJson, Json.parts?, Json.partsOfEntries?, Json.depthLimit,
    Json.asStrings?_strings, Json.asString?]

theorem Finding.wordy_toJson (f : Finding) : f.toJson.Wordy :=
  ⟨Json.wordy_strings f.path, trivial, trivial⟩

theorem Finding.read?_text (f : Finding) : read? f.toJson.text = some f := by
  rw [read?, Json.parse?_text f.wordy_toJson]
  exact f.ofJson?_toJson

theorem Field.ofJson?_toJson (n : Nat) (f : Field) : ofJson? (n + 1) f.toJson = some f := by
  simp [ofJson?, toJson, Json.parts?, Json.partsOfEntries?, Json.asString?, Json.asBool?]

theorem Field.wordy_toJson (f : Field) : f.toJson.Wordy :=
  ⟨trivial, trivial, trivial, trivial, trivial⟩

theorem Field.read?_text (f : Field) : read? f.toJson.text = some f := by
  rw [read?, Json.parse?_text f.wordy_toJson]
  exact f.ofJson?_toJson 126

theorem Shape.ofJson?_toJson (s : Shape) : ofJson? s.toJson = some s := by
  have hfields := Json.mapM_map_eq_some (Field.ofJson?_toJson 125) s.fields
  unfold ofJson? toJson
  simp [Json.items?, Json.depthLimit, hfields]

theorem Shape.wordy_toJson (s : Shape) : s.toJson.Wordy := by
  show Json.AllWordy (s.fields.map Field.toJson)
  induction s.fields with
  | nil => trivial
  | cons f l ih => exact ⟨f.wordy_toJson, ih⟩

theorem Shape.read?_text (s : Shape) : read? s.toJson.text = some s := by
  rw [read?, Json.parse?_text s.wordy_toJson]
  exact s.ofJson?_toJson

/-- What was written comes back from its text. Only a report can nest too deep for that, and then
nothing is read; a part that is empty is left out of the text. -/
theorem written_comes_back :
    (∀ r : Report, Report.read? r.toJson.text =
      if r.toJson.depth ≤ Json.depthLimit then some r else none) ∧
    (∀ t : ReportTree, ∃ parts, t.toJson = .object parts ∧
      ("messages" ∈ parts.map (·.1) ↔ t.messages ≠ []) ∧
      ("children" ∈ parts.map (·.1) ↔ t.branches ≠ []) ∧
      ∀ j, ("children", j) ∈ parts → j = .object (t.branches.map fun e => (e.1, e.2.toJson))) ∧
    (∀ f : Finding, Finding.read? f.toJson.text = some f) ∧
    (∀ f : Field, Field.read? f.toJson.text = some f) ∧
    ∀ s : Shape, Shape.read? s.toJson.text = some s :=
  ⟨Report.read?_text, ReportTree.exists_parts, Finding.read?_text, Field.read?_text,
    Shape.read?_text⟩

example : ((Report.message "\u0001").under "a\"").toJson.text =
    "\x7b\"children\":\x7b\"a\\\"\":\x7b\"messages\":[\"\\u0001\"]\x7d\x7d\x7d" := by cbv

end Vetting
