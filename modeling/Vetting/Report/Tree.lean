import Vetting.Table

/-!
# Report trees

A node has messages of its own and branches by key, in the order in which the
keys were first reported. Merging appends the messages and merges the branches,
a key that is present keeping its place. `Distinct` says that no node has two
branches of one key; `merge_distinct` that merging keeps it so.
-/

namespace Vetting

inductive ReportTree where
  | node (messages : List String) (branches : List (String × ReportTree))

namespace ReportTree

abbrev Branches := List (String × ReportTree)

instance : Inhabited ReportTree := ⟨.node [] []⟩

def messages : ReportTree → List String
  | node ms _ => ms

def branches : ReportTree → Branches
  | node _ bs => bs

def keys (t : ReportTree) : List String := t.branches.map (·.1)

def isEmpty (t : ReportTree) : Bool := t.messages.isEmpty && t.branches.isEmpty

mutual

def merge : ReportTree → ReportTree → ReportTree
  | node ms bs, node ms' bs' => node (ms ++ ms') (mergeBranches bs bs')

/-- The branches of the second list entered into the first, one after another. -/
def mergeBranches (bs : Branches) : Branches → Branches
  | [] => bs
  | (k, t) :: l => mergeBranches (alterEntry k (fun | none => t | some u => u.merge t) bs) l

end

mutual

def Distinct : ReportTree → Prop
  | node _ bs => (bs.map (·.1)).Nodup ∧ AllDistinct bs

def AllDistinct : Branches → Prop
  | [] => True
  | (_, t) :: l => t.Distinct ∧ AllDistinct l

end

theorem allDistinct_alterEntry {k : String} {f : Option ReportTree → ReportTree}
    (hn : (f none).Distinct) (hs : ∀ t, t.Distinct → (f (some t)).Distinct) :
    ∀ {bs : Branches}, AllDistinct bs → AllDistinct (alterEntry k f bs)
  | [], _ => ⟨hn, trivial⟩
  | (k', t) :: l, h => by
    rw [alterEntry]
    split
    · exact ⟨hs t h.1, h.2⟩
    · exact ⟨h.1, allDistinct_alterEntry hn hs h.2⟩

theorem distinct_of_lookupEntry {k : String} {t : ReportTree} :
    ∀ {bs : Branches}, AllDistinct bs → lookupEntry k bs = some t → t.Distinct
  | [], _, h => by cases h
  | (k', u) :: l, hd, h => by
    rw [lookupEntry] at h
    split at h
    · exact Option.some.inj h ▸ hd.1
    · exact distinct_of_lookupEntry hd.2 h

mutual

theorem merge_distinct : ∀ {a b : ReportTree}, a.Distinct → b.Distinct → (a.merge b).Distinct
  | node _ _, node _ bs', ha, hb => by
    rw [merge]
    exact mergeBranches_distinct ha hb.2

theorem mergeBranches_distinct : ∀ {bs bs' : Branches},
    (bs.map (·.1)).Nodup ∧ AllDistinct bs → AllDistinct bs' →
      ((mergeBranches bs bs').map (·.1)).Nodup ∧ AllDistinct (mergeBranches bs bs')
  | bs, [], h, _ => by rw [mergeBranches]; exact h
  | bs, (k, t) :: l, h, h' => by
    rw [mergeBranches]
    refine mergeBranches_distinct ⟨nodup_alterEntry h.1, ?_⟩ h'.2
    exact allDistinct_alterEntry h'.1 (fun u hu => merge_distinct hu h'.1) h.2

end

mutual

def same : ReportTree → ReportTree → Bool
  | node ms bs, node ms' bs' => ms == ms' && bs.length == bs'.length && allIn bs bs'

def allIn : Branches → Branches → Bool
  | [], _ => true
  | (k, t) :: l, bs' =>
    (match lookupEntry k bs' with
      | none => false
      | some u => t.same u) && allIn l bs'

end

end ReportTree

end Vetting
