import Vetting.Report.Tree
import Vetting.Report.Finding
import Vetting.Text.Shown

/-!
# Reports

A report is a report tree with distinct keys. It is built from messages, paths
and merges, read as the list of its findings, and rebuilt from findings.
-/

namespace Vetting

/-- What is wrong with an object: messages about it, and reports by field alias. -/
structure Report where
  tree : ReportTree
  distinct : tree.Distinct

namespace Report

open ReportTree

theorem ext {r s : Report} (h : r.tree = s.tree) : r = s := by
  cases r; cases s; simp_all

protected def empty : Report := ⟨node [] [], .nil, trivial⟩

instance : EmptyCollection Report := ⟨.empty⟩

instance : Inhabited Report := ⟨∅⟩

def ofMessages (ms : List String) : Report := ⟨node ms [], .nil, trivial⟩

def message (m : String) : Report := ofMessages [m]

def messages (r : Report) : List String := r.tree.messages

def keys (r : Report) : List String := r.tree.keys

/-- Nothing to report at the root: no messages and no branches, be they empty or not. -/
def isEmpty (r : Report) : Bool := r.tree.isEmpty

def merge (r s : Report) : Report := ⟨r.tree.merge s.tree, merge_distinct r.distinct s.distinct⟩

def under (key : String) (r : Report) : Report :=
  ⟨node [] [(key, r.tree)], by simp, r.distinct, trivial⟩

def withBranch (r : Report) (key : String) (s : Report) : Report := r.merge (s.under key)

def atPath (path : List String) (m : String) : Report :=
  path.foldr (fun key r => (∅ : Report).withBranch key r) (message m)

def branch? (r : Report) (key : String) : Option Report :=
  match r with
  | ⟨node _ bs, hd⟩ => match h : lookupEntry key bs with
    | none => none
    | some t => some ⟨t, distinct_of_lookupEntry hd.2 h⟩

def gather : Option Report → Report → Report
  | none, r => r
  | some s, r => s.merge r

mutual

def findingsAt (path : List String) : ReportTree → List Finding
  | node ms bs => ms.map (⟨path, ·⟩) ++ findingsOfBranches path bs

def findingsOfBranches (path : List String) : Branches → List Finding
  | [] => []
  | (k, t) :: l => findingsAt (path ++ [k]) t ++ findingsOfBranches path l

end

/-- All messages with their paths, a node's own before those of its branches. -/
def findings (r : Report) : List Finding := findingsAt [] r.tree

def ofFindings (fs : List Finding) : Report :=
  fs.foldl (fun r f => r.merge (atPath f.path f.text)) ∅

def ofYielded (ys : List Yielded) : Report :=
  ys.foldl (fun r y => r.merge (match y with
    | .message m => message m
    | .located path m => atPath path m)) ∅

def text (r : Report) : String := "\n".intercalate (r.findings.map Finding.line)

/-- Equal but for the order of branches. -/
def same (r s : Report) : Bool := r.tree.same s.tree

mutual

def shownTree : ReportTree → Shown
  | node ms bs => .parts "ValidationError"
      [("messages", .strings ms), ("children", .map (shownBranches bs))]

def shownBranches : Branches → List (String × Shown)
  | [] => []
  | (k, t) :: l => (k, shownTree t) :: shownBranches l

end

def shown (r : Report) : Shown := shownTree r.tree

end Report

end Vetting
