import Vetting.Proofs.Lineage.History
import Vetting.Proofs.Lineage.Walk
import Vetting.Record
import Vetting.RuleBook.Basic

/-!
# Finding the rules of a type

The rules that apply to a type are found type by type along the trail of its
stand-ins, for each the rules of its whole chain in order. The search marks the
types of the trail alone, and it needs no more depth than there are types that
stand in for another, and one.
-/

namespace Vetting

namespace RuleBook

variable {σ ι : Type}

/-- The search as it proceeds: it marks a type, takes the rules of its chain, and goes on with what
the type stands in for. It gives up at the depth 0. -/
def collect (book : RuleBook σ ι) (lineage : Lineage) :
    Nat → List TypeKey → TypeKey → List (Posting ι) → Option (List (Posting ι) × List Event)
  | 0, _, _, _ => none
  | depth + 1, visited, ty, collected =>
    if ty ∈ visited then some (collected, [.standInCycle ty])
    else match lineage.origin? ty with
      | none => some (collected ++ book.inherited lineage ty, [])
      | some origin =>
        book.collect lineage depth (ty :: visited) origin (collected ++ book.inherited lineage ty)

section
variable {book : RuleBook σ ι} {lineage : Lineage} {visited path : List TypeKey} {ty : TypeKey}
  {back : Option TypeKey} {s : σ} {p : Posting ι}

/-- Deep enough, the search takes the rules of the trail in order, and tells of the type that the
trail comes back to. -/
theorem collect_of_trail (book : RuleBook σ ι) (h : lineage.Trail visited ty path back) :
    ∀ {depth : Nat}, path.length + back.toList.length ≤ depth → ∀ collected : List (Posting ι),
      book.collect lineage depth visited ty collected =
        some (collected ++ path.flatMap (book.inherited lineage),
          back.toList.map .standInCycle) := by
  rw [← Lineage.walkFrom_eq_iff] at h
  fun_induction Lineage.walkFrom lineage visited ty generalizing path back with
  | case1 visited ty hv =>
    cases h
    rintro (_ | depth) hdepth collected
    · simp at hdepth
    · simp only [collect, hv, if_true, List.flatMap_nil, List.append_nil]
      rfl
  | case2 visited ty hv ho =>
    cases h
    rintro (_ | depth) hdepth collected
    · simp at hdepth
    · simp [collect, hv, ho]
  | case3 visited ty hv origin ho _ rest back' hrest ih =>
    cases h
    rintro (_ | depth) hdepth collected
    · simp at hdepth
    · have hrest' : rest.length + back'.toList.length ≤ depth := by
        rw [List.length_cons] at hdepth
        omega
      simp only [collect, hv, if_false, ho]
      rw [ih hrest hrest', List.append_assoc, List.flatMap_cons]

theorem rulesFor_of_trail (h : (book.lineage s).Trail [] ty path back) :
    book.rulesFor s ty =
      (path.flatMap (book.inherited (book.lineage s)), back.toList.map .standInCycle) := by
  rw [rulesFor, (Lineage.walk_eq_iff _ ty).2 h]

theorem collect_eq_rulesFor (book : RuleBook σ ι) (s : σ) (ty : TypeKey) {depth : Nat}
    (h : (book.lineage s).origins.size < depth) :
    book.collect (book.lineage s) depth [] ty [] = some (book.rulesFor s ty) := by
  have htrail := Lineage.trail_walk (book.lineage s) ty
  have hlength := htrail.length_le
  have hall := (book.lineage s).unvisited_le []
  rw [collect_of_trail book htrail (by omega), rulesFor_of_trail htrail, List.nil_append]

theorem mem_rulesFor_iff : p ∈ (book.rulesFor s ty).1 ↔
    ∃ t ∈ ((book.lineage s).walk ty).1, ∃ owner ∈ (book.lineage s).contribution t,
      p ∈ book.own owner := by
  simp only [rulesFor, List.mem_flatMap, inherited, Lineage.contribution]

/-- The search ends, at no greater depth than one more than there are types that stand in for
another. The stand-ins of a type have one trail, and the rules that apply to the type are those of
the types on the trail, in order: for each the own rules of its chain, or its own if it has no
chain. One event tells of a type that the trail comes back to, and there is none otherwise. -/
theorem rulesFor_follows_trail (book : RuleBook σ ι) (s : σ) (ty : TypeKey) :
    (∀ depth, (book.lineage s).origins.size < depth →
      book.collect (book.lineage s) depth [] ty [] = some (book.rulesFor s ty)) ∧
    (∃ path back, (book.lineage s).Trail [] ty path back) ∧
    ∀ path back, (book.lineage s).Trail [] ty path back →
      (book.rulesFor s ty).1 = path.flatMap (fun t =>
        (((book.lineage s).chain? t).getD [t]).flatMap book.own) ∧
      (book.rulesFor s ty).2 = match back with
        | some x => [.standInCycle x]
        | none => [] := by
  refine ⟨fun depth => collect_eq_rulesFor book s ty, ?_, fun path back h => ?_⟩
  · exact ⟨_, _, Lineage.trail_walk _ ty⟩
  · rw [rulesFor_of_trail h]
    exact ⟨rfl, by cases back <;> rfl⟩

end

end RuleBook

def Posting.refusing (id : RuleId) (name : String) : Posting Record where
  id := id
  rule := {
    name, params := ∅, reads := ∅, signature := .method
    check := .returning fun _ _ => .error (.because (name ++ " is broken"))
    target := none, discards := [], owner := none }

namespace RuleBook

def circling : List Lineage.Act :=
  [.declare "Base" [], .declare "A" ["Base"], .standIn "T" "A", .standIn "A" "B", .standIn "B" "A"]

def twoRules : RuleBook Lineage Record :=
  ⟨fun l => l, .none, .declared,
    .ofList [("B", [.refusing 0 "b"]), ("Base", [.refusing 1 "base"])]⟩

/-- The trail from `T` leads into a circle that `T` is not on, and ends as it comes back to `A`. Three
types stand in for others, so the depth 4 is enough. -/
theorem rulesFor_circling :
    twoRules.collect (Lineage.after circling) 4 [] "T" [] =
        some (twoRules.rulesFor (Lineage.after circling) "T") ∧
      (Lineage.after circling).Trail [] "T" ["T", "A", "B"] (some ("A" : TypeKey)) ∧
      (twoRules.rulesFor (Lineage.after circling) "T").1 = [.refusing 1 "base", .refusing 0 "b"] ∧
      (twoRules.rulesFor (Lineage.after circling) "T").2 = [.standInCycle "A"] := by
  have hT : (Lineage.after circling).origin? "T" = some ("A" : TypeKey) := by cbv
  have hA : (Lineage.after circling).origin? "A" = some ("B" : TypeKey) := by cbv
  have hB : (Lineage.after circling).origin? "B" = some ("A" : TypeKey) := by cbv
  have htrail : (Lineage.after circling).Trail [] "T" ["T", "A", "B"] (some ("A" : TypeKey)) := by
    refine (Lineage.trail_of_origin? (by decide) hT).2 ⟨_, rfl, ?_⟩
    refine (Lineage.trail_of_origin? (by decide) hA).2 ⟨_, rfl, ?_⟩
    refine (Lineage.trail_of_origin? (by decide) hB).2 ⟨_, rfl, ?_⟩
    exact (Lineage.trail_of_mem (by decide)).2 ⟨rfl, rfl⟩
  have hsize : (Lineage.after circling).origins.size = 3 := by cbv
  obtain ⟨hsearch, -, hfound⟩ := rulesFor_follows_trail twoRules (Lineage.after circling) "T"
  obtain ⟨hrules, hevents⟩ := hfound _ _ htrail
  have hchain : (Lineage.after circling).chain? "A" = some (["A", "Base"] : List TypeKey) := by cbv
  have hnoneT : (Lineage.after circling).chain? "T" = none := by cbv
  have hnoneB : (Lineage.after circling).chain? "B" = none := by cbv
  refine ⟨hsearch 4 (Nat.lt_succ_of_le (Nat.le_of_eq hsize)), htrail, hrules.trans ?_, hevents⟩
  show (["T", "A", "B"] : List TypeKey).flatMap (fun t =>
    (((Lineage.after circling).chain? t).getD [t]).flatMap twoRules.own) = _
  simp only [List.flatMap_cons, hnoneT, hchain, hnoneB]
  rfl

end RuleBook

end Vetting
