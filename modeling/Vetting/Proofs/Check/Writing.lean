import Mathlib.Data.List.Induction
import Vetting.Check.Arguments
import Vetting.Proofs.Check.Restriction
import Vetting.Proofs.Lists

/-!
# Arguments as they were written

Arguments are written one by one, or all at once in the place of those there
were. Whatever the writes, the last of each name stands (`get?_ofList_iff`) and
no other name has a value (`mem_keys_ofList`). So a number of arguments is a
number of names, and counting them tells whether they are just some names.
-/

namespace Vetting

section
variable {α : Type} {l : List (String × α)} {a b : String} {v w : α}

/-- The last pair of the list with this name has this value. -/
def Latest (l : List (String × α)) (a : String) (v : α) : Prop :=
  ∃ before later, l = before ++ (a, v) :: later ∧ a ∉ later.map (·.1)

theorem not_latest_nil : ¬ Latest [] a v := by
  rintro ⟨before, later, hsplit, -⟩
  simp at hsplit

theorem latest_concat_iff :
    Latest (l ++ [(b, w)]) a v ↔ (a = b ∧ w = v) ∨ (a ≠ b ∧ Latest l a v) := by
  constructor
  · rintro ⟨before, later, hsplit, hlater⟩
    rcases concat_eq_append_cons hsplit with ⟨-, -, hpair⟩ | ⟨later', rfl, rfl, -⟩
    · exact Or.inl ⟨(Prod.mk.inj hpair).1.symm, (Prod.mk.inj hpair).2⟩
    · rw [List.map_append, List.mem_append, not_or] at hlater
      exact Or.inr ⟨by simpa using hlater.2, before, later', rfl, hlater.1⟩
  · rintro (⟨rfl, rfl⟩ | ⟨hne, before, later, rfl, hlater⟩)
    · exact ⟨l, [], rfl, List.not_mem_nil⟩
    · refine ⟨before, later ++ [(b, w)], by simp, ?_⟩
      rw [List.map_append, List.mem_append, not_or]
      exact ⟨hlater, by simpa using hne⟩

namespace NameMap

theorem ofList_concat (l : List (String × α)) (b : String) (w : α) :
    ofList (l ++ [(b, w)]) = (ofList l).insert b w := by
  unfold ofList
  rw [List.foldl_concat]

theorem get?_ofList_iff : (ofList l).get? a = some v ↔ Latest l a v := by
  induction l using List.reverseRecOn with
  | nil => exact iff_of_false nofun not_latest_nil
  | append_singleton l e ih =>
    obtain ⟨b, w⟩ := e
    rw [ofList_concat, get?_insert, latest_concat_iff]
    by_cases hab : a = b
    · simp [hab]
    · simp [hab, ih]

theorem mem_keys_insert {m : NameMap α} : a ∈ (m.insert b w).keys ↔ a = b ∨ a ∈ m.keys := by
  rw [mem_keys_iff, mem_keys_iff, get?_insert]
  by_cases hab : a = b
  · simp [hab]
  · simp [hab]

theorem mem_keys_ofList : a ∈ (ofList l).keys ↔ a ∈ l.map (·.1) := by
  induction l using List.reverseRecOn with
  | nil => exact iff_of_false List.not_mem_nil List.not_mem_nil
  | append_singleton l e ih =>
    obtain ⟨b, w⟩ := e
    rw [ofList_concat, mem_keys_insert, ih, List.map_append, List.mem_append, or_comm]
    simp

end NameMap

end

namespace Arguments

inductive Act where
  | put (name : String) (value : Json)
  | gather (pairs : List (String × Json))

def perform (args : Arguments) : Act → Arguments
  | .put name value => args.insert name value
  | .gather pairs => .ofList pairs

def after (acts : List Act) : Arguments := acts.foldl perform ∅

def Act.following (written : List (String × Json)) : Act → List (String × Json)
  | put name value => written ++ [(name, value)]
  | gather pairs => pairs

/-- All that these calls wrote and left, in the order of writing. -/
def written (acts : List Act) : List (String × Json) := acts.foldl Act.following []

theorem perform_ofList (l : List (String × Json)) (act : Act) :
    perform (.ofList l) act = .ofList (act.following l) := by
  cases act with
  | put name value => exact (NameMap.ofList_concat l name value).symm
  | gather pairs => rfl

theorem after_eq_ofList (acts : List Act) : after acts = .ofList (written acts) := by
  induction acts using List.reverseRecOn with
  | nil => rfl
  | append_singleton acts act ih =>
    unfold after written at ih ⊢
    rw [List.foldl_concat, List.foldl_concat, ih]
    exact perform_ofList _ act

/-- However arguments were written, the last value of each name stands. They are just some names if
their names are these; restricted to names, they have the values of those that they have of them;
a second restriction is one to the names of both; nothing is lost where they were just the names,
and they are just the names afterwards where none of these lacked a value. -/
theorem restriction_goes_by_names (acts : List Act) (names others : NameSet) :
    let args := after acts
    (∀ name value, args.get? name = some value ↔ Latest (written acts) name value) ∧
    (∀ name, name ∈ args.keys ↔ name ∈ (written acts).map (·.1)) ∧
    (args.hasExactly names = true ↔ args.keys = names) ∧
    (args.restrict names).keys = args.keys ∩ names ∧
    (∀ name ∈ names, (args.restrict names).get? name = args.get? name) ∧
    (args.restrict names).restrict others = args.restrict (names ∩ others) ∧
    (args.hasExactly names = true → args.restrict names = args) ∧
    ((args.restrict names).hasExactly names = true ↔ ∀ name ∈ names, args.contains name = true) := by
  intro args
  have hargs : args = .ofList (written acts) := after_eq_ofList acts
  refine ⟨fun name value => ?_, fun name => ?_, NameMap.hasExactly_iff, args.keys_restrict names,
    fun name => NameMap.get?_restrict_of_mem, args.restrict_restrict names others,
    NameMap.restrict_of_hasExactly, ?_⟩
  · rw [hargs]
    exact NameMap.get?_ofList_iff
  · rw [hargs]
    exact NameMap.mem_keys_ofList
  · rw [NameMap.hasExactly_iff, NameMap.keys_restrict_eq_iff]
    exact forall₂_congr fun name _ => NameMap.contains_iff.symm

/-- Two names are written twice, after and among pairs that did away with a third. -/
theorem restriction_goes_by_names_rewritten :
    let acts : List Act := [.put "gone" .null, .gather [("b", .bool true), ("a", .null),
      ("b", .bool false)], .put "c" .null, .put "a" (.string "last")]
    let args := after acts
    let names := NameSet.ofList ["c", "a", "b"]
    args.hasExactly names = true ∧ args.restrict names = args ∧
      args.get? "a" = some (.string "last") ∧ args.get? "b" = some (.bool false) ∧
      (args.restrict (.ofList ["a", "gone"])).get? "a" = some (.string "last") ∧
      (args.restrict (.ofList ["a", "gone"])).hasExactly (.ofList ["a", "gone"]) = false := by
  intro acts args names
  have hexactly : args.hasExactly names = true := by decide
  obtain ⟨-, -, -, -, -, -, hself, -⟩ := restriction_goes_by_names acts names ∅
  obtain ⟨-, -, -, -, hvalues, -, -, hcomplete⟩ :=
    restriction_goes_by_names acts (.ofList ["a", "gone"]) ∅
  refine ⟨hexactly, hself hexactly, rfl, rfl, hvalues "a" (by decide), ?_⟩
  rw [← Bool.not_eq_true, hcomplete]
  exact fun h => absurd (h "gone" (by decide)) (by decide)

end Arguments

end Vetting
