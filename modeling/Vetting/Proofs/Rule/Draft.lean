import Mathlib.Data.List.Induction
import Vetting.Proofs.Lists
import Vetting.Rule.Draft

/-!
# What a draft builds

A draft goes through any calls in any order. Name, target, discards and owner
are what was told of them last, where options that are given at once tell of
all but the name; reads add up since such options were last given
(`after_eq_lastTold`, `mem_reads_after_iff`). A rule can be built unless its
signature or a reference stands against it, and then it is just what was told.
-/

namespace Vetting

def Parameter.isVariadic (p : Parameter) : Bool :=
  p.kind = .variadicPositional || p.kind = .variadicKeyword

namespace Draft

inductive Act where
  | rename (name : String)
  | target (field : FieldRef)
  | discards (fields : List FieldRef)
  | owner (ty : TypeKey)
  | reads (fields : List String)
  | withOptions (options : DraftOptions)

namespace Act

/-! ## What a call tells -/

def name? : Act → Option String
  | rename name => some name
  | _ => none

def target? : Act → Option (Option FieldRef)
  | target field => some (some field)
  | withOptions options => some options.target
  | _ => none

def discards? : Act → Option (Option (List FieldRef))
  | discards fields => some (some fields)
  | withOptions options => some options.discards
  | _ => none

def owner? : Act → Option (Option TypeKey)
  | owner ty => some (some ty)
  | withOptions options => some options.owner
  | _ => none

def readNames : Act → NameSet
  | reads fields => .ofList fields
  | withOptions options => options.reads
  | _ => ∅

def isWithOptions : Act → Bool
  | withOptions _ => true
  | _ => false

end Act

def perform (d : Draft) : Act → Draft
  | .rename name => d.rename name
  | .target field => d.target field
  | .discards fields => d.discards fields
  | .owner ty => d.owner ty
  | .reads fields => d.reads fields
  | .withOptions options => d.withOptions options

def after (name : String) (sig : Signature) (acts : List Act) : Draft :=
  acts.foldl perform (.ofSignature name sig)

section
variable {α : Type}

/-- What the last of the calls told that told anything. -/
def lastTold (tells : Act → Option α) (acts : List Act) : Option α := acts.reverse.findSome? tells

/-- Some call told that the name is read, and no options were given at once after it. -/
def ToldRead (acts : List Act) (a : String) : Prop :=
  ∃ before act later, acts = before ++ act :: later ∧ a ∈ act.readNames ∧
    ∀ act' ∈ later, act'.isWithOptions = false

variable {name : String} {sig : Signature} {acts : List Act} {act : Act} {a : String}

/-! ## Calls -/

theorem after_concat : after name sig (acts ++ [act]) = (after name sig acts).perform act :=
  List.foldl_concat perform _ act acts

theorem lastTold_concat (tells : Act → Option α) :
    lastTold tells (acts ++ [act]) = (tells act).or (lastTold tells acts) := by
  simp [lastTold, List.findSome?_cons]
  cases tells act <;> rfl

/-- A part of the draft that a call leaves alone or replaces is what was told of it last. -/
theorem after_eq_lastTold (part : Draft → α) {tells : Act → Option α}
    (h : ∀ d act, part (d.perform act) = (tells act).getD (part d)) (name : String)
    (sig : Signature) (acts : List Act) :
    part (after name sig acts) = (lastTold tells acts).getD (part (.ofSignature name sig)) := by
  induction acts using List.reverseRecOn with
  | nil => rfl
  | append_singleton acts act ih =>
    rw [after_concat, h, ih, lastTold_concat]
    cases tells act <;> rfl

theorem signature_after : (after name sig acts).signature = sig := by
  induction acts using List.reverseRecOn with
  | nil => rfl
  | append_singleton acts act ih =>
    rw [after_concat]
    cases act <;> exact ih

theorem name_after : (after name sig acts).name = (lastTold Act.name? acts).getD name := by
  refine after_eq_lastTold Draft.name (fun d act => ?_) name sig acts
  cases act <;> rfl

theorem target_after :
    (after name sig acts).options.target = (lastTold Act.target? acts).getD none := by
  refine after_eq_lastTold (·.options.target) (fun d act => ?_) name sig acts
  cases act <;> rfl

theorem discards_after :
    (after name sig acts).options.discards = (lastTold Act.discards? acts).getD none := by
  refine after_eq_lastTold (·.options.discards) (fun d act => ?_) name sig acts
  cases act <;> rfl

theorem owner_after :
    (after name sig acts).options.owner = (lastTold Act.owner? acts).getD none := by
  refine after_eq_lastTold (·.options.owner) (fun d act => ?_) name sig acts
  cases act <;> rfl

/-! ## Reads -/

theorem not_toldRead_nil : ¬ ToldRead [] a := by
  intro ⟨before, act, later, h, _⟩
  simp at h

theorem toldRead_concat_iff : ToldRead (acts ++ [act]) a ↔
    a ∈ act.readNames ∨ act.isWithOptions = false ∧ ToldRead acts a := by
  refine ⟨?_, ?_⟩
  · intro ⟨before, act', later, h, ha, hlater⟩
    rcases concat_eq_append_cons h with ⟨-, -, hact⟩ | ⟨later', hlater', hacts⟩
    · exact Or.inl (hact ▸ ha)
    · refine Or.inr ⟨?_, before, act', later', hacts, ha, ?_⟩
      · apply hlater
        simp [hlater']
      · intro act'' hmem
        apply hlater
        simp [hlater', hmem]
  · intro h
    rcases h with ha | ⟨hkeeps, before, act', later, rfl, ha, hlater⟩
    · exact ⟨acts, act, [], rfl, ha, by simp⟩
    · refine ⟨before, act', later ++ [act], by simp, ha, ?_⟩
      intro act'' hmem
      rcases List.mem_append.1 hmem with hmem | hmem
      · exact hlater act'' hmem
      · rw [List.mem_singleton.1 hmem]
        exact hkeeps

theorem mem_reads_perform_iff {d : Draft} : a ∈ (d.perform act).options.reads ↔
    a ∈ act.readNames ∨ act.isWithOptions = false ∧ a ∈ d.options.reads := by
  cases act with
  | reads fields =>
    simp [perform, reads, Act.readNames, Act.isWithOptions, or_comm]
  | withOptions options =>
    simp [perform, withOptions, Act.readNames, Act.isWithOptions]
  | _ =>
    simp [perform, rename, target, discards, owner, Act.readNames, Act.isWithOptions,
      NameSet.not_mem_empty]

theorem mem_reads_after_iff : a ∈ (after name sig acts).options.reads ↔ ToldRead acts a := by
  induction acts using List.reverseRecOn with
  | nil => exact iff_of_false (NameSet.not_mem_empty a) not_toldRead_nil
  | append_singleton acts act ih => rw [after_concat, mem_reads_perform_iff, ih, toldRead_concat_iff]

/-! ## Building -/

theorem checkSignature_eq_ok_iff :
    checkSignature sig = .ok () ↔ sig ≠ [] ∧ ∀ p ∈ sig, p.isVariadic = false := by
  unfold checkSignature Parameter.isVariadic
  by_cases hsig : sig = []
  · simp [hsig]
  · have hempty : sig.isEmpty = false := by simpa using hsig
    simp only [hempty, Bool.false_eq_true, if_false, ne_eq, hsig, not_false_eq_true, true_and]
    cases hkeyword : sig.find? (·.kind = .variadicKeyword) with
    | some p =>
      have hmem := List.mem_of_find?_eq_some hkeyword
      have hkind : p.kind = .variadicKeyword := by simpa using List.find?_some hkeyword
      simp only [reduceCtorEq, false_iff]
      intro h
      simpa [hkind] using h p hmem
    | none =>
      cases hpositional : sig.find? (·.kind = .variadicPositional) with
      | some p =>
        have hmem := List.mem_of_find?_eq_some hpositional
        have hkind : p.kind = .variadicPositional := by simpa using List.find?_some hpositional
        simp only [reduceCtorEq, false_iff]
        intro h
        simpa [hkind] using h p hmem
      | none =>
        simp only [true_iff]
        intro p hp
        have hnotkeyword := List.find?_eq_none.1 hkeyword p hp
        have hnotpositional := List.find?_eq_none.1 hpositional p hp
        simpa using ⟨by simpa using hnotpositional, by simpa using hnotkeyword⟩

theorem checkRefs_eq_ok_iff {options : DraftOptions} : checkRefs options = .ok () ↔
    ∀ f ∈ options.target.toList ++ options.discards.getD [], f.name ≠ "" := by
  unfold checkRefs
  by_cases h : (options.target.toList ++ options.discards.getD []).any (·.name = "") = true
  · simp only [h, if_true, reduceCtorEq, false_iff]
    obtain ⟨f, hmem, hname⟩ := List.any_eq_true.1 h
    intro hall
    exact hall f hmem (by simpa using hname)
  · simp only [h, Bool.false_eq_true, if_false, true_iff]
    intro f hmem hname
    apply h
    exact List.any_eq_true.2 ⟨f, hmem, by simpa using hname⟩

theorem checkRefs_eq_ok_iff_effective {options : DraftOptions} : checkRefs options = .ok () ↔
    (∀ f ∈ options.target, f.name ≠ "") ∧
      ∀ f ∈ options.discards.getD options.target.toList, f.name ≠ "" := by
  rw [checkRefs_eq_ok_iff]
  cases options.target <;> cases options.discards <;> simp

end

section
variable {ι : Type} {d : Draft} {check : Check ι} {r : Rule ι}

theorem exists_build_iff : (∃ r, d.build check = .ok r) ↔
    checkSignature d.signature = .ok () ∧ checkRefs d.options = .ok () := by
  unfold build
  cases checkSignature d.signature with
  | error cause => simp
  | ok _ =>
    cases checkRefs d.options with
    | error cause => simp
    | ok _ => simp

theorem build_eq_ok (h : d.build check = .ok r) :
    r.name = d.name ∧ r.target = d.options.target ∧
      r.discards = d.options.discards.getD d.options.target.toList ∧ r.owner = d.options.owner ∧
      r.reads = d.options.reads ∧ r.params = .ofList (d.signature.tail.map Parameter.name) ∧
      r.signature = d.signature ∧ r.check = check := by
  unfold build at h
  split at h
  · cases h
  · cases h
  · cases h
    simp

/-- A rule can be built unless its signature has no parameter or a variadic one, or the target or a
field that it discards has no name. It has the name, the target, the discards and the owner that
were told last, and reads what was told since options were last given at once; with no discards told
it discards its target. Its parameters are those after the first. -/
theorem builds_what_was_told (name : String) (sig : Signature) (acts : List Act)
    (check : Check ι) :
    let target := (lastTold Act.target? acts).getD none
    let discards := ((lastTold Act.discards? acts).getD none).getD target.toList
    ((∃ r, (after name sig acts).build check = .ok r) ↔
      (sig ≠ [] ∧ ∀ p ∈ sig, p.isVariadic = false) ∧
        (∀ f ∈ target, f.name ≠ "") ∧ ∀ f ∈ discards, f.name ≠ "") ∧
    ∀ r, (after name sig acts).build check = .ok r →
      r.name = (lastTold Act.name? acts).getD name ∧ r.target = target ∧ r.discards = discards ∧
      r.owner = (lastTold Act.owner? acts).getD none ∧ (∀ a, a ∈ r.reads ↔ ToldRead acts a) ∧
      (∀ a, a ∈ r.params ↔ ∃ p ∈ sig.tail, p.name = a) ∧ r.signature = sig ∧ r.check = check := by
  intro target discards
  refine ⟨?_, ?_⟩
  · rw [exists_build_iff, signature_after, checkSignature_eq_ok_iff,
      checkRefs_eq_ok_iff_effective, target_after, discards_after]
  · intro r h
    obtain ⟨hname, htarget, hdiscards, howner, hreads, hparams, hsig, hcheck⟩ := build_eq_ok h
    rw [signature_after] at hparams hsig
    refine ⟨hname.trans name_after, htarget.trans target_after, ?_, howner.trans owner_after,
      fun a => ?_, fun a => ?_, hsig, hcheck⟩
    · rw [hdiscards, discards_after, target_after]
    · rw [hreads, mem_reads_after_iff]
    · rw [hparams, NameSet.mem_ofList, List.mem_map]

example (check : Check ι) :
    let sig := Signature.method ++ [⟨"limit", .keyword, none⟩]
    let acts : List Act := [.rename "capped", .discards [], .owner "T", .reads ["a"],
      .withOptions ⟨some "price", none, none, .ofList ["b"]⟩, .reads ["c"]]
    ((after "draft" sig acts).build check).map
        (fun r => (r.toRuleInfo, r.target, r.discards, r.owner)) =
      .ok (⟨"capped", .ofList ["limit"], .ofList ["b", "c"]⟩, some "price", ["price"], none) :=
  rfl

end

end Draft

end Vetting
