import Vetting.Field.Source
import Vetting.Proofs.History
import Vetting.Proofs.Lists

/-!
# What a memoised source remembers

A memoised source goes through a history: it is asked, its memory is cleared,
and what is behind it changes in whatever way. What it knows of a type in one
direction is what the source behind it first told about just that since the
memory was last cleared (`get?_known_after`); what was not told is asked again.
-/

namespace Vetting.ShapeSource

inductive Act (σ : Type) where
  | ask (ty : TypeKey) (d : Direction)
  | clear
  | change (s : σ)

section
variable {σ : Type} (source : ShapeSource σ) (s₀ : σ)

/-- The memory, how often the source behind it was asked, and the state of that source. -/
abbrev Held (σ : Type) := ShapeMemo × Nat × σ

def perform (held : Held σ) : Act σ → Held σ
  | .ask ty d => (source.counted.memoised.ask ty d held).2
  | .clear => (∅, held.2)
  | .change s => (held.1, held.2.1, s)

def after (acts : List (Act σ)) : Held σ := acts.foldl source.perform (∅, 0, s₀)

/-- What the source behind the memory tells if it is asked after these acts. -/
def tells (acts : List (Act σ)) (ty : TypeKey) (d : Direction) : Except Fault Shape :=
  (source.ask ty d (source.after s₀ acts).2.2).1

def answers (acts : List (Act σ)) (ty : TypeKey) (d : Direction) : Except Fault Shape :=
  (source.counted.memoised.ask ty d (source.after s₀ acts)).1

/-- Whenever this was asked since the memory was last cleared, the source behind it failed. -/
def Untold (acts : List (Act σ)) (ty : TypeKey) (d : Direction) : Prop :=
  ∀ before between, acts = before ++ .ask ty d :: between → .clear ∉ between →
    ∃ fault, source.tells s₀ before ty d = .error fault

/-- What the source behind told when this was first asked with success since the memory was last
cleared. -/
def FirstTold (acts : List (Act σ)) (ty : TypeKey) (d : Direction) (shape : Shape) : Prop :=
  ∃ before between, acts = before ++ .ask ty d :: between ∧ .clear ∉ between ∧
    source.tells s₀ before ty d = .ok shape ∧ source.Untold s₀ before ty d

/-- At the moment after `before`, a question comes that was not told the answer of. -/
def AskedAnew (acts before : List (Act σ)) : Prop :=
  ∃ ty d, before ++ [.ask ty d] <+: acts ∧ source.Untold s₀ before ty d

def LookedUp (acts : List (Act σ)) (ty : TypeKey) (d : Direction) : Prop :=
  ∃ before between, acts = before ++ .ask ty d :: between ∧ .clear ∉ between ∧
    ∃ shape, source.answers s₀ before ty d = .ok shape

end

section
variable {σ : Type} {source : ShapeSource σ} {s₀ : σ} {held : Held σ} {acts : List (Act σ)}
  {act : Act σ} {ty : TypeKey} {d : Direction} {shape shape' : Shape}

/-! ## One act -/

theorem ask_of_known (source : ShapeSource σ) (h : held.1.known.get? (ty, d) = some shape) :
    source.counted.memoised.ask ty d held = (.ok shape, held) := by
  obtain ⟨memo, n, s⟩ := held
  simp only [memoised, h]

theorem ask_of_unknown (source : ShapeSource σ) (h : held.1.known.get? (ty, d) = .none) :
    (∃ shape, (source.ask ty d held.2.2).1 = .ok shape ∧
      source.counted.memoised.ask ty d held = (.ok shape, ⟨held.1.known.set (ty, d) shape⟩,
        held.2.1 + 1, (source.ask ty d held.2.2).2)) ∨
    ∃ fault, (source.ask ty d held.2.2).1 = .error fault ∧
      source.counted.memoised.ask ty d held = (.error fault, held.1,
        held.2.1 + 1, (source.ask ty d held.2.2).2) := by
  obtain ⟨memo, n, s⟩ := held
  cases htold : source.ask ty d s with
  | mk told s' =>
    cases told with
    | ok shape => exact Or.inl ⟨shape, rfl, by simp only [memoised, counted, h, htold]⟩
    | error fault => exact Or.inr ⟨fault, rfl, by simp only [memoised, counted, h, htold]⟩

theorem known_ask_of_ne {ty' : TypeKey} {d' : Direction} (hne : (ty, d) ≠ (ty', d')) :
    (source.counted.memoised.ask ty' d' held).2.1.known.get? (ty, d) =
      held.1.known.get? (ty, d) := by
  cases h : held.1.known.get? (ty', d') with
  | some shape => rw [ask_of_known source h]
  | none =>
    rcases ask_of_unknown source h with ⟨shape, -, hask⟩ | ⟨fault, -, hask⟩
    · rw [hask, Table.get?_set, if_neg hne]
    · rw [hask]

/-! ## A history and one act more -/

theorem after_concat :
    source.after s₀ (acts ++ [act]) = source.perform (source.after s₀ acts) act :=
  List.foldl_concat source.perform _ act acts

theorem FirstTold.append {more : List (Act σ)} (h : source.FirstTold s₀ acts ty d shape)
    (hmore : .clear ∉ more) : source.FirstTold s₀ (acts ++ more) ty d shape := by
  obtain ⟨before, between, rfl, hclear, htold⟩ := h
  refine ⟨before, between ++ more, by simp, ?_, htold⟩
  rw [List.mem_append]
  exact fun hmem => hmem.elim hclear hmore

theorem FirstTold.concat (h : source.FirstTold s₀ acts ty d shape) (hact : act ≠ .clear) :
    source.FirstTold s₀ (acts ++ [act]) ty d shape :=
  h.append fun hmem => hact (List.mem_singleton.1 hmem).symm

theorem Untold.concat (h : source.Untold s₀ acts ty d)
    (hact : act = .ask ty d → ∃ fault, source.tells s₀ acts ty d = .error fault) :
    source.Untold s₀ (acts ++ [act]) ty d := by
  intro before between heq hclear
  rcases concat_eq_append_cons heq with ⟨rfl, rfl, hask⟩ | ⟨between', rfl, hacts⟩
  · exact hact hask
  · exact h before between' hacts fun hmem => hclear (List.mem_append_left _ hmem)

theorem untold_clear : source.Untold s₀ (acts ++ [.clear]) ty d := by
  intro before between heq hclear
  rcases concat_eq_append_cons heq with ⟨-, -, hask⟩ | ⟨between', rfl, -⟩
  · cases hask
  · exact absurd (by simp) hclear

theorem untold_nil : source.Untold s₀ [] ty d := by
  intro before between heq _
  simp at heq

/-! ## What is known -/

theorem told_or_untold (source : ShapeSource σ) (s₀ : σ) (acts : List (Act σ)) :
    ∀ (ty : TypeKey) (d : Direction),
      (∃ shape, (source.after s₀ acts).1.known.get? (ty, d) = some shape ∧
        source.FirstTold s₀ acts ty d shape) ∨
      (source.after s₀ acts).1.known.get? (ty, d) = .none ∧ source.Untold s₀ acts ty d := by
  induction acts using List.reverseRecOn with
  | nil => exact fun ty d => Or.inr ⟨rfl, untold_nil⟩
  | append_singleton acts act ih =>
    intro ty d
    rw [after_concat]
    cases act with
    | clear => exact Or.inr ⟨rfl, untold_clear⟩
    | change s =>
      rcases ih ty d with ⟨shape, hknown, htold⟩ | ⟨hknown, huntold⟩
      · exact Or.inl ⟨shape, hknown, htold.concat nofun⟩
      · exact Or.inr ⟨hknown, huntold.concat nofun⟩
    | ask ty' d' =>
      rw [perform]
      -- what is known changes for the question that is asked, and only if that was not known
      by_cases hsame : (ty, d) = (ty', d')
      · cases hsame
        rcases ih ty d with ⟨shape, hknown, htold⟩ | ⟨hknown, huntold⟩
        · rw [ask_of_known source hknown]
          exact Or.inl ⟨shape, hknown, htold.concat nofun⟩
        · rcases ask_of_unknown source hknown with ⟨shape, htells, hask⟩ | ⟨fault, htells, hask⟩
          · rw [hask]
            exact Or.inl ⟨shape, by simp, acts, [], rfl, by simp, htells, huntold⟩
          · rw [hask]
            exact Or.inr ⟨hknown, huntold.concat fun _ => ⟨fault, htells⟩⟩
      · rw [known_ask_of_ne hsame]
        rcases ih ty d with ⟨shape, hknown, htold⟩ | ⟨hknown, huntold⟩
        · exact Or.inl ⟨shape, hknown, htold.concat nofun⟩
        · refine Or.inr ⟨hknown, huntold.concat fun hact => absurd ?_ hsame⟩
          cases hact
          rfl

theorem FirstTold.not_untold (h : source.FirstTold s₀ acts ty d shape) :
    ¬ source.Untold s₀ acts ty d := by
  obtain ⟨before, between, hacts, hclear, htells, -⟩ := h
  intro huntold
  obtain ⟨fault, hfault⟩ := huntold before between hacts hclear
  cases htells.symm.trans hfault

theorem prefix_of_untold {before before' between between' : List (Act σ)}
    (heq : before ++ .ask ty d :: between = before' ++ .ask ty d :: between')
    (hclear : .clear ∉ between) (htells : source.tells s₀ before ty d = .ok shape)
    (huntold : source.Untold s₀ before' ty d) : before' <+: before := by
  rcases List.append_eq_append_iff.1 heq with ⟨mid, hbefore', hrest⟩ | ⟨mid, hbefore, -⟩
  · cases mid with
    | nil => exact ⟨[], by rw [hbefore', List.append_nil, List.append_nil]⟩
    | cons act mid =>
      rw [List.cons_append, List.cons.injEq] at hrest
      obtain ⟨rfl, rfl⟩ := hrest
      obtain ⟨fault, hfault⟩ :=
        huntold before mid hbefore' fun hmem => hclear (List.mem_append_left _ hmem)
      cases htells.symm.trans hfault
  · exact ⟨mid, hbefore.symm⟩

theorem FirstTold.unique (h : source.FirstTold s₀ acts ty d shape)
    (h' : source.FirstTold s₀ acts ty d shape') : shape = shape' := by
  obtain ⟨before, between, rfl, hclear, htells, huntold⟩ := h
  obtain ⟨before', between', heq, hclear', htells', huntold'⟩ := h'
  have hle := prefix_of_untold heq hclear htells huntold'
  have hge := prefix_of_untold heq.symm hclear' htells' huntold
  have hbefore : before = before' := hge.eq_of_length (Nat.le_antisymm hge.length_le hle.length_le)
  subst hbefore
  exact Except.ok.inj (htells.symm.trans htells')

/-- What is known is what was told first. -/
theorem get?_known_after :
    (source.after s₀ acts).1.known.get? (ty, d) = some shape ↔
      source.FirstTold s₀ acts ty d shape := by
  rcases source.told_or_untold s₀ acts ty d with ⟨first, hknown, htold⟩ | ⟨hknown, huntold⟩
  · rw [hknown, Option.some.injEq]
    exact ⟨fun h => h ▸ htold, htold.unique⟩
  · rw [hknown]
    exact ⟨nofun, fun h => absurd huntold h.not_untold⟩

theorem get?_known_after_eq_none :
    (source.after s₀ acts).1.known.get? (ty, d) = .none ↔ source.Untold s₀ acts ty d := by
  rcases source.told_or_untold s₀ acts ty d with ⟨first, hknown, htold⟩ | ⟨hknown, huntold⟩
  · rw [hknown]
    exact ⟨nofun, fun h => absurd h htold.not_untold⟩
  · exact ⟨fun _ => huntold, fun _ => hknown⟩

theorem lookedUp_iff :
    source.LookedUp s₀ acts ty d ↔ ∃ shape, source.FirstTold s₀ acts ty d shape := by
  constructor
  · rintro ⟨before, between, rfl, hclear, shape, hanswer⟩
    rcases source.told_or_untold s₀ before ty d with ⟨first, -, htold⟩ | ⟨hknown, huntold⟩
    · exact ⟨first, htold.append (by simpa using hclear)⟩
    · rcases ask_of_unknown source hknown with ⟨shape, htells, -⟩ | ⟨fault, -, hask⟩
      · exact ⟨shape, before, between, rfl, hclear, htells, huntold⟩
      · rw [answers, hask] at hanswer
        cases hanswer
  · rintro ⟨shape, before, between, rfl, hclear, htells, huntold⟩
    refine ⟨before, between, rfl, hclear, shape, ?_⟩
    rcases ask_of_unknown source (get?_known_after_eq_none.2 huntold) with
      ⟨shape', htells', hask⟩ | ⟨fault, hfault, -⟩
    · rw [answers, hask, Except.ok.inj (htells.symm.trans htells')]
    · cases htells.symm.trans hfault

theorem told_of_answers (h : source.answers s₀ acts ty d = .ok shape) :
    ∃ before, before <+: acts ∧ source.tells s₀ before ty d = .ok shape := by
  rcases source.told_or_untold s₀ acts ty d with ⟨first, hknown, htold⟩ | ⟨hknown, -⟩
  · rw [answers, ask_of_known source hknown] at h
    obtain ⟨before, between, rfl, -, htells, -⟩ := htold
    exact ⟨before, List.prefix_append _ _, htells.trans h⟩
  · rcases ask_of_unknown source hknown with ⟨shape', htells, hask⟩ | ⟨fault, -, hask⟩
    · rw [answers, hask] at h
      exact ⟨acts, List.prefix_rfl, htells.trans h⟩
    · rw [answers, hask] at h
      cases h

theorem size_after : ∃ pairs : List (TypeKey × Direction), pairs.Nodup ∧
    (∀ ty d, (ty, d) ∈ pairs ↔ source.LookedUp s₀ acts ty d) ∧
    (source.after s₀ acts).1.size = pairs.length := by
  refine ⟨(source.after s₀ acts).1.known.keys, (source.after s₀ acts).1.known.distinct, ?_, ?_⟩
  · intro ty d
    simp only [lookedUp_iff, ← get?_known_after]
    constructor
    · intro hmem
      cases hknown : (source.after s₀ acts).1.known.get? (ty, d) with
      | none => exact absurd hmem (Table.get?_eq_none_iff.1 hknown)
      | some shape => exact ⟨shape, rfl⟩
    · rintro ⟨shape, hknown⟩
      exact Table.mem_keys_of_get? hknown
  · exact (List.length_map _).symm

/-! ## When the source behind is asked -/

theorem askedAnew_concat {before : List (Act σ)} :
    source.AskedAnew s₀ (acts ++ [act]) before ↔ source.AskedAnew s₀ acts before ∨
      before = acts ∧ ∃ ty d, act = .ask ty d ∧ source.Untold s₀ acts ty d := by
  unfold AskedAnew
  simp only [moment_concat_iff]
  constructor
  · rintro ⟨ty, d, hle | ⟨rfl, hact⟩, huntold⟩
    · exact Or.inl ⟨ty, d, hle, huntold⟩
    · exact Or.inr ⟨rfl, ty, d, hact.symm, huntold⟩
  · rintro (⟨ty, d, hle, huntold⟩ | ⟨rfl, ty, d, hact, huntold⟩)
    · exact ⟨ty, d, Or.inl hle, huntold⟩
    · exact ⟨ty, d, Or.inr ⟨rfl, hact.symm⟩, huntold⟩

theorem not_askedAnew_self : ¬ source.AskedAnew s₀ acts acts := by
  rintro ⟨ty, d, hle, -⟩
  have hlength := hle.length_le
  rw [List.length_append] at hlength
  exact Nat.not_succ_le_self _ hlength

theorem asked_concat_of_untold (h : source.Untold s₀ acts ty d) :
    (source.after s₀ (acts ++ [.ask ty d])).2.1 = (source.after s₀ acts).2.1 + 1 := by
  rw [after_concat, perform]
  rcases ask_of_unknown source (get?_known_after_eq_none.2 h) with
    ⟨shape, -, hask⟩ | ⟨fault, -, hask⟩
  · rw [hask]
  · rw [hask]

theorem asked_concat_of_not (h : ¬ ∃ ty d, act = .ask ty d ∧ source.Untold s₀ acts ty d) :
    (source.after s₀ (acts ++ [act])).2.1 = (source.after s₀ acts).2.1 := by
  rw [after_concat]
  cases act with
  | clear => rfl
  | change s => rfl
  | ask ty d =>
    rcases source.told_or_untold s₀ acts ty d with ⟨shape, hknown, -⟩ | ⟨-, huntold⟩
    · rw [perform, ask_of_known source hknown]
    · exact absurd ⟨ty, d, rfl, huntold⟩ h

theorem asked_after (source : ShapeSource σ) (s₀ : σ) (acts : List (Act σ)) :
    ∃ moments : List (List (Act σ)), moments.Nodup ∧
      (∀ before, before ∈ moments ↔ source.AskedAnew s₀ acts before) ∧
      (source.after s₀ acts).2.1 = moments.length := by
  induction acts using List.reverseRecOn with
  | nil =>
    refine ⟨[], .nil, fun before => ⟨nofun, ?_⟩, rfl⟩
    rintro ⟨ty, d, hle, -⟩
    exact absurd hle not_moment_nil
  | append_singleton acts act ih =>
    obtain ⟨moments, hnodup, hmoments, hasked⟩ := ih
    by_cases hnew : ∃ ty d, act = .ask ty d ∧ source.Untold s₀ acts ty d
    · have hlast : acts ∉ moments := fun hmem => not_askedAnew_self ((hmoments acts).1 hmem)
      refine ⟨acts :: moments, List.nodup_cons.2 ⟨hlast, hnodup⟩, fun before => ?_, ?_⟩
      · rw [List.mem_cons, hmoments, askedAnew_concat, or_comm, and_iff_left hnew]
      · obtain ⟨ty, d, rfl, huntold⟩ := hnew
        rw [asked_concat_of_untold huntold, hasked, List.length_cons]
    · refine ⟨moments, hnodup, fun before => ?_, ?_⟩
      · rw [hmoments, askedAnew_concat, or_iff_left fun h => hnew h.2]
      · rw [asked_concat_of_not hnew, hasked]

/-- A question after any history is answered with what the source behind first told about just that
since the memory was last cleared, and leaves everything as it was. If it told nothing, it is asked
now and its answer passed on; a fault is not remembered. It is never asked but for that, what is
known otherwise stays, and as many shapes are remembered as questions were answered. -/
theorem memoised_since_clear (source : ShapeSource σ) (s₀ : σ) (acts : List (Act σ)) (ty : TypeKey)
    (d : Direction) :
    (∀ shape, source.FirstTold s₀ acts ty d shape →
      source.counted.memoised.ask ty d (source.after s₀ acts) = (.ok shape, source.after s₀ acts)) ∧
    ((∀ shape, ¬ source.FirstTold s₀ acts ty d shape) → ∃ memo,
      source.counted.memoised.ask ty d (source.after s₀ acts) =
        (source.tells s₀ acts ty d, memo, (source.after s₀ acts).2.1 + 1,
          (source.ask ty d (source.after s₀ acts).2.2).2) ∧
      ∀ fault, source.tells s₀ acts ty d = .error fault → memo = (source.after s₀ acts).1) ∧
    (∀ ty' d', (ty', d') ≠ (ty, d) →
      (source.after s₀ (acts ++ [.ask ty d])).1.known.get? (ty', d') =
        (source.after s₀ acts).1.known.get? (ty', d')) ∧
    (∃ moments : List (List (Act σ)), moments.Nodup ∧
      (∀ before, before ∈ moments ↔ source.AskedAnew s₀ acts before) ∧
      (source.after s₀ acts).2.1 = moments.length) ∧
    ∃ pairs : List (TypeKey × Direction), pairs.Nodup ∧
      (∀ ty' d', (ty', d') ∈ pairs ↔ source.LookedUp s₀ acts ty' d') ∧
      (source.after s₀ acts).1.size = pairs.length := by
  refine ⟨?_, ?_, ?_, source.asked_after s₀ acts, size_after⟩
  · intro shape htold
    exact ask_of_known source (get?_known_after.2 htold)
  · intro hnone
    have hknown : (source.after s₀ acts).1.known.get? (ty, d) = .none := by
      rcases source.told_or_untold s₀ acts ty d with ⟨first, -, htold⟩ | ⟨hknown, -⟩
      · exact absurd htold (hnone first)
      · exact hknown
    rcases ask_of_unknown source hknown with ⟨shape, htells, hask⟩ | ⟨fault, htells, hask⟩
    · refine ⟨_, by rw [hask, tells, htells], fun fault hfault => ?_⟩
      cases htells.symm.trans hfault
    · exact ⟨_, by rw [hask, tells, htells], fun _ _ => rfl⟩
  · intro ty' d' hne
    rw [after_concat]
    exact known_ask_of_ne hne

example :
    let before : ShapeBook := ⟨(∅ : Table TypeKey Shape).set "T" ⟨[.named "a"]⟩⟩
    let acts : List (Act ShapeBook) := [.change before, .ask "T" .reading, .change ∅]
    ShapeBook.source.answers ∅ acts "T" .reading = .ok ⟨[.named "a"]⟩ ∧
      ShapeBook.source.answers ∅ acts "T" .writing = .error (.unknownType "T") ∧
      ShapeBook.source.answers ∅ (acts ++ [.clear]) "T" .reading = .error (.unknownType "T") :=
  ⟨rfl, rfl, rfl⟩

end

end Vetting.ShapeSource
