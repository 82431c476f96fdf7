import Mathlib.Data.List.Nodup
import Mathlib.Data.Set.Defs
import Vetting.Proofs.Field.Memo
import Vetting.Proofs.Json.RoundTrip

/-!
# Identifiers of fields

A shape is made of fields whose identifiers are distinct, and a book and a memo
only pass on what was made so. But a text can spell any list of fields, and what
is read from it is not looked at again. So there are shapes with an identifier
that comes twice, and each of them was read from a text that has it twice; of
two such fields the second is found by neither of its lookups.
-/

namespace Vetting

/-- The books that definitions lead to. -/
inductive ShapeBook.Reached : ShapeBook → Prop
  | empty : Reached ∅
  | define {book book' : ShapeBook} {ty : TypeKey} {fs : List Field} :
      Reached book → book.define ty fs = .ok book' → Reached book'

namespace Shape

/-- The shapes that can be come by when these texts are read. What is remembered was told before by
a source that told nothing else. -/
inductive Obtained (texts : Set String) : Shape → Prop
  | made {fs : List Field} {s : Shape} : ofFields fs = .ok s → Obtained texts s
  | read {text : String} {s : Shape} : text ∈ texts → read? text = some s → Obtained texts s
  | facing {s : Shape} (d : Direction) : Obtained texts s → Obtained texts (s.facing d)
  | booked {book : ShapeBook} {ty : TypeKey} {d : Direction} {s : Shape} :
      book.Reached → book.shapeOf ty d = .ok s → Obtained texts s
  | remembered {σ : Type} {source : ShapeSource σ} {s₀ : σ} {acts : List (ShapeSource.Act σ)}
      {ty : TypeKey} {d : Direction} {s : Shape} :
      (∀ before ty d s, before <+: acts → source.tells s₀ before ty d = .ok s → Obtained texts s) →
      source.answers s₀ acts ty d = .ok s → Obtained texts s

variable {s s' : Shape} {f : Field} {fs : List Field} {texts : Set String}

/-! ## Making a shape -/

theorem add_eq_ok_iff : s.add f = .ok s' ↔ f.name ∉ s.names ∧ s' = ⟨s.fields ++ [f]⟩ := by
  unfold add
  cases h : s.get? f.name with
  | none => simp [get?_eq_none_iff.1 h, eq_comm]
  | some g =>
    have hmem : f.name ∈ s.names := by
      by_contra hnot
      rw [get?_eq_none_iff.2 hnot] at h
      cases h
    simp [hmem]

theorem ofFields_concat (fs : List Field) (f : Field) :
    ofFields (fs ++ [f]) = ofFields fs >>= fun s => s.add f := by
  unfold ofFields
  rw [List.foldlM_append]
  congr 1
  funext s
  rw [List.foldlM_cons]
  cases s.add f with
  | error fault => rfl
  | ok s' => rfl

theorem ofFields_eq_ok_iff : ofFields fs = .ok s ↔ (fs.map Field.name).Nodup ∧ s = ⟨fs⟩ := by
  induction fs using List.reverseRecOn generalizing s with
  | nil =>
    refine ⟨fun h => ⟨.nil, (Except.ok.inj h).symm⟩, fun h => ?_⟩
    rw [h.2]
    rfl
  | append_singleton fs f ih =>
    rw [ofFields_concat, List.map_append, List.map_singleton, List.nodup_append]
    cases h : ofFields fs with
    | error fault =>
      -- the fields before this one have an identifier twice already
      refine iff_of_false nofun fun hdistinct => ?_
      rw [ih.2 ⟨hdistinct.1.1, rfl⟩] at h
      cases h
    | ok s' =>
      obtain ⟨hnodup, rfl⟩ := ih.1 h
      refine add_eq_ok_iff.trans (and_congr_left fun _ => ?_)
      refine ⟨fun hnew => ⟨hnodup, List.nodup_singleton _, ?_⟩, fun hdistinct hmem => ?_⟩
      · intro a ha b hb
        rw [List.mem_singleton.1 hb]
        exact fun hab => hnew (hab ▸ ha)
      · exact hdistinct.2.2 f.name hmem f.name (List.mem_singleton_self _) rfl

/-! ## Finding a field -/

theorem get?_of_mem (hs : s.names.Nodup) (hf : f ∈ s.fields) : s.get? f.name = some f := by
  cases h : s.get? f.name with
  | none => exact absurd (List.mem_map_of_mem hf) (get?_eq_none_iff.1 h)
  | some g =>
    have hg : g ∈ s.fields := List.mem_of_find?_eq_some h
    rw [List.inj_on_of_nodup_map hs hg hf (name_of_get? h)]

theorem resolve?_of_get? (h : s.get? f.name = some f) : s.resolve? f.name = some f := by
  rw [resolve?, h]
  rfl

/-! ## Passing a shape on -/

theorem nodup_facing (d : Direction) (hs : s.names.Nodup) : (s.facing d).names.Nodup := by
  cases d with
  | reading => exact hs
  | writing => exact hs.sublist (List.filter_sublist.map Field.name)

theorem facing_facing (s : Shape) (d d' : Direction) :
    ∃ d'', (s.facing d).facing d' = s.facing d'' := by
  cases d with
  | reading => exact ⟨d', rfl⟩
  | writing =>
    refine ⟨.writing, ?_⟩
    cases d' with
    | reading => rfl
    | writing => simp [facing]

theorem nodup_of_reached {book : ShapeBook} {ty : TypeKey} (h : book.Reached) :
    ∀ {s : Shape}, book.shapes.get? ty = some s → s.names.Nodup := by
  induction h with
  | empty => nofun
  | define _ hdefine ih =>
    rename_i book book' ty' fs _
    intro s hs
    obtain ⟨made, hmade, rfl⟩ := ShapeBook.define_eq_ok_iff.1 hdefine
    rw [Table.get?_set] at hs
    by_cases hty : ty = ty'
    · rw [if_pos hty] at hs
      obtain ⟨hnodup, hfields⟩ := ofFields_eq_ok_iff.1 hmade
      rw [← Option.some.inj hs, hfields]
      exact hnodup
    · rw [if_neg hty] at hs
      exact ih hs

theorem Obtained.nodup_or_read (h : Obtained texts s) : s.names.Nodup ∨
    ∃ text ∈ texts, ∃ t d, read? text = some t ∧ ¬ t.names.Nodup ∧ s = t.facing d := by
  induction h with
  | made hmade =>
    obtain ⟨hnodup, rfl⟩ := ofFields_eq_ok_iff.1 hmade
    exact Or.inl hnodup
  | read htext hread =>
    rename_i s
    by_cases hs : s.names.Nodup
    · exact Or.inl hs
    · exact Or.inr ⟨_, htext, s, .reading, hread, hs, rfl⟩
  | facing d _ ih =>
    rcases ih with hnodup | ⟨text, htext, t, d', hread, ht, rfl⟩
    · exact Or.inl (nodup_facing d hnodup)
    · obtain ⟨d'', hfacing⟩ := t.facing_facing d' d
      exact Or.inr ⟨text, htext, t, d'', hread, ht, hfacing⟩
  | booked hbook hshape =>
    rename_i book ty d s
    unfold ShapeBook.shapeOf at hshape
    cases hpage : book.shapes.get? ty with
    | none =>
      rw [hpage] at hshape
      cases hshape
    | some page =>
      rw [hpage] at hshape
      cases hshape
      exact Or.inl (nodup_facing d (nodup_of_reached hbook hpage))
  | remembered _ hanswer ih =>
    obtain ⟨before, hbefore, htells⟩ := ShapeSource.told_of_answers hanswer
    exact ih before _ _ _ hbefore htells

/-- A shape is made of fields just if their identifiers are distinct, and then it has all of them in
order. Every other shape has distinct identifiers too and finds each of its fields by its identifier,
unless it was read from a text that has an identifier twice; every list of fields has a text from
which it is read. -/
theorem identifiers_repeat_as_read (texts : Set String) :
    (∀ fs s, ofFields fs = .ok s ↔ (fs.map Field.name).Nodup ∧ s = ⟨fs⟩) ∧
    (∀ s, Obtained texts s → ¬ s.names.Nodup →
      ∃ text ∈ texts, ∃ t d, read? text = some t ∧ ¬ t.names.Nodup ∧ s = t.facing d) ∧
    ((∀ s, Obtained texts s → s.names.Nodup) ↔
      ∀ text ∈ texts, ∀ s, read? text = some s → s.names.Nodup) ∧
    (∀ s : Shape, s.names.Nodup →
      ∀ f ∈ s.fields, s.get? f.name = some f ∧ s.resolve? f.name = some f) ∧
    ∀ fs, ∃ text, read? text = some ⟨fs⟩ := by
  refine ⟨fun fs s => ofFields_eq_ok_iff, ?_, ⟨?_, ?_⟩, ?_, fun fs => ⟨_, read?_text ⟨fs⟩⟩⟩
  · intro s hs hrepeat
    exact hs.nodup_or_read.resolve_left hrepeat
  · intro hall text htext s hread
    exact hall s (.read htext hread)
  · intro hread s hs
    rcases hs.nodup_or_read with hnodup | ⟨text, htext, t, d, ht, hrepeat, -⟩
    · exact hnodup
    · exact absurd (hread text htext t ht) hrepeat
  · intro s hnodup f hf
    have hget := get?_of_mem hnodup hf
    exact ⟨hget, resolve?_of_get? hget⟩

def textOfTwo : String :=
  "[\x7b\"name\":\"a\",\"alias\":\"x\",\"declared_name\":\"a\"\x7d," ++
    "\x7b\"name\":\"a\",\"alias\":\"y\",\"declared_name\":\"a\"\x7d]"

/-- The two fields are read as they stand, though no shape is made of them, and the second is not
found by its identifier. -/
theorem second_of_textOfTwo_is_hidden :
    let x : Field := ⟨"a", "x", "a", false⟩
    let y : Field := ⟨"a", "y", "a", false⟩
    read? textOfTwo = some ⟨[x, y]⟩ ∧ (∀ s, ofFields [x, y] ≠ .ok s) ∧
      (⟨[x, y]⟩ : Shape).get? y.name = some x ∧ (⟨[x, y]⟩ : Shape).resolve? y.name = some x ∧
      ¬ ∀ s, Obtained {textOfTwo} s → s.names.Nodup := by
  intro x y
  obtain ⟨hmade, -, hall, -⟩ := identifiers_repeat_as_read {textOfTwo}
  have hread : read? textOfTwo = some ⟨[x, y]⟩ := by decide +kernel
  have hrepeat : ¬ ([x, y].map Field.name).Nodup := by decide
  refine ⟨hread, fun s hs => ?_, rfl, rfl, fun hnodup => ?_⟩
  · exact hrepeat ((hmade [x, y] s).1 hs).1
  · exact hrepeat (hall.1 hnodup textOfTwo rfl ⟨[x, y]⟩ hread)

end Shape

end Vetting
