import Vetting.Proofs.Field.Memo
import Vetting.Schema

/-!
# Sources that a question does not change

A schema offers its book, the book with a count, and a memory in front of that.
A question may be counted, and its answer remembered; but whichever source was
asked, each of them answers any question afterwards as it would have before.
-/

namespace Vetting.Schema

inductive Offers : ShapeSource Schema → Prop
  | book : Offers book
  | counted : Offers counted
  | memoised : Offers memoised

/-- What the memory tells of a type in one direction, or else the book. -/
def recollect (s : Schema) (ty : TypeKey) (d : Direction) : Except Fault Shape :=
  match s.memo.known.get? (ty, d) with
  | some shape => .ok shape
  | none => s.shapes.shapeOf ty d

def held (s : Schema) : ShapeSource.Held ShapeBook := (s.memo, s.asked, s.shapes)

section
variable {source source' : ShapeSource Schema} {ty : TypeKey} {d : Direction} {s : Schema}

theorem ask_of_held {answer : Except Fault Shape} {memo : ShapeMemo} {asked : Nat}
    {shapes : ShapeBook}
    (h : ShapeBook.source.counted.memoised.ask ty d s.held = (answer, memo, asked, shapes)) :
    memoised.ask ty d s = (answer, { s with memo, asked, shapes }) := by
  unfold held at h
  simp only [memoised, ShapeSource.within, h]

theorem ask_memoised (ty : TypeKey) (d : Direction) (s : Schema) :
    (memoised.ask ty d s).1 = s.recollect ty d ∧ (memoised.ask ty d s).2.shapes = s.shapes ∧
      ((memoised.ask ty d s).2.memo = s.memo ∨ ∃ shape, s.recollect ty d = .ok shape ∧
        (memoised.ask ty d s).2.memo = ⟨s.memo.known.set (ty, d) shape⟩) := by
  unfold recollect
  cases h : s.memo.known.get? (ty, d) with
  | some shape =>
    have hknown : s.held.1.known.get? (ty, d) = some shape := h
    rw [ask_of_held (ShapeSource.ask_of_known ShapeBook.source hknown)]
    exact ⟨rfl, rfl, Or.inl rfl⟩
  | none =>
    have hnone : s.held.1.known.get? (ty, d) = none := h
    rcases ShapeSource.ask_of_unknown ShapeBook.source hnone with
      ⟨shape, htold, hask⟩ | ⟨fault, htold, hask⟩
    · rw [ask_of_held hask]
      exact ⟨htold.symm, rfl, Or.inr ⟨shape, htold, rfl⟩⟩
    · rw [ask_of_held hask]
      exact ⟨htold.symm, rfl, Or.inl rfl⟩

theorem Offers.keeps (h : Offers source) (ty' : TypeKey) (d' : Direction) :
    (source.ask ty' d' s).2.shapes = s.shapes ∧
      (source.ask ty' d' s).2.recollect ty d = s.recollect ty d := by
  cases h with
  | book => exact ⟨rfl, rfl⟩
  | counted => exact ⟨rfl, rfl⟩
  | memoised =>
    obtain ⟨-, hshapes, hmemo⟩ := ask_memoised ty' d' s
    refine ⟨hshapes, ?_⟩
    rcases hmemo with hmemo | ⟨shape, hfound, hmemo⟩
    · simp only [recollect, hshapes, hmemo]
    · by_cases hq : (ty, d) = (ty', d')
      · cases hq
        rw [hfound]
        simp only [recollect, hmemo, Table.get?_set, if_true]
      · simp only [recollect, hshapes, hmemo, Table.get?_set, hq, if_false]

/-- A question to one source of a schema changes the answers of none. -/
theorem Offers.answer_eq (h : Offers source) (h' : Offers source') (ty' : TypeKey)
    (d' : Direction) :
    (source.ask ty d (source'.ask ty' d' s).2).1 = (source.ask ty d s).1 := by
  obtain ⟨hshapes, hsame⟩ : _ ∧ _ = s.recollect ty d := h'.keeps ty' d'
  cases h with
  | book => exact congrArg (ShapeBook.shapeOf · ty d) hshapes
  | counted => exact congrArg (ShapeBook.shapeOf · ty d) hshapes
  | memoised => rw [(ask_memoised ty d _).1, hsame, (ask_memoised ty d s).1]

end

end Vetting.Schema
