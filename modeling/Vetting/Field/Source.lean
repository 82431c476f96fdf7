import Vetting.Field.Basic

/-!
# Where shapes come from

A source answers what the shape of a type is. Answering may change the state
that the source keeps: a book answers from its pages and changes nothing, a
counted source counts the questions, and a memoised source asks another one
only for what it has not been told before. A fault is never remembered.
-/

namespace Vetting

/-- A question that may end in a fault; the state stays as the question left it. -/
abbrev Asking (σ α : Type) := ExceptT Fault (StateM σ) α

structure ShapeSource (σ : Type) where
  ask : TypeKey → Direction → Asking σ Shape

namespace ShapeSource

variable {σ τ : Type}

/-- The source for a larger state, of which `get` is the part that it keeps. -/
def within (source : ShapeSource σ) (get : τ → σ) (put : τ → σ → τ) : ShapeSource τ where
  ask ty d := fun t =>
    let (answer, s) := source.ask ty d (get t)
    (answer, put t s)

def none : ShapeSource σ := ⟨fun ty _ => throw (.unknownType ty)⟩

def counted (source : ShapeSource σ) : ShapeSource (Nat × σ) where
  ask ty d := fun (n, s) =>
    let (answer, s) := source.ask ty d s
    (answer, n + 1, s)

def find (source : ShapeSource σ) (ty : TypeKey) (name : String) : Asking σ (Option Field) := do
  return (← source.ask ty .reading).get? name

def get (source : ShapeSource σ) (ty : TypeKey) (name : String) : Asking σ Field := do
  match ← source.find ty name with
  | some f => return f
  | .none => throw (.unknownField ty name)

def label (source : ShapeSource σ) (ty : TypeKey) (name : String) : Asking σ String := do
  return (← source.get ty name).label

def labels (source : ShapeSource σ) (ty : TypeKey) (d : Direction) :
    Asking σ (List (String × String)) := do
  return (← source.ask ty d).fields.map fun f => (f.name, f.label)

end ShapeSource

structure ShapeBook where
  shapes : Table TypeKey Shape

namespace ShapeBook

instance : EmptyCollection ShapeBook := ⟨⟨∅⟩⟩

def define (book : ShapeBook) (ty : TypeKey) (fs : List Field) :
    Except (Rejection ShapeBook) ShapeBook :=
  match Shape.ofFields fs with
  | .error fault => .error ⟨fault, book⟩
  | .ok shape => .ok ⟨book.shapes.set ty shape⟩

theorem define_eq_ok_iff {book book' : ShapeBook} {ty : TypeKey} {fs : List Field} :
    book.define ty fs = .ok book' ↔
      ∃ shape, Shape.ofFields fs = .ok shape ∧ book' = ⟨book.shapes.set ty shape⟩ := by
  unfold define
  cases Shape.ofFields fs with
  | error fault => simp
  | ok shape => simp [eq_comm]

theorem define_eq_error {book : ShapeBook} {ty : TypeKey} {fs : List Field}
    {r : Rejection ShapeBook} (h : book.define ty fs = .error r) : r.state = book := by
  unfold define at h
  cases hf : Shape.ofFields fs with
  | error fault =>
    rw [hf] at h
    cases h
    rfl
  | ok shape =>
    rw [hf] at h
    cases h

def contains (book : ShapeBook) (ty : TypeKey) : Bool := book.shapes.contains ty

def shapeOf (book : ShapeBook) (ty : TypeKey) (d : Direction) : Except Fault Shape :=
  match book.shapes.get? ty with
  | some shape => .ok (shape.facing d)
  | none => .error (.unknownType ty)

def source : ShapeSource ShapeBook := ⟨fun ty d book => (book.shapeOf ty d, book)⟩

end ShapeBook

structure ShapeMemo where
  known : Table (TypeKey × Direction) Shape

namespace ShapeMemo

instance : EmptyCollection ShapeMemo := ⟨⟨∅⟩⟩

def size (memo : ShapeMemo) : Nat := memo.known.size

def shown (memo : ShapeMemo) : Shown :=
  .parts "CachedFieldResolver" [("cached_len", .nat memo.size)]

end ShapeMemo

/-- What is known is told from memory; what is told for the first time is kept. -/
def ShapeSource.memoised (source : ShapeSource σ) : ShapeSource (ShapeMemo × σ) where
  ask ty d := fun (memo, s) =>
    match memo.known.get? (ty, d) with
    | some shape => (.ok shape, memo, s)
    | .none => match source.ask ty d s with
      | (.ok shape, s) => (.ok shape, ⟨memo.known.set (ty, d) shape⟩, s)
      | (.error fault, s) => (.error fault, memo, s)

end Vetting
