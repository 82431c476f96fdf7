import Vetting.RuleBook.Basic

/-!
# Batches

A batch holds rules that are declared before the type they belong to is
complete. They are bound together, in the order in which they were added, as
far as the first that cannot be bound.
-/

namespace Vetting

structure Batch (ι : Type) where
  pending : List (Posting ι)

structure Finalization (σ ι : Type) where
  result : Except Fault (List (Posting ι))
  book : RuleBook σ ι
  bindings : Bindings σ
  state : σ
  events : List Event

namespace Batch

variable {σ ι : Type}

instance : EmptyCollection (Batch ι) := ⟨⟨[]⟩⟩

def size (b : Batch ι) : Nat := b.pending.length

def isEmpty (b : Batch ι) : Bool := b.pending.isEmpty

def add (b : Batch ι) (p : Posting ι) : Except (Rejection (Batch ι)) (Batch ι) :=
  if p.rule.owner.isSome then .error ⟨.conflict (.ownerInBatch p.rule.name), b⟩
  else .ok ⟨b.pending ++ [p]⟩

def registerAll (owner : TypeKey) :
    List (Posting ι) → RuleBook σ ι → Bindings σ → σ → Finalization σ ι
  | [], book, bindings, s => ⟨.ok [], book, bindings, s, []⟩
  | p :: ps, book, bindings, s => match book.register p owner bindings s with
    | .error r => ⟨.error r.fault, r.state.book, r.state.bindings, r.state.state, []⟩
    | .ok e =>
      let f := registerAll owner ps e.book e.bindings e.state
      { f with result := f.result.map (p :: ·), events := e.event :: f.events }

def finalize (b : Batch ι) (owner : TypeKey) (book : RuleBook σ ι) (bindings : Bindings σ)
    (s : σ) : Finalization σ ι :=
  registerAll owner b.pending book bindings s

end Batch

end Vetting
