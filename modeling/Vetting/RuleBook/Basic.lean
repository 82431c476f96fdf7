import Vetting.Lineage.Walk
import Vetting.RuleBook.Dependency
import Vetting.Validation.Basic

/-!
# Rule books

A rule book lists rules by the type that owns them, in the order in which they
were bound. The rules that apply to a type are its own and those of its
ancestors, then those of the type it stands in for, and so on; the walk over
stand-ins ends where it comes back to a type.
-/

namespace Vetting

structure RuleBook (σ ι : Type) where
  lineage : σ → Lineage
  shapes : ShapeSource σ
  dependencies : DependencySource σ
  lists : Table TypeKey (List (Posting ι))

/-- A book, the bindings of all rules, and the state of the sources. -/
structure Standing (σ ι : Type) where
  book : RuleBook σ ι
  bindings : Bindings σ
  state : σ

structure Enrolment (σ ι : Type) extends Standing σ ι where
  event : Event

namespace RuleBook

variable {σ ι : Type}

def plain : RuleBook σ ι := ⟨fun _ => ∅, .none, .declared, ∅⟩

def shownUnsettled : Shown := .hidden "RegistryBuilder"

/-- The names, as identifiers of fields of `owner` where they stand for one. -/
def identified (book : RuleBook σ ι) (owner : TypeKey) (names : NameSet) (s : σ) : NameSet × σ :=
  match book.shapes.ask owner .reading s with
  | (.error _, s) => (names, s)
  | (.ok shape, s) => (names.map shape.identify, s)

/-- The dependencies of a rule that is registered now: the fields it reads, and its parameters. -/
def reading (book : RuleBook σ ι) (owner : TypeKey) (info : RuleInfo) (s : σ) : NameSet × σ :=
  let (reads, s) := book.dependencies.ask owner info s
  let (reads, s) := book.identified owner reads s
  (reads ∪ info.params, s)

def enlist (book : RuleBook σ ι) (owner : TypeKey) (p : Posting ι) : RuleBook σ ι :=
  { book with lists := book.lists.alter owner fun l => l.getD [] ++ [p] }

/-- Binds a rule to `owner` and lists it there, unless it is bound. -/
def register (book : RuleBook σ ι) (p : Posting ι) (owner : TypeKey) (bindings : Bindings σ)
    (s : σ) : Except (Rejection (Standing σ ι)) (Enrolment σ ι) :=
  match bindings.get? p.id with
  | some b => .error ⟨.alreadyBound p.rule.name b.owner, ⟨book, bindings, s⟩⟩
  | none =>
    let (dependencies, s) := book.reading owner p.rule.toRuleInfo s
    .ok {
      book := book.enlist owner p
      bindings := bindings.set p.id ⟨owner, dependencies, book.shapes⟩
      state := s
      event := .registering owner p.rule.name dependencies }

def declare (book : RuleBook σ ι) (p : Posting ι) (bindings : Bindings σ) (s : σ) :
    Except (Rejection (Standing σ ι)) (Enrolment σ ι) :=
  match p.rule.declaredOwner? with
  | none => .error ⟨.conflict (.untypedReceiver p.rule.name), ⟨book, bindings, s⟩⟩
  | some owner => book.register p owner bindings s

def own (book : RuleBook σ ι) (ty : TypeKey) : List (Posting ι) := (book.lists.get? ty).getD []

def inherited (book : RuleBook σ ι) (lineage : Lineage) (ty : TypeKey) : List (Posting ι) :=
  ((lineage.chain? ty).getD [ty]).flatMap book.own

def rulesFor (book : RuleBook σ ι) (s : σ) (ty : TypeKey) : List (Posting ι) × List Event :=
  let lineage := book.lineage s
  let (path, repeated) := lineage.walk ty
  (path.flatMap (book.inherited lineage), repeated.toList.map .standInCycle)

def validate [Typed ι] (book : RuleBook σ ι) (x : ι) (args : Option Arguments)
    (bindings : Bindings σ) (memos : Memos) (s : σ) : Run σ :=
  let (line, events) := book.rulesFor s (Typed.typeOf x)
  (Vetting.validate bindings x args line memos s).after events []

def size (book : RuleBook σ ι) : Nat := book.lists.size

def isEmpty (book : RuleBook σ ι) : Bool := book.lists.isEmpty

def shown (book : RuleBook σ ι) : Shown :=
  .parts "ValidatorRegistry" [("type_count", .nat book.size),
    ("validator_count", .nat book.lists.values.flatten.length)]

end RuleBook

def Posting.shown {σ ι : Type} (p : Posting ι) (bindings : Bindings σ) : Shown :=
  .parts "Validator" [("name", .quoted p.rule.name), ("params", p.rule.params.shown),
    ("field", .option (p.rule.target.map FieldRef.shown)),
    ("discard", .list (p.rule.discards.map FieldRef.shown)),
    ("owner", .option ((bindings.get? p.id).map (·.owner.shown))),
    ("dependencies", (bindings.dependencies p.id).shown),
    ("yielding", .bool p.rule.check.isYielding)]

end Vetting
