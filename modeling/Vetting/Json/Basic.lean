import Vetting.Json.Number
import Vetting.Json.Quoted
import Vetting.NameMap

/-!
# JSON

A JSON value keeps the entries of an object in the order in which they were
written, repeated keys included. `settle` makes of it the value that data mean:
the entries in order of their keys, the last of a repeated key. `write` is the
compact text.
-/

namespace Vetting

inductive Json where
  | null
  | bool (b : Bool)
  | number (n : Number)
  | string (s : String)
  | array (items : List Json)
  | object (entries : List (String × Json))
  /-- Well written, but no value: a surrogate alone, a number out of range. It may be skipped. -/
  | unreadable

instance : Inhabited Json := ⟨.null⟩

namespace Json

def ofInt (n : Int) : Json := .number (.whole n)

def ofNat (n : Nat) : Json := ofInt n

def strings (l : List String) : Json := .array (l.map .string)

def quoted (s : String) : List Char := '"' :: Quoted.encode s.toList ++ ['"']

mutual

def write : Json → List Char
  | null | unreadable => ['n', 'u', 'l', 'l']
  | bool true => ['t', 'r', 'u', 'e']
  | bool false => ['f', 'a', 'l', 's', 'e']
  | number n => n.write
  | string s => quoted s
  | array [] => ['[', ']']
  | array (j :: l) => '[' :: j.write ++ writeItems l
  | object [] => ['\x7b', '\x7d']
  | object ((k, j) :: l) => '\x7b' :: quoted k ++ ':' :: j.write ++ writeEntries l

def writeItems : List Json → List Char
  | [] => [']']
  | j :: l => ',' :: j.write ++ writeItems l

def writeEntries : List (String × Json) → List Char
  | [] => ['\x7d']
  | (k, j) :: l => ',' :: quoted k ++ ':' :: j.write ++ writeEntries l

end

def text (j : Json) : String := .ofList j.write

mutual

/-- The value that data mean, if it nests at most `depth` containers and is readable throughout. -/
def settle (depth : Nat) : Json → Option Json
  | array l => if depth = 0 then none else (settleItems (depth - 1) l).map .array
  | object l =>
    if depth = 0 then none
    else (settleEntries (depth - 1) l).map fun l => .object (NameMap.ofList l).entries
  | unreadable => none
  | j => some j

def settleItems (depth : Nat) : List Json → Option (List Json)
  | [] => some []
  | j :: l => do pure ((← j.settle depth) :: (← settleItems depth l))

def settleEntries (depth : Nat) : List (String × Json) → Option (List (String × Json))
  | [] => some []
  | (k, j) :: l => do pure ((k, ← j.settle depth) :: (← settleEntries depth l))

end

mutual

/-- Equality of settled values: numbers of different kinds differ, and so do items in another
order. -/
def same : Json → Json → Bool
  | null, null => true
  | bool a, bool b => a == b
  | number a, number b => a.same b
  | string a, string b => a == b
  | array a, array b => sameItems a b
  | object a, object b => sameEntries a b
  | unreadable, unreadable => true
  | _, _ => false

def sameItems : List Json → List Json → Bool
  | [], [] => true
  | a :: l, b :: l' => a.same b && sameItems l l'
  | _, _ => false

def sameEntries : List (String × Json) → List (String × Json) → Bool
  | [], [] => true
  | (k, a) :: l, (k', b) :: l' => k == k' && a.same b && sameEntries l l'
  | _, _ => false

end

end Json

end Vetting
