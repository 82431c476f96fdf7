import Vetting.Json.Token

/-!
# Reading JSON

The tokens drive a machine that keeps the containers it is inside of. Each
token is looked at once, and what the machine expects next is its state: a
value, a key, a colon, or what may follow a value.
-/

namespace Vetting

/-- A container that is being read, its contents last first. -/
inductive Frame where
  | array (items : List Json)
  | object (entries : List (Option String × Json)) (key : Option String)

inductive Expecting where
  | value
  | itemOrEnd
  | keyOrEnd
  | key (entries : List (Option String × Json))
  | colon (entries : List (Option String × Json)) (key : Option String)
  | afterValue (j : Json)

namespace Json

/-- An object with a key that cannot be read cannot be read. -/
def ofEntries? : List (Option String × Json) → Option (List (String × Json))
  | [] => some []
  | (none, _) :: _ => none
  | (some k, j) :: l => (ofEntries? l).map ((k, j) :: ·)

def closeObject (entries : List (Option String × Json)) : Json :=
  ((ofEntries? entries.reverse).map .object).getD .unreadable

def ofToken? : Token → Option Json
  | .null => some .null
  | .bool b => some (.bool b)
  | .number n => some ((n.map .number).getD .unreadable)
  | .string s => some ((s.map .string).getD .unreadable)
  | _ => none

def start? (stack : List Frame) (t : Token) : Option (Expecting × List Frame) :=
  match t with
  | .openArray => some (.itemOrEnd, stack)
  | .openObject => some (.keyOrEnd, stack)
  | t => (ofToken? t).map (.afterValue ·, stack)

def step? : Expecting × List Frame → Token → Option (Expecting × List Frame)
  | (.value, stack), t => start? stack t
  | (.itemOrEnd, stack), .closeArray => some (.afterValue (.array []), stack)
  | (.itemOrEnd, stack), t => start? (.array [] :: stack) t
  | (.keyOrEnd, stack), .closeObject => some (.afterValue (.object []), stack)
  | (.keyOrEnd, stack), .string k => some (.colon [] k, stack)
  | (.key entries, stack), .string k => some (.colon entries k, stack)
  | (.colon entries k, stack), .colon => some (.value, .object entries k :: stack)
  | (.afterValue j, .array items :: stack), .comma => some (.value, .array (j :: items) :: stack)
  | (.afterValue j, .array items :: stack), .closeArray =>
    some (.afterValue (.array (j :: items).reverse), stack)
  | (.afterValue j, .object entries k :: stack), .comma => some (.key ((k, j) :: entries), stack)
  | (.afterValue j, .object entries k :: stack), .closeObject =>
    some (.afterValue (closeObject ((k, j) :: entries)), stack)
  | _, _ => none

def ofTokens? (ts : List Token) : Option Json :=
  match ts.foldlM step? (.value, []) with
  | some (.afterValue j, []) => some j
  | _ => none

/-- What a text spells, however deep. -/
def parse? (s : String) : Option Json := (Token.all? s.toList).bind ofTokens?

def depthLimit : Nat := 127

def read? (s : String) : Option Json := (parse? s).bind (settle depthLimit)

end Json

end Vetting
