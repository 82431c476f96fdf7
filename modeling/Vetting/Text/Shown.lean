import Vetting.Text.Visible

/-!
# Inspection text

Values are shown to the people who debug a declaration: strings in quotes, sets
in braces, named parts behind the name of their kind. `Shown` is the shape of
such a text and `Shown.write` its one printer.
-/

namespace Vetting

inductive Shown where
  | word (s : String)
  | quoted (s : String)
  | list (items : List Shown)
  | set (items : List Shown)
  | map (entries : List (String × Shown))
  | wrapped (name : String) (inner : Shown)
  | parts (name : String) (fields : List (String × Shown))

namespace Shown

def codePoint (c : Char) : List Char :=
  ['\\', 'u', '\x7b'] ++ Nat.toDigits 16 c.toNat ++ ['\x7d']

def escape (c : Char) : List Char :=
  if c = '"' then ['\\', '"']
  else if c = '\\' then ['\\', '\\']
  else if c = '\n' then ['\\', 'n']
  else if c = '\r' then ['\\', 'r']
  else if c = '\t' then ['\\', 't']
  else if c = '\x00' then ['\\', '0']
  else if showsAlone c then [c]
  else codePoint c

def quote (s : String) : String := .ofList ('"' :: s.toList.flatMap escape ++ ['"'])

mutual

def write : Shown → String
  | word s => s
  | quoted s => quote s
  | list items => "[" ++ ", ".intercalate (writeAll items) ++ "]"
  | set items => "\x7b" ++ ", ".intercalate (writeAll items) ++ "\x7d"
  | map entries => "\x7b" ++ ", ".intercalate (writeEntries entries) ++ "\x7d"
  | wrapped name inner => name ++ "(" ++ inner.write ++ ")"
  | parts name fields => name ++ " \x7b " ++ ", ".intercalate (writeFields fields) ++ " \x7d"

def writeAll : List Shown → List String
  | [] => []
  | x :: l => x.write :: writeAll l

def writeEntries : List (String × Shown) → List String
  | [] => []
  | (k, x) :: l => (quote k ++ ": " ++ x.write) :: writeEntries l

def writeFields : List (String × Shown) → List String
  | [] => []
  | (name, x) :: l => (name ++ ": " ++ x.write) :: writeFields l

end

def bool (b : Bool) : Shown := word (if b then "true" else "false")

def nat (n : Nat) : Shown := word (toString n)

def option : Option Shown → Shown
  | none => word "None"
  | some x => wrapped "Some" x

def hidden (name : String) : Shown := word (name ++ " \x7b .. \x7d")

def strings (l : List String) : Shown := list (l.map quoted)

end Shown

end Vetting
