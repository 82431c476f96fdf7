import Vetting.Json.Basic

/-!
# Tokens of JSON text

Text is cut into tokens from the left. A token is never longer than the text
allows: a number ends where its grammar ends, a string at its quote. Cutting
ends because every token takes at least a character.
-/

namespace Vetting

inductive Token where
  | openArray
  | closeArray
  | openObject
  | closeObject
  | comma
  | colon
  | null
  | bool (b : Bool)
  | number (n : Option Number)
  | string (s : Option String)

namespace Token

def isBlank (c : Char) : Bool := c == ' ' || c == '\t' || c == '\n' || c == '\r'

def next? : List Char → Option (Token × List Char)
  | '[' :: s => some (openArray, s)
  | ']' :: s => some (closeArray, s)
  | '\x7b' :: s => some (openObject, s)
  | '\x7d' :: s => some (closeObject, s)
  | ',' :: s => some (comma, s)
  | ':' :: s => some (colon, s)
  | 'n' :: 'u' :: 'l' :: 'l' :: s => some (null, s)
  | 't' :: 'r' :: 'u' :: 'e' :: s => some (bool true, s)
  | 'f' :: 'a' :: 'l' :: 's' :: 'e' :: s => some (bool false, s)
  | '"' :: s => (Quoted.pieces? s).map fun (ps, rest) =>
      (string ((Quoted.join? ps).map .ofList), rest)
  | s => (Numeral.read? s).map fun (x, rest) => (number x.value?, rest)

theorem length_of_next? {s rest : List Char} {t : Token} (h : next? s = some (t, rest)) :
    rest.length < s.length := by
  rw [next?.eq_def] at h
  split at h
  case h_10 =>
    obtain ⟨⟨ps, r⟩, hp, h⟩ := Option.map_eq_some_iff.1 h
    have := Quoted.length_of_pieces? hp
    simp only [Prod.mk.injEq] at h
    simp only [List.length_cons, ← h.2]
    omega
  case h_11 =>
    obtain ⟨⟨x, r⟩, hx, h⟩ := Option.map_eq_some_iff.1 h
    have := Numeral.length_of_read? hx
    simp only [Prod.mk.injEq] at h
    rw [← h.2]
    omega
  all_goals
    simp only [Option.some.injEq, Prod.mk.injEq] at h
    simp only [List.length_cons, ← h.2]
    omega

theorem length_dropWhile (p : Char → Bool) (s : List Char) : (s.dropWhile p).length ≤ s.length :=
  (List.dropWhile_sublist p).length_le

def all? (s : List Char) : Option (List Token) :=
  if s.dropWhile isBlank = [] then some []
  else match h : next? (s.dropWhile isBlank) with
    | none => none
    | some (t, rest) =>
      have := length_of_next? h
      have := length_dropWhile isBlank s
      (all? rest).map (t :: ·)
termination_by s.length

end Token

end Vetting
