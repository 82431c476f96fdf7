/-!
# Quoted strings

Between its quotes a string escapes the quote, the backslash and the control
characters below the blank, and nothing else (`Quoted.encode`). Reading cuts
the text into pieces, each a character or a 16 bit unit given by its hex
digits, and then joins the units: two surrogates make one character, and a
surrogate without its partner makes none.
-/

namespace Vetting.Quoted

def hexDigit (n : Nat) : Char := if n < 10 then Char.ofNat (48 + n) else Char.ofNat (87 + n)

def hexValue (c : Char) : Option Nat :=
  if '0' ≤ c ∧ c ≤ '9' then some (c.toNat - 48)
  else if 'a' ≤ c ∧ c ≤ 'f' then some (c.toNat - 87)
  else if 'A' ≤ c ∧ c ≤ 'F' then some (c.toNat - 55)
  else none

def encodeControl (c : Char) : List Char :=
  ['\\', 'u', '0', '0', hexDigit (c.toNat / 16), hexDigit (c.toNat % 16)]

def encodeChar (c : Char) : List Char :=
  if c = '"' then ['\\', '"']
  else if c = '\\' then ['\\', '\\']
  else if ' ' ≤ c then [c]
  else if c = '\n' then ['\\', 'n']
  else if c = '\r' then ['\\', 'r']
  else if c = '\t' then ['\\', 't']
  else if c = '\x08' then ['\\', 'b']
  else if c = '\x0c' then ['\\', 'f']
  else encodeControl c

def encode (s : List Char) : List Char := s.flatMap encodeChar

inductive Piece where
  | char (c : Char)
  | unit (n : Nat)
deriving DecidableEq

def escaped? (c : Char) : Option Char :=
  if c = '"' then some '"'
  else if c = '\\' then some '\\'
  else if c = '/' then some '/'
  else if c = 'b' then some '\x08'
  else if c = 'f' then some '\x0c'
  else if c = 'n' then some '\n'
  else if c = 'r' then some '\r'
  else if c = 't' then some '\t'
  else none

def unit? (a b c d : Char) : Option Nat := do
  pure ((((← hexValue a) * 16 + (← hexValue b)) * 16 + (← hexValue c)) * 16 + (← hexValue d))

def pieces? : List Char → Option (List Piece × List Char)
  | [] => none
  | '"' :: rest => some ([], rest)
  | '\\' :: 'u' :: a :: b :: c :: d :: rest => do
    let n ← unit? a b c d
    let (ps, rest) ← pieces? rest
    pure (.unit n :: ps, rest)
  | '\\' :: c :: rest => do
    let c ← escaped? c
    let (ps, rest) ← pieces? rest
    pure (.char c :: ps, rest)
  | c :: rest =>
    if ' ' ≤ c ∧ c ≠ '\\' then do
      let (ps, rest) ← pieces? rest
      pure (.char c :: ps, rest)
    else none

def isLead (n : Nat) : Bool := 0xD800 ≤ n && n < 0xDC00

def isTrail (n : Nat) : Bool := 0xDC00 ≤ n && n < 0xE000

/-- The characters of the pieces, unless a surrogate stands alone. -/
def join? : List Piece → Option (List Char)
  | [] => some []
  | .char c :: ps => (join? ps).map (c :: ·)
  | .unit n :: .unit m :: ps =>
    if isLead n && isTrail m then
      (join? ps).map (Char.ofNat (0x10000 + (n - 0xD800) * 0x400 + (m - 0xDC00)) :: ·)
    else if isLead n || isTrail n then none
    else (join? (.unit m :: ps)).map (Char.ofNat n :: ·)
  | .unit n :: ps => if isLead n || isTrail n then none else (join? ps).map (Char.ofNat n :: ·)

theorem length_of_pieces? : ∀ {s rest : List Char} {ps : List Piece},
    pieces? s = some (ps, rest) → rest.length < s.length := by
  intro s
  fun_induction pieces? s with
  | case1 => simp
  | case2 rest => simp +contextual
  | case3 a b c d rest ih =>
    intro r ps h
    simp only [Option.bind_eq_bind, Option.bind_eq_some_iff, Option.pure_def] at h
    obtain ⟨n, _, ⟨ps', r'⟩, h', h⟩ := h
    simp only [Option.some.injEq, Prod.mk.injEq] at h
    have := ih h'
    simp only [List.length_cons, ← h.2]
    omega
  | case4 c rest _ ih =>
    intro r ps h
    simp only [Option.bind_eq_bind, Option.bind_eq_some_iff, Option.pure_def] at h
    obtain ⟨n, _, ⟨ps', r'⟩, h', h⟩ := h
    simp only [Option.some.injEq, Prod.mk.injEq] at h
    have := ih h'
    simp only [List.length_cons, ← h.2]
    omega
  | case5 c rest _ _ _ _ ih =>
    intro r ps h
    simp only [Option.bind_eq_bind, Option.bind_eq_some_iff, Option.pure_def] at h
    obtain ⟨⟨ps', r'⟩, h', h⟩ := h
    simp only [Option.some.injEq, Prod.mk.injEq] at h
    have := ih h'
    simp only [List.length_cons, ← h.2]
    omega
  | case6 => simp

end Vetting.Quoted
