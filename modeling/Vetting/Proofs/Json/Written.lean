import Vetting.Json.Reader
import Vetting.Proofs.Json.Quoted

/-!
# Written JSON read back

The text of a value is cut into the tokens of the value, and the machine that
reads tokens comes from them to the value again, whatever containers it is
inside of. So a text spells the value that it was written for
(`parse?_text`). Told here of values without numbers, which take no more than
brackets, words and strings.
-/

namespace Vetting

namespace Json

mutual

/-- No number in it, and everything readable. -/
def Wordy : Json → Prop
  | number _ | unreadable => False
  | array l => AllWordy l
  | object l => AllWordyEntries l
  | null | bool _ | string _ => True

def AllWordy : List Json → Prop
  | [] => True
  | j :: l => j.Wordy ∧ AllWordy l

def AllWordyEntries : List (String × Json) → Prop
  | [] => True
  | (_, j) :: l => j.Wordy ∧ AllWordyEntries l

end

mutual

def tokens : Json → List Token
  | null | unreadable => [.null]
  | bool b => [.bool b]
  | number n => [.number (some n)]
  | string s => [.string (some s)]
  | array [] => [.openArray, .closeArray]
  | array (j :: l) => .openArray :: j.tokens ++ itemTokens l
  | object [] => [.openObject, .closeObject]
  | object ((k, j) :: l) =>
    .openObject :: .string (some k) :: .colon :: j.tokens ++ entryTokens l

def itemTokens : List Json → List Token
  | [] => [.closeArray]
  | j :: l => .comma :: j.tokens ++ itemTokens l

def entryTokens : List (String × Json) → List Token
  | [] => [.closeObject]
  | (k, j) :: l => .comma :: .string (some k) :: .colon :: j.tokens ++ entryTokens l

end

end Json

/-! ## From text to tokens -/

namespace Token

/-- The text is cut into these tokens, whatever comes after it. -/
def Cuts (text : List Char) (ts : List Token) : Prop :=
  ∀ rest, all? (text ++ rest) = (all? rest).map (ts ++ ·)

theorem Cuts.append {text text' : List Char} {ts ts' : List Token} (h : Cuts text ts)
    (h' : Cuts text' ts') : Cuts (text ++ text') (ts ++ ts') := by
  intro rest
  rw [List.append_assoc, h, h', Option.map_map]
  exact congrArg (Option.map · _) (funext fun us => (List.append_assoc ts ts' us).symm)

theorem cuts_of_next? {c : Char} {text : List Char} {t : Token} (hc : isBlank c = false)
    (h : ∀ rest, next? (c :: text ++ rest) = some (t, rest)) : Cuts (c :: text) [t] := by
  intro rest
  have hdrop : (c :: text ++ rest).dropWhile isBlank = c :: text ++ rest := by
    simp [hc]
  rw [all?, if_neg (by rw [hdrop]; exact List.cons_ne_nil _ _)]
  split
  · rename_i hnone
    rw [hdrop, h] at hnone
    cases hnone
  · rename_i t' rest' hsome
    rw [hdrop, h] at hsome
    cases hsome
    rfl

theorem cuts_quoted (s : String) : Cuts (Json.quoted s) [.string (some s)] := by
  apply cuts_of_next? rfl
  intro rest
  obtain ⟨ps, hps, hjoin⟩ := Quoted.pieces?_encode s.toList rest
  show (Quoted.pieces? (Quoted.encode s.toList ++ ['"'] ++ rest)).map _ = _
  rw [List.append_assoc, List.singleton_append, hps]
  simp only [Option.map_some, hjoin, String.ofList_toList]

theorem cuts_openArray : Cuts ['['] [.openArray] := cuts_of_next? rfl fun _ => rfl

theorem cuts_closeArray : Cuts [']'] [.closeArray] := cuts_of_next? rfl fun _ => rfl

theorem cuts_openObject : Cuts ['\x7b'] [.openObject] := cuts_of_next? rfl fun _ => rfl

theorem cuts_closeObject : Cuts ['\x7d'] [.closeObject] := cuts_of_next? rfl fun _ => rfl

theorem cuts_comma : Cuts [','] [.comma] := cuts_of_next? rfl fun _ => rfl

theorem cuts_colon : Cuts [':'] [.colon] := cuts_of_next? rfl fun _ => rfl

end Token

namespace Json

open Token

mutual

theorem cuts_write : ∀ j : Json, j.Wordy → Cuts j.write j.tokens
  | null, _ => cuts_of_next? rfl fun _ => rfl
  | bool true, _ => cuts_of_next? rfl fun _ => rfl
  | bool false, _ => cuts_of_next? rfl fun _ => rfl
  | string s, _ => cuts_quoted s
  | array [], _ => cuts_openArray.append cuts_closeArray
  | array (j :: l), h =>
    cuts_openArray.append ((cuts_write j h.1).append (cuts_writeItems l h.2))
  | object [], _ => cuts_openObject.append cuts_closeObject
  | object ((k, j) :: l), h => by
    have hentry := (cuts_quoted k).append (cuts_colon.append (cuts_write j h.1))
    have hall := cuts_openObject.append (hentry.append (cuts_writeEntries l h.2))
    unfold write tokens
    simpa using hall

theorem cuts_writeItems : ∀ l : List Json, AllWordy l → Cuts (writeItems l) (itemTokens l)
  | [], _ => cuts_closeArray
  | j :: l, h => cuts_comma.append ((cuts_write j h.1).append (cuts_writeItems l h.2))

theorem cuts_writeEntries : ∀ l : List (String × Json), AllWordyEntries l →
    Cuts (writeEntries l) (entryTokens l)
  | [], _ => cuts_closeObject
  | (k, j) :: l, h => by
    have hentry := (cuts_quoted k).append (cuts_colon.append (cuts_write j h.1))
    have hall := cuts_comma.append (hentry.append (cuts_writeEntries l h.2))
    unfold writeEntries entryTokens
    simpa using hall

end

theorem all?_write {j : Json} (h : j.Wordy) : all? j.write = some j.tokens := by
  have hall := cuts_write j h []
  have hnil : all? [] = some [] := by rw [all?]; rfl
  rw [List.append_nil, hnil, Option.map_some, List.append_nil] at hall
  exact hall

/-! ## From tokens to the value -/

theorem step?_itemOrEnd {stack : List Frame} {t : Token} (h : t ≠ .closeArray) :
    step? (.itemOrEnd, stack) t = step? (.value, .array [] :: stack) t := by
  cases t <;> first | rfl | exact absurd rfl h

theorem exists_tokens_cons (j : Json) : ∃ t ts, j.tokens = t :: ts ∧ t ≠ .closeArray := by
  unfold tokens
  split <;> exact ⟨_, _, rfl, by simp⟩

/-- The machine comes from the one situation, over the tokens, to the other. -/
def Leads (ts : List Token) (here there : Expecting × List Frame) : Prop :=
  ts.foldlM step? here = some there

theorem Leads.append {ts ts' : List Token} {a b c : Expecting × List Frame} (h : Leads ts a b)
    (h' : Leads ts' b c) : Leads (ts ++ ts') a c := by
  unfold Leads at *
  rw [List.foldlM_append, h]
  exact h'

theorem leads_itemOrEnd {j : Json} {stack : List Frame} {there : Expecting × List Frame}
    (h : Leads j.tokens (.value, .array [] :: stack) there) :
    Leads j.tokens (.itemOrEnd, stack) there := by
  obtain ⟨t, ts, hts, ht⟩ := exists_tokens_cons j
  unfold Leads at *
  rw [hts, List.foldlM_cons] at h ⊢
  rw [step?_itemOrEnd ht]
  exact h

def keyed (l : List (String × Json)) : List (Option String × Json) := l.map fun e => (some e.1, e.2)

theorem keyed_concat (l : List (String × Json)) (k : String) (j : Json) :
    (keyed (l ++ [(k, j)])).reverse = (some k, j) :: (keyed l).reverse := by
  simp [keyed]

theorem ofEntries?_keyed (l : List (String × Json)) : ofEntries? (keyed l) = some l := by
  induction l with
  | nil => rfl
  | cons e l ih =>
    show (ofEntries? (keyed l)).map _ = _
    rw [ih]
    rfl

theorem closeObject_keyed (l : List (String × Json)) :
    closeObject (keyed l).reverse = .object l := by
  rw [closeObject, List.reverse_reverse, ofEntries?_keyed]
  rfl

mutual

theorem leads_tokens : ∀ (j : Json), j.Wordy → ∀ stack : List Frame,
    Leads j.tokens (.value, stack) (.afterValue j, stack)
  | null, _, _ => rfl
  | bool _, _, _ => rfl
  | string _, _, _ => rfl
  | array [], _, _ => rfl
  | array (j :: l), h, stack => by
    have hfirst := leads_itemOrEnd (leads_tokens j h.1 (.array [] :: stack))
    have hopen : Leads [.openArray] (.value, stack) (.itemOrEnd, stack) := rfl
    exact hopen.append (hfirst.append (leads_itemTokens l h.2 j [] stack))
  | object [], _, _ => rfl
  | object ((k, j) :: l), h, stack => by
    have hopen : Leads [.openObject, .string (some k), .colon] (.value, stack)
      (.value, .object [] (some k) :: stack) := rfl
    have hfirst := leads_tokens j h.1 (.object [] (some k) :: stack)
    exact hopen.append (hfirst.append (leads_entryTokens l h.2 k j [] stack))

theorem leads_itemTokens : ∀ (l : List Json), AllWordy l →
    ∀ (j : Json) (items : List Json) (stack : List Frame),
      Leads (itemTokens l) (.afterValue j, .array items :: stack)
        (.afterValue (.array (items.reverse ++ j :: l)), stack)
  | [], _, j, items, stack => by
    rw [← List.reverse_cons]
    rfl
  | j' :: l, h, j, items, stack => by
    have hcomma : Leads [.comma] (.afterValue j, .array items :: stack)
      (.value, .array (j :: items) :: stack) := rfl
    have hnext := leads_tokens j' h.1 (.array (j :: items) :: stack)
    have hrest := leads_itemTokens l h.2 j' (j :: items) stack
    rw [List.reverse_cons, List.append_assoc, List.singleton_append] at hrest
    exact hcomma.append (hnext.append hrest)

theorem leads_entryTokens : ∀ (l : List (String × Json)), AllWordyEntries l →
    ∀ (k : String) (j : Json) (es : List (String × Json)) (stack : List Frame),
      Leads (entryTokens l) (.afterValue j, .object (keyed es).reverse (some k) :: stack)
        (.afterValue (.object (es ++ (k, j) :: l)), stack)
  | [], _, k, j, es, stack => by
    rw [← closeObject_keyed, keyed_concat]
    rfl
  | (k', j') :: l, h, k, j, es, stack => by
    have hcomma : Leads [.comma, .string (some k'), .colon]
        (.afterValue j, .object (keyed es).reverse (some k) :: stack)
        (.value, .object (keyed (es ++ [(k, j)])).reverse (some k') :: stack) := by
      rw [keyed_concat]
      rfl
    have hnext := leads_tokens j' h.1 (.object (keyed (es ++ [(k, j)])).reverse (some k') :: stack)
    have hrest := leads_entryTokens l h.2 k' j' (es ++ [(k, j)]) stack
    rw [List.append_assoc, List.singleton_append] at hrest
    exact hcomma.append (hnext.append hrest)

end

/-- A text spells the value that it was written for. -/
theorem parse?_text {j : Json} (h : j.Wordy) : parse? j.text = some j := by
  have hleads := leads_tokens j h []
  unfold Leads at hleads
  rw [parse?, text, String.toList_ofList, all?_write h, Option.bind_some, ofTokens?, hleads]

end Json

end Vetting
