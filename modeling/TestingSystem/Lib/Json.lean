import Mathlib.Data.List.TakeWhile
import Mathlib.Data.List.DropRight

/-!
# Strings in JSON

`encoding/json` for strings: `marshal` writes a string as a JSON document, `unmarshal` reads a document
into a variable that holds the empty string. Documents are read in two steps: the code points of the
literal, then the pairs of surrogates among them. A string of plain characters stands for itself
(`unmarshal_marshal`).
-/

set_option autoImplicit false

namespace TestingSystem.Json

/-! ## Writing -/

/-- A digit of `\u`. -/
def hexDigit (n : Nat) : Char := (n % 16).digitChar

/-- `\u` with four digits. -/
def escapeCode (n : Nat) : List Char :=
  ['\\', 'u', hexDigit (n / 4096), hexDigit (n / 256), hexDigit (n / 16), hexDigit n]

/-- A character in a literal; the characters that HTML and JavaScript read are escaped too. -/
def escape (c : Char) : List Char :=
  match c with
  | '"' => ['\\', '"']
  | '\\' => ['\\', '\\']
  | '\x08' => ['\\', 'b']
  | '\x0c' => ['\\', 'f']
  | '\n' => ['\\', 'n']
  | '\r' => ['\\', 'r']
  | '\t' => ['\\', 't']
  | c =>
    if c.toNat < 32 ∨ c ∈ ['<', '>', '&', '\u2028', '\u2029'] then escapeCode c.toNat else [c]

/-- `json.Marshal` of a string. -/
def marshal (s : String) : String := .ofList ('"' :: s.toList.flatMap escape ++ ['"'])

/-! ## Reading -/

/-- The value of a hexadecimal digit. -/
def hexValue (c : Char) : Option Nat :=
  if c.isDigit then some (c.toNat - '0'.toNat)
  else if 'a' ≤ c ∧ c ≤ 'f' then some (c.toNat - 'a'.toNat + 10)
  else if 'A' ≤ c ∧ c ≤ 'F' then some (c.toNat - 'A'.toNat + 10)
  else none

/-- The character that an escape of one letter stands for. -/
def unescape (c : Char) : Option Char :=
  match c with
  | '"' | '\\' | '/' => some c
  | 'b' => some '\x08'
  | 'f' => some '\x0c'
  | 'n' => some '\n'
  | 'r' => some '\r'
  | 't' => some '\t'
  | _ => none

/-- The code points of a literal up to its closing quote, which ends the document. -/
def codePoints : List Char → Option (List Nat)
  | ['"'] => some []
  | '\\' :: 'u' :: a :: b :: c :: d :: rest => do
    let code := 4096 * (← hexValue a) + 256 * (← hexValue b) + 16 * (← hexValue c) + (← hexValue d)
    return code :: (← codePoints rest)
  | '\\' :: c :: rest => do
    let c ← unescape c
    return c.toNat :: (← codePoints rest)
  | c :: rest => do
    if c = '"' ∨ c = '\\' ∨ c.toNat < 32 then none
    else return c.toNat :: (← codePoints rest)
  | [] => none

/-- The first and the second half of the surrogates. -/
def isHigh (n : Nat) : Bool := decide (0xd800 ≤ n ∧ n < 0xdc00)

def isLow (n : Nat) : Bool := decide (0xdc00 ≤ n ∧ n < 0xe000)

/-- A surrogate without its partner becomes the replacement character. -/
def charOf (n : Nat) : Char := if isHigh n || isLow n then '\ufffd' else .ofNat n

/-- The characters of a list of code points. -/
def joinSurrogates : List Nat → List Char
  | high :: low :: rest =>
    if isHigh high && isLow low then
      .ofNat (0x10000 + (high - 0xd800) * 1024 + (low - 0xdc00)) :: joinSurrogates rest
    else charOf high :: joinSurrogates (low :: rest)
  | [n] => [charOf n]
  | [] => []

/-- White space between tokens. -/
def isSpace (c : Char) : Bool := c ∈ [' ', '\t', '\n', '\r']

/-- `json.Unmarshal` into a string that is empty; `none` is an error, also of a document that is not a
string. -/
def unmarshal (data : String) : Option String :=
  match (data.toList.dropWhile isSpace).rdropWhile isSpace with
  | '"' :: literal => (codePoints literal).map fun codes => .ofList (joinSurrogates codes)
  | ['n', 'u', 'l', 'l'] => some ""
  | _ => none

/-! ## Plain strings -/

/-- The character stands for itself in a literal. -/
def Plain (c : Char) : Prop := escape c = [c] ∧ 32 ≤ c.toNat ∧ c ≠ '"' ∧ c ≠ '\\'

theorem plain_of_isAlphanum {c : Char} (hc : c.isAlphanum = true) : Plain c := by
  have hne : ∀ d : Char, d.isAlphanum = false → c ≠ d := by
    rintro d hd rfl
    rw [hc] at hd
    cases hd
  have hle : 48 ≤ c.toNat := by
    have hc : ((decide (65 ≤ c.val ∧ c.val ≤ 90) || 97 ≤ c.val && c.val ≤ 122) ||
        48 ≤ c.val && c.val ≤ 57 : Bool) = true := hc
    simp only [Bool.or_eq_true, Bool.and_eq_true, decide_eq_true_eq] at hc
    rcases hc with (⟨h, -⟩ | ⟨h, -⟩) | ⟨h, -⟩ <;>
      exact Nat.le_trans (by decide) (UInt32.le_iff_toNat_le.1 h)
  refine ⟨?_, by omega, hne _ (by decide), hne _ (by decide)⟩
  unfold escape
  split
  iterate 7 exact absurd rfl (hne _ (by decide))
  rw [if_neg]
  rintro (hlt | hmem)
  · omega
  · have hspecial : ['<', '>', '&', '\u2028', '\u2029'].all (fun d => !d.isAlphanum) = true := by decide
    have hother := List.all_eq_true.1 hspecial c hmem
    rw [hc] at hother
    cases hother

theorem codePoints_plain {c : Char} (hc : Plain c) (rest : List Char) :
    codePoints (c :: rest) = (codePoints rest).map (c.toNat :: ·) := by
  obtain ⟨-, hcontrol, hquote, hescape⟩ := hc
  have hnot : ¬ (c = '"' ∨ c = '\\' ∨ c.toNat < 32) := by simp [hquote, hescape, hcontrol]
  rw [codePoints]
  · rw [if_neg hnot]
    cases codePoints rest <;> rfl
  · exact fun h => absurd h hquote
  · exact fun _ _ _ _ _ h => absurd h hescape
  · exact fun _ _ h => absurd h hescape

/-- A character is no surrogate. -/
theorem not_surrogate (c : Char) : isHigh c.toNat = false ∧ isLow c.toNat = false := by
  have := c.valid
  have hval : c.toNat < 0xd800 ∨ 0xdfff < c.toNat ∧ c.toNat < 0x110000 := this
  constructor
  · rw [isHigh, decide_eq_false_iff_not]
    omega
  · rw [isLow, decide_eq_false_iff_not]
    omega

theorem joinSurrogates_toNat (cs : List Char) : joinSurrogates (cs.map Char.toNat) = cs := by
  have hchar : ∀ c : Char, charOf c.toNat = c := by
    intro c
    obtain ⟨hhigh, hlow⟩ := not_surrogate c
    simp [charOf, hhigh, hlow]
  induction cs with
  | nil => rfl
  | cons c cs ih =>
    cases cs with
    | nil => rw [List.map_cons, List.map_nil, joinSurrogates, hchar]
    | cons d cs =>
      rw [List.map_cons, List.map_cons, joinSurrogates, (not_surrogate c).1, Bool.false_and, hchar]
      exact congrArg (c :: ·) ih

/-- The literal of a plain string. -/
theorem codePoints_literal {cs : List Char} (hcs : ∀ c ∈ cs, Plain c) :
    codePoints (cs.flatMap escape ++ ['"']) = some (cs.map Char.toNat) := by
  induction cs with
  | nil => rfl
  | cons c cs ih =>
    have hc := hcs c List.mem_cons_self
    rw [List.flatMap_cons, hc.1, List.append_assoc, List.singleton_append, codePoints_plain hc,
      ih fun d hd => hcs d (List.mem_cons_of_mem _ hd)]
    rfl

/-- A plain string goes through a document unchanged. -/
theorem unmarshal_marshal {s : String} (hs : ∀ c ∈ s.toList, Plain c) :
    unmarshal (marshal s) = some s := by
  have hspace : isSpace '"' = false := by decide
  have htrim : ((marshal s).toList.dropWhile isSpace).rdropWhile isSpace =
      '"' :: (s.toList.flatMap escape ++ ['"']) := by
    rw [marshal, String.toList_ofList, List.cons_append, List.dropWhile_cons_of_neg (by simp [hspace]),
      ← List.cons_append, List.rdropWhile_concat_neg _ _ _ (by simp [hspace])]
  unfold unmarshal
  rw [htrim]
  simp only [codePoints_literal hs, Option.map_some, joinSurrogates_toNat, String.ofList_toList]

end TestingSystem.Json
