import TestingSystem.Lib.Decimal
import Mathlib.Data.List.DropRight
import Mathlib.Data.Rat.Floor

/-!
# Reading texts

What `strings` and `strconv` do with a line of text: cut it at a separator, trim the white space, read
an integer. Decimal fractions are read as exact rationals (`parseFloat`).
-/

set_option autoImplicit false

namespace TestingSystem

/-- `unicode.IsSpace`. -/
def isSpace (c : Char) : Bool :=
  c ∈ ['\t', '\n', '\x0b', '\x0c', '\r', ' ', '\u0085', '\u00a0', '\u1680', '\u2000', '\u2001',
    '\u2002', '\u2003', '\u2004', '\u2005', '\u2006', '\u2007', '\u2008', '\u2009', '\u200a',
    '\u2028', '\u2029', '\u202f', '\u205f', '\u3000']

/-- `strings.TrimSpace`. -/
def trimSpace (s : String) : String :=
  .ofList ((s.toList.dropWhile isSpace).rdropWhile isSpace)

/-- `strings.SplitN` with at most two parts; `none` if the separator does not occur, which leaves one
part. -/
def splitInTwo (sep : Char) (s : String) : Option (String × String) :=
  match s.toList.dropWhile (· ≠ sep) with
  | [] => none
  | _ :: rest => some (.ofList (s.toList.takeWhile (· ≠ sep)), .ofList rest)

/-- A nonempty list of decimal digits. -/
def isNumber (digits : List Char) : Bool :=
  !digits.isEmpty && digits.all Char.isDigit

/-- `strconv.ParseUint` in base 10 with 64 bits. -/
def parseUint (s : String) : Option Nat :=
  if isNumber s.toList ∧ decimalValue s < 2 ^ 64 then some (decimalValue s) else none

/-- The sign at the front of a number and what follows it. -/
def splitSign : List Char → Int × List Char
  | '-' :: rest => (-1, rest)
  | '+' :: rest => (1, rest)
  | rest => (1, rest)

/-- `strconv.Atoi` where `int` has 64 bits. With an error `Atoi` returns the number that `.error`
holds: zero, or the nearest `int` of a number out of range. -/
def atoi (s : String) : Except Int Int :=
  let (sign, digits) := splitSign s.toList
  if isNumber digits then
    let n := sign * Nat.ofDigitChars 10 digits 0
    if n < -2 ^ 63 then .error (-2 ^ 63)
    else if 2 ^ 63 ≤ n then .error (2 ^ 63 - 1)
    else .ok n
  else .error 0

/-- The number before an exponent: digits with a point among them at most. -/
def parseMantissa (chars : List Char) : Option Rat :=
  let whole := chars.takeWhile (· ≠ '.')
  let fraction := (chars.dropWhile (· ≠ '.')).drop 1
  if isNumber (whole ++ fraction) then
    some ((Nat.ofDigitChars 10 (whole ++ fraction) 0 : Rat) / (10 ^ fraction.length : Nat))
  else none

/-- `strconv.ParseFloat` on decimal numbers, read exactly: a sign, digits with a point among them and
an exponent. Hexadecimal numbers, infinities and `NaN` are not read. -/
def parseFloat (s : String) : Option Rat :=
  let (sign, unsigned) := splitSign s.toList
  let isExponent : Char → Bool := fun c => c = 'e' ∨ c = 'E'
  match parseMantissa (unsigned.takeWhile (!isExponent ·)), unsigned.dropWhile (!isExponent ·) with
  | none, _ => none
  | some mantissa, [] => some (sign * mantissa)
  | some mantissa, _ :: exponent =>
    let (exponentSign, digits) := splitSign exponent
    if isNumber digits then
      let scale : Rat := (10 ^ Nat.ofDigitChars 10 digits 0 : Nat)
      some (sign * (if exponentSign = 1 then mantissa * scale else mantissa / scale))
    else none

example : (atoi "-17").toOption = some (-17) ∧ (atoi "9223372036854775808").toOption = none := by
  decide

/-! ## Letters -/

theorem isLower_iff_toNat {c : Char} : c.isLower = true ↔ 97 ≤ c.toNat ∧ c.toNat ≤ 122 := by
  have hlower : c.isLower = (97 ≤ c.val && c.val ≤ 122 : Bool) := rfl
  rw [hlower, Bool.and_eq_true, decide_eq_true_eq, decide_eq_true_eq]
  exact Iff.rfl

theorem isDigit_iff_range {c : Char} : c.isDigit = true ↔ 48 ≤ c.toNat ∧ c.toNat ≤ 57 :=
  Char.isDigit_iff_toNat

theorem toNat_toLower (c : Char) :
    c.toLower.toNat = if 65 ≤ c.toNat ∧ c.toNat ≤ 90 then c.toNat + 32 else c.toNat := by
  unfold Char.toLower
  split
  · next hc =>
    have hupper : 65 ≤ c.toNat ∧ c.toNat ≤ 90 := hc
    rw [if_pos hupper]
    show (c.val + 32).toNat = c.toNat + 32
    rw [UInt32.toNat_add]
    show (c.toNat + 32) % 2 ^ 32 = c.toNat + 32
    omega
  · next hc =>
    rw [if_neg]
    exact hc

@[simp] theorem isDigit_toLower (c : Char) : c.toLower.isDigit = c.isDigit := by
  rw [Bool.eq_iff_iff, isDigit_iff_range, isDigit_iff_range, toNat_toLower]
  split <;> omega

/-- Only capital letters change. -/
theorem toLower_eq_self {c : Char} (h : c.toNat < 65 ∨ 90 < c.toNat) : c.toLower = c := by
  unfold Char.toLower
  rw [dif_neg]
  intro hupper
  have : 65 ≤ c.toNat ∧ c.toNat ≤ 90 := hupper
  omega

end TestingSystem
