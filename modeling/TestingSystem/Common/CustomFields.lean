import TestingSystem.Lib.Json
import TestingSystem.Lib.Strconv

/-!
# Times and sizes of memory

`lib/customfields`: a time or a size of memory is written as a number and a suffix, in either case of
letters. Both are `uint64`, and the multiplication with the suffix wraps around. They travel as texts in
JSON and YAML, and as `int64` to the database.
-/

set_option autoImplicit false

namespace TestingSystem

/-- `strings.ToLower` for the suffixes: outside ASCII only the Kelvin sign becomes a letter that a
suffix uses. -/
def toLower (c : Char) : Char :=
  if c = '\u212a' then 'k' else c.toLower

/-- `separateStr`: the number at the front and the suffix. -/
def separateStr (str : String) : Option (Nat × String) :=
  let chars := str.toList.map toLower
  match parseUint (.ofList (chars.takeWhile Char.isDigit)) with
  | none => none
  | some num => some (num, .ofList (chars.dropWhile Char.isDigit))

/-- `Memory.FromStr`; `none` is its error. -/
def Memory.fromStr (s : String) : Option Nat :=
  match separateStr s with
  | none => none
  | some (num, suf) =>
    match suf with
    | "" | "b" => some num
    | "g" => some (num * 1024 * 1024 * 1024 % 2 ^ 64)
    | "m" => some (num * 1024 * 1024 % 2 ^ 64)
    | "k" => some (num * 1024 % 2 ^ 64)
    | _ => none

/-- `Time.FromStr`; `none` is its error. -/
def Time.fromStr (s : String) : Option Nat :=
  match separateStr s with
  | none => none
  | some (num, suf) =>
    match suf with
    | "" | "ns" => some num
    | "s" => some (num * 1000 * 1000 * 1000 % 2 ^ 64)
    | "ms" => some (num * 1000 * 1000 % 2 ^ 64)
    | "us" => some (num * 1000 % 2 ^ 64)
    | _ => none

/-- A method `FromStr` on a receiver: whether it returns an error, and the receiver afterwards. It is
assigned by the last statement, which an error does not reach. -/
def assignFromStr (fromStr : String → Option Nat) (receiver : Nat) (s : String) : Bool × Nat :=
  match fromStr s with
  | none => (true, receiver)
  | some v => (false, v)

/-- The nested divisions of `String`, with the suffixes that are left. -/
def sizeString (base : Nat) : List String → Nat → String
  | [], v => v.repr
  | [suf], v => v.repr ++ suf
  | suf :: larger, v => if v % base = 0 then sizeString base larger (v / base) else v.repr ++ suf

/-- `Time.String`. -/
def Time.string (t : Nat) : String := sizeString 1000 ["ns", "us", "ms", "s"] t

/-- `Memory.String`. -/
def Memory.string (m : Nat) : String := sizeString 1024 ["b", "k", "m", "g"] m

/-! ## Other forms

The methods of both types are the same but for `String` and `FromStr`. -/

/-- `MarshalJSON`. -/
def marshalJSON (string : Nat → String) (v : Nat) : String := Json.marshal (string v)

/-- `UnmarshalJSON`. -/
def unmarshalJSON (fromStr : String → Option Nat) (data : String) : Option Nat :=
  match Json.unmarshal data with
  | none => none
  | some s => fromStr s

/-- `UnmarshalYAML` of a node; `decode` is `node.Decode` into a string. -/
def unmarshalYAML {Node : Type} (decode : Node → Option String) (fromStr : String → Option Nat)
    (node : Node) : Option Nat :=
  match decode node with
  | none => none
  | some s => fromStr s

/-- `Value`, an `int64`. -/
def databaseValue (v : Nat) : Int := (BitVec.ofNat 64 v).toInt

/-- `Scan` of an `int64`. -/
def scanValue (val : Int) : Nat := (BitVec.ofInt 64 val).toNat

end TestingSystem
