import Mathlib.Data.List.Nodup
import Mathlib.Tactic.Ring
import TestingSystem.Common.CustomFields

/-!
# Reading and printing times and sizes

`Units` is the table of the suffixes of a type. `FromStr` reads what the table documents as long as the
product fits into 64 bits, and `String` prints with the largest unit that divides the value, so what is
printed is read back.
-/

set_option autoImplicit false

namespace TestingSystem

/-- A word of small letters. -/
def IsWord (s : String) : Prop := s ≠ "" ∧ ∀ c ∈ s.toList, c.isLower = true

instance (s : String) : Decidable (IsWord s) :=
  @instDecidableAnd _ _ _ (List.decidableBAll _ _)

/-- The suffixes of a type, each `base` times the one before; they are different words of small
letters. -/
structure Units where
  base : Nat
  suffixes : List String
  one_lt_base : 1 < base
  suffixes_ne_nil : suffixes ≠ []
  nodup : suffixes.Nodup
  word : ∀ suf ∈ suffixes, IsWord suf

def timeUnits : Units where
  base := 1000
  suffixes := ["ns", "us", "ms", "s"]
  one_lt_base := by decide
  suffixes_ne_nil := by decide
  nodup := by decide
  word := by decide

def memoryUnits : Units where
  base := 1024
  suffixes := ["b", "k", "m", "g"]
  one_lt_base := by decide
  suffixes_ne_nil := by decide
  nodup := by decide
  word := by decide

/-- Every character is below 128. -/
def IsAscii (s : String) : Prop := ∀ c ∈ s.toList, c.toNat < 128

instance (s : String) : Decidable (IsAscii s) := List.decidableBAll _ _

/-- The text in small letters. -/
def lowerCase (s : String) : String := .ofList (s.toList.map Char.toLower)

namespace Units

/-- The unit of a suffix; without a suffix it is the smallest one. -/
def unit? (u : Units) (suf : String) : Option Nat :=
  if suf = "" then some 1 else (u.suffixes.idxOf? suf).map (u.base ^ ·)

/-- `s` is the number `num` with a suffix for `unit` in some case of letters. -/
def Reads (u : Units) (s : String) (num unit : Nat) : Prop :=
  ∃ digits suffix, s = digits ++ suffix ∧ isNumber digits.toList = true ∧
    u.unit? (lowerCase suffix) = some unit ∧ decimalValue digits = num

/-- The method `fromStr` does what the table documents for `s`: it assigns the product if `s` is in the
language and the product fits into 64 bits, and else returns an error. -/
def Documented (u : Units) (fromStr : String → Option Nat) (s : String) : Prop :=
  ∀ receiver, (∀ num unit, u.Reads s num unit → num * unit < 2 ^ 64 →
      assignFromStr fromStr receiver s = (false, num * unit)) ∧
    ((∀ num unit, u.Reads s num unit → 2 ^ 64 ≤ num * unit) →
      assignFromStr fromStr receiver s = (true, receiver))

/-- The number fits into 64 bits, and its product with the unit does not. -/
def Overflows (u : Units) (s : String) : Prop :=
  ∃ num unit, u.Reads s num unit ∧ num < 2 ^ 64 ∧ 2 ^ 64 ≤ num * unit

/-- `FromStr` with the table. -/
def fromStr (u : Units) (s : String) : Option Nat :=
  (separateStr s).bind fun p => (u.unit? p.2).map fun unit => p.1 * unit % 2 ^ 64

/-- `String` with the table. -/
def string (u : Units) (v : Nat) : String := sizeString u.base u.suffixes v

end Units

/-! ## The methods with their tables -/

theorem parseUint_lt {s : String} {n : Nat} (h : parseUint s = some n) : n < 2 ^ 64 := by
  unfold parseUint at h
  split at h
  · next hn => exact Option.some.inj h ▸ hn.2
  · cases h

theorem separateStr_lt {s suf : String} {num : Nat} (h : separateStr s = some (num, suf)) :
    num < 2 ^ 64 := by
  unfold separateStr at h
  dsimp only at h
  split at h
  · cases h
  · next hp =>
    cases h
    exact parseUint_lt hp

namespace Units

variable {u : Units}

theorem unit?_of_mem {k : Nat} {suf : String} (hk : u.suffixes[k]? = some suf) :
    u.unit? suf = some (u.base ^ k) := by
  obtain ⟨hlt, hget⟩ := List.getElem?_eq_some_iff.1 hk
  have hne : suf ≠ "" := (u.word suf (List.mem_of_getElem? hk)).1
  rw [unit?, if_neg hne, (List.idxOf?_eq_some_iff (i := k)).2 ?_]
  · rfl
  · refine ⟨hlt, hget, fun j hj => ?_⟩
    intro hsame
    have := (List.Nodup.getElem_inj_iff u.nodup).1 (hsame.trans hget.symm)
    omega

theorem unit?_eq_some {suf : String} {unit : Nat} (h : u.unit? suf = some unit) :
    suf = "" ∧ unit = 1 ∨ ∃ k, u.suffixes[k]? = some suf ∧ unit = u.base ^ k := by
  unfold unit? at h
  split at h
  · next hempty => exact .inl ⟨hempty, (Option.some.inj h).symm⟩
  · obtain ⟨k, hk, rfl⟩ := Option.map_eq_some_iff.1 h
    obtain ⟨hlt, hget, -⟩ := List.idxOf?_eq_some_iff.1 hk
    exact .inr ⟨k, List.getElem?_eq_some_iff.2 ⟨hlt, hget⟩, rfl⟩

theorem unit?_eq_none {suf : String} (hne : suf ≠ "") (hmem : suf ∉ u.suffixes) :
    u.unit? suf = none := by
  rw [unit?, if_neg hne, List.idxOf?_eq_none_iff.2 hmem]
  rfl

variable {s suf : String} {num : Nat}

theorem fromStr_eq (hs : separateStr s = some (num, suf)) :
    u.fromStr s = (u.unit? suf).map fun unit => num * unit % 2 ^ 64 := by
  rw [fromStr, hs, Option.bind_some]

theorem fromStr_bare (hs : separateStr s = some (num, "")) : u.fromStr s = some num := by
  have hunit : u.unit? "" = some 1 := if_pos rfl
  rw [fromStr_eq hs, hunit, Option.map_some, Nat.mul_one, Nat.mod_eq_of_lt (separateStr_lt hs)]

theorem fromStr_suffix (hs : separateStr s = some (num, suf)) {k : Nat}
    (hk : u.suffixes[k]? = some suf) : u.fromStr s = some (num * u.base ^ k % 2 ^ 64) := by
  rw [fromStr_eq hs, unit?_of_mem hk, Option.map_some]

theorem fromStr_unknown (hs : separateStr s = some (num, suf)) (hne : suf ≠ "")
    (hmem : suf ∉ u.suffixes) : u.fromStr s = none := by
  rw [fromStr_eq hs, unit?_eq_none hne hmem, Option.map_none]

end Units

/-- A product in steps. -/
theorem wrap_mul_pow (base : Nat) {num n k : Nat} (h : n = num * base ^ k) :
    some (n % 2 ^ 64) = some (num * base ^ k % 2 ^ 64) := h ▸ rfl

theorem Time.fromStr_eq (s : String) : Time.fromStr s = timeUnits.fromStr s := by
  unfold Time.fromStr
  cases hs : separateStr s with
  | none => rw [Units.fromStr, hs, Option.bind_none]
  | some p =>
    obtain ⟨num, suf⟩ := p
    dsimp only
    by_cases hempty : suf = ""
    · subst hempty
      exact (Units.fromStr_bare hs).symm
    by_cases hmem : suf ∈ timeUnits.suffixes
    · obtain ⟨k, hk⟩ := List.mem_iff_getElem?.1 hmem
      rw [Units.fromStr_suffix hs hk]
      match k, hk with
      | 0, rfl =>
        show some num = _
        rw [pow_zero, Nat.mul_one, Nat.mod_eq_of_lt (separateStr_lt hs)]
      | 1, rfl => exact wrap_mul_pow 1000 (by ring)
      | 2, rfl => exact wrap_mul_pow 1000 (by ring)
      | 3, rfl => exact wrap_mul_pow 1000 (by ring)
    · rw [Units.fromStr_unknown hs hempty hmem]
      simp only [timeUnits, List.mem_cons, List.not_mem_nil, or_false, not_or] at hmem
      obtain ⟨h0, h1, h2, h3⟩ := hmem
      simp only

theorem Memory.fromStr_eq (s : String) : Memory.fromStr s = memoryUnits.fromStr s := by
  unfold Memory.fromStr
  cases hs : separateStr s with
  | none => rw [Units.fromStr, hs, Option.bind_none]
  | some p =>
    obtain ⟨num, suf⟩ := p
    dsimp only
    by_cases hempty : suf = ""
    · subst hempty
      exact (Units.fromStr_bare hs).symm
    by_cases hmem : suf ∈ memoryUnits.suffixes
    · obtain ⟨k, hk⟩ := List.mem_iff_getElem?.1 hmem
      rw [Units.fromStr_suffix hs hk]
      match k, hk with
      | 0, rfl =>
        show some num = _
        rw [pow_zero, Nat.mul_one, Nat.mod_eq_of_lt (separateStr_lt hs)]
      | 1, rfl => exact wrap_mul_pow 1024 (by ring)
      | 2, rfl => exact wrap_mul_pow 1024 (by ring)
      | 3, rfl => exact wrap_mul_pow 1024 (by ring)
    · rw [Units.fromStr_unknown hs hempty hmem]
      simp only [memoryUnits, List.mem_cons, List.not_mem_nil, or_false, not_or] at hmem
      obtain ⟨h0, h1, h2, h3⟩ := hmem
      simp only

/-! ## Reading -/

theorem isDigit_of_isLower {c : Char} (h : c.isLower = true) : c.isDigit = false := by
  rw [isLower_iff_toNat] at h
  rw [Bool.eq_false_iff, ne_eq, isDigit_iff_range]
  omega

theorem toLower_of_ascii {c : Char} (h : c.toNat < 128) : toLower c = c.toLower := by
  rw [toLower, if_neg]
  rintro rfl
  exact absurd h (by decide)

theorem toLower_digit {c : Char} (h : c.isDigit = true) : toLower c = c := by
  have hne : c ≠ '\u212a' := by
    rintro rfl
    exact absurd h (by decide)
  rw [isDigit_iff_range] at h
  rw [toLower, if_neg hne, toLower_eq_self (by omega)]

theorem isDigit_comp_toLower : Char.isDigit ∘ toLower = Char.isDigit := by
  funext c
  rw [Function.comp_apply, toLower]
  split
  · next h =>
    subst h
    decide
  · exact isDigit_toLower c

/-- The digits at the front of `s` and what follows them. -/
theorem separateStr_eq (s : String) : separateStr s =
    (parseUint (.ofList (s.toList.takeWhile Char.isDigit))).map fun num =>
      (num, .ofList ((s.toList.dropWhile Char.isDigit).map toLower)) := by
  have htake : (s.toList.map toLower).takeWhile Char.isDigit = s.toList.takeWhile Char.isDigit := by
    rw [List.takeWhile_map, isDigit_comp_toLower]
    exact (List.map_congr_left fun c hc => toLower_digit (List.mem_takeWhile_imp hc)).trans (List.map_id _)
  unfold separateStr
  dsimp only
  rw [htake, List.dropWhile_map, isDigit_comp_toLower]
  cases parseUint (.ofList (s.toList.takeWhile Char.isDigit)) <;> rfl

namespace Units

variable {u : Units}

/-- A known suffix starts with a letter. -/
theorem unit?_head {suf : String} {unit : Nat} (h : u.unit? (lowerCase suf) = some unit) :
    ∀ c ∈ suf.toList.head?, c.isDigit = false := by
  have hmap : (lowerCase suf).toList = suf.toList.map Char.toLower := String.toList_ofList
  intro c hc
  obtain ⟨cs, hcs⟩ : ∃ cs, suf.toList = c :: cs := List.head?_eq_some_iff.1 hc
  rcases unit?_eq_some h with ⟨hempty, -⟩ | ⟨k, hk, -⟩
  · rw [hempty, hcs] at hmap
    cases hmap
  · rw [← isDigit_toLower]
    refine isDigit_of_isLower ((u.word _ (List.mem_of_getElem? hk)).2 _ ?_)
    rw [hmap, hcs]
    exact List.mem_cons_self

/-- There is one way to read a text. -/
theorem reads_iff {s : String} {num unit : Nat} : u.Reads s num unit ↔
    isNumber (s.toList.takeWhile Char.isDigit) = true ∧
      u.unit? (lowerCase (.ofList (s.toList.dropWhile Char.isDigit))) = some unit ∧
      decimalValue (.ofList (s.toList.takeWhile Char.isDigit)) = num := by
  have hsplit : s = .ofList (s.toList.takeWhile Char.isDigit) ++
      .ofList (s.toList.dropWhile Char.isDigit) := by
    rw [← String.ofList_append, List.takeWhile_append_dropWhile, String.ofList_toList]
  constructor
  · rintro ⟨digits, suffix, hs, hnumber, hunit, hvalue⟩
    have hdigits : ∀ c ∈ digits.toList, c.isDigit = true := by
      rw [isNumber, Bool.and_eq_true, List.all_eq_true] at hnumber
      exact hnumber.2
    have hfront : ∀ c ∈ (String.ofList (s.toList.takeWhile Char.isDigit)).toList,
        c.isDigit = true := by
      rw [String.toList_ofList]
      exact fun c hc => List.mem_takeWhile_imp hc
    have hrest : ∀ c ∈ (String.ofList (s.toList.dropWhile Char.isDigit)).toList.head?,
        c.isDigit = false := by
      rw [String.toList_ofList]
      intro c hc
      have := List.head?_dropWhile_not Char.isDigit s.toList
      rw [hc] at this
      simpa using this
    obtain ⟨hd, hr⟩ := digits_append_cancel hdigits hfront (unit?_head hunit) hrest
      (hs.symm.trans hsplit)
    refine ⟨?_, hr ▸ hunit, hd ▸ hvalue⟩
    rw [hd, String.toList_ofList] at hnumber
    exact hnumber
  · rintro ⟨hnumber, hunit, hvalue⟩
    refine ⟨.ofList (s.toList.takeWhile Char.isDigit), .ofList (s.toList.dropWhile Char.isDigit), hsplit,
      ?_, hunit, hvalue⟩
    rw [String.toList_ofList]
    exact hnumber

theorem Reads.unique {s : String} {num unit num' unit' : Nat} (h : u.Reads s num unit)
    (h' : u.Reads s num' unit') : num = num' ∧ unit = unit' := by
  obtain ⟨-, hunit, hnum⟩ := reads_iff.1 h
  obtain ⟨-, hunit', hnum'⟩ := reads_iff.1 h'
  exact ⟨hnum.symm.trans hnum', Option.some.inj (hunit.symm.trans hunit')⟩

/-- What `FromStr` accepts, and the value that it assigns. -/
theorem fromStr_eq_some {s : String} (hs : IsAscii s) {v : Nat} : u.fromStr s = some v ↔
    ∃ num unit, u.Reads s num unit ∧ num < 2 ^ 64 ∧ num * unit % 2 ^ 64 = v := by
  let digits := s.toList.takeWhile Char.isDigit
  let suffix := s.toList.dropWhile Char.isDigit
  have hmap : suffix.map toLower = suffix.map Char.toLower := List.map_congr_left fun c hc =>
    toLower_of_ascii (hs c ((List.dropWhile_sublist Char.isDigit).mem hc))
  have hlower : String.ofList (suffix.map toLower) = lowerCase (.ofList suffix) := by
    rw [lowerCase, String.toList_ofList, hmap]
  have hparse : ∀ num, parseUint (.ofList digits) = some num ↔
      isNumber digits = true ∧ num < 2 ^ 64 ∧ decimalValue (.ofList digits) = num := by
    intro num
    rw [parseUint, String.toList_ofList]
    split
    · next h =>
      rw [Option.some_inj]
      exact ⟨fun heq => ⟨h.1, heq ▸ h.2, heq⟩, fun hr => hr.2.2⟩
    · next h =>
      refine ⟨fun hf => (nomatch hf), fun hr => absurd ⟨hr.1, ?_⟩ h⟩
      rw [hr.2.2]
      exact hr.2.1
  rw [fromStr, separateStr_eq]
  simp only [Option.bind_eq_some_iff, Option.map_eq_some_iff]
  constructor
  · rintro ⟨p, ⟨num, hnum, rfl⟩, unit, hunit, hv⟩
    obtain ⟨hnumber, hlt, hvalue⟩ := (hparse num).1 hnum
    exact ⟨num, unit, reads_iff.2 ⟨hnumber, hlower ▸ hunit, hvalue⟩, hlt, hv⟩
  · rintro ⟨num, unit, hreads, hlt, hv⟩
    obtain ⟨hnumber, hunit, hvalue⟩ := reads_iff.1 hreads
    exact ⟨_, ⟨num, (hparse num).2 ⟨hnumber, hlt, hvalue⟩, rfl⟩, unit, hlower.symm ▸ hunit, hv⟩

theorem unit?_pos {suf : String} {unit : Nat} (h : u.unit? suf = some unit) : 1 ≤ unit := by
  rcases unit?_eq_some h with ⟨-, rfl⟩ | ⟨k, -, rfl⟩
  · exact le_rfl
  · exact Nat.one_le_pow _ _ (Nat.lt_of_succ_lt u.one_lt_base)

/-- `FromStr` does what is documented unless the product does not fit. -/
theorem documented_iff {s : String} (hs : IsAscii s) :
    u.Documented u.fromStr s ↔ ¬ u.Overflows s := by
  constructor
  · rintro h ⟨num, unit, hreads, hlt, hge⟩
    have hassigned : u.fromStr s = some (num * unit % 2 ^ 64) :=
      (fromStr_eq_some hs).2 ⟨num, unit, hreads, hlt, rfl⟩
    have herror := (h 0).2 fun num' unit' hreads' => by
      obtain ⟨rfl, rfl⟩ := hreads.unique hreads'
      exact hge
    simp [assignFromStr, hassigned] at herror
  · intro h receiver
    refine ⟨fun num unit hreads hlt => ?_, fun hge => ?_⟩
    · have hunit : 1 ≤ unit := unit?_pos (reads_iff.1 hreads).2.1
      have hnum : num < 2 ^ 64 := (Nat.le_mul_of_pos_right num hunit).trans_lt hlt
      have hassigned : u.fromStr s = some (num * unit) :=
        (fromStr_eq_some hs).2 ⟨num, unit, hreads, hnum, Nat.mod_eq_of_lt hlt⟩
      rw [assignFromStr, hassigned]
    · cases hv : u.fromStr s with
      | none => rw [assignFromStr, hv]
      | some v =>
        obtain ⟨num, unit, hreads, hlt, -⟩ := (fromStr_eq_some hs).1 hv
        exact absurd ⟨num, unit, hreads, hlt, hge num unit hreads⟩ h

end Units

/-- `FromStr` of both types parses what is documented exactly for the texts whose number with its unit
fits into 64 bits or does not fit without it. -/
theorem fromStr_documented_iff {s : String} (hs : IsAscii s) :
    (timeUnits.Documented Time.fromStr s ↔ ¬ timeUnits.Overflows s) ∧
      (memoryUnits.Documented Memory.fromStr s ↔ ¬ memoryUnits.Overflows s) := by
  rw [funext Time.fromStr_eq, funext Memory.fromStr_eq]
  exact ⟨Units.documented_iff hs, Units.documented_iff hs⟩

/-- `5mS` is read as documented by one type and is no text of the other. -/
theorem fromStr_documented_iff_upper : IsAscii "5mS" ∧
    timeUnits.Documented Time.fromStr "5mS" ∧ assignFromStr Time.fromStr 7 "5mS" = (false, 5000000) ∧
    memoryUnits.Documented Memory.fromStr "5mS" ∧ assignFromStr Memory.fromStr 7 "5mS" = (true, 7) := by
  have hs : IsAscii "5mS" := by decide
  obtain ⟨htime, hmemory⟩ := fromStr_documented_iff hs
  refine ⟨hs, htime.2 ?_, by decide, hmemory.2 ?_, by decide⟩
  · have h5 : timeUnits.Reads "5mS" 5 1000000 := ⟨"5", "mS", by decide, by decide, by decide, by decide⟩
    rintro ⟨num, unit, hreads, -, hge⟩
    obtain ⟨rfl, rfl⟩ := h5.unique hreads
    exact absurd hge (by decide)
  · rintro ⟨num, unit, hreads, -⟩
    have hnone : memoryUnits.unit? (lowerCase (.ofList ("5mS".toList.dropWhile Char.isDigit))) = none := by
      decide
    have hunit := (Units.reads_iff.1 hreads).2.1
    rw [hnone] at hunit
    cases hunit

/-- A limit of `2 ^ 34` gibibytes becomes no memory at all, and one of 585 years less than a second. -/
theorem fromStr_wraps :
    assignFromStr Memory.fromStr 7 "17179869184g" = (false, 0) ∧
      assignFromStr Time.fromStr 7 "18446744074s" = (false, 290448384) ∧
      ¬ memoryUnits.Documented Memory.fromStr "17179869184g" ∧
      ¬ timeUnits.Documented Time.fromStr "18446744074s" := by
  have hmemory : memoryUnits.Reads "17179869184g" 17179869184 (2 ^ 30) :=
    ⟨"17179869184", "g", by decide, by decide, by decide, by decide⟩
  have htime : timeUnits.Reads "18446744074s" 18446744074 (10 ^ 9) :=
    ⟨"18446744074", "s", by decide, by decide, by decide, by decide⟩
  have h1 : assignFromStr Memory.fromStr 7 "17179869184g" = (false, 0) := by decide
  have h2 : assignFromStr Time.fromStr 7 "18446744074s" = (false, 290448384) := by decide
  refine ⟨h1, h2, fun h => ?_, fun h => ?_⟩
  · have herror := (h 7).2 fun num unit hreads => by
      obtain ⟨rfl, rfl⟩ := hmemory.unique hreads
      decide
    rw [h1] at herror
    cases herror
  · have herror := (h 7).2 fun num unit hreads => by
      obtain ⟨rfl, rfl⟩ := htime.unique hreads
      decide
    rw [h2] at herror
    cases herror

/-! ## Printing -/

theorem sizeString_cons (base : Nat) (suf next : String) (larger : List String) (v : Nat) :
    sizeString base (suf :: next :: larger) v =
      if v % base = 0 then sizeString base (next :: larger) (v / base) else v.repr ++ suf := rfl

/-- `String` takes the largest of the units that divide the value. -/
theorem sizeString_eq (base : Nat) {sufs : List String} (hne : sufs ≠ []) (v : Nat) :
    ∃ k num suf, sufs[k]? = some suf ∧ num * base ^ k = v ∧
      sizeString base sufs v = num.repr ++ suf ∧ ∀ j < sufs.length, base ^ j ∣ v → j ≤ k := by
  induction sufs generalizing v with
  | nil => exact absurd rfl hne
  | cons suf larger ih =>
    cases larger with
    | nil => exact ⟨0, v, suf, rfl, by simp, rfl, fun j hj _ => Nat.le_of_lt_succ hj⟩
    | cons next larger =>
      by_cases hv : v % base = 0
      · obtain ⟨k, num, suf', hk, hnum, hstring, hlargest⟩ := ih (by simp) (v / base)
        have hdvd : base ∣ v := Nat.dvd_of_mod_eq_zero hv
        refine ⟨k + 1, num, suf', hk, ?_, ?_, fun j hj hdvd' => ?_⟩
        · rw [pow_succ, ← Nat.mul_assoc, hnum, Nat.div_mul_cancel hdvd]
        · rw [sizeString_cons, if_pos hv, hstring]
        · cases j with
          | zero => exact Nat.zero_le _
          | succ j =>
            refine Nat.succ_le_succ (hlargest j (Nat.lt_of_succ_lt_succ hj) ?_)
            rw [Nat.dvd_div_iff_mul_dvd hdvd, ← pow_succ']
            exact hdvd'
      · refine ⟨0, v, suf, rfl, by simp, by rw [sizeString_cons, if_neg hv], fun j _ hdvd => ?_⟩
        cases j with
        | zero => exact le_rfl
        | succ j =>
          have hbase : base ∣ v := (dvd_pow_self base (Nat.succ_ne_zero j)).trans hdvd
          exact absurd (Nat.mod_eq_zero_of_dvd hbase) hv

/-- The form of what a type prints, and what becomes of it on its way. -/
structure RoundTrips {Node : Type} (u : Units) (fromStr : String → Option Nat) (string : Nat → String)
    (encode : String → Node) (decode : Node → Option String) (v : Nat) : Prop where
  text : fromStr (string v) = some v
  json : unmarshalJSON fromStr (marshalJSON string v) = some v
  yaml : unmarshalYAML decode fromStr (encode (string v)) = some v
  database : scanValue (databaseValue v) = v
  largest : ∃ k num suf, u.suffixes[k]? = some suf ∧ num * u.base ^ k = v ∧
    string v = num.repr ++ suf ∧ ∀ j < u.suffixes.length, u.base ^ j ∣ v → j ≤ k

namespace Units

variable {u : Units}

/-- A printed value has digits and small letters only. -/
theorem printed_chars {k num : Nat} {suf : String} (hk : u.suffixes[k]? = some suf) :
    ∀ c ∈ (num.repr ++ suf).toList, c.isDigit = true ∨ c.isLower = true := by
  intro c hc
  rw [String.toList_append, List.mem_append] at hc
  exact hc.imp (repr_digits num c) ((u.word suf (List.mem_of_getElem? hk)).2 c)

theorem isAscii_printed {k num : Nat} {suf : String} (hk : u.suffixes[k]? = some suf) :
    IsAscii (num.repr ++ suf) := by
  intro c hc
  have hrange := printed_chars hk c hc
  rw [isDigit_iff_range, isLower_iff_toNat] at hrange
  omega

theorem plain_printed {k num : Nat} {suf : String} (hk : u.suffixes[k]? = some suf) :
    ∀ c ∈ (num.repr ++ suf).toList, Json.Plain c := by
  intro c hc
  apply Json.plain_of_isAlphanum
  have halphanum : c.isAlphanum = ((c.isUpper || c.isLower) || c.isDigit) := rfl
  rw [halphanum]
  rcases printed_chars hk c hc with h | h
  · rw [h, Bool.or_true]
  · rw [h, Bool.or_true, Bool.true_or]

theorem reads_printed {k num : Nat} {suf : String} (hk : u.suffixes[k]? = some suf) :
    u.Reads (num.repr ++ suf) num (u.base ^ k) := by
  have hword := (u.word suf (List.mem_of_getElem? hk)).2
  have hlower : lowerCase suf = suf := by
    have hmap : suf.toList.map Char.toLower = suf.toList.map id := List.map_congr_left fun c hc => by
      have hrange := isLower_iff_toNat.1 (hword c hc)
      exact toLower_eq_self (by omega)
    rw [lowerCase, hmap, List.map_id, String.ofList_toList]
  refine ⟨num.repr, suf, rfl, ?_, ?_, decimalValue_repr num⟩
  · rw [isNumber, Bool.and_eq_true, List.all_eq_true]
    exact ⟨by simp, repr_digits num⟩
  · rw [hlower]
    exact unit?_of_mem hk

/-- What is printed is read back from each form. -/
theorem roundTrips {Node : Type} {encode : String → Node} {decode : Node → Option String}
    (hyaml : ∀ s, decode (encode s) = some s) {v : Nat} (hv : v < 2 ^ 64) :
    RoundTrips u u.fromStr u.string encode decode v := by
  obtain ⟨k, num, suf, hk, hnum, hstring, hlargest⟩ :=
    sizeString_eq u.base u.suffixes_ne_nil v
  have hstring : u.string v = num.repr ++ suf := hstring
  have hle : num ≤ v := by
    rw [← hnum]
    exact Nat.le_mul_of_pos_right num (unit?_pos (unit?_of_mem hk))
  have htext : u.fromStr (u.string v) = some v := by
    rw [hstring, fromStr_eq_some (isAscii_printed hk)]
    exact ⟨num, _, reads_printed hk, hle.trans_lt hv, hnum ▸ Nat.mod_eq_of_lt (hnum ▸ hv)⟩
  have hjson : Json.unmarshal (Json.marshal (u.string v)) = some (u.string v) := by
    rw [hstring]
    exact Json.unmarshal_marshal (plain_printed hk)
  refine ⟨htext, ?_, ?_, ?_, k, num, suf, hk, hnum, hstring, hlargest⟩
  · rw [unmarshalJSON, marshalJSON, hjson]
    exact htext
  · rw [unmarshalYAML, hyaml]
    exact htext
  · rw [scanValue, databaseValue, BitVec.ofInt_toInt, BitVec.toNat_ofNat, Nat.mod_eq_of_lt hv]

end Units

theorem Time.string_eq : Time.string = timeUnits.string := rfl

theorem Memory.string_eq : Memory.string = memoryUnits.string := rfl

/-- Every time and every size is read back as it was printed, and no two are printed alike. -/
theorem string_roundTrips {Node : Type} {encode : String → Node} {decode : Node → Option String}
    (hyaml : ∀ s, decode (encode s) = some s) :
    (∀ v < 2 ^ 64, RoundTrips timeUnits Time.fromStr Time.string encode decode v ∧
      RoundTrips memoryUnits Memory.fromStr Memory.string encode decode v) ∧
      ∀ v < 2 ^ 64, ∀ w < 2 ^ 64, (Time.string v = Time.string w → v = w) ∧
        (Memory.string v = Memory.string w → v = w) := by
  have hboth : ∀ v < 2 ^ 64, RoundTrips timeUnits Time.fromStr Time.string encode decode v ∧
      RoundTrips memoryUnits Memory.fromStr Memory.string encode decode v := by
    rw [funext Time.fromStr_eq, funext Memory.fromStr_eq, Time.string_eq, Memory.string_eq]
    exact fun v hv => ⟨Units.roundTrips hyaml hv, Units.roundTrips hyaml hv⟩
  refine ⟨hboth, fun v hv w hw => ⟨fun h => ?_, fun h => ?_⟩⟩
  · have htext := (hboth v hv).1.text
    rw [h, (hboth w hw).1.text] at htext
    exact (Option.some.inj htext).symm
  · have htext := (hboth v hv).2.text
    rw [h, (hboth w hw).2.text] at htext
    exact (Option.some.inj htext).symm

/-- Scalar nodes with their tags. -/
theorem string_roundTrips_scalar :
    let encode : String → String × String := fun s => ("!!str", s)
    let decode : String × String → Option String := fun node =>
      if node.1 = "!!str" then some node.2 else none
    RoundTrips timeUnits Time.fromStr Time.string encode decode 0 ∧ Time.string 0 = "0s" ∧
      RoundTrips memoryUnits Memory.fromStr Memory.string encode decode (2 ^ 64 - 1) ∧
      Memory.string (2 ^ 64 - 1) = "18446744073709551615b" := by
  intro encode decode
  have h := @string_roundTrips _ encode decode fun _ => rfl
  exact ⟨(h.1 0 (by decide)).1, by decide, (h.1 (2 ^ 64 - 1) (by decide)).2, by decide⟩

end TestingSystem
