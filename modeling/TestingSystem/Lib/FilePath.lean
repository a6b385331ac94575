import Mathlib.Data.List.Infix
import Mathlib.Logic.Function.Iterate

/-!
# Lexical file paths

The functions of `path/filepath` with the separator `/`. A path is a text; `parse` reads it as a
`Path`, which is its normal form: whether it starts at the root, how many levels it climbs, and the
names it goes down. `Clean` writes the normal form as a text again, and `Join` puts texts together and
cleans them.

Following a text from a path is `resolve`. It only depends on the normal form of the text
(`resolve_eq_append`), so a question about a cleaned text becomes one about the levels climbed and the
names, and no proof goes through the characters.
-/

set_option autoImplicit false

namespace TestingSystem.FilePath

/-! ## Elements of a text -/

/-- The elements between the separators. -/
def split (s : String) : List String := (s.toList.splitOn '/').map String.ofList

/-- The elements with separators between them. -/
def unsplit (elems : List String) : String :=
  String.ofList (['/'].intercalate (elems.map String.toList))

/-- The text starts with a separator. -/
def isRooted (s : String) : Bool := s.toList.head? == some '/'

/-- A name: one element that is no reference to a directory. -/
structure Proper (name : String) : Prop where
  nonempty : name ≠ ""
  not_dot : name ≠ "."
  not_dots : name ≠ ".."
  no_separator : '/' ∉ name.toList

instance (name : String) : Decidable (Proper name) :=
  decidable_of_iff (name ≠ "" ∧ name ≠ "." ∧ name ≠ ".." ∧ '/' ∉ name.toList)
    ⟨fun h => ⟨h.1, h.2.1, h.2.2.1, h.2.2.2⟩, fun h => ⟨h.1, h.2, h.3, h.4⟩⟩

theorem split_append (s t : String) : split (s ++ "/" ++ t) = split s ++ split t := by
  have htext : (s ++ "/" ++ t).toList = s.toList ++ '/' :: t.toList := by simp
  rw [split, htext, List.splitOn_append_cons_self, List.map_append]
  rfl

theorem not_mem_of_mem_splitOn {α : Type} [DecidableEq α] {a : α} {xs ys : List α}
    (h : ys ∈ xs.splitOn a) : a ∉ ys := by
  induction xs generalizing ys with
  | nil =>
    rw [List.splitOn_nil, List.mem_singleton] at h
    simp [h]
  | cons x xs ih =>
    rw [List.splitOn_cons_eq_if_modifyHead] at h
    split at h
    · rcases List.mem_cons.1 h with rfl | h
      · simp
      · exact ih h
    · next hx =>
      obtain ⟨head, tail, heq⟩ := List.exists_cons_of_ne_nil (List.splitOn_ne_nil a xs)
      rw [heq] at h ih
      rcases List.mem_cons.1 h with rfl | h
      · have hhead := ih List.mem_cons_self
        simp only [beq_iff_eq] at hx
        simp [hhead, Ne.symm hx]
      · exact ih (List.mem_cons_of_mem _ h)

theorem no_separator_of_mem_split {s e : String} (h : e ∈ split s) : '/' ∉ e.toList := by
  obtain ⟨cs, hcs, rfl⟩ := List.mem_map.1 h
  rw [String.toList_ofList]
  exact not_mem_of_mem_splitOn hcs

theorem unsplit_split (s : String) : unsplit (split s) = s := by
  have hmap : (split s).map String.toList = s.toList.splitOn '/' := by
    simp [split, List.map_map]
  rw [unsplit, hmap, List.intercalate_splitOn, String.ofList_toList]

theorem split_of_no_separator {s : String} (h : '/' ∉ s.toList) : split s = [s] := by
  rw [split, List.splitOn_eq_singleton h]
  simp

theorem unsplit_singleton (s : String) : unsplit [s] = s := by
  simp [unsplit]

theorem unsplit_cons (s : String) {elems : List String} (h : elems ≠ []) :
    unsplit (s :: elems) = s ++ "/" ++ unsplit elems := by
  obtain ⟨e, elems, rfl⟩ := List.exists_cons_of_ne_nil h
  apply String.toList_injective
  simp [unsplit, List.intercalate]

/-- The elements of some texts with separators between them are the elements of the texts. -/
theorem split_unsplit (s : String) (elems : List String) :
    split (unsplit (s :: elems)) = (s :: elems).flatMap split := by
  induction elems generalizing s with
  | nil => simp [unsplit_singleton]
  | cons e elems ih =>
    rw [unsplit_cons s (List.cons_ne_nil e elems), split_append, ih e]
    rfl

theorem isRooted_append {s : String} (h : s ≠ "") (t : String) :
    isRooted (s ++ t) = isRooted s := by
  have hne : s.toList ≠ [] := fun heq => h (String.toList_eq_nil_iff.1 heq)
  obtain ⟨c, cs, hs⟩ := List.exists_cons_of_ne_nil hne
  simp [isRooted, hs]

theorem isRooted_unsplit {s : String} (h : s ≠ "") (elems : List String) :
    isRooted (unsplit (s :: elems)) = isRooted s := by
  by_cases hne : elems = []
  · rw [hne, unsplit_singleton]
  · rw [unsplit_cons s hne, String.append_assoc, isRooted_append h]

theorem Proper.not_rooted {name : String} (h : Proper name) : isRooted name = false := by
  rw [Bool.eq_false_iff]
  intro hr
  have hhead : name.toList.head? = some '/' := by simpa [isRooted] using hr
  exact h.no_separator (List.mem_of_mem_head? (by rw [hhead]; rfl))

theorem Proper.split_eq {name : String} (h : Proper name) : split name = [name] :=
  split_of_no_separator h.no_separator

/-! ## Normal forms -/

/-- A normal form. A rooted path climbs no level (`Valid`). -/
@[ext] structure Path where
  rooted : Bool
  ups : Nat
  names : List String
  deriving DecidableEq, Repr

namespace Path

/-- The normal forms of texts. -/
structure Valid (p : Path) : Prop where
  names : ∀ name ∈ p.names, Proper name
  root : p.rooted = true → p.ups = 0

/-- The directory above; that of the root is the root. -/
def up (p : Path) : Path :=
  if p.names ≠ [] then { p with names := p.names.dropLast }
  else if p.rooted then p
  else { p with ups := p.ups + 1 }

/-- The path one element further. -/
def push (p : Path) (elem : String) : Path :=
  if elem = "" ∨ elem = "." then p
  else if elem = ".." then p.up
  else { p with names := p.names ++ [elem] }

/-- The path that the text leads to from `p`. -/
def resolve (p : Path) (s : String) : Path := (split s).foldl push p

/-- The path with further names. -/
def down (p : Path) (names : List String) : Path := { p with names := p.names ++ names }

/-- The text of a normal form. -/
def text (p : Path) : String :=
  if p.rooted then "/" ++ unsplit p.names
  else if p.ups = 0 ∧ p.names = [] then "."
  else unsplit (List.replicate p.ups ".." ++ p.names)

/-- `q` is strictly below `p`. -/
def Inside (p q : Path) : Prop := ∃ rest, rest ≠ [] ∧ q = p.down rest

end Path

/-- Where a text starts. -/
def origin (rooted : Bool) : Path := { rooted := rooted, ups := 0, names := [] }

/-- The normal form of a text. -/
def parse (s : String) : Path := (origin (isRooted s)).resolve s

/-- `filepath.Clean`. -/
def clean (s : String) : String := (parse s).text

/-- `filepath.Join`: empty elements at the front are ignored. -/
def join (elems : List String) : String :=
  match elems.dropWhile fun e => decide (e = "") with
  | [] => ""
  | e :: elems => clean (unsplit (e :: elems))

/-- `filepath.Dir`: the text up to its last separator, cleaned. -/
def dir (s : String) : String := clean (unsplit ((split s).dropLast ++ [""]))

/-- `filepath.Base`: the last element that is not empty. -/
def base (s : String) : String :=
  if s = "" then "."
  else (((split s).filter fun e => decide (e ≠ "")).getLast?).getD "/"

namespace Path

variable {p q : Path}

/-! ### One element -/

theorem push_proper {name : String} (h : Proper name) : p.push name = p.down [name] := by
  simp [push, down, h.nonempty, h.not_dot, h.not_dots]

@[simp] theorem push_dots (p : Path) : p.push ".." = p.up := by simp [push]

@[simp] theorem down_nil (p : Path) : p.down [] = p := by simp [down]

theorem down_down (p : Path) (names more : List String) :
    (p.down names).down more = p.down (names ++ more) := by
  simp [down]

theorem up_down_concat (p : Path) (names : List String) (name : String) :
    (p.down (names ++ [name])).up = p.down names := by
  simp [up, down, ← List.append_assoc]

theorem Valid.down (h : p.Valid) {names : List String} (hnames : ∀ name ∈ names, Proper name) :
    (p.down names).Valid where
  names name hmem := (List.mem_append.1 hmem).elim (h.names name) (hnames name)
  root := h.root

theorem Valid.up (h : p.Valid) : p.up.Valid := by
  unfold Path.up
  split
  · exact ⟨fun name hmem => h.names name (List.mem_of_mem_dropLast hmem), h.root⟩
  · split
    · exact h
    · next hroot => exact ⟨h.names, fun hr => absurd hr hroot⟩

theorem Valid.push (h : p.Valid) {elem : String} (helem : '/' ∉ elem.toList) :
    (p.push elem).Valid := by
  unfold Path.push
  split
  · exact h
  · next hempty =>
    split
    · exact h.up
    · next hdots =>
      refine h.down fun name hmem => ?_
      obtain rfl := List.mem_singleton.1 hmem
      exact ⟨fun heq => hempty (.inl heq), fun heq => hempty (.inr heq), hdots, helem⟩

/-- A path with names is one name below another path. -/
theorem Valid.exists_above (h : p.Valid) (hne : p.names ≠ []) :
    ∃ (above : Path) (name : String), above.Valid ∧ Proper name ∧ p = above.down [name] := by
  obtain ⟨names, name, hnames⟩ := (List.eq_nil_or_concat' p.names).resolve_left hne
  refine ⟨{ p with names := names }, name, ⟨?_, h.root⟩, ?_, Path.ext rfl rfl hnames⟩
  · intro n hn
    exact h.names n (hnames ▸ List.mem_append_left _ hn)
  · exact h.names name (hnames ▸ List.mem_append_right _ (List.mem_singleton_self name))

@[simp] theorem up_rooted (p : Path) : p.up.rooted = p.rooted := by
  unfold up
  split
  · rfl
  · split <;> rfl

@[simp] theorem push_rooted (p : Path) (elem : String) : (p.push elem).rooted = p.rooted := by
  unfold push
  split
  · rfl
  · split
    · exact up_rooted p
    · rfl

/-! ### Texts -/

theorem foldl_push_proper (p : Path) {names : List String} (h : ∀ name ∈ names, Proper name) :
    names.foldl push p = p.down names := by
  induction names generalizing p with
  | nil => simp
  | cons name names ih =>
    rw [List.foldl_cons, push_proper (h name List.mem_cons_self),
      ih _ fun n hn => h n (List.mem_cons_of_mem _ hn), down_down]
    rfl

@[simp] theorem foldl_push_rooted (p : Path) (elems : List String) :
    (elems.foldl push p).rooted = p.rooted := by
  induction elems generalizing p with
  | nil => rfl
  | cons e elems ih => rw [List.foldl_cons, ih, push_rooted]

theorem foldl_push_valid (h : p.Valid) {elems : List String} (helems : ∀ e ∈ elems, '/' ∉ e.toList) :
    (elems.foldl push p).Valid := by
  induction elems generalizing p with
  | nil => exact h
  | cons e elems ih =>
    exact ih (h.push (helems e List.mem_cons_self)) fun n hn => helems n (List.mem_cons_of_mem _ hn)

theorem resolve_proper (p : Path) {name : String} (h : Proper name) :
    p.resolve name = p.down [name] := by
  rw [resolve, h.split_eq, List.foldl_cons, push_proper h, List.foldl_nil]

@[simp] theorem resolve_rooted (p : Path) (s : String) : (p.resolve s).rooted = p.rooted :=
  foldl_push_rooted p (split s)

theorem Valid.resolve (h : p.Valid) (s : String) : (p.resolve s).Valid :=
  foldl_push_valid h fun _ he => no_separator_of_mem_split he

/-- Following several texts is following them one after another. -/
theorem resolve_unsplit (p : Path) (s : String) (elems : List String) :
    p.resolve (unsplit (s :: elems)) = elems.foldl resolve (p.resolve s) := by
  rw [resolve, split_unsplit, List.flatMap_cons, List.foldl_append, List.foldl_flatMap]
  rfl

/-! ### Relative texts -/

/-- The directory `k` levels above. -/
def climb (k : Nat) (p : Path) : Path := up^[k] p

/-- The path that a relative normal form leads to from `p`. -/
def append (p q : Path) : Path := (climb q.ups p).down q.names

theorem climb_succ (k : Nat) (p : Path) : climb (k + 1) p = (climb k p).up :=
  Function.iterate_succ_apply' up k p

theorem append_push (p : Path) {q : Path} (hq : q.rooted = false) (elem : String) :
    p.append (q.push elem) = (p.append q).push elem := by
  unfold push
  split
  · rfl
  split
  · -- climbing takes away the last name, or counts one level more
    by_cases hnames : q.names = []
    · have hup : q.up = { q with ups := q.ups + 1 } := by simp [up, hnames, hq]
      rw [hup, append, append, hnames, down_nil, down_nil, climb_succ]
    · obtain ⟨names, name, heq⟩ := (List.eq_nil_or_concat' q.names).resolve_left hnames
      have hup : q.up = { q with names := names } := by simp [up, heq]
      rw [hup, append, append, heq, up_down_concat]
  · simp [append, down]

/-- A path of a text only depends on the normal form of the text as a relative one. -/
theorem foldl_push_eq_append (p : Path) (elems : List String) :
    elems.foldl push p = p.append (elems.foldl push (origin false)) := by
  induction elems using List.reverseRecOn with
  | nil => simp [append, climb, origin]
  | append_singleton elems e ih =>
    rw [List.foldl_append, List.foldl_append, List.foldl_cons, List.foldl_nil, List.foldl_cons,
      List.foldl_nil, ih, append_push _ (foldl_push_rooted _ _)]

theorem resolve_eq_append (p : Path) (s : String) :
    p.resolve s = p.append ((origin false).resolve s) :=
  foldl_push_eq_append p (split s)

theorem append_resolve (p : Path) {q : Path} (hq : q.rooted = false) (s : String) :
    p.append (q.resolve s) = (p.append q).resolve s := by
  unfold resolve
  induction split s generalizing q with
  | nil => rfl
  | cons e elems ih =>
    rw [List.foldl_cons, List.foldl_cons, ih (by rw [push_rooted, hq]), append_push p hq]

@[simp] theorem append_origin_down (p : Path) (names : List String) :
    p.append ((origin false).down names) = p.down names := rfl

theorem climb_of_le {k : Nat} (h : k ≤ p.names.length) :
    climb k p = { p with names := p.names.take (p.names.length - k) } := by
  induction k with
  | zero => simp [climb]
  | succ k ih =>
    have hne : p.names.take (p.names.length - k) ≠ [] := by
      intro heq
      have hlen := congrArg List.length heq
      rw [List.length_take, List.length_nil] at hlen
      omega
    rw [climb_succ, ih (Nat.le_of_succ_le h), up, if_pos hne, List.dropLast_eq_take,
      List.take_take, List.length_take]
    congr 2
    omega

theorem climb_of_gt {k : Nat} (h : p.names.length < k) :
    climb k p =
      { rooted := p.rooted
        ups := if p.rooted then p.ups else p.ups + (k - p.names.length)
        names := [] } := by
  induction k with
  | zero => omega
  | succ k ih =>
    rw [climb_succ]
    by_cases hk : p.names.length < k
    · rw [ih hk]
      cases p.rooted with
      | true => simp [up]
      | false =>
        simp only [up]
        ext1 <;> simp
        omega
    · obtain rfl : k = p.names.length := by omega
      rw [climb_of_le (Nat.le_refl _)]
      cases hroot : p.rooted <;> simp [up]

/-! ### Below a path -/

theorem inside_down_iff {names : List String} : p.Inside (p.down names) ↔ names ≠ [] := by
  constructor
  · rintro ⟨rest, hrest, heq⟩
    have hnames : p.names ++ names = p.names ++ rest := congrArg Path.names heq
    rwa [List.append_cancel_left hnames]
  · exact fun h => ⟨names, h, rfl⟩

/-- A relative path stays below `p`: it climbs no level, or it goes down again by the names that it
climbed past, and then at least one name further. -/
def Stays (p q : Path) : Prop :=
  (q.ups ≤ p.names.length ∨ p.rooted = true) ∧
    ∃ rest, rest ≠ [] ∧ q.names = p.names.drop (p.names.length - q.ups) ++ rest

theorem inside_append_iff : p.Inside (p.append q) ↔ p.Stays q := by
  unfold Inside Stays append
  by_cases hle : q.ups ≤ p.names.length
  · rw [climb_of_le hle]
    simp only [hle, true_or, true_and]
    refine exists_congr fun rest => and_congr_right fun _ => ?_
    have hsplit := List.take_append_drop (p.names.length - q.ups) p.names
    constructor
    · intro heq
      have hnames : p.names.take (p.names.length - q.ups) ++ q.names = p.names ++ rest :=
        congrArg Path.names heq
      rw [← List.append_cancel_left_eq (p.names.take (p.names.length - q.ups)), hnames,
        ← List.append_assoc, hsplit]
    · intro heq
      rw [heq, down, down, ← List.append_assoc, hsplit]
  · rw [climb_of_gt (Nat.lt_of_not_le hle)]
    have hdrop : p.names.length - q.ups = 0 := by omega
    simp only [hle, false_or, hdrop, List.drop_zero]
    cases hroot : p.rooted with
    | true =>
      simp only [true_and]
      refine exists_congr fun rest => and_congr_right fun _ => ?_
      simp [down, Path.ext_iff, hroot]
    | false =>
      simp only [Bool.false_eq_true, false_and, iff_false, not_exists, not_and]
      rintro rest - heq
      have hups : p.ups + (q.ups - p.names.length) = p.ups := congrArg Path.ups heq
      omega

/-! ### Normal forms as texts -/

theorem foldl_push_ups (k : Nat) :
    (List.replicate k "..").foldl push (origin false) = { rooted := false, ups := k, names := [] } := by
  induction k with
  | zero => rfl
  | succ k ih =>
    rw [List.replicate_succ', List.foldl_append, ih, List.foldl_cons, List.foldl_nil, push_dots]
    simp [up]

theorem split_dots : split ".." = [".."] := split_of_no_separator (by decide)

/-- The elements of the text of a normal form. -/
theorem flatMap_split (h : p.Valid) :
    (List.replicate p.ups ".." ++ p.names).flatMap split = List.replicate p.ups ".." ++ p.names := by
  rw [List.flatMap_append]
  congr 1
  · induction p.ups with
    | zero => rfl
    | succ k ih => rw [List.replicate_succ, List.flatMap_cons, ih, split_dots]; rfl
  · have hnames := h.names
    generalize p.names = names at hnames
    induction names with
    | nil => rfl
    | cons name names ih =>
      rw [List.flatMap_cons, (hnames name List.mem_cons_self).split_eq,
        ih fun n hn => hnames n (List.mem_cons_of_mem _ hn)]
      rfl

theorem isRooted_text (h : p.Valid) : isRooted p.text = p.rooted := by
  unfold text
  cases hroot : p.rooted with
  | true =>
    rw [if_pos rfl, isRooted_append (by decide)]
    rfl
  | false =>
    rw [if_neg Bool.false_ne_true]
    split
    · rfl
    · next hne =>
      cases hups : p.ups with
      | zero =>
        have hnames : p.names ≠ [] := fun heq => hne ⟨hups, heq⟩
        obtain ⟨name, names, heq⟩ := List.exists_cons_of_ne_nil hnames
        have hname := h.names name (heq ▸ List.mem_cons_self)
        rw [heq, List.replicate_zero, List.nil_append, isRooted_unsplit hname.nonempty]
        exact hname.not_rooted
      | succ k =>
        rw [List.replicate_succ, List.cons_append, isRooted_unsplit (by decide)]
        rfl

/-- Following the text of a relative normal form. -/
theorem parse_text (h : p.Valid) : parse p.text = p := by
  rw [parse, isRooted_text h]
  unfold text
  cases hroot : p.rooted with
  | true =>
    have hnames : (origin true).down p.names = p := by
      rw [Path.ext_iff]
      exact ⟨hroot.symm, (h.root hroot).symm, rfl⟩
    have htext : "/" ++ unsplit p.names = "" ++ "/" ++ unsplit p.names := by simp
    rw [if_pos rfl, htext, resolve, split_append, List.foldl_append]
    cases heq : p.names with
    | nil => rw [heq] at hnames; exact hnames
    | cons name names =>
      have hflat := flatMap_split h
      rw [h.root hroot, heq, List.replicate_zero, List.nil_append] at hflat
      rw [split_unsplit, hflat]
      refine (foldl_push_proper _ ?_).trans (heq ▸ hnames)
      exact heq ▸ h.names
  | false =>
    have hnames : ({ rooted := false, ups := p.ups, names := [] } : Path).down p.names = p := by
      rw [Path.ext_iff]
      exact ⟨hroot.symm, rfl, rfl⟩
    rw [if_neg Bool.false_ne_true]
    split
    · next hdot =>
      rw [Path.ext_iff]
      exact ⟨hroot.symm, hdot.1.symm, hdot.2.symm⟩
    · next hne =>
      have hcons : List.replicate p.ups ".." ++ p.names ≠ [] := by
        intro heq
        obtain ⟨hups, hnil⟩ := List.append_eq_nil_iff.1 heq
        exact hne ⟨by simpa using hups, hnil⟩
      obtain ⟨e, elems, heq⟩ := List.exists_cons_of_ne_nil hcons
      have hflat := flatMap_split h
      rw [heq] at hflat
      rw [heq, resolve, split_unsplit, hflat, ← heq, List.foldl_append, foldl_push_ups,
        foldl_push_proper _ h.names, hnames]

theorem resolve_text (p : Path) {q : Path} (hq : q.Valid) (hroot : q.rooted = false) :
    p.resolve q.text = p.append q := by
  have hparse := parse_text hq
  rw [parse, isRooted_text hq, hroot] at hparse
  rw [resolve_eq_append, hparse]

theorem text_injective (hp : p.Valid) (hq : q.Valid) (h : p.text = q.text) : p = q := by
  rw [← parse_text hp, ← parse_text hq, h]

end Path

open TestingSystem.FilePath.Path

theorem valid_origin (rooted : Bool) : (origin rooted).Valid where
  names _ h := nomatch h
  root _ := rfl

theorem valid_parse (s : String) : (parse s).Valid := (valid_origin _).resolve s

/-- What `Join` returns is cleaned, so it is known by its normal form. -/
theorem join_cons {s : String} (h : s ≠ "") (elems : List String) :
    join (s :: elems) = (elems.foldl resolve (parse s)).text := by
  rw [join, List.dropWhile_cons_of_neg (by simpa using h)]
  dsimp only
  rw [clean, parse, isRooted_unsplit h, resolve_unsplit]
  rfl

/-- As `join_cons`, for a first element that may be empty before one that is a name. -/
theorem join_name (s : String) {name : String} (h : Proper name) (elems : List String) :
    join (s :: name :: elems) = (elems.foldl resolve ((parse s).down [name])).text := by
  by_cases hs : s = ""
  · subst hs
    have hskip : join ("" :: name :: elems) = join (name :: elems) := rfl
    rw [hskip, join_cons h.nonempty, parse, h.not_rooted, resolve_proper _ h]
    rfl
  · rw [join_cons hs, List.foldl_cons, resolve_proper _ h]

theorem foldl_resolve_proper (p : Path) {names : List String} (h : ∀ name ∈ names, Proper name) :
    names.foldl resolve p = p.down names := by
  induction names generalizing p with
  | nil => simp
  | cons name names ih =>
    rw [List.foldl_cons, resolve_proper _ (h name List.mem_cons_self),
      ih _ fun n hn => h n (List.mem_cons_of_mem _ hn), down_down]
    rfl

/-- Names that are joined are followed one after another. -/
theorem resolve_join_names (p : Path) {names : List String} (h : ∀ name ∈ names, Proper name) :
    p.resolve (join names) = p.down names := by
  cases names with
  | nil => rw [down_nil]; rfl
  | cons name names =>
    have hname := h name List.mem_cons_self
    have hrest : ∀ n ∈ names, Proper n := fun n hn => h n (List.mem_cons_of_mem _ hn)
    have hparse : parse name = (origin false).down [name] := by
      rw [parse, hname.not_rooted, resolve_proper _ hname]
    rw [join_cons hname.nonempty, foldl_resolve_proper _ hrest, hparse, down_down, List.singleton_append,
      resolve_text _ ((valid_origin false).down h) rfl, append_origin_down]

/-- A name with any text after it. -/
theorem resolve_join_name (p : Path) {name : String} (h : Proper name) (s : String) :
    p.resolve (join [name, s]) = (p.down [name]).resolve s := by
  have hname : ((origin false).down [name]).Valid :=
    (valid_origin false).down (by simpa using h)
  have hparse : parse name = (origin false).down [name] := by
    rw [parse, h.not_rooted, resolve_proper _ h]
  rw [join_cons h.nonempty, List.foldl_cons, List.foldl_nil, hparse,
    resolve_text _ (hname.resolve s) (resolve_rooted _ s), append_resolve _ rfl, append_origin_down]

/-- `Join` with names goes down by these names. -/
theorem join_names (s : String) {names : List String} (hne : names ≠ [])
    (h : ∀ name ∈ names, Proper name) : join (s :: names) = ((parse s).down names).text := by
  obtain ⟨name, names, rfl⟩ := List.exists_cons_of_ne_nil hne
  rw [join_name s (h name List.mem_cons_self),
    foldl_resolve_proper _ fun n hn => h n (List.mem_cons_of_mem _ hn), down_down]
  rfl

theorem parse_join_names (s : String) {names : List String} (hne : names ≠ [])
    (h : ∀ name ∈ names, Proper name) : parse (join (s :: names)) = (parse s).down names := by
  rw [join_names s hne h]
  exact parse_text ((valid_parse s).down h)

theorem unsplit_concat {elems : List String} (h : elems ≠ []) (e : String) :
    unsplit (elems ++ [e]) = unsplit elems ++ "/" ++ e := by
  induction elems with
  | nil => exact absurd rfl h
  | cons first elems ih =>
    by_cases hne : elems = []
    · rw [hne, List.singleton_append, unsplit_cons _ (List.cons_ne_nil _ _), unsplit_singleton,
        unsplit_singleton]
    · rw [List.cons_append, unsplit_cons _ (List.append_ne_nil_of_left_ne_nil hne _), ih hne,
        unsplit_cons _ hne]
      simp only [String.append_assoc]

/-- The text one name further. -/
theorem text_down_singleton {p : Path} (hp : p.Valid) (name : String) :
    (p.down [name]).text =
      if p.names = [] ∧ p.ups = 0 then (if p.rooted then "/" else "") ++ name
      else p.text ++ "/" ++ name := by
  unfold text down
  cases hroot : p.rooted with
  | true =>
    have hups := hp.root hroot
    by_cases hnames : p.names = []
    · simp [hnames, hups, unsplit_singleton]
    · simp [hnames, unsplit_concat hnames, String.append_assoc]
  | false =>
    by_cases hdot : p.names = [] ∧ p.ups = 0
    · simp [hdot.1, hdot.2, unsplit_singleton]
    · have hne : List.replicate p.ups ".." ++ p.names ≠ [] := by
        intro heq
        obtain ⟨hups, hnil⟩ := List.append_eq_nil_iff.1 heq
        exact hdot ⟨hnil, by simpa using hups⟩
      have hdot' : ¬ (p.ups = 0 ∧ p.names = []) := fun h => hdot h.symm
      simp only [Bool.false_eq_true, if_false, hdot, hdot', ← List.append_assoc,
        unsplit_concat hne]
      simp

theorem clean_separator {p : Path} (hp : p.Valid) : clean (p.text ++ "/" ++ "") = p.text := by
  have hne : p.text ≠ "" := by
    intro heq
    have hparse := parse_text hp
    rw [heq] at hparse
    rw [← hparse] at heq
    exact absurd heq (by decide)
  have hself := parse_text hp
  rw [parse] at hself
  rw [clean, parse, String.append_assoc, isRooted_append hne, ← String.append_assoc, resolve,
    split_append, List.foldl_append]
  change (List.foldl push ((origin (isRooted p.text)).resolve p.text) (split "")).text = p.text
  rw [hself]
  rfl

/-- The directory of a path that ends with a name. -/
theorem dir_text {p : Path} (hp : p.Valid) {name : String} (h : Proper name) :
    dir (p.down [name]).text = p.text := by
  have hdir : ∀ t : String, dir (t ++ "/" ++ name) = clean (t ++ "/" ++ "") := by
    intro t
    rw [dir, split_append, h.split_eq, List.dropLast_concat]
    change clean (unsplit (split t ++ split "")) = _
    rw [← split_append, unsplit_split]
  rw [text_down_singleton hp]
  split
  · next hstart =>
    have horigin : p = origin p.rooted := by
      rw [Path.ext_iff]
      exact ⟨rfl, hstart.2, hstart.1⟩
    cases hroot : p.rooted with
    | true =>
      have htext : "/" ++ name = "" ++ "/" ++ name := by simp
      rw [if_pos rfl, htext, hdir, horigin, hroot]
      decide
    | false =>
      have htext : "" ++ name = name := by simp
      rw [if_neg Bool.false_ne_true, htext, dir, h.split_eq, horigin, hroot]
      rfl
  · rw [hdir, clean_separator hp]

theorem base_concat (t : String) {name : String} (h : Proper name) : base (t ++ "/" ++ name) = name := by
  have hne : t ++ "/" ++ name ≠ "" := by
    intro heq
    have hlength := congrArg String.length heq
    simp [String.length_append] at hlength
  rw [base, if_neg hne, split_append, h.split_eq, List.filter_append]
  simp [h.nonempty]

/-- The last name of a path. -/
theorem base_text {p : Path} (hp : p.Valid) {name : String} (h : Proper name) :
    base (p.down [name]).text = name := by
  have hname : base name = name := by
    rw [base, if_neg h.nonempty, h.split_eq]
    simp [h.nonempty]
  rw [text_down_singleton hp]
  split
  · cases p.rooted with
    | true => exact base_concat "" h
    | false =>
      rw [if_neg Bool.false_ne_true, String.empty_append]
      exact hname
  · exact base_concat p.text h

end TestingSystem.FilePath
