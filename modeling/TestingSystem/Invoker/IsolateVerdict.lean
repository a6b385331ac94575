import TestingSystem.Invoker.Isolate
import Mathlib.Data.List.Nodup

/-!
# What the meta file decides

Every line that is read has an effect on the result that does not depend on the lines around it
(`metaEffect`), so the loop of `parseMeta` is a fold of effects. The verdict `OK` survives the fold only
if no effect is against it. Two effects commute unless both write the same number or one is the
out-of-memory kill and the other the timeout: these two set the verdict without a look at it, and the
later one wins.
-/

set_option autoImplicit false

namespace TestingSystem

namespace Sandbox

/-- What a line of the meta file does to the result. -/
inductive MetaEffect where
  | memory (value : Nat)
  | oomKilled
  | exitCode (value : Int)
  | exitSignal (value : Int)
  | runtimeError
  | timedOut
  | time (value : Nat)
  | wallTime (value : Nat)
  | skip
  deriving DecidableEq, Repr

namespace MetaEffect

/-- The effect on a result. -/
def apply (result : RunResult) : MetaEffect → RunResult
  | .memory value => { result with statistics := { result.statistics with memory := value } }
  | .oomKilled => { result with verdict := .ML }
  | .exitCode value => { result with statistics := { result.statistics with exitCode := value } }
  | .exitSignal value =>
    setIfOK .RT { result with statistics := { result.statistics with exitCode := value } }
  | .runtimeError => setIfOK .RT result
  | .timedOut => { result with verdict := .WL }
  | .time value => { result with statistics := { result.statistics with time := value } }
  | .wallTime value => { result with statistics := { result.statistics with wallTime := value } }
  | .skip => result

/-- The effect is against the verdict `OK`. -/
def Blames : MetaEffect → Prop
  | .oomKilled | .exitSignal _ | .runtimeError | .timedOut => True
  | _ => False

/-- The two effects write the same number, or both set the verdict without a look at it. -/
def Conflicts : MetaEffect → MetaEffect → Prop
  | .memory _, .memory _ | .time _, .time _ | .wallTime _, .wallTime _ => True
  | .exitCode _, .exitCode _ | .exitSignal _, .exitSignal _ => True
  | .exitCode _, .exitSignal _ | .exitSignal _, .exitCode _ => True
  | .oomKilled, .timedOut | .timedOut, .oomKilled => True
  | _, _ => False

theorem setIfOK_verdict (verdict : Verdict) (result : RunResult) :
    (setIfOK verdict result).verdict = if result.verdict = .OK then verdict else result.verdict := by
  unfold setIfOK
  split <;> rfl

/-- The verdict is `OK` after an effect iff it was before and the effect is not against it. -/
theorem apply_verdict_eq_ok_iff (effect : MetaEffect) (result : RunResult) :
    (effect.apply result).verdict = .OK ↔ result.verdict = .OK ∧ ¬ effect.Blames := by
  have hne : ¬ (if result.verdict = .OK then .RT else result.verdict) = .OK := by
    split
    · exact nofun
    · assumption
  cases effect <;> simp [apply, Blames, setIfOK_verdict, hne]

/-- Effects that look at the verdict keep any other than `OK`. -/
theorem apply_verdict_of_ne {effect : MetaEffect} {result : RunResult} (hoom : effect ≠ .oomKilled)
    (hout : effect ≠ .timedOut) (hne : result.verdict ≠ .OK) :
    (effect.apply result).verdict = result.verdict := by
  cases effect <;> simp_all [apply, setIfOK_verdict]

/-- Effects that do not conflict commute. -/
theorem apply_comm {effect other : MetaEffect} (h : ¬ effect.Conflicts other) (result : RunResult) :
    other.apply (effect.apply result) = effect.apply (other.apply result) := by
  cases effect <;> cases other <;>
    first
    | rfl
    | exact (h trivial).elim
    | (simp only [apply, setIfOK]
       by_cases hok : result.verdict = .OK <;> simp [hok])

end MetaEffect

variable (seconds : String → Option Nat)

/-- The effect of a line; `none` if `parseMeta` stops with an error at it. -/
def metaEffect (line : String) : Option MetaEffect :=
  match keyValue line with
  | none => none
  | some (key, value) =>
    match key with
    | "cg-mem" => (Memory.fromStr (value ++ "k")).map .memory
    | "cg-oom-killed" => some (if value = "1" then .oomKilled else .skip)
    | "exitcode" => (atoi value).toOption.map .exitCode
    | "exitsig" => (atoi value).toOption.map .exitSignal
    | "status" =>
      match value with
      | "RE" | "SG" => some .runtimeError
      | "TO" => some .timedOut
      | _ => none
    | "time" => (seconds value).map .time
    | "time-wall" => (seconds value).map .wallTime
    | "csw-forced" | "csw-voluntary" | "killed" | "max-rss" | "message" => some .skip
    | _ => none

/-- A round of the loop applies the effect of its line. -/
theorem parseLine_of_effect {line : String} {effect : MetaEffect}
    (h : metaEffect seconds line = some effect) (result : RunResult) :
    parseLine seconds result line = .ok (effect.apply result) := by
  revert h
  -- The cases of an early return have no effect; in the others the hypothesis names it.
  fun_cases parseLine seconds result line <;> intro h <;> simp_all [metaEffect, Except.toOption]
  case case4 value hline =>
    by_cases hone : value = "1" <;> simp only [hone, if_true, if_false] at h ⊢ <;> rw [← h] <;> rfl
  all_goals
    rw [← h]
    rfl

/-- Without an effect the loop ends with an error. -/
theorem parseLine_of_none {line : String} (h : metaEffect seconds line = none) (result : RunResult) :
    ∃ result', parseLine seconds result line = .error result' ∧ result'.err ≠ none := by
  revert h
  fun_cases parseLine seconds result line <;> simp_all [metaEffect, cannotParse, Except.toOption]

/-! ## The lines behind the effects -/

/-- The key of a line. -/
def lineKey (line : String) : Option String := (keyValue line).map Prod.fst

/-- The line `key:value` may have the effect. -/
def MetaEffect.Origin (key value : String) : MetaEffect → Prop
  | .memory _ => key = "cg-mem"
  | .oomKilled => key = "cg-oom-killed" ∧ value = "1"
  | .exitCode _ => key = "exitcode"
  | .exitSignal _ => key = "exitsig"
  | .runtimeError => key = "status" ∧ value ≠ "TO"
  | .timedOut => key = "status" ∧ value = "TO"
  | .time _ => key = "time"
  | .wallTime _ => key = "time-wall"
  | .skip => key ≠ "exitsig" ∧ key ≠ "status" ∧ (key = "cg-oom-killed" → value ≠ "1")

variable {seconds} {line : String} {effect : MetaEffect}

theorem origin (h : metaEffect seconds line = some effect) :
    ∃ key value, keyValue line = some (key, value) ∧ effect.Origin key value := by
  revert h
  fun_cases metaEffect seconds line <;> intro h <;>
    try simp only [reduceCtorEq] at h
  case case3 value hline =>
    refine ⟨_, _, hline, ?_⟩
    by_cases hone : value = "1"
    · rw [if_pos hone, Option.some.injEq] at h
      exact h ▸ ⟨rfl, hone⟩
    · rw [if_neg hone, Option.some.injEq] at h
      exact h ▸ ⟨by decide, by decide, fun _ => hone⟩
  all_goals
    refine ⟨_, _, ‹_›, ?_⟩
    first
    | (obtain ⟨_, _, rfl⟩ := Option.map_eq_some_iff.1 h
       exact rfl)
    | (cases h
       simp [MetaEffect.Origin])

/-- The effects against `OK` come from the kill, a signal and a status. -/
theorem blames_iff (h : metaEffect seconds line = some effect) :
    effect.Blames ↔ keyValue line = some ("cg-oom-killed", "1") ∨ lineKey line = some "exitsig" ∨
      lineKey line = some "status" := by
  obtain ⟨key, value, hline, ho⟩ := origin h
  cases effect <;> simp_all [lineKey, MetaEffect.Origin, MetaEffect.Blames]

theorem eq_oomKilled_iff (h : metaEffect seconds line = some effect) :
    effect = .oomKilled ↔ keyValue line = some ("cg-oom-killed", "1") := by
  obtain ⟨key, value, hline, ho⟩ := origin h
  cases effect <;> simp_all [MetaEffect.Origin]

theorem eq_timedOut_iff (h : metaEffect seconds line = some effect) :
    effect = .timedOut ↔ keyValue line = some ("status", "TO") := by
  obtain ⟨key, value, hline, ho⟩ := origin h
  cases effect <;> simp_all [MetaEffect.Origin]

/-- The lines of two effects that conflict have the same key, or both give the exit code, or are the
kill and the timeout. -/
theorem lines_of_conflicts {line' : String} {effect' : MetaEffect}
    (h : metaEffect seconds line = some effect) (h' : metaEffect seconds line' = some effect')
    (hc : effect.Conflicts effect') :
    lineKey line = lineKey line' ∨
    (lineKey line = some "exitcode" ∧ lineKey line' = some "exitsig" ∨
      lineKey line = some "exitsig" ∧ lineKey line' = some "exitcode") ∨
    (keyValue line = some ("cg-oom-killed", "1") ∧ keyValue line' = some ("status", "TO") ∨
      keyValue line = some ("status", "TO") ∧ keyValue line' = some ("cg-oom-killed", "1")) := by
  obtain ⟨key, value, hline, ho⟩ := origin h
  obtain ⟨key', value', hline', ho'⟩ := origin h'
  cases effect <;> cases effect' <;>
    first
    | exact hc.elim
    | simp_all [lineKey, MetaEffect.Origin]

/-! ## The loop -/

variable (seconds)

/-- The effect of a line that is read. -/
def applyLine (result : RunResult) (line : String) : RunResult :=
  (metaEffect seconds line).elim result (MetaEffect.apply result)

variable {seconds} {lines : List String}

/-- Every line is read. -/
def Readable (seconds : String → Option Nat) (lines : List String) : Prop :=
  ∀ line ∈ lines, ∃ effect, metaEffect seconds line = some effect

theorem applyLine_eq (h : metaEffect seconds line = some effect) (result : RunResult) :
    applyLine seconds result line = effect.apply result := by
  simp [applyLine, h]

/-- The loop folds the effects of lines that are all read. -/
theorem parseLines_eq (h : Readable seconds lines) (result : RunResult) :
    parseLines seconds lines result = .ok (lines.foldl (applyLine seconds) result) := by
  induction lines generalizing result with
  | nil => rfl
  | cons line lines ih =>
    obtain ⟨effect, he⟩ := h line List.mem_cons_self
    simp only [parseLines, parseLine_of_effect seconds he, List.foldl_cons, applyLine_eq he]
    exact ih (fun l hl => h l (List.mem_cons_of_mem _ hl)) _

/-- Otherwise it ends with an error. -/
theorem parseLines_error (h : ¬ Readable seconds lines) (result : RunResult) :
    ∃ result', parseLines seconds lines result = .error result' ∧ result'.err ≠ none := by
  induction lines generalizing result with
  | nil => exact absurd (fun _ hl => nomatch hl) h
  | cons line lines ih =>
    cases he : metaEffect seconds line with
    | none =>
      obtain ⟨result', hr, herr⟩ := parseLine_of_none seconds he result
      exact ⟨result', by simp only [parseLines, hr], herr⟩
    | some effect =>
      simp only [parseLines, parseLine_of_effect seconds he]
      refine ih (fun hread => h fun l hl => ?_) _
      rcases List.mem_cons.1 hl with rfl | hl
      · exact ⟨effect, he⟩
      · exact hread l hl

/-- The verdict is `OK` after the loop iff it was before and no effect is against it. -/
theorem foldl_verdict_eq_ok_iff (h : Readable seconds lines) (result : RunResult) :
    (lines.foldl (applyLine seconds) result).verdict = .OK ↔
      result.verdict = .OK ∧ ∀ line ∈ lines, keyValue line ≠ some ("cg-oom-killed", "1") ∧
        lineKey line ≠ some "exitsig" ∧ lineKey line ≠ some "status" := by
  induction lines generalizing result with
  | nil => simp
  | cons line lines ih =>
    obtain ⟨effect, he⟩ := h line List.mem_cons_self
    rw [List.foldl_cons, ih fun l hl => h l (List.mem_cons_of_mem _ hl), applyLine_eq he,
      effect.apply_verdict_eq_ok_iff, blames_iff he, List.forall_mem_cons]
    tauto

/-- Neither the kill nor the timeout among the lines: a verdict other than `OK` stays. -/
theorem foldl_verdict_of_ne (h : Readable seconds lines) {result : RunResult}
    (hoom : ∀ line ∈ lines, keyValue line ≠ some ("cg-oom-killed", "1"))
    (hout : ∀ line ∈ lines, keyValue line ≠ some ("status", "TO")) (hne : result.verdict ≠ .OK) :
    (lines.foldl (applyLine seconds) result).verdict = result.verdict := by
  induction lines generalizing result with
  | nil => rfl
  | cons line lines ih =>
    obtain ⟨effect, he⟩ := h line List.mem_cons_self
    have hverdict : (effect.apply result).verdict = result.verdict :=
      MetaEffect.apply_verdict_of_ne (mt (eq_oomKilled_iff he).1 (hoom line List.mem_cons_self))
        (mt (eq_timedOut_iff he).1 (hout line List.mem_cons_self)) hne
    rw [List.foldl_cons, applyLine_eq he,
      ih (fun l hl => h l (List.mem_cons_of_mem _ hl))
        (fun l hl => hoom l (List.mem_cons_of_mem _ hl))
        (fun l hl => hout l (List.mem_cons_of_mem _ hl)) (hverdict ▸ hne), hverdict]

/-! ## The verdict -/

section Rewrites

variable (config : RunLimitsConfig) (result : RunResult)

theorem setVerdict_statistics (toSet : Verdict) (condition : Prop) [Decidable condition]
    (canHaveVerdicts : List Verdict) :
    (setVerdict toSet condition canHaveVerdicts result).statistics = result.statistics := by
  unfold setVerdict
  split <;> rfl

theorem setVerdict_verdict (toSet : Verdict) (condition : Prop) [Decidable condition]
    (canHaveVerdicts : List Verdict) :
    (setVerdict toSet condition canHaveVerdicts result).verdict =
      if result.verdict ∈ canHaveVerdicts ∧ condition then toSet else result.verdict := by
  unfold setVerdict
  split <;> rfl

/-- A rewrite that may act on `OK` takes it away exactly when its condition holds. -/
theorem setVerdict_eq_ok_iff {toSet : Verdict} {condition : Prop} [Decidable condition]
    {canHaveVerdicts : List Verdict} (hne : toSet ≠ .OK) (hok : .OK ∈ canHaveVerdicts) :
    (setVerdict toSet condition canHaveVerdicts result).verdict = .OK ↔
      result.verdict = .OK ∧ ¬ condition := by
  rw [setVerdict_verdict]
  split
  · next h => exact ⟨fun heq => absurd heq hne, fun hnot => absurd h.2 hnot.2⟩
  · next h => exact ⟨fun heq => ⟨heq, fun hc => h ⟨heq ▸ hok, hc⟩⟩, fun hnot => hnot.1⟩

theorem compareLimits_statistics : (compareLimits config result).statistics = result.statistics := by
  simp only [compareLimits, setVerdict_statistics]

/-- The rewrites keep `OK` iff no limit is exceeded and the exit code is zero, and never make it. -/
theorem compareLimits_eq_ok_iff :
    (compareLimits config result).verdict = .OK ↔ result.verdict = .OK ∧
      result.statistics.exitCode = 0 ∧ result.statistics.memory ≤ config.memoryLimit ∧
      result.statistics.time ≤ config.timeLimit ∧
      result.statistics.wallTime ≤ config.wallTimeLimit := by
  unfold compareLimits
  rw [setVerdict_eq_ok_iff _ (by decide) (by decide), setVerdict_eq_ok_iff _ (by decide) (by decide),
    setVerdict_eq_ok_iff _ (by decide) (by decide), setVerdict_eq_ok_iff _ (by decide) (by decide)]
  simp only [setVerdict_statistics, not_lt, ne_eq, not_not]
  tauto

theorem compareLimits_oomKilled (h : result.verdict = .ML) :
    (compareLimits config result).verdict = .ML := by
  simp [compareLimits, setVerdict_statistics, setVerdict_verdict, h]

/-- After a timeout the processor time may still be blamed, but never the memory. -/
theorem compareLimits_timedOut (h : result.verdict = .WL) :
    (compareLimits config result).verdict ≠ .ML := by
  simp only [compareLimits, setVerdict_statistics, setVerdict_verdict, h]
  by_cases ht : config.timeLimit < result.statistics.time <;> simp [ht]

end Rewrites

variable {config : RunLimitsConfig} {result : RunResult}

theorem parseMeta_eq (hread : Readable seconds lines) :
    parseMeta seconds (.ok lines) config result =
      compareLimits config (lines.foldl (applyLine seconds) { result with verdict := .OK }) := by
  simp only [parseMeta, parseLines_eq hread]

/-- Without an error every line was read. -/
theorem readable_of_err (h : (parseMeta seconds (.ok lines) config result).err = none) :
    Readable seconds lines := by
  by_cases hread : Readable seconds lines
  · exact hread
  · obtain ⟨result', hr, herr⟩ := parseLines_error hread { result with verdict := .OK }
    simp only [parseMeta, hr] at h
    exact absurd h herr

/-- A run is judged `OK` iff nothing in the meta file is against it and it kept the limits. -/
theorem verdict_ok_iff (seconds : String → Option Nat) (lines : List String)
    (config : RunLimitsConfig) (result : RunResult)
    (h : (parseMeta seconds (.ok lines) config result).err = none) :
    (parseMeta seconds (.ok lines) config result).verdict = .OK ↔
      (∀ line ∈ lines, keyValue line ≠ some ("cg-oom-killed", "1") ∧
        lineKey line ≠ some "exitsig" ∧ lineKey line ≠ some "status") ∧
      (parseMeta seconds (.ok lines) config result).statistics.exitCode = 0 ∧
      (parseMeta seconds (.ok lines) config result).statistics.memory ≤ config.memoryLimit ∧
      (parseMeta seconds (.ok lines) config result).statistics.time ≤ config.timeLimit ∧
      (parseMeta seconds (.ok lines) config result).statistics.wallTime ≤ config.wallTimeLimit := by
  have hread := readable_of_err h
  rw [parseMeta_eq hread, compareLimits_eq_ok_iff, compareLimits_statistics, foldl_verdict_eq_ok_iff hread]
  simp only [true_and]

theorem verdict_ok_iff_clean_run :
    (parseMeta exactSeconds (.ok ["time:0.25", "cg-mem:100", "exitcode:0"])
      ⟨10 ^ 9, 2 ^ 28, 2 * 10 ^ 9⟩ {}).verdict = .OK :=
  (verdict_ok_iff exactSeconds ["time:0.25", "cg-mem:100", "exitcode:0"] ⟨10 ^ 9, 2 ^ 28, 2 * 10 ^ 9⟩
    {} (by decide +kernel)).2 (by decide +kernel)

/-! ## The order of the lines -/

/-- The line `key:value` is one of the lines. -/
def HasLine (lines : List String) (key value : String) : Prop :=
  ∃ line ∈ lines, keyValue line = some (key, value)

/-- The lines have different keys, and at most one of them gives the exit code. -/
structure DistinctKeys (lines : List String) : Prop where
  nodup : (lines.map lineKey).Nodup
  exitCode : ¬ ((∃ line ∈ lines, lineKey line = some "exitcode") ∧
    ∃ line ∈ lines, lineKey line = some "exitsig")

/-- The results agree in all that the lines and the limits decide. -/
def SameOutcome (result result' : RunResult) : Prop :=
  result.verdict = result'.verdict ∧ result.statistics = result'.statistics

/-- The kill and the timeout are not both among the lines: the fold does not depend on the order. -/
theorem foldl_perm {lines' : List String} (hread : Readable seconds lines)
    (hkeys : DistinctKeys lines)
    (h : ¬ (HasLine lines "cg-oom-killed" "1" ∧ HasLine lines "status" "TO"))
    (hperm : lines.Perm lines') (result : RunResult) :
    lines.foldl (applyLine seconds) result = lines'.foldl (applyLine seconds) result := by
  refine hperm.foldl_eq' (fun line hl line' hl' result => ?_) result
  obtain ⟨effect, he⟩ := hread line hl
  obtain ⟨effect', he'⟩ := hread line' hl'
  by_cases hsame : line = line'
  · rw [hsame]
  simp only [applyLine_eq he, applyLine_eq he']
  refine MetaEffect.apply_comm (fun hc => ?_) result
  -- Two lines whose effects conflict are ruled out by the keys or by the hypothesis.
  rcases lines_of_conflicts he he' hc with
    hkey | (⟨hcode, hsig⟩ | ⟨hsig, hcode⟩) | (⟨hoom, hout⟩ | ⟨hout, hoom⟩)
  · exact hsame (List.inj_on_of_nodup_map hkeys.nodup hl hl' hkey)
  · exact hkeys.exitCode ⟨⟨line, hl, hcode⟩, ⟨line', hl', hsig⟩⟩
  · exact hkeys.exitCode ⟨⟨line', hl', hcode⟩, ⟨line, hl, hsig⟩⟩
  · exact h ⟨⟨line, hl, hoom⟩, ⟨line', hl', hout⟩⟩
  · exact h ⟨⟨line', hl', hoom⟩, ⟨line, hl, hout⟩⟩

/-- A list of lines with the kill and the timeout starts, in another order, with these two. -/
theorem exists_perm_of_both (hkeys : DistinctKeys lines)
    (hoom : HasLine lines "cg-oom-killed" "1") (hout : HasLine lines "status" "TO") :
    ∃ oom out rest, lines.Perm (oom :: out :: rest) ∧
      keyValue oom = some ("cg-oom-killed", "1") ∧ keyValue out = some ("status", "TO") ∧
      (∀ line ∈ rest, keyValue line ≠ some ("cg-oom-killed", "1")) ∧
      ∀ line ∈ rest, keyValue line ≠ some ("status", "TO") := by
  obtain ⟨oom, hmem, hoom⟩ := hoom
  obtain ⟨out, hmem', hout⟩ := hout
  have hne : out ≠ oom := by
    rintro rfl
    rw [hoom] at hout
    exact absurd hout (by decide)
  have hperm : lines.Perm (oom :: out :: (lines.erase oom).erase out) :=
    (List.perm_cons_erase hmem).trans
      ((List.perm_cons_erase ((List.mem_erase_of_ne hne).2 hmem')).cons oom)
  have hnodup := (hperm.map lineKey).nodup_iff.1 hkeys.nodup
  simp only [List.map_cons, List.nodup_cons, List.mem_cons, not_or, List.mem_map, not_exists,
    not_and] at hnodup
  refine ⟨oom, out, _, hperm, hoom, hout, fun line hl heq => ?_, fun line hl heq => ?_⟩
  · exact hnodup.1.2 line hl (by rw [lineKey, lineKey, heq, hoom])
  · exact hnodup.2.1 line hl (by rw [lineKey, lineKey, heq, hout])

/-- With the kill and the timeout both among the lines, the later one decides. -/
theorem parseMeta_both {oom out : String} {rest : List String}
    (hread : Readable seconds (oom :: out :: rest))
    (hoom : keyValue oom = some ("cg-oom-killed", "1")) (hout : keyValue out = some ("status", "TO"))
    (hrest : ∀ line ∈ rest, keyValue line ≠ some ("cg-oom-killed", "1"))
    (hrest' : ∀ line ∈ rest, keyValue line ≠ some ("status", "TO")) (config : RunLimitsConfig)
    (result : RunResult) :
    (parseMeta seconds (.ok (oom :: out :: rest)) config result).verdict ≠ .ML ∧
      (parseMeta seconds (.ok (out :: oom :: rest)) config result).verdict = .ML := by
  obtain ⟨effect, he⟩ := hread oom (by simp)
  obtain rfl := (eq_oomKilled_iff he).2 hoom
  obtain ⟨effect', he'⟩ := hread out (by simp)
  obtain rfl := (eq_timedOut_iff he').2 hout
  have hreadRest : Readable seconds rest := fun line hl => hread line (by simp [hl])
  have hread' : Readable seconds (out :: oom :: rest) := fun line hl =>
    hread line (by simpa [or_left_comm] using hl)
  rw [parseMeta_eq hread, parseMeta_eq hread']
  simp only [List.foldl_cons, applyLine_eq he, applyLine_eq he', MetaEffect.apply]
  constructor
  · refine compareLimits_timedOut config _ ?_
    rw [foldl_verdict_of_ne hreadRest hrest hrest' (by simp)]
  · refine compareLimits_oomKilled config _ ?_
    rw [foldl_verdict_of_ne hreadRest hrest hrest' (by simp)]

/-- The verdict and the statistics do not depend on the order of the lines, unless isolate reports
both that the memory ran out and that the time did. -/
theorem order_independent_iff (seconds : String → Option Nat) (lines : List String)
    (config : RunLimitsConfig) (result : RunResult)
    (herr : (parseMeta seconds (.ok lines) config result).err = none) (hkeys : DistinctKeys lines) :
    (∀ lines', lines.Perm lines' → ∀ config, SameOutcome
      (parseMeta seconds (.ok lines) config result) (parseMeta seconds (.ok lines') config result)) ↔
    ¬ (HasLine lines "cg-oom-killed" "1" ∧ HasLine lines "status" "TO") := by
  have hread := readable_of_err herr
  constructor
  · rintro hsame ⟨hoom, hout⟩
    obtain ⟨oom, out, rest, hperm, hoom, hout, hrest, hrest'⟩ := exists_perm_of_both hkeys hoom hout
    have hread' : Readable seconds (oom :: out :: rest) := fun line hl =>
      hread line (hperm.mem_iff.2 hl)
    obtain ⟨hne, heq⟩ := parseMeta_both hread' hoom hout hrest hrest' config result
    have h1 := (hsame _ hperm config).1
    have h2 := (hsame _ (hperm.trans (.swap ..)) config).1
    exact hne (h1.symm.trans (h2.trans heq))
  · intro h lines' hperm config
    have hread' : Readable seconds lines' := fun line hl => hread line (hperm.mem_iff.2 hl)
    rw [parseMeta_eq hread, parseMeta_eq hread', foldl_perm hread hkeys h hperm]
    exact ⟨rfl, rfl⟩

theorem order_independent_iff_two_lines :
    ¬ ∀ lines', ["cg-oom-killed:1", "status:TO"].Perm lines' → ∀ config, SameOutcome
      (parseMeta exactSeconds (.ok ["cg-oom-killed:1", "status:TO"]) config {})
      (parseMeta exactSeconds (.ok lines') config {}) :=
  mt (order_independent_iff exactSeconds ["cg-oom-killed:1", "status:TO"] ⟨0, 0, 0⟩ {}
    (by decide +kernel) ⟨by decide +kernel, by decide +kernel⟩).1
    fun h => h ⟨⟨"cg-oom-killed:1", by decide, by decide +kernel⟩,
      ⟨"status:TO", by decide, by decide +kernel⟩⟩

/-- A run that was killed for its memory and for its time has the verdict of the later line. -/
theorem verdict_of_later_line :
    ¬ ∀ (lines lines' : List String) (config : RunLimitsConfig),
      (parseMeta exactSeconds (.ok lines) config {}).err = none → DistinctKeys lines →
      lines.Perm lines' → SameOutcome (parseMeta exactSeconds (.ok lines) config {})
        (parseMeta exactSeconds (.ok lines') config {}) := by
  intro h
  have hsame := h ["cg-oom-killed:1", "status:TO"] ["status:TO", "cg-oom-killed:1"]
    ⟨10 ^ 9, 2 ^ 28, 2 * 10 ^ 9⟩ (by decide +kernel) ⟨by decide +kernel, by decide +kernel⟩
    (.swap ..)
  exact absurd hsame.1 (by decide +kernel)

end Sandbox

end TestingSystem
