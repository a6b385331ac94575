import Mathlib.Data.List.Perm.Subperm
import TestingSystem.Master.Registry.HealthyInvoker

/-!
# The capacity of an invoker

Every job that a healthy invoker has not finished is in the last status that the master read or in
sending (`covered`), and so is every job whose request is under way. `TrySendJob` compares the jobs in
sending with `MaxNewJobs` of that status, which leaves out the jobs of the status, so the object gives
the invoker no job beyond `MaxJobs`. It may have registered with more jobs than that, and
`handleNewJob` asks neither for the sender nor for `MaxJobs`, so a late request of an older object
comes on top (`foreignJobs`).
-/

set_option autoImplicit false

namespace TestingSystem.Link

variable {s s' : Link} {registered : List JobID}

/-- A request of the object is handled once, IDs that the object gives are new to the process, and a
result arrives only of a finished job. -/
def HandledOnce (s : Link) : LinkStep → Prop
  | .insert id => id ∈ s.sent → id ∈ s.requests
  | .trySendJob _ id => s.process.timeline.entered id = none
  | .jobTested id => ∃ e, s.process.timeline.left id = some e
  | _ => True

/-- The jobs that the process has accepted and not finished, and the requests under way. -/
def load (s : Link) : Nat := s.process.activeJobs.length + s.requests.length

/-- The unfinished jobs that the process had at the registration or that the object requested. -/
def ownJobs (registered : List JobID) (s : Link) : List JobID :=
  s.process.activeJobs.filter fun id => id ∈ s.sent ∨ id ∈ registered

/-- The unfinished jobs that the process accepted from someone else after the registration. -/
def foreignJobs (registered : List JobID) (s : Link) : List JobID :=
  s.process.activeJobs.filter fun id => ¬ (id ∈ s.sent ∨ id ∈ registered)

theorem mem_ownJobs {id : JobID} :
    id ∈ s.ownJobs registered ↔ id ∈ s.process.activeJobs ∧ (id ∈ s.sent ∨ id ∈ registered) := by
  simp [ownJobs]

/-- Every unfinished job is own or foreign. -/
theorem load_eq (registered : List JobID) (s : Link) :
    s.load = (s.ownJobs registered).length + s.requests.length + (s.foreignJobs registered).length := by
  have hsplit := List.length_eq_length_filter_add (l := s.process.activeJobs)
    fun id => decide (id ∈ s.sent ∨ id ∈ registered)
  have hforeign : s.foreignJobs registered =
      s.process.activeJobs.filter fun id => !decide (id ∈ s.sent ∨ id ∈ registered) :=
    List.filter_congr fun id _ => decide_not
  rw [load, hforeign, ownJobs, hsplit]
  omega

/-- The invariant of a healthy invoker that had the jobs `registered` when it registered. -/
structure Within (registered : List JobID) (s : Link) : Prop where
  counted : s.invoker.Counted
  once : s.requests.Nodup
  requested : ∀ id ∈ s.requests,
    s.process.timeline.entered id = none ∧ id ∈ sendingIDs s.invoker.jobHolderByID
  past : ∀ id ∈ registered, ∃ e, s.process.timeline.entered id = some e
  covered : ∀ id ∈ s.ownJobs registered,
    id ∈ s.invoker.status.activeJobIDs ∨ id ∈ sendingIDs s.invoker.jobHolderByID
  own_le : (s.ownJobs registered).length + s.requests.length ≤
    max s.process.maxJobs registered.length

theorem Within.init (h : machine.init s)
    (hlists : ∀ id ∈ s.process.activeJobs, id ∈ s.invoker.status.activeJobIDs) :
    s.Within s.process.activeJobs := by
  have hwf := h.1
  obtain ⟨-, status, -, heq⟩ := h
  have hrequests : s.requests = [] := by rw [heq]
  have hcounted : s.invoker.Counted := by
    rw [heq]
    exact Invoker.counted_new status
  refine ⟨hcounted, ?_, fun id hmem => ?_, fun id hmem => ((hwf.active id).1 hmem).1,
    fun id hmem => .inl (hlists id (mem_ownJobs.1 hmem).1), ?_⟩
  · rw [hrequests]
    exact List.nodup_nil
  · rw [hrequests] at hmem
    cases hmem
  · rw [hrequests]
    exact (List.length_filter_le _ _).trans (le_max_right _ _)

/-- The object holds every job whose request is under way. -/
theorem Within.requests_sent (hinv : s.Inv) (h : s.Within registered) :
    ∀ id ∈ s.requests, id ∈ s.sent := by
  intro id hid
  obtain ⟨holder, hget, -⟩ := Option.map_eq_some_iff.1 (mem_sendingIDs.1 (h.requested id hid).2)
  exact hinv.held id ⟨holder, hget⟩

/-- A section of the object: a job leaves the jobs in sending only if it is in the new status or
finished. -/
theorem Within.receive (hinv : s.Inv) (h : s.Within registered) {i : Invoker} (hcounted : i.Counted)
    (hmem : i.status ∈ s.process.statuses) (hle : s.invoker.status.epoch ≤ i.status.epoch)
    (hsending : ∀ id ∈ sendingIDs s.invoker.jobHolderByID, id ∈ sendingIDs i.jobHolderByID ∨
      s.process.timeline.EnteredBefore id i.status.epoch ∨
        ∃ e, s.process.timeline.left id = some e) (pending : List (JobRef × JobID)) :
    Within registered { s with invoker := i, pending := pending } := by
  refine ⟨hcounted, h.once, fun id hid => ?_, h.past, fun id hid => ?_, h.own_le⟩
  · obtain ⟨hnew, hold⟩ := h.requested id hid
    rcases hsending id hold with hsame | ⟨e, he, -⟩ | ⟨e, he⟩
    · exact ⟨hnew, hsame⟩
    · exact absurd (hnew.symm.trans he) (by simp)
    · obtain ⟨e', he'⟩ := hinv.process.entered_of_left id e he
      exact absurd (hnew.symm.trans he') (by simp)
  · have hpresent := ((hinv.process.active id).1 (mem_ownJobs.1 hid).1).2
    have hshown : s.process.timeline.EnteredBefore id i.status.epoch →
        id ∈ i.status.activeJobIDs := fun he =>
      (hinv.process.took i.status hmem).shows.mem_of_present he hpresent
    rcases h.covered id hid with hold | hold
    · have hshows := (hinv.process.took s.invoker.status hinv.status).shows
      exact .inl (hshown (((hshows id).1 hold).1.mono hle))
    · rcases hsending id hold with hsame | he | ⟨e, he⟩
      · exact .inr hsame
      · exact .inl (hshown he)
      · exact absurd (hpresent.symm.trans he) (by simp)

theorem epoch_le_statusAfter (i : Invoker) (response : Option Status) :
    i.status.epoch ≤ (i.statusAfter response).epoch := by
  cases response with
  | none => exact le_rfl
  | some status =>
    simp only [Invoker.statusAfter]
    split
    · exact le_rfl
    · next hnew =>
      rw [not_or, ge_iff_le, not_le] at hnew
      exact hnew.2.le

/-- What the object knows to be in the process fits into `MaxJobs` when it sends a job. -/
theorem Within.trySendJob (hinv : s.Inv) (h : s.Within registered) {job : JobRef} {id : JobID}
    {i : Invoker} (hsent : s.invoker.Sent job id i) (hnew : id ∉ s.sent)
    (hfresh : s.process.timeline.entered id = none) (pending : List (JobRef × JobID)) :
    Within registered { s with
      invoker := i, requests := id :: s.requests, pending := pending, sent := id :: s.sent } := by
  have hinactive : id ∉ s.process.activeJobs := by
    intro hmem
    obtain ⟨e, he⟩ := ((hinv.process.active id).1 hmem).1
    exact absurd (hfresh.symm.trans he) (by simp)
  have hown : ownJobs registered { s with
      invoker := i, requests := id :: s.requests, pending := pending, sent := id :: s.sent } =
      s.ownJobs registered := by
    refine List.filter_congr fun x hx => decide_eq_decide.2 ?_
    have hne : x ≠ id := fun heq => hinactive (heq ▸ hx)
    simp [hne]
  refine ⟨hsent.counted h.counted fun hid => hnew (hinv.held id hid),
    List.nodup_cons.2 ⟨fun hid => hnew (h.requests_sent hinv id hid), h.once⟩, fun x hx => ?_, h.past,
    fun x hx => ?_, ?_⟩
  · rcases List.mem_cons.1 hx with rfl | hx
    · exact ⟨hfresh, (hsent.sending x).2 (.inl rfl)⟩
    · obtain ⟨hx, hmem⟩ := h.requested x hx
      exact ⟨hx, (hsent.sending x).2 (.inr hmem)⟩
  · rw [hown] at hx
    rw [hsent.status]
    exact (h.covered x hx).imp_right fun hmem => (hsent.sending x).2 (.inr hmem)
  · have hdisjoint : (s.ownJobs registered ++ s.requests).Nodup := by
      refine List.nodup_append.2 ⟨hinv.process.nodup.filter _, h.once, fun x hx y hy heq => ?_⟩
      obtain ⟨e, he⟩ := ((hinv.process.active x).1 (mem_ownJobs.1 hx).1).1
      exact absurd ((heq ▸ (h.requested y hy).1).symm.trans he) (by simp)
    have hsub : s.ownJobs registered ++ s.requests ⊆
        s.invoker.status.activeJobIDs ++ sendingIDs s.invoker.jobHolderByID := by
      intro x hx
      rcases List.mem_append.1 hx with hx | hx
      · exact List.mem_append.2 (h.covered x hx)
      · exact List.mem_append_right _ (h.requested x hx).2
    have hlen := (List.subperm_of_subset hdisjoint hsub).length_le
    have hroom := hsent.room.2
    have hcount : s.invoker.jobTypesCount.read .sendingJob =
      (sendingIDs s.invoker.jobHolderByID).length := h.counted _
    rw [(hinv.process.took s.invoker.status hinv.status).maxNewJobs, hcount,
      InvokerProcess.maxNewJobs] at hroom
    rw [List.length_append, List.length_append] at hlen
    refine le_max_of_le_left ?_
    rw [hown]
    show (s.ownJobs registered).length + (s.requests.length + 1) ≤ s.process.maxJobs
    split at hroom <;> omega

/-- A job that enters is no longer new. -/
theorem Within.past_insert (h : s.Within registered) (id : JobID) :
    ∀ x ∈ registered, ∃ e, (s.process.insert id).timeline.entered x = some e := by
  intro x hx
  by_cases heq : x = id
  · subst heq
    exact ⟨_, Function.update_self _ _ _⟩
  · obtain ⟨e, he⟩ := h.past x hx
    exact ⟨e, (Function.update_of_ne heq _ _).trans he⟩

/-- The process accepts a job that the object requested. -/
theorem Within.insert (hinv : s.Inv) (h : s.Within registered) {id : JobID} (hid : id ∈ s.requests) :
    Within registered
      { s with process := s.process.insert id, requests := s.requests.erase id } := by
  have hown : ownJobs registered
      { s with process := s.process.insert id, requests := s.requests.erase id } =
      id :: s.ownJobs registered :=
    List.filter_cons_of_pos (decide_eq_true (.inl (h.requests_sent hinv id hid)))
  refine ⟨h.counted, h.once.erase id, fun x hx => ?_, h.past_insert id, fun x hx => ?_, ?_⟩
  · obtain ⟨hne, hx⟩ := (h.once.mem_erase_iff).1 hx
    obtain ⟨hnew, hsending⟩ := h.requested x hx
    exact ⟨(Function.update_of_ne hne _ _).trans hnew, hsending⟩
  · rw [hown] at hx
    rcases List.mem_cons.1 hx with rfl | hx
    · exact .inr (h.requested x hid).2
    · exact h.covered x hx
  · have hlen := List.length_erase_of_mem hid
    have hpos := List.length_pos_of_mem hid
    have hle := h.own_le
    rw [hown]
    show (s.ownJobs registered).length + 1 + (s.requests.erase id).length ≤ _
    rw [hlen]
    refine le_trans ?_ hle
    omega

/-- The process accepts a job that somebody else requested. -/
theorem Within.insertForeign (hinv : s.Inv) (h : s.Within registered) {id : JobID}
    (hnew : s.process.timeline.entered id = none) (hid : id ∉ s.sent) :
    Within registered
      { s with process := s.process.insert id, requests := s.requests.erase id } := by
  have hunknown : ¬ (id ∈ s.sent ∨ id ∈ registered) := by
    rintro (hmem | hmem)
    · exact hid hmem
    · obtain ⟨e, he⟩ := h.past id hmem
      exact absurd (hnew.symm.trans he) (by simp)
  have hown : ownJobs registered
      { s with process := s.process.insert id, requests := s.requests.erase id } =
      s.ownJobs registered :=
    List.filter_cons_of_neg (by simpa using hunknown)
  have hrequests : s.requests.erase id = s.requests :=
    List.erase_of_not_mem fun hmem => hid (h.requests_sent hinv id hmem)
  refine ⟨h.counted, h.once.erase id, fun x hx => ?_, h.past_insert id, fun x hx => ?_, ?_⟩
  · have hx' : x ∈ s.requests := List.mem_of_mem_erase hx
    have hne : x ≠ id := fun heq => hid (h.requests_sent hinv id (heq ▸ hx'))
    obtain ⟨hx', hsending⟩ := h.requested x hx'
    exact ⟨(Function.update_of_ne hne _ _).trans hx', hsending⟩
  · rw [hown] at hx
    exact h.covered x hx
  · rw [hown]
    show (s.ownJobs registered).length + (s.requests.erase id).length ≤ _
    rw [hrequests]
    exact h.own_le

theorem Within.delete (h : s.Within registered) (id : JobID) :
    Within registered { s with process := s.process.delete id } := by
  have hsub : (ownJobs registered { s with process := s.process.delete id }).Sublist
      (s.ownJobs registered) := List.erase_sublist.filter _
  exact ⟨h.counted, h.once, h.requested, h.past, fun x hx => h.covered x (hsub.subset hx),
    (Nat.add_le_add_right hsub.length_le _).trans h.own_le⟩

theorem Within.refuse (h : s.Within registered) (id : JobID) :
    Within registered { s with requests := s.requests.erase id } := by
  refine ⟨h.counted, h.once.erase id, fun x hx => h.requested x (List.mem_of_mem_erase hx), h.past,
    h.covered, ?_⟩
  have hlen : (s.requests.erase id).length ≤ s.requests.length := List.erase_sublist.length_le
  exact (Nat.add_le_add_left hlen _).trans h.own_le

theorem healthy_of_kept {i i' : Invoker} (hk : i.Kept i') (hf : i'.failed = false) :
    i.failed = false := by
  by_contra hfailed
  have hfailed' := (hk.failed (Bool.not_eq_false _ ▸ hfailed)).1
  exact absurd (hfailed'.symm.trans hf) (by simp)

/-- A status that arrives. -/
theorem Within.observe (hinv : s.Inv) (h : s.invoker.failed = false → s.Within registered) {i : Invoker}
    (ho : s.invoker.Observed i) {response : Option Status}
    (hstatuses : ∀ status, response = some status → status ∈ s.process.statuses)
    (hs : i.status = s.invoker.statusAfter response) (hf : i.failed = false) :
    Within registered { s with invoker := i } := by
  have hwithin := h (healthy_of_kept ho.toKept hf)
  refine hwithin.receive hinv (ho.counted hwithin.counted) ?_ ?_
    (fun id hid => .inl ((ho.sending id).2 hid)) s.pending
  · rw [hs]
    exact Invoker.statusAfter_mem hinv.status hstatuses
  · rw [hs]
    exact epoch_le_statusAfter _ _

/-- The answer to a request takes its job out of those in sending. -/
theorem Within.completeSendJob (hinv : s.Inv) (h : s.invoker.failed = false → s.Within registered)
    {job : JobRef} {id current : JobID} {response : Option Status} {order : RangeOrder}
    (hen : s.enabled (.completeSendJob job id current response order))
    (hex : s.exec (.completeSendJob job id current response order) = .ok s')
    (hf : s'.invoker.failed = false) : s'.Within registered := by
  obtain ⟨-, ho, hstatuses, hlive⟩ := hen
  have hspec := hinv.coherent.completeSendJob ho current response
  cases he : s.invoker.completeSendJob current response order with
  | error p =>
    simp only [exec, he, error_bind] at hex
    cases hex
  | ok i =>
    simp only [exec, he, ok_bind] at hex
    obtain rfl := Except.ok.inj hex
    obtain ⟨hk, hs, hsending⟩ := hspec.value he
    have hhealthy := healthy_of_kept hk hf
    have hwithin := h hhealthy
    obtain ⟨rfl, hentered⟩ := hlive (hinv.not_extracted hhealthy)
    cases response with
    | none =>
      obtain rfl := Except.ok.inj he
      exact absurd (hinv.coherent.markFailed.2.2.symm.trans hf) (by simp)
    | some status =>
      have hle : status.epoch ≤ i.status.epoch := by
        rw [hs, Invoker.statusAfter]
        split
        · next hold => exact hold.resolve_left (by simp [hhealthy])
        · exact le_rfl
      refine hwithin.receive hinv (i := { i with sends := i.sends.erase job })
        (hk.counted hwithin.counted) ?_ ?_ (fun x hx => ?_) _
      · show i.status ∈ _
        rw [hs]
        exact Invoker.statusAfter_mem hinv.status hstatuses
      · show _ ≤ i.status.epoch
        rw [hs]
        exact epoch_le_statusAfter _ _
      · by_cases hx' : x = current
        · exact .inr (.inl (hx' ▸ (hentered status rfl).mono hle))
        · exact .inl ((hsending x).2 ⟨hx, .inr hx'⟩)

theorem Within.step (hinv : s.Inv) (h : s.invoker.failed = false → s.Within registered) {a : LinkStep}
    (hok : s.HandledOnce a) (hen : s.enabled a) (hex : s.exec a = .ok s')
    (hf : s'.invoker.failed = false) : s'.Within registered := by
  cases a with
  | insert id =>
    obtain rfl := Except.ok.inj hex
    by_cases hid : id ∈ s.sent
    · exact (h hf).insert hinv (hok hid)
    · exact (h hf).insertForeign hinv hen hid
  | refuse id =>
    obtain rfl := Except.ok.inj hex
    exact (h hf).refuse id
  | delete id =>
    obtain rfl := Except.ok.inj hex
    exact (h hf).delete id
  | getStatus epoch order =>
    obtain rfl := Except.ok.inj hex
    have hwithin := h hf
    exact ⟨hwithin.counted, hwithin.once, hwithin.requested, hwithin.past, hwithin.covered,
      hwithin.own_le⟩
  | trySendJob job id =>
    rcases hinv.coherent.trySendJob job id with he | ⟨i, he, hsent⟩
    · simp only [exec, he] at hex
      obtain rfl := Except.ok.inj hex
      exact h hf
    · simp only [exec, he] at hex
      obtain rfl := Except.ok.inj hex
      exact (h hsent.room.1).trySendJob hinv hsent hen hok _
  | completeSendJob job id current response order =>
    exact Within.completeSendJob hinv h hen hex hf
  | ping response order =>
    obtain ⟨i, he, ho, hs⟩ := hinv.coherent.ping hen.1 response
    simp only [exec, he, ok_bind] at hex
    obtain rfl := Except.ok.inj hex
    exact Within.observe hinv h ho hen.2 hs hf
  | verifyAndUpdateStatus status order =>
    obtain ⟨updated, i, he, ho, hs⟩ := hinv.coherent.verifyAndUpdateStatus hen.1 status
    simp only [exec, he, ok_bind] at hex
    obtain rfl := Except.ok.inj hex
    by_cases haddress : s.invoker.address = status.address
    · exact Within.observe hinv h ho (fun _ heq => Option.some.inj heq ▸ hen.2) (hs haddress).1 hf
    · have hsame : i = s.invoker := by
        simp only [Invoker.verifyAndUpdateStatus, haddress, ne_eq, not_false_eq_true, if_true,
          Except.ok.injEq, Prod.mk.injEq] at he
        exact he.2.symm
      subst hsame
      exact h hf
  | jobTested id =>
    obtain ⟨tested, i, he, -, ht⟩ := hinv.coherent.jobTested id
    simp only [exec, he, ok_bind] at hex
    obtain rfl := Except.ok.inj hex
    have hwithin := h (ht.failed ▸ hf)
    refine hwithin.receive hinv (ht.counted hwithin.counted) (ht.status ▸ hinv.status)
      (Nat.le_of_eq (congrArg Status.epoch ht.status.symm)) (fun x hx => ?_) s.pending
    by_cases hx' : x = id
    · exact .inr (.inr (hx' ▸ hok))
    · exact .inl ((ht.sending x).2 ⟨hx, hx'⟩)
  | ensureJobIsNotLost id =>
    obtain rfl := Except.ok.inj hex
    obtain ⟨ho, hs⟩ := hinv.coherent.ensureJobIsNotLost id
    have hs' : (s.invoker.ensureJobIsNotLost id).status = s.invoker.statusAfter none := hs
    have hnone : ∀ status, none = some status → status ∈ s.process.statuses :=
      fun _ heq => absurd heq (Option.some_ne_none _).symm
    have hwithin := Within.observe hinv h ho hnone hs' hf
    exact ⟨hwithin.counted, hwithin.once, hwithin.requested, hwithin.past, hwithin.covered,
      hwithin.own_le⟩
  | markFailed =>
    obtain rfl := Except.ok.inj hex
    exact absurd (hinv.coherent.markFailed.2.2.symm.trans hf) (by simp)
  | extractJobs order =>
    obtain rfl := Except.ok.inj hex
    have hfailed := hinv.coherent.failed (by simp [hen.2])
    exact absurd (hfailed.symm.trans hf) (by simp)
  | rescheduled =>
    obtain rfl := Except.ok.inj hex
    obtain ⟨jobs, hj⟩ := hen
    have hfailed := hinv.coherent.failed (by simp [hj])
    exact absurd (hfailed.symm.trans hf) (by simp)

/-- While the invoker is not marked failed, it never has more jobs together with the requests under way
than `MaxJobs`, or than it had when it registered with a status that lists its jobs, but for those that
it accepted from someone else. -/
theorem load_le_capacity {s₀ : Link} (h₀ : machine.init s₀)
    (hlists : ∀ id ∈ s₀.process.activeJobs, id ∈ s₀.invoker.status.activeJobIDs)
    (hrun : machine.Reaches HandledOnce s₀ s) (hhealthy : s.invoker.failed = false) :
    s.load ≤ max s.process.maxJobs s₀.process.activeJobs.length +
      (s.foreignJobs s₀.process.activeJobs).length := by
  have hwithin : s.Inv ∧ (s.invoker.failed = false → s.Within s₀.process.activeJobs) := by
    refine Machine.Reaches.keeps
      (P := fun s => s.Inv ∧ (s.invoker.failed = false → s.Within s₀.process.activeJobs)) hrun
      ⟨.init h₀, fun _ => .init h₀ hlists⟩ fun s a t hs hok hen hex => ?_
    obtain ⟨t', ht, hinv, -⟩ := hs.1.step a hen
    obtain rfl := Except.ok.inj (ht.symm.trans hex)
    exact ⟨hinv, fun hf => Within.step hs.1 hs.2 hok hen hex hf⟩
  rw [load_eq s₀.process.activeJobs]
  exact Nat.add_le_add_right (hwithin.2 hhealthy).own_le _

/-- An object that has just registered, for a process without jobs. -/
def fresh (maxJobs : Nat) : Link :=
  { invoker := .new ⟨maxJobs, [], 1, "host"⟩
    process := (InvokerProcess.new "host" maxJobs).getStatus 1 id
    requests := [], pending := [], sent := [] }

theorem init_fresh (maxJobs : Nat) : machine.init (fresh maxJobs) := by
  have hwf : ((InvokerProcess.new "host" maxJobs).getStatus 1 id).WellFormed :=
    (InvokerProcess.WellFormed.new "host" maxJobs).getStatus Nat.zero_lt_one fun _ => .refl _
  refine ⟨hwf, _, List.mem_cons_self, ?_⟩
  rw [fresh, InvokerProcess.status, InvokerProcess.maxNewJobs]
  rfl

/-- Two jobs are sent and the first is inserted, with a job of another object before it. -/
theorem load_le_capacity_two_jobs :
    ∃ s : Link, s.load = 3 ∧ s.foreignJobs [] = [7] ∧ s.load ≤ max s.process.maxJobs 0 + 1 := by
  have hrun := load_le_capacity (init_fresh 2) (fun _ h => nomatch h)
    (Machine.Reaches.of_runs machine HandledOnce
      [.trySendJob 0 10, .trySendJob 1 11, .insert 7, .insert 10]
      ⟨rfl, by simp [machine, enabled, fresh], _, rfl, rfl, by simp [machine, enabled, fresh], _, rfl,
        fun h => absurd h (by decide), rfl, _, rfl,
        fun _ => List.mem_cons_of_mem _ List.mem_cons_self, rfl, _, rfl, rfl⟩) rfl
  exact ⟨_, rfl, rfl, hrun⟩

/-- An invoker may register with more unfinished jobs than `MaxJobs`, and accept one of an older object
beyond `MaxJobs`. -/
theorem registers_above_capacity :
    (¬ ∀ s₀ s : Link, machine.init s₀ →
      (∀ id ∈ s₀.process.activeJobs, id ∈ s₀.invoker.status.activeJobIDs) →
      machine.Reaches HandledOnce s₀ s → s.invoker.failed = false → s.load ≤ s.process.maxJobs) ∧
    ¬ ∀ s₀ s : Link, machine.init s₀ → s₀.process.activeJobs = [] →
      machine.Reaches HandledOnce s₀ s → s.invoker.failed = false → s.load ≤ s.process.maxJobs := by
  constructor
  · intro hclaim
    let busy : InvokerProcess := ((InvokerProcess.new "host" 1).insert 10).insert 11
    have hwf : busy.WellFormed := ((InvokerProcess.WellFormed.new "host" 1).insert rfl).insert rfl
    have hinit : machine.init
        ⟨.new ⟨0, [11, 10], 1, "host"⟩, busy.getStatus 1 id, [], [], []⟩ :=
      ⟨hwf.getStatus Nat.zero_lt_one fun _ => .refl _, _, List.mem_cons_self, rfl⟩
    have hload := hclaim _ _ hinit (fun _ h => h) .refl rfl
    exact absurd hload (by decide)
  · intro hclaim
    -- the request of job 10 is under way when job 7 of an older object is inserted
    have hload := hclaim _ _ (init_fresh 1) rfl
      (Machine.Reaches.of_runs machine HandledOnce [.trySendJob 0 10, .insert 7]
        ⟨rfl, by simp [machine, enabled, fresh], _, rfl, fun h => absurd h (by decide), rfl, _, rfl,
          rfl⟩) rfl
    exact absurd hload (by decide)

end TestingSystem.Link
