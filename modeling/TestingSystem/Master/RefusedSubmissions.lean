import TestingSystem.Master.SubmissionRecords

/-!
# Refused submissions are removed

`Accounted` says who keeps or removes what a query finds in the table and what is in the storage. When
the first calls to the database and the storage report what they did, only accepted submissions are found
once handlers and retries have ended (`kept_iff_accepted`); a retry may have had its effect and be
reported as failed. The row of a refused submission stays in the table, marked as deleted.
-/

set_option autoImplicit false

namespace TestingSystem.MasterService

variable {F : Type} [Add F] [Min F] [Zero F] [One F] {s t : MasterService F} {id : SubmissionID}

/-- The first calls to the database and the storage report what they did. -/
def Truthful (_ : MasterService F) : MasterServiceStep F → Prop
  | .saveSubmissionInDB _ _ call | .saveSubmissionInStorage _ call => call.written = call.ok
  | _ => True

/-- What a query finds and what is in the storage has somebody who keeps or removes it. -/
structure Accounted (s : MasterService F) (id : SubmissionID) : Prop where
  row : (s.database.find id).isSome = true → s.answered.get? id = some .accepted ∨
    (s.handlers.get? id).isSome = true ∨ id ∈ s.removingFromDB
  source : (s.storage.get? id).isSome = true → s.answered.get? id = some .accepted ∨
    (∃ handler, s.handlers.get? id = some handler ∧ handler.stored = true) ∨
      id ∈ s.removingFromStorage

omit [Add F] [Min F] [Zero F] [One F] in
theorem Accounted.congr (hs : s.Accounted id) (hdatabase : t.database.find id = s.database.find id)
    (hstorage : t.storage.get? id = s.storage.get? id)
    (hanswered : t.answered.get? id = s.answered.get? id)
    (hhandlers : t.handlers.get? id = s.handlers.get? id)
    (hremovingFromDB : id ∈ t.removingFromDB ↔ id ∈ s.removingFromDB)
    (hremovingFromStorage : id ∈ t.removingFromStorage ↔ id ∈ s.removingFromStorage) :
    t.Accounted id where
  row := by
    rw [hdatabase, hanswered, hhandlers, hremovingFromDB]
    exact hs.row
  source := by
    rw [hstorage, hanswered, hhandlers, hremovingFromStorage]
    exact hs.source

omit [Add F] [Min F] [Zero F] [One F] in
theorem Same.accounted (h : s.Same t id) (hs : s.Accounted id) : t.Accounted id :=
  hs.congr h.database h.storage h.answered h.handlers h.removingFromDB h.removingFromStorage

theorem accounted_saveSubmissionInDB (h : s.Inv) (hs : ∀ id, s.Accounted id) {problem : Problem F}
    {file : SourceCode} {call : CallEnd} (hcall : call.written = call.ok) (id : SubmissionID) :
    (s.saveSubmissionInDB problem file call).Accounted id := by
  by_cases hid : id = s.lastID + 1
  · subst hid
    obtain ⟨-, hhandler, -, -⟩ := h.unknown (Nat.lt_succ_self s.lastID)
    have hold := hs (s.lastID + 1)
    unfold saveSubmissionInDB
    cases hok : call.ok with
    | true =>
      refine ⟨fun _ => .inr (.inl ?_), ?_⟩
      · show ((s.handlers.set (s.lastID + 1) _).get? (s.lastID + 1)).isSome = true
        rw [GoMap.get?_set_self]
        rfl
      · intro hsource
        rcases hold.source hsource with haccepted | ⟨handler, hget, -⟩ | hremoving
        · exact .inl haccepted
        · rw [hhandler] at hget
          cases hget
        · exact .inr (.inr hremoving)
    | false =>
      rw [hok] at hcall
      rw [hcall]
      exact ⟨hold.row, hold.source⟩
  · exact (same_saveSubmissionInDB hid).accounted (hs id)

theorem accounted_saveSubmissionInStorage (h : s.Inv) (hs : ∀ id, s.Accounted id) {n : SubmissionID}
    {handler : NewSubmission F} (hhandler : s.handlers.get? n = some handler)
    (hstored : handler.stored = false) {call : CallEnd} (hcall : call.written = call.ok)
    (id : SubmissionID) : (s.saveSubmissionInStorage n call).Accounted id := by
  by_cases hid : id = n
  · subst hid
    have hold := hs id
    unfold saveSubmissionInStorage
    rw [hhandler]
    dsimp only
    split
    · have hget := GoMap.get?_set_self s.handlers id { handler with stored := true }
      refine ⟨fun _ => .inr (.inl ?_), fun _ => .inr (.inl ⟨_, hget, rfl⟩)⟩
      rw [hget]
      rfl
    · next hfailed =>
      refine ⟨fun _ => .inr (.inr List.mem_cons_self), ?_⟩
      -- The source was not written, and the handler has not stored it before.
      have hwritten : call.written = false := by
        rw [hcall]
        exact Bool.eq_false_iff.2 hfailed
      rw [hwritten]
      intro hsource
      rcases hold.source hsource with haccepted | ⟨handler', hget, hstored'⟩ | hremoving
      · rw [((h.recorded id).waiting hhandler).1] at haccepted
        cases haccepted
      · rw [hhandler] at hget
        cases hget
        rw [hstored] at hstored'
        cases hstored'
      · exact .inr (.inr hremoving)
  · exact (same_saveSubmissionInStorage hhandler hid).accounted (hs id)

omit [Add F] [Min F] [Zero F] [One F] in
theorem accounted_submit (hs : ∀ id, s.Accounted id) {n : SubmissionID} {handler : NewSubmission F}
    (hhandler : s.handlers.get? n = some handler) {epoch : Epoch} (hex : s.submit n epoch = .ok t)
    (id : SubmissionID) : t.Accounted id := by
  unfold MasterService.submit at hex
  rw [hhandler] at hex
  obtain ⟨submitted, -, hex⟩ := bind_eq_ok.1 hex
  obtain ⟨run, -, hex⟩ := bind_eq_ok.1 hex
  cases submitted with
  | error err =>
    cases hex
    by_cases hid : id = n
    · subst hid
      exact ⟨fun _ => .inr (.inr List.mem_cons_self), fun _ => .inr (.inr List.mem_cons_self)⟩
    · exact (hs id).congr rfl rfl (GoMap.get?_set_ne _ _ hid) (GoMap.get?_delete_ne _ hid)
        (by simp [refuse, hid]) (by simp [refuse, hid])
  | ok q =>
    cases hex
    by_cases hid : id = n
    · subst hid
      have hget := GoMap.get?_set_self s.answered id .accepted
      exact ⟨fun _ => .inl hget, fun _ => .inl hget⟩
    · exact (hs id).congr rfl rfl (GoMap.get?_set_ne _ _ hid) (GoMap.get?_delete_ne _ hid) Iff.rfl
        Iff.rfl

omit [Add F] [Min F] [Zero F] [One F] in
/-- A removal ends after the row is marked. -/
theorem accounted_removeSubmissionFromDB (hs : ∀ id, s.Accounted id) {n : SubmissionID}
    (call : CallEnd) (id : SubmissionID) : (s.removeSubmissionFromDB n call).Accounted id := by
  by_cases hid : id = n
  · subst hid
    unfold removeSubmissionFromDB
    refine ⟨?_, (hs id).source⟩
    intro hrow
    cases hok : call.ok with
    | true =>
      rw [call.honest hok, if_pos rfl, SubmissionTable.find_delete_self] at hrow
      cases hrow
    | false =>
      cases hwritten : call.written with
      | true =>
        rw [hwritten, if_pos rfl, SubmissionTable.find_delete_self] at hrow
        cases hrow
      | false =>
        rw [hwritten] at hrow
        exact (hs id).row hrow
  · exact (same_removeSubmissionFromDB hid).accounted (hs id)

omit [Add F] [Min F] [Zero F] [One F] in
theorem accounted_removeSubmissionFromStorage (hs : ∀ id, s.Accounted id) {n : SubmissionID}
    (call : CallEnd) (id : SubmissionID) : (s.removeSubmissionFromStorage n call).Accounted id := by
  by_cases hid : id = n
  · subst hid
    unfold removeSubmissionFromStorage
    refine ⟨(hs id).row, ?_⟩
    intro hsource
    cases hok : call.ok with
    | true =>
      rw [call.honest hok, if_pos rfl, GoMap.get?_delete_self] at hsource
      cases hsource
    | false =>
      cases hwritten : call.written with
      | true =>
        rw [hwritten, if_pos rfl, GoMap.get?_delete_self] at hsource
        cases hsource
      | false =>
        rw [hwritten] at hsource
        exact (hs id).source hsource
  · exact (same_removeSubmissionFromStorage hid).accounted (hs id)

theorem accounted_saveResult (h : s.Inv) (hs : ∀ id, s.Accounted id) {n : SubmissionID}
    {submission : Submission F} (hget : s.finishing.get? n = some (submission, false))
    (call : CallEnd) (id : SubmissionID) : (s.saveResult n call).Accounted id := by
  have hsame : id ≠ n → s.Same (s.saveResult n call) id := same_saveResult hget
  by_cases hid : id = n
  · subst hid
    have haccepted := (h.recorded id).accepted.2 (h.finishing_entry hget).1
    unfold saveResult
    rw [hget]
    exact ⟨fun _ => .inl haccepted, fun _ => .inl haccepted⟩
  · exact (hsame hid).accounted (hs id)

theorem accounted_jobCompleted (hs : ∀ id, s.Accounted id) {k : Nat} {epoch : Epoch}
    (hex : s.jobCompleted k epoch = .ok t) (id : SubmissionID) : t.Accounted id := by
  unfold MasterService.jobCompleted at hex
  split at hex
  · cases hex
    exact hs id
  · obtain ⟨⟨q, submission⟩, -, hex⟩ := bind_eq_ok.1 hex
    obtain ⟨run, -, hex⟩ := bind_eq_ok.1 hex
    split at hex
    · cases hex
      exact (hs id).congr rfl rfl rfl rfl Iff.rfl Iff.rfl
    · cases hex
      exact (hs id).congr rfl rfl rfl rfl Iff.rfl Iff.rfl
    · cases hex
      exact (hs id).congr rfl rfl rfl rfl Iff.rfl Iff.rfl

theorem accounted_step (h : s.Inv) (hs : ∀ id, s.Accounted id) {a : MasterServiceStep F}
    (hok : s.Truthful a) (hen : s.enabled a) (hex : s.exec a = .ok t) (id : SubmissionID) :
    t.Accounted id := by
  cases a with
  | saveSubmissionInDB problem file call =>
    cases hex
    exact accounted_saveSubmissionInDB h hs hok id
  | saveSubmissionInStorage n call =>
    obtain ⟨handler, hhandler, hstored⟩ := hen
    cases hex
    exact accounted_saveSubmissionInStorage h hs hhandler hstored hok id
  | submit n epoch =>
    obtain ⟨handler, hhandler, -⟩ := hen
    exact accounted_submit hs hhandler hex id
  | removeSubmissionFromDB n call =>
    cases hex
    exact accounted_removeSubmissionFromDB hs call id
  | removeSubmissionFromStorage n call =>
    cases hex
    exact accounted_removeSubmissionFromStorage hs call id
  | saveResult n call =>
    obtain ⟨submission, hget⟩ := hen
    cases hex
    exact accounted_saveResult h hs hget call id
  | finishSubmissionTesting n =>
    obtain ⟨run, -, hex⟩ := bind_eq_ok.1 hex
    cases hex
    exact (hs id).congr rfl rfl rfl rfl Iff.rfl Iff.rfl
  | jobCompleted k epoch => exact accounted_jobCompleted hs hex id
  | other step =>
    obtain ⟨run, -, hex⟩ := bind_eq_ok.1 hex
    cases hex
    exact (hs id).congr rfl rfl rfl rfl Iff.rfl Iff.rfl

theorem accounted (h : machine.Reachable Truthful s) (id : SubmissionID) : s.Accounted id := by
  refine h.invariant_of_reachable (P := fun s => ∀ id, s.Accounted id) ?_ ?_ id
  · rintro s rfl id
    exact ⟨fun hrow => absurd hrow Bool.false_ne_true,
      fun hsource => absurd hsource Bool.false_ne_true⟩
  · intro s a t hr hs hok hen hex
    exact accounted_step (inv hr) hs hok hen hex

/-- Once its handler and the retries that remove it have ended, a submission has a row without the mark
and a source if and only if it was accepted. -/
theorem kept_iff_accepted (h : machine.Reachable Truthful s) (id : SubmissionID)
    (hhandler : s.handlers.get? id = none) (hdatabase : id ∉ s.removingFromDB)
    (hstorage : id ∉ s.removingFromStorage) :
    ((s.database.find id).isSome = true ↔ s.answered.get? id = some .accepted) ∧
      ((s.storage.get? id).isSome = true ↔ s.answered.get? id = some .accepted) := by
  have hi := inv h
  have ha := accounted h id
  refine ⟨⟨?_, ?_⟩, ⟨?_, ?_⟩⟩
  · intro hrow
    rcases ha.row hrow with haccepted | hhandled | hremoving
    · exact haccepted
    · rw [hhandler] at hhandled
      cases hhandled
    · exact absurd hremoving hdatabase
  · intro haccepted
    cases (hi.recorded id).stage ((hi.recorded id).accepted.1 haccepted) with
    | testing row hrow => exact Option.isSome_iff_exists.2 ⟨row, hrow⟩
    | finishing row submission saved hrow => exact Option.isSome_iff_exists.2 ⟨row, hrow⟩
    | tested submission hrow => exact Option.isSome_iff_exists.2 ⟨submission, hrow⟩
  · intro hsource
    rcases ha.source hsource with haccepted | ⟨handler, hhandled, -⟩ | hremoving
    · exact haccepted
    · rw [hhandler] at hhandled
      cases hhandled
    · exact absurd hremoving hstorage
  · intro haccepted
    obtain ⟨file, -, hfile⟩ := (hi.recorded id).source ((hi.recorded id).accepted.1 haccepted)
    exact Option.isSome_iff_exists.2 ⟨file, hfile⟩

/-- The queue refuses a problem of an unknown type. The first removal of the row takes place although it
is reported as failed; the row stays with the mark. -/
theorem kept_iff_accepted_refused : ∃ s : MasterService Int,
    s.answered.get? 1 = some .serverError ∧ s.database.find 1 = none ∧ s.storage.get? 1 = none ∧
      ∃ row, s.database.rows.get? 1 = some row ∧ row.deleted = true := by
  have hr := Machine.Reachable.of_runs (machine (F := Int)) Truthful
    [.saveSubmissionInDB { GeneratorRun.twoTests with problemType := .other 3 } [] ⟨true, true, id⟩,
      .saveSubmissionInStorage 1 ⟨true, true, id⟩, .submit 1 0,
      .removeSubmissionFromDB 1 ⟨true, false, Bool.noConfusion⟩,
      .removeSubmissionFromStorage 1 ⟨true, true, id⟩, .removeSubmissionFromDB 1 ⟨true, true, id⟩]
    (.of_init rfl)
    ⟨rfl, trivial, _, rfl, rfl, ⟨_, rfl, rfl⟩, _, rfl, trivial, ⟨_, rfl, rfl⟩, _, rfl,
      trivial, List.mem_cons_self, _, rfl, trivial, List.mem_cons_self, _, rfl,
      trivial, List.mem_cons_self, _, rfl, rfl⟩
  obtain ⟨hrow, hsource⟩ := kept_iff_accepted hr 1 rfl List.not_mem_nil List.not_mem_nil
  have hnone := Option.not_isSome_iff_eq_none.1 (mt hrow.1 fun hkept => by cases hkept)
  have hnone' := Option.not_isSome_iff_eq_none.1 (mt hsource.1 fun hkept => by cases hkept)
  exact ⟨_, rfl, hnone, hnone', _, rfl, rfl⟩

end TestingSystem.MasterService
