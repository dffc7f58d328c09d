import HayaSend.Services.Submission

/-!
# Cancellation

`cancel` checks the public status on one read and changes the recipients in a later operation.
Between the two a worker may submit the message. The planner refuses while a submission is under
way, but not once it has been accepted: it then marks accepted recipients canceled, and `cancel`
resolves with a canceled record of a message that was sent (`cancel_after_submission`).

Where no cancellation is applied to a ledger with an accepted attempt, a canceled message was not
submitted and never will be (`canceled_never_submitted`): a withdrawn ledger is settled and has no
attempt to complete, and every operation leaves it so.
-/

namespace HayaSend

/-- A ledger that nothing was submitted from, and nothing can be any more. -/
structure DeliveryLedgerState.Withdrawn (s : DeliveryLedgerState) : Prop where
  settled : s.AllSettled
  attempts : ∀ a ∈ s.attempts, a.status ≠ .submitting ∧ a.status ≠ .accepted

/-- **A withdrawn ledger stays withdrawn.** -/
theorem DeliveryLedgerState.Withdrawn.move {s s' : DeliveryLedgerState} (h : s.Withdrawn)
    (hi : LedgerInv s) (hm : LedgerMove s s') : s'.Withdrawn := by
  cases hm with
  | same => exact h
  | started a _ hq => exact absurd h.settled (hi.not_settled_of_queued hq)
  | completed i a input hget _ hst =>
    exact absurd hst (h.attempts a (List.mem_of_getElem? hget)).1
  | observed e hc =>
    obtain ⟨a, ha, hst⟩ := LedgerInv.exists_accepted_of_correlates hc
    exact absurd hst (h.attempts a ha).2
  | localized status t _ _ => exact ⟨LedgerInv.localized_settled s status t, h.attempts⟩
  | claimed => exact ⟨h.settled, h.attempts⟩
  | rescheduledEmail => exact ⟨h.settled, h.attempts⟩
  | rescheduled => exact ⟨h.settled, h.attempts⟩

/-- A local state withdraws a ledger without an accepted attempt. -/
theorem DeliveryLedgerState.withdrawn_localized {s : DeliveryLedgerState} (status : LocalStatus)
    (t : ℕ) (hno : ∀ a ∈ s.attempts, a.status ≠ .submitting)
    (hacc : ∀ a ∈ s.attempts, a.status ≠ .accepted) : (s.localized status t).Withdrawn :=
  ⟨LedgerInv.localized_settled s status t, fun a ha => ⟨hno a ha, hacc a ha⟩⟩

/-- A complaint or a suppression outweighs every other status. -/
theorem aggregateStatus_of_mem {l : List RecipientStatus} {st : RecipientStatus} (hm : st ∈ l)
    (hst : st = .complained ∨ st = .suppressed) :
    aggregateStatus l = .suppressed ∨ aggregateStatus l = .complained := by
  unfold aggregateStatus
  dsimp only
  by_cases hsup : l.contains .suppressed = true
  · exact Or.inl (if_pos hsup)
  · rw [if_neg hsup]
    rcases hst with rfl | rfl
    · exact Or.inr (if_pos (List.contains_iff_mem.mpr hm))
    · exact absurd (List.contains_iff_mem.mpr hm) hsup

theorem DeliveryLedgerState.localized_ne_canceled {s : DeliveryLedgerState} (t : ℕ)
    {r : RecipientRecord} (hr : r ∈ s.recipients)
    (hst : r.status = .complained ∨ r.status = .suppressed) :
    (s.localized .canceled t).email.status ≠ .canceled := by
  have hmem : r.status ∈ (s.localized .canceled t).recipients.map (·.status) := by
    have hlocal : localStatus .canceled r = r.status := by rw [localStatus, if_pos hst]
    refine List.mem_map.mpr ⟨_, List.mem_map.mpr ⟨r, hr, rfl⟩, ?_⟩
    rw [RecipientRecord.withStatus_status, hlocal]
  show derivePublicEmailStatus
    (aggregateStatus ((s.localized .canceled t).recipients.map (·.status))) _ ≠ _
  rcases aggregateStatus_of_mem hmem hst with h | h <;> rw [h] <;> simp [derivePublicEmailStatus]

/-- The ledger of a message is withdrawn. -/
def MemoryStore.Withdrawn (s : MemoryStore) (id : String) : Prop :=
  ∃ st, s.ledgerState id = some st ∧ st.Withdrawn

theorem MemoryStore.Step.withdrawn {s s' : MemoryStore} {f : MemoryStore.Footprint} (hs : s.Inv)
    (h : s.Step s' f) {id : String} (hw : s.Withdrawn id) : s'.Withdrawn id := by
  obtain ⟨st, hst, hw⟩ := hw
  rcases h.evolves id with ⟨hn, -⟩ | ⟨st', hn, -, -, -⟩ | ⟨st₁, st₂, hst₁, hst₂, hm⟩
  · rw [hst] at hn
    cases hn
  · rw [(hs.ledgerState_eq_some.mp hst).1] at hn
    cases hn
  · rw [hst, Option.some.injEq] at hst₁
    subst hst₁
    exact ⟨st₂, hst₂, hw.move (hs.ledger id st hst) hm⟩

/-- Nothing of a withdrawn message is held or was accepted. -/
theorem MemoryStore.Withdrawn.not_submitted {s : MemoryStore} (hs : s.Inv) {id : String}
    (hw : s.Withdrawn id) (a : Option String) : ¬ s.Submitted id a := by
  obtain ⟨st, hst, hw⟩ := hw
  intro hsub
  cases a with
  | none =>
    rw [hs.ledgerState_eq_none.mpr hsub.message] at hst
    cases hst
  | some a =>
    obtain ⟨r, hr, hm, hstatus⟩ := hsub
    obtain rfl := hs.attempt_id a r hr
    have hmem : r ∈ st.attempts :=
      (hs.ledgerState_eq_some.mp hst).2.2.2 ▸ (MemoryStore.mem_attemptsOf hs).mpr ⟨hr, hm⟩
    obtain ⟨hnsub, hnacc⟩ := hw.attempts r hmem
    exact hstatus.elim hnsub hnacc

/-! ## Where a cancellation is in time -/

namespace World

/-- A cancellation resolved with a canceled record only where nothing had been accepted, and
nothing was started after it. -/
def CancelKept (w : World) : Prop :=
  ∀ id, (w.store.getDeliveryLedger id).isSome = true → ∀ before after record,
    w.log = before ++ .cancelResolved id record :: after → record.status = .canceled →
      (∀ a, .transportAccepted id a ∉ before) ∧
      ∀ a sending readAt claimedAt,
        .transportStarted id a sending readAt claimedAt ∉ after

/-- A step that applies a cancellation finds no accepted attempt, or a recipient that complained
or was suppressed. -/
def cancelInTime (w : World) : Label → Bool
  | .act p _ =>
    match w.procs[p]? with
    | some ⟨_, .cancel id (.apply _)⟩ =>
      (w.store.getDeliveryLedger id).all fun s =>
        !s.attempts.any (·.status == .accepted) ||
          s.recipients.any fun r => r.status == .complained || r.status == .suppressed
    | _ => true
  | _ => true

/-- What a call or the log knows of a canceled record. -/
structure CancelInv (w : World) : Prop where
  resolve : ∀ (i : ℕ) (x : Process) id record, w.procs[i]? = some x →
    x.task = .cancel id (.resolve record) → record.status = .canceled →
    w.store.NoLedger id ∨ w.store.Withdrawn id
  resolved : ∀ id before after record, w.log = before ++ .cancelResolved id record :: after →
    record.status = .canceled → w.store.NoLedger id ∨ (w.store.Withdrawn id ∧
      ∀ a sending readAt claimedAt, .transportStarted id a sending readAt claimedAt ∉ after)

end World

/-- A call that is about to resolve has just canceled an email: one without a ledger, or a ledger
that its cancellation withdrew. -/
theorem CancelPc.act_resolve {id : String} {now : ℕ} {s : MemoryStore} {pc : CancelPc}
    {eff : Effect} (hs : s.Inv) (hk : pc.Sound s id) (h : pc.act id now s = some eff)
    (hin : ∀ updatedAt, pc = .apply updatedAt → ∀ st, s.ledgerState id = some st →
      (∀ a ∈ st.attempts, a.status ≠ .accepted) ∨
        ∃ r ∈ st.recipients, r.status = .complained ∨ r.status = .suppressed)
    {id' : String} {record : EmailRecord} (hn : eff.next = .goto (.cancel id' (.resolve record)))
    (hr : record.status = .canceled) :
    eff.store.NoLedger id' ∨ eff.store.Withdrawn id' := by
  cases pc with
  | getEmail =>
    simp only [act] at h
    repeat' split at h
    all_goals
      cases h
      cases hn
  | ledger =>
    simp only [act] at h
    split at h <;> cases h <;> cases hn
  | apply updatedAt =>
    simp only [act] at h
    split at h <;> cases h <;> cases hn
    rename_i hl
    right
    have hstep := hs.step_local hl
    rcases hs.applyLocalDeliveryState hl with ⟨-, hres, -⟩ | ⟨st, hst, hno, hns, hs', res, hres, he⟩
    · cases hres
    · rcases hin updatedAt rfl st hst with hacc | ⟨r, hr', hstatus⟩
      · refine ⟨st.localized .canceled updatedAt, ?_, st.withdrawn_localized _ _ hno hacc⟩
        have hw : s.Writes id (st.localized .canceled updatedAt) none none :=
          MemoryStore.writes_none hs hst (by rfl) none
        exact hs' ▸ (hs.commit_move hst (.localized _ _ hno hns) hw).2.1
      · rw [Option.some.injEq] at hres
        rw [hres, he] at hr
        exact absurd hr (DeliveryLedgerState.localized_ne_canceled updatedAt hr' hstatus)
  | update updatedAt =>
    simp only [act] at h
    split at h <;> cases h <;> cases hn
    rename_i hu
    exact Or.inl ((hs.step_update hk.message rfl hu).noLedger hs hk)
  | resolve record' =>
    cases h
    cases hn

theorem logged_canceled {now : ℕ} {s : MemoryStore} {task : Task} {eff : Effect}
    (hl : task.Logs now s eff) {id : String} {record : EmailRecord}
    (he : .cancelResolved id record ∈ eff.log) : task = .cancel id (.resolve record) ∧
      eff.store = s ∧ eff.log = [.cancelResolved id record] := by
  cases hl with
  | silent hnil =>
    rw [hnil] at he
    cases he
  | canceled =>
    rw [List.mem_singleton, Event.cancelResolved.injEq] at he
    obtain ⟨rfl, rfl⟩ := he
    exact ⟨rfl, rfl, rfl⟩
  | _ => simp at he

namespace World

variable {w w' : World}

theorem CancelInv.quiet (hi : w.Inv) (h : w.CancelInv) (hq : w.Quiet w') : w'.CancelInv := by
  have hstep := hi.step_quiet hq
  have hstay : ∀ id, w.store.NoLedger id ∨ w.store.Withdrawn id →
      w'.store.NoLedger id ∨ w'.store.Withdrawn id :=
    fun id => Or.imp (hstep.noLedger hi.store) (hstep.withdrawn hi.store)
  refine ⟨fun i x id record hx htask hst => ?_, fun id before after record hlog hst => ?_⟩
  · rcases hq.procs i x hx with hx | hx
    · exact hstay id (h.resolve i x id record hx htask hst)
    · have := hx.start
      rw [htask] at this
      cases this
  · rw [hq.log] at hlog
    exact (h.resolved id before after record hlog hst).imp (hstep.noLedger hi.store)
      (And.imp_left (hstep.withdrawn hi.store))

theorem CancelInv.after (hi : w.Inv) (h : w.CancelInv) {p : ℕ} {x : Process}
    (hp : w.procs[p]? = some x) {choice : Choice} {eff : Effect}
    (he : x.task.act w.now w.log.length w.issued w.store choice = some eff)
    (hin : w.cancelInTime (.act p choice) = true) : (w.after p x eff).CancelInv := by
  have ha := hi.acted hp he
  have hl := Task.act_logs he
  have hk := hi.sound p x hp
  refine ⟨fun i y id record hy htask hst => ?_, fun id before after record hlog hst => ?_⟩
  · rcases after_procs hy with ⟨-, hy⟩ | ⟨-, ⟨task, hn, rfl⟩ | rfl⟩
    · exact (h.resolve i y id record hy htask hst).imp (ha.step.noLedger hi.store)
        (ha.step.withdrawn hi.store)
    · obtain rfl : task = .cancel id (.resolve record) := htask
      obtain ⟨job, task⟩ := x
      obtain ⟨pc, rfl⟩ := Task.eq_cancel (ha.subject _ hn).symm
      cases choice with
      | go =>
        refine CancelPc.act_resolve hi.store hk he ?_ hn hst
        rintro updatedAt rfl st hst'
        obtain ⟨s, hs, rfl⟩ := Option.map_eq_some_iff.mp hst'
        simp only [cancelInTime, hp, MemoryStore.getDeliveryLedger, hs, Option.all_some,
          Bool.or_eq_true, Bool.not_eq_true', List.any_eq_false, List.any_eq_true,
          beq_iff_eq] at hin
        exact hin
      | _ => cases he
    · cases htask
  · rcases append_eq_append_cons hlog with ⟨m, hold, rfl⟩ | ⟨m, -, hnew⟩
    · refine (h.resolved id before m record hold hst).imp (ha.step.noLedger hi.store) ?_
      rintro ⟨hw, hno⟩
      refine ⟨ha.step.withdrawn hi.store hw, fun a sending readAt claimedAt hm => ?_⟩
      rcases List.mem_append.mp hm with hm | hm
      · exact hno a sending readAt claimedAt hm
      · obtain ⟨attempt, htask⟩ := logged_started hl hm
        rw [htask] at hk
        exact hw.not_submitted hi.store a (MemoryStore.Holds.submitted hk)
    · obtain ⟨htask, hstore, hlog'⟩ :=
        logged_canceled hl (hnew.symm ▸ List.mem_append_right m List.mem_cons_self)
      have hnil : m = [] ∧ after = [] := by
        rw [hlog'] at hnew
        have := congrArg List.length hnew
        simp only [List.length_append, List.length_cons, List.length_nil] at this
        exact ⟨List.length_eq_zero_iff.mp (by omega), List.length_eq_zero_iff.mp (by omega)⟩
      show eff.store.NoLedger id ∨ eff.store.Withdrawn id ∧ _
      rw [hstore, hnil.2]
      exact (h.resolve p x id record hp htask hst).imp_right fun hw => ⟨hw, by simp⟩

theorem cancelInv_of_reachable (h : system.ReachableWhere (fun w l => w.cancelInTime l = true) w) :
    w.CancelInv := by
  refine h.invariant ?_ ?_
  · rintro _ ⟨now, rfl⟩
    exact ⟨fun _ _ _ _ h => (by cases h), fun _ _ _ _ h => (by simp at h)⟩
  · intro w w' l hr hi hin hs
    have hinv := reachable_inv hr.reachable
    rcases step_cases hs with hq | ⟨p, choice, x, eff, rfl, hp, he, rfl⟩
    · exact hi.quiet hinv hq
    · exact hi.after hinv hp he hin

end World

/-- **A canceled message was not submitted and never will be**, in every run whose cancellations
are applied in time. -/
theorem canceled_never_submitted {w : World}
    (h : World.system.ReachableWhere (fun w l => w.cancelInTime l = true) w) : w.CancelKept := by
  have hi := World.reachable_inv h.reachable
  intro id hled before after record hlog hst
  obtain ⟨s, hs⟩ := Option.isSome_iff_exists.mp hled
  have hstate := MemoryStore.ledgerState_of_deliveryLedger hs
  rcases (World.cancelInv_of_reachable h).resolved id before after record hlog hst with
    hno | ⟨hw, hstarted⟩
  · rw [hi.store.ledgerState_eq_none.mpr hno.message] at hstate
    cases hstate
  · refine ⟨fun a ha => ?_, hstarted⟩
    have hsub := (World.reachable_acceptedInv h.reachable).submitted id a (by simp [hlog, ha])
    exact hw.not_submitted hi.store a hsub

theorem canceled_never_submitted_sample : ∃ w,
    World.system.ReachableWhere (fun w l => w.cancelInTime l = true) w ∧ w.log ≠ [] ∧
      w.CancelKept := by
  have hrun : (World.system.runWhere World.cancelInTime { now := 2000 } (World.deliverSample ++
      [.call (.cancel "email_0123456789abcdef" .getEmail), .act 2 .go, .act 2 .go, .act 2 .go,
        .act 2 .go, .act 1 .go])).any (fun w => !w.log.isEmpty) := by decide +kernel
  obtain ⟨w, hw, hlog⟩ :=
    TransitionSystem.exists_reachableWhere_of_run (T := World.system) ⟨2000, rfl⟩ hrun
  exact ⟨w, hw, by simpa using hlog, canceled_never_submitted hw⟩

/-- A worker submits the message while a cancellation, the third process, stands between its read
and its write. -/
def World.cancelLate : List Label :=
  deliverSample ++ [.call (.cancel "email_0123456789abcdef" .getEmail), .act 2 .go] ++
    sendSample ++ [.act 1 (.providerId "provider-1"), .act 1 .go, .act 2 .go, .act 2 .go,
      .act 2 .go]

/-- The log of that run: begun, started, accepted, canceled. -/
def World.isCanceledLate (w : World) : Bool :=
  (w.store.getDeliveryLedger "email_0123456789abcdef").isSome &&
    match w.log with
    | [_, _, .transportAccepted id _, .cancelResolved id' record] =>
      id == "email_0123456789abcdef" && id' == id && record.status == .canceled
    | _ => false

theorem cancel_after_submission : ∃ w, World.system.Reachable w ∧ ¬ w.CancelKept := by
  have hrun : (World.system.run { now := 2000 } World.cancelLate).any World.isCanceledLate := by
    decide +kernel
  obtain ⟨w, hw, hlate⟩ :=
    TransitionSystem.exists_reachable_of_run (T := World.system) ⟨2000, rfl⟩ hrun
  refine ⟨w, hw, fun hkept => ?_⟩
  unfold World.isCanceledLate at hlate
  rw [Bool.and_eq_true] at hlate
  obtain ⟨hled, hlate⟩ := hlate
  split at hlate
  · rename_i e₁ e₂ id a id' record hlog
    simp only [Bool.and_eq_true, beq_iff_eq] at hlate
    obtain ⟨⟨rfl, rfl⟩, hst⟩ := hlate
    have := (hkept _ hled [e₁, e₂, .transportAccepted _ a] [] record hlog hst).1 a
    simp at this
  · cases hlate

end HayaSend
