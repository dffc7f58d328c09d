import HayaSend.Services.Reschedule

/-!
# Stranded messages

A committed message is handed from the outbox to the queue: a sweep enqueues a send job and then
acknowledges the outbox item. From then on only that job, or the handler that has it, leads to a
submission. Every early return of `processSend` that consumes the job leaves another one behind,
or a message that is no longer queued, but one: where the claim is refused because the send lease
of a worker that crashed has not expired yet, the handler resolves and the message is left with
nothing that will process it (`claim_refused_strands`).

`not_stranded` says that this is the only way: along the runs where every refused claim leaves
another job or handler for the message behind, no message is stranded.
-/

namespace HayaSend

/-- A job that sends this email. -/
def Job.sends (id : String) : Job → Bool
  | .sendEmail k _ => k == id
  | .reconcileOutbox _ => false

/-- A `processSend` call for this email that has more to do than to publish. -/
def Task.worksOn (id : String) : Task → Bool
  | .send k _ pc => k == id && pc != .publish
  | _ => false

theorem Process.Starting.acknowledges {s : MemoryStore} {x : Process} (h : x.Starting s) :
    x.task.acknowledges = none := by
  obtain ⟨hstart, -, -⟩ := h
  revert hstart
  cases x.task with
  | sweep owner leaseSeconds limit pc =>
    cases pc <;> first | exact fun _ => rfl | exact fun h => by cases h
  | _ => exact fun _ => rfl

namespace World

/-- A send job for the email is in the queue, or a call works on it. -/
def isLive (w : World) (id : String) : Bool :=
  w.queue.any (Job.sends id) || w.procs.any (·.task.worksOn id)

/-- The outbox item of the message is dispatched, or a sweep has enqueued its job and is about to
say so. -/
def isHandedOver (w : World) (id : String) : Bool :=
  (w.store.outboxOf id).any (·.dispatchedAt.isSome) ||
    w.procs.any fun x => x.task.acknowledges.any (·.messageId == id)

/-- The system without one of its calls. -/
def without (w : World) (index : ℕ) : World :=
  { w with procs := w.procs.set index { task := .idle } }

/-- Where a claim is refused and the message is still queued and handed over, something else will
process it. -/
def refusalHeard (w : World) : Label → Bool
  | .act p _ =>
    match w.procs[p]? with
    | some ⟨_, .send id attempt (.claim _ _)⟩ =>
      (w.store.claimEmailForSend id attempt w.now).isSome ||
        !(w.store.getDeliveryLedger id).any (fun s => s.recipients.all (·.status == .queued)) ||
        !w.isHandedOver id || (w.without p).isLive id
    | _ => true
  | _ => true

/-- A message all of whose recipients are queued has an undispatched outbox item, a send job in
the queue, or a handler of one that has not resolved. -/
def NotStranded (w : World) : Prop :=
  ∀ id s, w.store.getDeliveryLedger id = some s → (∀ r ∈ s.recipients, r.status = .queued) →
    (∃ item, w.store.outboxOf id = some item ∧ item.dispatchedAt = none) ∨
      (∃ jobId, .sendEmail id jobId ∈ w.queue) ∨
      ∃ x ∈ w.procs, (∃ jobId, x.job = some (.sendEmail id jobId)) ∧ x.task ≠ .idle

/-- A queued message that was handed over is in somebody's hands. -/
def HandoverInv (w : World) : Prop :=
  ∀ id st, w.store.ledgerState id = some st → st.AllQueued → w.isHandedOver id = true →
    w.isLive id = true

variable {w w' : World}

theorem isLive_iff {id : String} : w.isLive id = true ↔ (∃ jobId, .sendEmail id jobId ∈ w.queue) ∨
    ∃ (i : ℕ) (x : Process), w.procs[i]? = some x ∧ ∃ attempt pc, x.task = .send id attempt pc ∧
      pc ≠ .publish := by
  rw [isLive, Bool.or_eq_true, List.any_eq_true, List.any_eq_true]
  refine or_congr ⟨?_, ?_⟩ ⟨?_, ?_⟩
  · rintro ⟨job, hj, hs⟩
    cases job with
    | sendEmail k jobId =>
      obtain rfl : k = id := by simpa [Job.sends] using hs
      exact ⟨jobId, hj⟩
    | reconcileOutbox _ => cases hs
  · rintro ⟨jobId, hj⟩
    exact ⟨_, hj, by simp [Job.sends]⟩
  · rintro ⟨x, hx, hw⟩
    obtain ⟨i, hi⟩ := List.mem_iff_getElem?.mp hx
    refine ⟨i, x, hi, ?_⟩
    cases htask : x.task with
    | send k attempt pc =>
      rw [htask] at hw
      simp only [Task.worksOn, Bool.and_eq_true, beq_iff_eq, bne_iff_ne, ne_eq] at hw
      exact ⟨attempt, pc, by rw [hw.1], hw.2⟩
    | _ =>
      rw [htask] at hw
      cases hw
  · rintro ⟨i, x, hx, attempt, pc, htask, hpc⟩
    exact ⟨x, List.mem_of_getElem? hx, by simp [htask, Task.worksOn, hpc]⟩

theorem isHandedOver_iff {id : String} : w.isHandedOver id = true ↔
    (∃ item, w.store.outboxOf id = some item ∧ item.dispatchedAt.isSome = true) ∨
    ∃ (i : ℕ) (x : Process) (item : OutboxItemRecord), w.procs[i]? = some x ∧
      x.task.acknowledges = some item ∧ item.messageId = id := by
  rw [isHandedOver, Bool.or_eq_true, List.any_eq_true]
  refine or_congr ?_ ⟨?_, ?_⟩
  · cases w.store.outboxOf id <;> simp
  · rintro ⟨x, hx, ha⟩
    obtain ⟨i, hi⟩ := List.mem_iff_getElem?.mp hx
    cases hack : x.task.acknowledges with
    | none =>
      rw [hack] at ha
      cases ha
    | some item =>
      rw [hack, Option.any_some, beq_iff_eq] at ha
      exact ⟨i, x, item, hi, hack, ha⟩
  · rintro ⟨i, x, item, hx, hack, hm⟩
    exact ⟨x, List.mem_of_getElem? hx, by simp [hack, hm]⟩

/-! ## Steps that are not a call's -/

theorem mem_eraseIdx_or {l : List Job} {i : ℕ} {j : Job} (h : j ∈ l) :
    j ∈ l.eraseIdx i ∨ l[i]? = some j := by
  obtain ⟨k, hk⟩ := List.mem_iff_getElem?.mp h
  by_cases hki : k = i
  · exact Or.inr (hki ▸ hk)
  · exact Or.inl (List.mem_eraseIdx_iff_getElem?.mpr ⟨k, hki, hk⟩)

/-- A job or a call that works on an email is lost by no step but one of its own. -/
theorem Inv.live_quiet (hi : w.Inv) {l : Label} (hs : w.step l = some w')
    (hl : ∀ p choice, l ≠ .act p choice) {id : String} (h : w.isLive id = true) :
    w'.isLive id = true := by
  rw [isLive_iff] at h ⊢
  have hconcat : ∀ {y : Process} {i : ℕ} {x : Process}, w.procs[i]? = some x →
      (w.procs ++ [y])[i]? = some x := by
    intro y i x hx
    rw [List.getElem?_append_left (List.getElem?_eq_some_iff.mp hx).1]
    exact hx
  cases l with
  | tick ms =>
    obtain rfl : _ = w' := by simpa [World.step] using hs
    exact h
  | createEmail record =>
    simp only [World.step] at hs
    split_ifs at hs
    obtain rfl : _ = w' := by simpa [MemoryStore.createEmail] using hs
    exact h
  | call task =>
    simp only [World.step] at hs
    split_ifs at hs
    obtain rfl : _ = w' := by simpa using hs
    refine h.imp_right ?_
    rintro ⟨i, x, hx, hw⟩
    exact ⟨i, x, hconcat hx, hw⟩
  | enqueue job =>
    obtain rfl : _ = w' := by simpa [World.step] using hs
    refine h.imp_left ?_
    rintro ⟨jobId, hj⟩
    exact ⟨jobId, List.mem_append_left _ hj⟩
  | deliver index attempt owner leaseSeconds limit =>
    obtain ⟨job, hjob, rfl⟩ := Option.map_eq_some_iff.mp hs
    rcases h with ⟨jobId, hj⟩ | ⟨i, x, hx, hw⟩
    · rcases mem_eraseIdx_or (i := index) hj with hj | hj
      · exact Or.inl ⟨jobId, hj⟩
      · -- the job is delivered: its handler works on the email
        rw [hjob, Option.some.injEq] at hj
        subst hj
        refine Or.inr ⟨w.procs.length, _, List.getElem?_concat_length, attempt, .getEmail, rfl, ?_⟩
        exact fun h => by cases h
    · exact Or.inr ⟨i, x, hconcat hx, hw⟩
  | act p choice => exact absurd rfl (hl p choice)
  | crash index =>
    obtain ⟨proc, hproc, rfl⟩ := Option.map_eq_some_iff.mp hs
    rcases h with ⟨jobId, hj⟩ | ⟨i, x, hx, attempt, pc, htask, hpc⟩
    · exact Or.inl ⟨jobId, List.mem_append_left _ hj⟩
    · by_cases hii : i = index
      · -- the job of the handler that crashed is back in the queue
        subst hii
        rw [hx, Option.some.injEq] at hproc
        subst hproc
        obtain ⟨jobId, hjob⟩ := hi.job i x hx id (by rw [htask]; rfl)
        exact Or.inl ⟨jobId, List.mem_append_right _ (by simp [hjob])⟩
      · refine Or.inr ⟨i, x, ?_, attempt, pc, htask, hpc⟩
        rw [List.getElem?_set_ne (Ne.symm hii)]
        exact hx

theorem HandoverInv.quiet (hi : w.Inv) (h : w.HandoverInv) {l : Label}
    (hs : w.step l = some w') (hl : ∀ p choice, l ≠ .act p choice) (hq : w.Quiet w') :
    w'.HandoverInv := by
  intro id st hst hqueued hover
  refine hi.live_quiet hs hl (h id st ?_ hqueued ?_)
  · rcases hq.store with heq | ⟨e, hn, heq⟩ <;> rw [heq] at hst
    · exact hst
    · rwa [hi.store.ledgerState_createEmail hn] at hst
  · rw [isHandedOver_iff] at hover ⊢
    rcases hover with ⟨item, ho, hd⟩ | ⟨i, x, item, hx, hack, hm⟩
    · refine Or.inl ⟨item, ?_, hd⟩
      rcases hq.store with heq | ⟨e, -, heq⟩ <;> rw [heq] at ho <;> exact ho
    · rcases hq.procs i x hx with hx | hx
      · exact Or.inr ⟨i, x, item, hx, hack, hm⟩
      · rw [hx.acknowledges] at hack
        cases hack

end World

/-! ## Steps of calls -/

namespace MemoryStore

/-- A completion that leaves the recipients of a message queued is a retryable failure of its
attempt. -/
theorem Inv.retryable_of_requeued {s s' : MemoryStore} (hs : s.Inv) {input : AttemptCompletion}
    {r : Option DeliveryLedgerMutationResult}
    (hc : s.completeDeliveryAttempt input = .ok (s', r)) {id : String}
    {st st' : DeliveryLedgerState} (hst : s.ledgerState id = some st)
    (hst' : s'.ledgerState id = some st') (hn : ¬ st.AllQueued) (hq : st'.AllQueued) :
    input.messageId = id ∧ input.status = .retryableFailed := by
  rcases hs.completeDeliveryAttempt hc with ⟨rfl, -⟩ | ⟨st₁, i, a, hst₁, hi, hid, hsub, rfl⟩
  · rw [hst, Option.some.injEq] at hst'
    exact absurd (hst' ▸ hq) hn
  · have hw : s.Writes input.messageId (st₁.completed i a input) (some (completedAttempt input a))
        none := writes_completed hs hst₁ (b := completedAttempt input a) hi rfl rfl (by rfl) none
    obtain ⟨-, hself, hother⟩ := hs.commit_move hst₁ (.completed i a input hi hid hsub) hw
    by_cases hk : id = input.messageId
    · subst hk
      rw [hself, Option.some.injEq] at hst'
      subst hst'
      exact ⟨rfl, (hs.ledger _ st₁ hst₁).retryable_of_queued hi hsub hq⟩
    · rw [hother id hk, hst, Option.some.injEq] at hst'
      exact absurd (hst' ▸ hq) hn

/-- After a local state no message is queued. -/
theorem Inv.not_queued_of_local {s s' : MemoryStore} (hs : s.Inv) {id : String}
    {status : LocalStatus} {t : ℕ} {r : Option DeliveryLedgerMutationResult}
    (hl : s.applyLocalDeliveryState id status t = .ok (s', r)) {st st' : DeliveryLedgerState}
    (hst : s.ledgerState id = some st) (hst' : s'.ledgerState id = some st') :
    ¬ st'.AllQueued := by
  rcases hs.applyLocalDeliveryState hl with ⟨-, -, hnone⟩ | ⟨st₁, hst₁, hno, hns, rfl, -⟩
  · rw [hst] at hnone
    cases hnone
  · have hw : s.Writes id (st₁.localized status t) none none := writes_none hs hst₁ (by rfl) none
    obtain ⟨hinv, hself, -⟩ := hs.commit_move hst₁ (.localized status t hno hns) hw
    rw [hself, Option.some.injEq] at hst'
    subst hst'
    exact fun hq => (hinv.ledger id _ hself).not_settled_of_queued hq
      (LedgerInv.localized_settled st₁ status t)

end MemoryStore

/-- **A message becomes queued again only where a handler throws.** -/
theorem Task.act_requeued {now logged : ℕ} {issued : List String} {s : MemoryStore} {task : Task}
    {choice : Choice} {eff : Effect} (hs : s.Inv) (hk : task.Sound s issued)
    (ha : task.Acted issued s eff) (h : task.act now logged issued s choice = some eff)
    {id : String} {st st' : DeliveryLedgerState} (hst : s.ledgerState id = some st)
    (hst' : eff.store.ledgerState id = some st') (hn : ¬ st.AllQueued) (hq : st'.AllQueued) :
    task.subject = .send id ∧ eff.next = .throw := by
  have hsame : eff.store ≠ s := by
    intro heq
    rw [heq, hst, Option.some.injEq] at hst'
    exact hn (hst' ▸ hq)
  -- the attempt that was submitting is not stored as it was, so it is that of the call
  obtain ⟨a, hmem, hgone⟩ : ∃ a ∈ st.attempts, a ∉ st'.attempts := by
    rcases ha.step.evolves id with ⟨hnone, -⟩ | ⟨_, hnone, -, -, -⟩ | ⟨st₁, st₂, h₁, h₂, hm⟩
    · rw [hst] at hnone
      cases hnone
    · rw [(hs.ledgerState_eq_some.mp hst).1] at hnone
      cases hnone
    · rw [hst, Option.some.injEq] at h₁
      rw [hst', Option.some.injEq] at h₂
      subst h₁ h₂
      rcases hm.queued_or_completed (hs.ledger id st hst) hq with hqueued | ⟨a, ha, -, hgone⟩
      · exact absurd hqueued hn
      · exact ⟨a, ha, hgone⟩
  obtain ⟨hget, hmsg⟩ :=
    (MemoryStore.mem_attemptsOf hs).mp ((hs.ledgerState_eq_some.mp hst).2.2.2 ▸ hmem)
  have hattempt : task.attemptId = some a.id := by
    by_contra hne
    refine hgone ((ha.step.inv.ledgerState_eq_some.mp hst').2.2.2 ▸ ?_)
    exact (MemoryStore.mem_attemptsOf ha.step.inv).mpr ⟨(ha.step.attempts _ hne).trans hget, hmsg⟩
  cases task with
  | send k attempt pc =>
    cases pc with
    | begin sending b readAt claimedAt =>
      have hid : b.id = a.id := by simpa [attemptId, SendPc.attemptId] using hattempt
      have hnone := hk.2.2
      rw [hid, hget] at hnone
      cases hnone
    | send sending b readAt claimedAt =>
      cases choice <;> cases h <;> exact absurd rfl hsame
    | transport sending b =>
      cases choice <;> cases h <;> exact absurd rfl hsame
    | accepted sending b providerId =>
      obtain rfl : b = some a.id := hattempt
      cases choice with
      | go =>
        simp only [act, SendPc.act] at h
        split at h <;> cases h
        · exact absurd rfl hsame
        all_goals
          rename_i hc
          exact absurd (hs.retryable_of_requeued hc hst hst' hn hq).2 (by simp [acceptedCompletion])
      | _ => cases h
    | rejected sending b error =>
      obtain rfl : b = some a.id := hattempt
      cases choice with
      | go =>
        simp only [act, SendPc.act] at h
        generalize isFinalAttempt sending error = isFinal at h
        split at h <;> cases h
        · exact absurd rfl hsame
        all_goals
          rename_i hc
          obtain ⟨hid, hstatus⟩ := hs.retryable_of_requeued hc hst hst' hn hq
          cases isFinal with
          | true => cases hstatus
          | false => exact ⟨congrArg Subject.send hid, rfl⟩
      | _ => cases h
    | _ => cases hattempt
  | _ => cases hattempt

/-- A handler of a queued message goes on, throws or leaves another job behind, unless its claim
is refused. -/
theorem SendPc.act_live {id : String} {attempt now logged : ℕ} {issued : List String}
    {s : MemoryStore} {pc : SendPc} {choice : Choice} {eff : Effect} (hs : s.Inv)
    (hk : pc.Sound s issued id) (hpc : pc ≠ .publish)
    (h : pc.act id attempt now logged issued s choice = some eff)
    {st st' : DeliveryLedgerState} (hst : s.ledgerState id = some st) (hq : st.AllQueued)
    (hst' : eff.store.ledgerState id = some st') (hq' : st'.AllQueued) :
    eff.next = .throw ∨ (∃ pc', eff.next = .goto (.send id attempt pc') ∧ pc' ≠ .publish) ∨
      (∃ jobId, .sendEmail id jobId ∈ eff.enqueued) ∨
      ∃ record readAt, pc = .claim record readAt ∧ eff.next = .resolve ∧
        s.claimEmailForSend id attempt now = none := by
  have hinv := hs.ledger id st hst
  have hnoLedger : ¬ s.NoLedger id := by
    intro hno
    rw [hs.ledgerState_eq_none.mpr hno.message] at hst
    cases hst
  have hholds : ∀ a, ¬ s.Holds id a := by
    intro a ha
    cases a with
    | none => exact hnoLedger ha
    | some a =>
      obtain ⟨r, hr, hm, hsub⟩ := ha
      obtain rfl := hs.attempt_id a r hr
      have hmem := (MemoryStore.mem_attemptsOf hs).mpr ⟨hr, hm⟩
      rw [(hs.ledgerState_eq_some.mp hst).2.2.2] at hmem
      have := hinv.attempts_of_queued hq r hmem
      rw [hsub] at this
      cases this
  unfold SendPc.act at h
  split at h
  case h_1 =>
    -- getEmail
    rw [MemoryStore.getEmail, (hs.ledgerState_eq_some.mp hst).1] at h
    simp only [hinv.email_not_final hq] at h
    cases h
    exact Or.inr (Or.inl ⟨_, rfl, fun h => by cases h⟩)
  case h_2 =>
    -- delay
    split_ifs at h <;> cases h <;> exact Or.inr (Or.inl ⟨_, rfl, fun h => by cases h⟩)
  case h_3 =>
    -- requeue
    cases h
    exact Or.inr (Or.inr (Or.inl ⟨none, List.mem_cons_self⟩))
  case h_4 =>
    -- findSuppressed
    split_ifs at h <;> cases h <;> exact Or.inr (Or.inl ⟨_, rfl, fun h => by cases h⟩)
  case h_5 =>
    -- suppressedLedger
    split at h <;> cases h <;> exact Or.inr (Or.inl ⟨_, rfl, fun h => by cases h⟩)
  case h_6 =>
    -- suppressApply
    split at h <;> cases h
    · exact Or.inl rfl
    all_goals
      rename_i hl
      exact absurd hq' (hs.not_queued_of_local hl hst hst')
  case h_7 => exact absurd hk hnoLedger
  case h_8 =>
    -- claim
    split at h <;> cases h
    · rename_i hc
      exact Or.inr (Or.inr (Or.inr ⟨_, _, rfl, rfl, hc⟩))
    · exact Or.inr (Or.inl ⟨_, rfl, fun h => by cases h⟩)
  case h_9 =>
    -- ledger, with a new attempt
    split at h
    · cases h
    · split_ifs at h
      cases h
      exact Or.inr (Or.inl ⟨_, rfl, fun h => by cases h⟩)
  case h_10 =>
    -- ledger
    split at h <;> cases h
    exact Or.inr (Or.inl ⟨_, rfl, fun h => by cases h⟩)
  case h_11 =>
    -- begin
    split at h <;> cases h
    · exact Or.inl rfl
    · exact Or.inl rfl
    · exact Or.inr (Or.inl ⟨_, rfl, fun h => by cases h⟩)
  case h_20 => exact absurd rfl hpc
  case h_23 => exact absurd rfl hpc
  all_goals first
    | exact absurd hk (hholds _)
    | exact absurd hk (hholds (some _))
    | exact absurd hk (hholds none)
    | (cases h; exact Or.inl rfl)
    | cases h

/-- A sweep that is about to acknowledge an item has just enqueued its job. -/
theorem Task.act_acknowledges {now logged : ℕ} {issued : List String} {s : MemoryStore}
    {task task' : Task} {choice : Choice} {eff : Effect}
    (ha : task.Acted issued s eff) (h : task.act now logged issued s choice = some eff)
    (hn : eff.next = .goto task') {item : OutboxItemRecord}
    (hack : task'.acknowledges = some item) :
    ∃ jobId, .sendEmail item.messageId jobId ∈ eff.enqueued := by
  have hsubject : task.subject = .other := by
    rw [← ha.subject task' hn]
    cases task' <;> first | rfl | cases hack
  cases task with
  | idle => cases h
  | create pc =>
    simp only [act, CreatePc.act] at h
    repeat' split at h
    all_goals first
      | (cases h; cases hn; cases hack)
      | (cases h; cases hn)
      | cases h
  | send id attempt pc => cases hsubject
  | cancel id pc => cases hsubject
  | reschedule id pc => cases hsubject
  | providerEvent id status receivedAt pc =>
    simp only [act, ProviderEventPc.act] at h
    repeat' split at h
    all_goals first
      | (cases h; cases hn; cases hack)
      | (cases h; cases hn)
      | cases h
  | sweep owner leaseSeconds limit pc =>
    simp only [act, SweepPc.act] at h
    split at h
    case h_3 =>
      -- enqueue
      cases h
      cases hn
      cases hack
      exact ⟨_, List.mem_cons_self⟩
    all_goals
      repeat' split at h
      all_goals first
        | (cases h; cases hn; cases hack)
        | (cases h; cases hn)
        | cases h

namespace World

variable {w w' : World}

/-- A message that is handed over after a step of a call was so before, or its job was enqueued
in the step. -/
theorem Inv.handedOver_of_after (hi : w.Inv) {p : ℕ} {x : Process} (hp : w.procs[p]? = some x)
    {choice : Choice} {eff : Effect}
    (he : x.task.act w.now w.log.length w.issued w.store choice = some eff) {id : String}
    {st : DeliveryLedgerState} (hst : w.store.ledgerState id = some st)
    (hover : (w.after p x eff).isHandedOver id = true) :
    w.isHandedOver id = true ∨ ∃ jobId, .sendEmail id jobId ∈ eff.enqueued := by
  have ha := hi.acted hp he
  rw [isHandedOver_iff] at hover
  rcases hover with ⟨item', ho', hd'⟩ | ⟨i, y, item, hy, hack, hm⟩
  · left
    rw [isHandedOver_iff]
    obtain ⟨id', item, hid, hitem⟩ :=
      hi.store.has_outbox id st.message (hi.store.ledgerState_eq_some.mp hst).2.1
    have ho : w.store.outboxOf id = some item := Option.bind_eq_some_iff.mpr ⟨id', hid, hitem⟩
    obtain ⟨item₁, hitem₁, -, hd⟩ := ha.step.outbox id' item hitem
    have ho₁ : eff.store.outboxOf id = some item₁ :=
      Option.bind_eq_some_iff.mpr ⟨id', ha.step.by_message id id' hid, hitem₁⟩
    obtain rfl : item₁ = item' := by
      have : eff.store.outboxOf id = some item' := ho'
      rw [ho₁, Option.some.injEq] at this
      exact this
    rcases hd hd' with hd | hd
    · exact Or.inl ⟨item, ho, hd⟩
    · -- the step dispatched the item: the call was about to acknowledge it
      obtain ⟨held, hack, hheld⟩ := Option.map_eq_some_iff.mp hd
      refine Or.inr ⟨p, x, held, hp, hack, ?_⟩
      have hk := hi.sound p x hp
      cases htask : x.task with
      | sweep owner leaseSeconds limit pc =>
        rw [htask] at hk hack
        cases pc with
        | acknowledge now item₂ items =>
          cases hack
          obtain ⟨o, hget, hmsg⟩ := hk _ List.mem_cons_self
          rw [hheld, hitem, Option.some.injEq] at hget
          rw [← hmsg, ← hget]
          exact (hi.store.outboxOf_eq_some ho).2
        | _ => cases hack
      | _ =>
        rw [htask] at hack
        cases hack
  · rcases after_procs hy with ⟨-, hy⟩ | ⟨-, ⟨task, hn, rfl⟩ | rfl⟩
    · exact Or.inl (isHandedOver_iff.mpr (Or.inr ⟨i, y, item, hy, hack, hm⟩))
    · exact Or.inr (hm ▸ Task.act_acknowledges ha he hn hack)
    · cases hack

/-- A new message is not handed over yet. -/
theorem Inv.not_handedOver_created (hi : w.Inv) {p : ℕ} {x : Process}
    (hp : w.procs[p]? = some x) {choice : Choice} {eff : Effect}
    (he : x.task.act w.now w.log.length w.issued w.store choice = some eff) {id : String}
    (hnone : w.store.emails.get id = none) {item : OutboxItemRecord}
    (ho : eff.store.outboxOf id = some item) (hd : item.dispatchedAt = none)
    (hover : (w.after p x eff).isHandedOver id = true) :
    ∃ jobId, .sendEmail id jobId ∈ eff.enqueued := by
  have ha := hi.acted hp he
  rw [isHandedOver_iff] at hover
  rcases hover with ⟨item', ho', hd'⟩ | ⟨i, y, held, hy, hack, hm⟩
  · have ho' : eff.store.outboxOf id = some item' := ho'
    rw [ho, Option.some.injEq] at ho'
    rw [← ho', hd] at hd'
    cases hd'
  · rcases after_procs hy with ⟨-, hy⟩ | ⟨-, ⟨task, hn, rfl⟩ | rfl⟩
    · -- the items of a sweep belong to messages that are stored
      exfalso
      have hk := hi.sound i y hy
      cases htask : y.task with
      | sweep owner leaseSeconds limit pc =>
        rw [htask] at hk hack
        cases pc with
        | acknowledge now item₂ items =>
          cases hack
          obtain ⟨o, hget, hmsg⟩ := hk _ List.mem_cons_self
          obtain ⟨m, hmessage⟩ := hi.store.outbox_has_message _ o hget
          rw [hmsg, hm] at hmessage
          obtain ⟨e, hemail⟩ := hi.store.has_email id m hmessage
          rw [hnone] at hemail
          cases hemail
        | _ => cases hack
      | _ =>
        rw [htask] at hack
        cases hack
    · exact hm ▸ Task.act_acknowledges ha he hn hack
    · cases hack

theorem live_of_enqueued {p : ℕ} {x : Process} {eff : Effect} {id : String}
    (h : ∃ jobId, .sendEmail id jobId ∈ eff.enqueued) : (w.after p x eff).isLive id = true := by
  obtain ⟨jobId, hj⟩ := h
  exact isLive_iff.mpr (Or.inl ⟨jobId, List.mem_append_left _ (List.mem_append_right _ hj)⟩)

/-- The job of a handler that throws goes back to the queue. -/
theorem Inv.live_of_throw (hi : w.Inv) {p : ℕ} {x : Process} (hp : w.procs[p]? = some x)
    {eff : Effect} {id : String} (hid : x.task.subject = .send id) (hn : eff.next = .throw) :
    (w.after p x eff).isLive id = true := by
  obtain ⟨jobId, hjob⟩ := hi.job p x hp id hid
  refine isLive_iff.mpr (Or.inl ⟨jobId, List.mem_append_right _ ?_⟩)
  rw [hn]
  simp [Next.returned, hjob]

theorem after_get_of_ne {p i : ℕ} {x y : Process} {eff : Effect} (hi : i ≠ p)
    (hy : w.procs[i]? = some y) : (w.after p x eff).procs[i]? = some y := by
  show (w.procs.set p _)[i]? = some y
  rw [List.getElem?_set_ne (Ne.symm hi)]
  exact hy

theorem HandoverInv.after (hi : w.Inv) (h : w.HandoverInv) {p : ℕ} {x : Process}
    (hp : w.procs[p]? = some x) {choice : Choice} {eff : Effect}
    (he : x.task.act w.now w.log.length w.issued w.store choice = some eff)
    (hheard : w.refusalHeard (.act p choice) = true) : (w.after p x eff).HandoverInv := by
  have ha := hi.acted hp he
  intro id st' hst' hq' hover
  rcases ha.step.evolves id with ⟨-, hnone⟩ | ⟨st₁, hnone, hst₁, -, hout⟩ |
    ⟨st, st₁, hst, hst₁, -⟩
  · have hst' : eff.store.ledgerState id = some st' := hst'
    rw [hnone] at hst'
    cases hst'
  · have heq : eff.store.ledgerState id = some st' := hst'
    rw [hst₁, Option.some.injEq] at heq
    obtain ⟨item, ho, hd⟩ := hout (heq ▸ hq')
    exact live_of_enqueued (hi.not_handedOver_created hp he hnone ho hd hover)
  · by_cases hq : st.AllQueued
    · rcases hi.handedOver_of_after hp he hst hover with hbefore | henq
      · rcases isLive_iff.mp (h id st hst hq hbefore) with ⟨jobId, hj⟩ |
          ⟨i, y, hy, attempt, pc, htask, hpc⟩
        · exact isLive_iff.mpr
            (Or.inl ⟨jobId, List.mem_append_left _ (List.mem_append_left _ hj)⟩)
        · by_cases hip : i = p
          · -- the call works on the message itself
            subst hip
            rw [hp, Option.some.injEq] at hy
            subst hy
            obtain ⟨job, task⟩ := x
            obtain rfl : task = .send id attempt pc := htask
            rcases SendPc.act_live hi.store (hi.sound i _ hp) hpc he hst hq hst' hq' with
              hn | ⟨pc', hn, hpc'⟩ | henq | ⟨record, readAt, rfl, hn, hrefused⟩
            · exact hi.live_of_throw hp rfl hn
            · refine isLive_iff.mpr (Or.inr ⟨i, ⟨job, .send id attempt pc'⟩, ?_, attempt, pc', rfl,
                hpc'⟩)
              show (w.procs.set i (eff.next.process _))[i]? = _
              rw [hn, List.getElem?_set_self (List.getElem?_eq_some_iff.mp hp).1]
              rfl
            · exact live_of_enqueued henq
            · -- the claim is refused: what else is live stays so
              have hother : (w.without i).isLive id = true := by
                obtain ⟨snap, hsnap, rfl⟩ := Option.map_eq_some_iff.mp hst
                have hall : snap.recipients.all (·.status == .queued) = true := by
                  simpa [DeliveryLedgerState.AllQueued] using hq
                simpa [refusalHeard, hp, hrefused, MemoryStore.getDeliveryLedger, hsnap, hall,
                  hbefore] using hheard
              rcases isLive_iff.mp hother with ⟨jobId, hj⟩ | hcall
              · exact isLive_iff.mpr
                  (Or.inl ⟨jobId, List.mem_append_left _ (List.mem_append_left _ hj)⟩)
              · refine isLive_iff.mpr (Or.inr ?_)
                simp only [World.after, hn, Next.process]
                exact hcall
          · exact isLive_iff.mpr
              (Or.inr ⟨i, y, after_get_of_ne hip hy, attempt, pc, htask, hpc⟩)
      · exact live_of_enqueued henq
    · obtain ⟨hid, hn⟩ :=
        Task.act_requeued hi.store (hi.sound p x hp) ha he hst hst' hq hq'
      exact hi.live_of_throw hp hid hn

theorem handoverInv_of_reachable
    (h : system.ReachableWhere (fun w l => w.refusalHeard l = true) w) : w.HandoverInv := by
  refine h.invariant ?_ ?_
  · rintro _ ⟨now, rfl⟩ id st hst
    cases hst
  · intro w w' l hr hi hheard hs
    have hinv := reachable_inv hr.reachable
    rcases step_cases hs with hq | ⟨p, choice, x, eff, rfl, hp, he, rfl⟩
    · by_cases hl : ∃ p choice, l = .act p choice
      · obtain ⟨p, choice, rfl⟩ := hl
        obtain ⟨x, hp, hs⟩ := Option.bind_eq_some_iff.mp hs
        obtain ⟨eff, he, rfl⟩ := Option.map_eq_some_iff.mp hs
        exact hi.after hinv hp he hheard
      · exact hi.quiet hinv hs (fun p choice heq => hl ⟨p, choice, heq⟩) hq
    · exact hi.after hinv hp he hheard

end World

/-- **No message is stranded**, in every run whose refused claims leave another job or handler for
a queued message behind. -/
theorem not_stranded {w : World}
    (h : World.system.ReachableWhere (fun w l => w.refusalHeard l = true) w) : w.NotStranded := by
  have hi := World.reachable_inv h.reachable
  intro id s hs hq
  have hst := MemoryStore.ledgerState_of_deliveryLedger hs
  obtain ⟨id', item, hid, hitem⟩ :=
    hi.store.has_outbox id _ (hi.store.ledgerState_eq_some.mp hst).2.1
  have ho : w.store.outboxOf id = some item := Option.bind_eq_some_iff.mpr ⟨id', hid, hitem⟩
  cases hd : item.dispatchedAt with
  | none => exact Or.inl ⟨item, ho, hd⟩
  | some t =>
    right
    have hover : w.isHandedOver id = true :=
      World.isHandedOver_iff.mpr (Or.inl ⟨item, ho, by simp [hd]⟩)
    refine (World.isLive_iff.mp (World.handoverInv_of_reachable h id _ hst hq hover)).imp_right ?_
    rintro ⟨i, x, hx, attempt, pc, htask, -⟩
    exact ⟨x, List.mem_of_getElem? hx, hi.job i x hx id (by rw [htask]; rfl),
      fun hidle => by rw [htask] at hidle; cases hidle⟩

/-- The steps that commit the sample delivery and sweep the outbox, the second process. -/
def World.sweepSample : List Label :=
  [.call (.create (.commit sampleCommit 1)), .act 0 .go, .act 0 .go, .deliver 0 1 "worker" 60 100,
    .act 1 .go, .act 1 .go, .act 1 .go, .act 1 .go]

/-- The worker that has the job, the third process, claims the email and crashes. -/
def World.claimAndCrash : List Label :=
  [.deliver 0 1 "worker" 60 100, .act 2 .go, .act 2 .go, .act 2 (.suppressed false), .act 2 .go,
    .crash 2]

/-- The job is delivered again before the send lease expires, to the fourth process. -/
def World.claimRefused : List Label :=
  [.deliver 0 2 "worker" 60 100, .act 3 .go, .act 3 .go, .act 3 (.suppressed false), .act 3 .go]

theorem not_stranded_sample : ∃ w,
    World.system.ReachableWhere (fun w l => w.refusalHeard l = true) w ∧
      w.isHandedOver "email_0123456789abcdef" = true ∧ w.NotStranded := by
  have hrun : (World.system.runWhere World.refusalHeard { now := 2000 }
      (World.sweepSample ++ World.claimAndCrash)).any
      (·.isHandedOver "email_0123456789abcdef") := by decide +kernel
  obtain ⟨w, hw, hover⟩ :=
    TransitionSystem.exists_reachableWhere_of_run (T := World.system) ⟨2000, rfl⟩ hrun
  exact ⟨w, hw, hover, not_stranded hw⟩

/-- Queued, dispatched, and with nothing in the queue or in a handler's hands. -/
def World.isStranded (w : World) (id : String) : Bool :=
  (w.store.getDeliveryLedger id).any (fun s => s.recipients.all (·.status == .queued)) &&
    (w.store.outboxOf id).any (·.dispatchedAt.isSome) && w.queue.isEmpty &&
    w.procs.all (·.task == .idle)

theorem claim_refused_strands : ∃ w, World.system.Reachable w ∧ ¬ w.NotStranded := by
  have hrun : (World.system.run { now := 2000 }
      (World.sweepSample ++ World.claimAndCrash ++ World.claimRefused)).any
      (·.isStranded "email_0123456789abcdef") := by decide +kernel
  obtain ⟨w, hw, hlost⟩ :=
    TransitionSystem.exists_reachable_of_run (T := World.system) ⟨2000, rfl⟩ hrun
  refine ⟨w, hw, fun h => ?_⟩
  simp only [World.isStranded, Bool.and_eq_true, Option.any_eq_true, List.all_eq_true,
    List.isEmpty_iff, beq_iff_eq] at hlost
  obtain ⟨⟨⟨⟨s, hs, hq⟩, item, ho, hd⟩, hqueue⟩, hprocs⟩ := hlost
  rcases h _ s hs hq with ⟨item', ho', hd'⟩ | ⟨jobId, hj⟩ | ⟨x, hx, -, hidle⟩
  · rw [ho, Option.some.injEq] at ho'
    rw [ho', hd'] at hd
    cases hd
  · rw [hqueue] at hj
    cases hj
  · exact hidle (hprocs x hx)

end HayaSend
