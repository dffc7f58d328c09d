import HayaSend.Services.WorldInvariant
import HayaSend.Adapters.MemoryStoreRetention

/-!
# What a step of a call does to the ledgers

`Task.Moves` lists the steps of calls that change a ledger, each with the place of the call that
makes it and the ledger it leaves. `Task.act_ledgers` says that every step makes one of them on one
ledger, adds a ledger, or leaves all of them as they are: a theorem about the records of a ledger
over whole runs is a case analysis of these moves.
-/

namespace HayaSend

namespace MemoryStore

/-- One ledger changes, the others stay. -/
structure LedgerStep (s s' : MemoryStore) (k : String) (st st' : DeliveryLedgerState) : Prop where
  before : s.ledgerState k = some st
  after : s'.ledgerState k = some st'
  others : ∀ k' ≠ k, s'.ledgerState k' = s.ledgerState k'

namespace Inv

variable {s s' : MemoryStore}

theorem ledgerStep_commit (h : s.Inv) {k : String} {st st' : DeliveryLedgerState}
    (hst : s.ledgerState k = some st) (hm : LedgerMove st st') {attempt : Option AttemptRecord}
    {event : Option ProviderEventRecord} (hw : s.Writes k st' attempt event) :
    LedgerStep s (s.commitLedgerPlan st' attempt event) k st st' where
  before := hst
  after := (h.commit_move hst hm hw).2.1
  others := (h.commit_move hst hm hw).2.2

theorem ledgerStep_begin (h : s.Inv) {a : AttemptRecord}
    (hn : s.deliveryAttempts.get a.id = none) {r : Option DeliveryLedgerMutationResult}
    (hb : s.beginDeliveryAttempt a = .ok (s', r)) : s' = s ∨
      ∃ st, attemptMatches st a = true ∧ st.AllQueued ∧
        LedgerStep s s' a.messageId st (st.started a) := by
  refine (h.beginDeliveryAttempt hn hb).imp (·.1) ?_
  rintro ⟨st, hst, hm, hq, rfl⟩
  have hw : s.Writes a.messageId (st.started a) (some a) none :=
    writes_new h hst hn rfl (by rfl) none
  exact ⟨st, hm, hq, h.ledgerStep_commit hst (.started a hm hq) hw⟩

theorem ledgerStep_complete (h : s.Inv) {input : AttemptCompletion}
    {r : Option DeliveryLedgerMutationResult}
    (hc : s.completeDeliveryAttempt input = .ok (s', r)) : s' = s ∨
      ∃ st i a, st.attempts[i]? = some a ∧ a.id = input.attemptId ∧ a.status = .submitting ∧
        LedgerStep s s' input.messageId st (st.completed i a input) := by
  refine (h.completeDeliveryAttempt hc).imp (·.1) ?_
  rintro ⟨st, i, a, hst, hi, hid, hsub, rfl⟩
  have hw : s.Writes input.messageId (st.completed i a input) (some (completedAttempt input a))
      none := writes_completed h hst (b := completedAttempt input a) hi rfl rfl (by rfl) none
  exact ⟨st, i, a, hi, hid, hsub, h.ledgerStep_commit hst (.completed i a input hi hid hsub) hw⟩

theorem ledgerStep_event (h : s.Inv) {e : ProviderEventRecord}
    {r : Option DeliveryLedgerMutationResult} (ha : s.appendProviderEvent e = .ok (s', r)) :
    s' = s ∨ ∃ st, eventCorrelates st e = true ∧
      LedgerStep s s' e.messageId st (st.observed e) := by
  refine (h.appendProviderEvent ha).imp id ?_
  rintro ⟨st, hst, hc, rfl⟩
  have hw : s.Writes e.messageId (st.observed e) none (some e) :=
    writes_none h hst (by rfl) (some e)
  exact ⟨st, hc, h.ledgerStep_commit hst (.observed e hc) hw⟩

theorem ledgerStep_local (h : s.Inv) {k : String} {status : LocalStatus} {t : ℕ}
    {r : Option DeliveryLedgerMutationResult}
    (ha : s.applyLocalDeliveryState k status t = .ok (s', r)) : s' = s ∨
      ∃ st, (∀ a ∈ st.attempts, a.status ≠ .submitting) ∧
        (∀ r ∈ st.recipients, r.status ≠ .sending) ∧
        LedgerStep s s' k st (st.localized status t) := by
  refine (h.applyLocalDeliveryState ha).imp (·.1) ?_
  rintro ⟨st, hst, hno, hns, rfl, -⟩
  have hw : s.Writes k (st.localized status t) none none := writes_none h hst (by rfl) none
  exact ⟨st, hno, hns, h.ledgerStep_commit hst (.localized status t hno hns) hw⟩

/-- Writing an email changes its ledger, if it has one. -/
theorem ledgerStep_setEmail (h : s.Inv) {k : String} {e e₀ : EmailRecord}
    (he₀ : s.emails.get k = some e₀) (hid : e.id = e₀.id) :
    (s.ledgerState k = none ∧ ∀ k',
      ({ s with emails := s.emails.set k e } : MemoryStore).ledgerState k' = s.ledgerState k') ∨
    ∃ st, st.email = e₀ ∧
      LedgerStep s { s with emails := s.emails.set k e } k st { st with email := e } := by
  obtain rfl : e.id = k := hid.trans (h.email_id k e₀ he₀)
  have hled := fun k => ledgerState_setEmail s e k ⟨e₀, he₀⟩
  cases hst : s.ledgerState e.id with
  | none =>
    refine Or.inl ⟨rfl, fun k' => ?_⟩
    rw [hled]
    split_ifs with hk'
    · rw [hk', hst]
      rfl
    · rfl
  | some st =>
    refine Or.inr ⟨st, h.ledgerState_email hst he₀, hst, ?_, fun k' hk' => ?_⟩
    · rw [hled, if_pos rfl, hst]
      rfl
    · rw [hled, if_neg hk']

theorem ledgerStep_claim (h : s.Inv) {id : String} {attempt now : ℕ} {e : EmailRecord}
    (hc : s.claimEmailForSend id attempt now = some (s', e)) :
    (∀ k, s'.ledgerState k = s.ledgerState k) ∨ ∃ st attempts, st.email.claimable now = true ∧
      e = st.email.claimed attempts now ∧ LedgerStep s s' id st { st with email := e } := by
  obtain ⟨e₀, he₀, hcl, rfl, rfl⟩ := claimEmailForSend_eq_some.mp hc
  rcases h.ledgerStep_setEmail (e := e₀.claimed _ now) he₀ rfl with ⟨-, hsame⟩ | ⟨st, rfl, hst⟩
  · exact Or.inl hsame
  · exact Or.inr ⟨st, _, hcl, rfl, hst⟩

/-- An update of an email without a ledger. -/
theorem ledgerState_update (h : s.Inv) {id : String} {u : EmailUpdates}
    {fromStatuses : Option (List EmailStatus)} {e : EmailRecord}
    (hno : s.deliveryMessages.get id = none)
    (hu : s.updateEmail id u fromStatuses = some (s', e)) (k : String) :
    s'.ledgerState k = s.ledgerState k := by
  obtain ⟨e₀, he₀, -, rfl, rfl⟩ := updateEmail_eq_some.mp hu
  rcases h.ledgerStep_setEmail (e := u.applyTo e₀) he₀ rfl with ⟨-, hsame⟩ | ⟨st, -, hst⟩
  · exact hsame k
  · have hnone := hst.before
    rw [h.ledgerState_eq_none.mpr hno] at hnone
    cases hnone

/-- The reschedule of an email alone. -/
theorem ledgerStep_updateSchedule (h : s.Inv) {id : String} {t now : ℕ} {e : EmailRecord}
    (hu : s.updateEmail id (rescheduleUpdates t now) (some pendingStatuses) = some (s', e)) :
    (s.ledgerState id = none ∧ ∀ k, s'.ledgerState k = s.ledgerState k) ∨
      ∃ st, st.email.status.isPending = true ∧
        LedgerStep s s' id st { st with email := st.email.rescheduled t now } := by
  obtain ⟨e₀, he₀, hp, rfl, rfl⟩ := updateEmail_eq_some.mp hu
  rw [rescheduleUpdates_applyTo] at *
  rw [updatable_pending] at hp
  rcases h.ledgerStep_setEmail (e := e₀.rescheduled t now) he₀ rfl with hsame | ⟨st, rfl, hst⟩
  · exact Or.inl hsame
  · exact Or.inr ⟨st, hp, hst⟩

/-- The reschedule of email, message and outbox item. -/
theorem ledgerStep_reschedule (h : s.Inv) {id : String} {t now : ℕ} {e : EmailRecord}
    (hc : s.rescheduleEmailAndOutbox id t now = some (s', e)) :
    ∃ st, st.email.status.isPending = true ∧ LedgerStep s s' id st { st with
      email := st.email.rescheduled t now
      message := st.message.rescheduled t now } := by
  obtain ⟨e₀, m, o, he, hm, ho, hp, hd, -, rfl, rfl⟩ := rescheduleEmailAndOutbox_eq_some.mp hc
  obtain ⟨st, hst⟩ := h.exists_ledgerState hm
  obtain ⟨-, hm', hrs, has⟩ := h.ledgerState_eq_some.mp hst
  obtain rfl := h.ledgerState_email hst he
  obtain rfl : st.message = m := Option.some.inj (hm'.symm.trans hm)
  refine ⟨st, hp, hst, ?_, fun k' hk' => ?_⟩
  · refine (MemoryStore.ledgerState_eq_some ?_).mpr ⟨?_, ?_, hrs, has⟩
    · exact h.sequences id
    · exact OrderedMap.get_set_self _ _ _
    · exact OrderedMap.get_set_self _ _ _
  · exact ledgerState_congr (OrderedMap.get_set_ne _ _ hk') (OrderedMap.get_set_ne _ _ hk')
      (fun _ _ => rfl) rfl

end Inv

/-- The outbox is no part of a ledger. -/
theorem ledgerState_setOutbox (s : MemoryStore) (rows : OrderedMap String OutboxItemRecord)
    (failures : ℕ) (k : String) : ({ s with
      outboxItems := rows
      outboxPublishFailures := failures } : MemoryStore).ledgerState k = s.ledgerState k :=
  rfl

theorem ledgerState_lease (s : MemoryStore) (input : LeaseDueOutboxInput) (k : String) :
    (s.leaseDueOutbox input).1.ledgerState k = s.ledgerState k := by
  unfold leaseDueOutbox
  split_ifs
  · rfl
  · rfl
  · rfl
  · rfl
  · obtain ⟨rows, hrows, -⟩ := Readable.leaseItems_frame input s
      (((s.outboxItems.values.filter (isDue input.now)).insertionSort outboxOrder).take input.limit)
    rw [hrows]
    exact ledgerState_setOutbox s rows s.outboxPublishFailures k

theorem ledgerState_acknowledge {s s' : MemoryStore} {id owner : String} {now : ℕ} {b : Bool}
    (h : s.acknowledgeOutbox id owner now = .ok (s', b)) (k : String) :
    s'.ledgerState k = s.ledgerState k := by
  unfold acknowledgeOutbox at h
  split at h
  · cases h
    rfl
  · obtain ⟨updated, -, h⟩ := bind_eq_ok.mp h
    rw [pure_eq_ok, Prod.mk.injEq] at h
    obtain ⟨rfl, -⟩ := h
    rfl

theorem ledgerState_failure {s s' : MemoryStore} {id owner : String}
    {category : DiagnosticCategory} {now : ℕ} {b : Bool}
    (h : s.recordOutboxFailure id owner category now = .ok (s', b)) (k : String) :
    s'.ledgerState k = s.ledgerState k := by
  unfold recordOutboxFailure at h
  split at h
  · cases h
    rfl
  · obtain ⟨updated, -, h⟩ := bind_eq_ok.mp h
    rw [pure_eq_ok, Prod.mk.injEq] at h
    obtain ⟨rfl, -⟩ := h
    rfl

end MemoryStore

/-! ## The steps of the calls -/

/-- The steps of calls that change a ledger, at a time. -/
inductive Task.Moves (now : ℕ) : Task → String → DeliveryLedgerState → DeliveryLedgerState → Prop
  | started {id : String} {attempt readAt claimedAt : ℕ} {sending : EmailRecord}
      {a : AttemptRecord} {st : DeliveryLedgerState} :
      attemptMatches st a = true → st.AllQueued →
      Moves now (.send id attempt (.begin sending a readAt claimedAt)) id st (st.started a)
  | accepted {id : String} {attempt i : ℕ} {sending : EmailRecord} {attemptId providerId : String}
      {a : AttemptRecord} {st : DeliveryLedgerState} :
      st.attempts[i]? = some a → a.status = .submitting →
      Moves now (.send id attempt (.accepted sending (some attemptId) providerId)) id st
        (st.completed i a (acceptedCompletion id attemptId providerId now))
  | rejected {id : String} {attempt i : ℕ} {sending : EmailRecord} {attemptId : String}
      {error : SendError} {a : AttemptRecord} {st : DeliveryLedgerState} :
      st.attempts[i]? = some a → a.status = .submitting →
      Moves now (.send id attempt (.rejected sending (some attemptId) error)) id st
        (st.completed i a
          (failedCompletion id attemptId (isFinalAttempt sending error) error now))
  | suppressed {id : String} {attempt updatedAt : ℕ} {st : DeliveryLedgerState} :
      (∀ a ∈ st.attempts, a.status ≠ .submitting) →
      Moves now (.send id attempt (.suppressApply updatedAt)) id st
        (st.localized .suppressed updatedAt)
  | canceled {id : String} {updatedAt : ℕ} {st : DeliveryLedgerState} :
      (∀ a ∈ st.attempts, a.status ≠ .submitting) →
      Moves now (.cancel id (.apply updatedAt)) id st (st.localized .canceled updatedAt)
  | observed {id : String} {status : EmailStatus} {receivedAt : ℕ} {e : ProviderEventRecord}
      {st : DeliveryLedgerState} : eventCorrelates st e = true →
      Moves now (.providerEvent id status receivedAt (.append e)) e.messageId st (st.observed e)
  | claimed {id : String} {attempt attempts readAt : ℕ} {record : EmailRecord}
      {st : DeliveryLedgerState} : st.email.claimable now = true →
      Moves now (.send id attempt (.claim record readAt)) id st
        { st with email := st.email.claimed attempts now }
  | rescheduled {id : String} {t : ℕ} {st : DeliveryLedgerState} :
      st.email.status.isPending = true →
      Moves now (.reschedule id (.store t)) id st { st with
        email := st.email.rescheduled t now
        message := st.message.rescheduled t now }
  | rescheduledEmail {id : String} {t updatedAt : ℕ} {st : DeliveryLedgerState} :
      st.email.status.isPending = true →
      Moves now (.reschedule id (.update t updatedAt)) id st
        { st with email := st.email.rescheduled t updatedAt }

/-- What a step of a call does to the ledgers. -/
inductive Task.Ledgers (now : ℕ) (s : MemoryStore) (task : Task) (s' : MemoryStore) : Prop
  | same : (∀ k, s'.ledgerState k = s.ledgerState k) → Ledgers now s task s'
  | created {c : DeliveryCommit} : s.Committed s' c → Ledgers now s task s'
  | moved {k : String} {st st' : DeliveryLedgerState} : s.LedgerStep s' k st st' →
      task.Moves now k st st' → Ledgers now s task s'

theorem Task.Ledgers.stay {now : ℕ} {s : MemoryStore} {task : Task} : task.Ledgers now s s :=
  .same fun _ => rfl

theorem SendPc.act_ledgers {id : String} {attempt now logged : ℕ} {issued : List String}
    {s : MemoryStore} {pc : SendPc} {choice : Choice} {eff : Effect} (hs : s.Inv)
    (hk : pc.Sound s issued id) (h : pc.act id attempt now logged issued s choice = some eff) :
    Task.Ledgers now s (.send id attempt pc) eff.store := by
  unfold SendPc.act at h
  split at h
  case h_6 =>
    -- suppressApply
    split at h <;> cases h
    · exact .stay
    all_goals
      rename_i ha
      rcases hs.ledgerStep_local ha with rfl | ⟨st, hno, -, hst⟩
      · exact .stay
      · exact .moved hst (.suppressed hno)
  case h_7 =>
    -- suppressUpdate
    split at h <;> cases h
    · exact .stay
    · rename_i hu
      exact .same (hs.ledgerState_update hk.message hu)
  case h_8 =>
    -- claim
    split at h <;> cases h
    · exact .stay
    · rename_i hc
      rcases hs.ledgerStep_claim hc with hsame | ⟨st, attempts, hcl, rfl, hst⟩
      · exact .same hsame
      · exact .moved hst (.claimed hcl)
  case h_11 =>
    -- begin
    obtain ⟨rfl, -, hn⟩ := hk
    split at h <;> cases h
    · exact .stay
    all_goals
      rename_i hb
      rcases hs.ledgerStep_begin hn hb with rfl | ⟨st, hm, hq, hst⟩
      · exact .stay
      · exact .moved hst (.started hm hq)
  case h_16 =>
    -- accepted, under an attempt
    split at h <;> cases h
    · exact .stay
    all_goals
      rename_i hc
      rcases hs.ledgerStep_complete hc with rfl | ⟨st, i, a, hi, -, hsub, hst⟩
      · exact .stay
      · exact .moved hst (.accepted hi hsub)
  case h_17 =>
    -- accepted, without a ledger
    split at h <;> cases h
    · exact .stay
    · rename_i hu
      exact .same (hs.ledgerState_update hk.message hu)
  case h_18 =>
    -- rejected, under an attempt
    dsimp only at h
    split at h <;> cases h
    · exact .stay
    all_goals
      rename_i hc
      rcases hs.ledgerStep_complete hc with rfl | ⟨st, i, a, hi, -, hsub, hst⟩
      · exact .stay
      · exact .moved hst (.rejected hi hsub)
  case h_19 =>
    -- rejected, without a ledger
    dsimp only at h
    split at h <;> cases h
    · exact .stay
    · rename_i hu
      exact .same (hs.ledgerState_update hk.message hu)
  all_goals
    repeat' split at h
    all_goals
      cases h
      try exact .stay

theorem CancelPc.act_ledgers {id : String} {now : ℕ} {s : MemoryStore} {pc : CancelPc}
    {eff : Effect} (hs : s.Inv) (hk : pc.Sound s id) (h : pc.act id now s = some eff) :
    Task.Ledgers now s (.cancel id pc) eff.store := by
  cases pc with
  | apply updatedAt =>
    simp only [act] at h
    split at h <;> cases h
    · exact .stay
    all_goals
      rename_i ha
      rcases hs.ledgerStep_local ha with rfl | ⟨st, hno, -, hst⟩
      · exact .stay
      · exact .moved hst (.canceled hno)
  | update updatedAt =>
    simp only [act] at h
    split at h <;> cases h
    · exact .stay
    · rename_i hu
      exact .same (hs.ledgerState_update hk.message hu)
  | _ =>
    simp only [act] at h
    repeat' split at h
    all_goals
      cases h
      exact .stay

theorem ReschedulePc.act_ledgers {id : String} {now : ℕ} {s : MemoryStore} {pc : ReschedulePc}
    {choice : Choice} {eff : Effect} (hs : s.Inv) (h : pc.act id now s choice = some eff) :
    Task.Ledgers now s (.reschedule id pc) eff.store := by
  unfold ReschedulePc.act at h
  split at h
  case h_3 =>
    -- store
    split at h <;> cases h
    · exact .stay
    · rename_i hc
      obtain ⟨st, hp, hst⟩ := hs.ledgerStep_reschedule hc
      exact .moved hst (.rescheduled hp)
  case h_4 =>
    -- update
    split at h <;> cases h
    · exact .stay
    · rename_i hu
      rcases hs.ledgerStep_updateSchedule hu with ⟨-, hsame⟩ | ⟨st, hp, hst⟩
      · exact .same hsame
      · exact .moved hst (.rescheduledEmail hp)
  all_goals
    repeat' split at h
    all_goals
      cases h
      try exact .stay

theorem ProviderEventPc.act_ledgers {id : String} {status : EmailStatus} {receivedAt now : ℕ}
    {s : MemoryStore} {pc : ProviderEventPc} {choice : Choice} {eff : Effect} (hs : s.Inv)
    (hk : pc.Sound s id) (h : pc.act id status receivedAt s choice = some eff) :
    Task.Ledgers now s (.providerEvent id status receivedAt pc) eff.store := by
  unfold ProviderEventPc.act at h
  split at h
  case h_3 =>
    -- update
    split at h <;> cases h
    · exact .stay
    · rename_i hu
      exact .same (hs.ledgerState_update hk.message hu)
  case h_4 =>
    -- append
    split at h <;> cases h
    · exact .stay
    · rename_i ha
      rcases hs.ledgerStep_event ha with rfl | ⟨st, hc, hst⟩
      · exact .stay
      · exact .moved hst (.observed hc)
  all_goals
    repeat' split at h
    all_goals
      cases h
      try exact .stay

theorem CreatePc.act_ledgers {now : ℕ} {s : MemoryStore} {pc : CreatePc} {choice : Choice}
    {eff : Effect} (h : pc.act s choice = some eff) :
    Task.Ledgers now s (.create pc) eff.store := by
  unfold CreatePc.act at h
  split at h
  · -- commit
    split at h
    · cases h
      exact .stay
    · rename_i hc
      rcases MemoryStore.commitDelivery_eq_ok hc with ⟨rfl, -⟩ | ⟨hc, -⟩
      · split_ifs at h <;> cases h <;> exact .stay
      · split_ifs at h <;> cases h <;> exact .created hc
  all_goals
    cases h
    try exact .stay

theorem SweepPc.act_ledgers {owner : String} {leaseSeconds limit now : ℕ} {s : MemoryStore}
    {pc : SweepPc} {choice : Choice} {eff : Effect}
    (h : pc.act owner leaseSeconds limit now s choice = some eff) :
    Task.Ledgers now s (.sweep owner leaseSeconds limit pc) eff.store := by
  unfold SweepPc.act at h
  split at h
  case h_1 =>
    -- lease
    have hsame := s.ledgerState_lease ⟨owner, now, leaseSeconds, limit⟩
    split at h <;> cases h <;> rename_i hl <;> rw [hl] at hsame <;> exact .same hsame
  case h_5 =>
    -- acknowledge
    split at h <;> cases h
    · exact .stay
    · rename_i ha
      exact .same (MemoryStore.ledgerState_acknowledge ha)
  case h_6 =>
    -- failure
    split at h <;> cases h
    · exact .stay
    · rename_i ha
      exact .same (MemoryStore.ledgerState_failure ha)
  all_goals
    cases h
    try exact .stay

/-- **What one step of any call does to the ledgers.** -/
theorem Task.act_ledgers {now logged : ℕ} {issued : List String} {s : MemoryStore} {task : Task}
    {choice : Choice} {eff : Effect} (hs : s.Inv) (hk : task.Sound s issued)
    (h : task.act now logged issued s choice = some eff) : task.Ledgers now s eff.store := by
  cases task with
  | idle => cases h
  | create pc => exact CreatePc.act_ledgers h
  | send id attempt pc => exact SendPc.act_ledgers hs hk h
  | cancel id pc =>
    cases choice with
    | go => exact CancelPc.act_ledgers hs hk h
    | _ => cases h
  | reschedule id pc => exact ReschedulePc.act_ledgers hs h
  | providerEvent id status receivedAt pc => exact ProviderEventPc.act_ledgers hs hk h
  | sweep owner leaseSeconds limit pc => exact SweepPc.act_ledgers h

/-- A quiet step leaves the ledgers alone. -/
theorem World.Inv.ledgerState_quiet {w w' : World} (h : w.Inv) (hq : w.Quiet w') (k : String) :
    w'.store.ledgerState k = w.store.ledgerState k := by
  rcases hq.store with hs | ⟨e, he, hs⟩ <;> rw [hs]
  exact h.store.ledgerState_createEmail he k

end HayaSend
