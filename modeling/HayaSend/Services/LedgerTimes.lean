import HayaSend.Services.EventLog
import HayaSend.Services.LedgerSteps

/-!
# The times of a ledger

A provider event and a local state merge their time with those stored. The start and the completion
of an attempt write the time they are given. A completion is stamped when it is stored, but an
attempt starts with the time of the call's claim: when the lease of that claim has run out and
another worker has claimed the email since, the start sets its time back (`stale_start`).

`ledger_times_forward` says that this is the only way, in every run: an operation that changes a
ledger sets no time back exactly if it is not such a start.
-/

namespace HayaSend

/-- The calls that stand before an operation which plans a change of the ledger. -/
def Task.plansLedger : Task → Bool
  | .send _ _ (.suppressApply _) | .send _ _ (.begin _ _ _ _)
  | .send _ _ (.accepted _ (some _) _) | .send _ _ (.rejected _ (some _) _) => true
  | .cancel _ (.apply _) => true
  | .providerEvent _ _ _ (.append _) => true
  | _ => false

/-- A call that stands before the start of an attempt, where the email or its message has been
stamped since the claim of the call. -/
def Task.startsStale (s : MemoryStore) : Task → Bool
  | .send id _ (.begin _ a _ _) => (s.getDeliveryLedger id).any fun ledger =>
      decide (a.startedAt < ledger.email.updatedAt) ||
        decide (a.startedAt < ledger.message.updatedAt)
  | _ => false

/-- No email with a ledger and no message is stamped with an earlier time. -/
def MemoryStore.TimesForward (s s' : MemoryStore) : Prop :=
  ∀ id ledger ledger', s.getDeliveryLedger id = some ledger →
    s'.getDeliveryLedger id = some ledger' →
    ledger.email.updatedAt ≤ ledger'.email.updatedAt ∧
      ledger.message.updatedAt ≤ ledger'.message.updatedAt

theorem MemoryStore.timesForward_iff {s s' : MemoryStore} : s.TimesForward s' ↔
    ∀ id st st', s.ledgerState id = some st → s'.ledgerState id = some st' →
      st.email.updatedAt ≤ st'.email.updatedAt ∧ st.message.updatedAt ≤ st'.message.updatedAt := by
  constructor
  · intro h id st st' hst hst'
    obtain ⟨ledger, hledger, rfl⟩ := Option.map_eq_some_iff.mp hst
    obtain ⟨ledger', hledger', rfl⟩ := Option.map_eq_some_iff.mp hst'
    exact h id ledger ledger' hledger hledger'
  · intro h id ledger ledger' hledger hledger'
    exact h id _ _ (MemoryStore.ledgerState_of_deliveryLedger hledger)
      (MemoryStore.ledgerState_of_deliveryLedger hledger')

theorem Task.startsStale_iff {s : MemoryStore} {id : String} {attempt readAt claimedAt : ℕ}
    {sending : EmailRecord} {a : AttemptRecord} {st : DeliveryLedgerState}
    (hst : s.ledgerState id = some st) :
    (Task.send id attempt (.begin sending a readAt claimedAt)).startsStale s = false ↔
      st.email.updatedAt ≤ a.startedAt ∧ st.message.updatedAt ≤ a.startedAt := by
  obtain ⟨ledger, hledger, rfl⟩ := Option.map_eq_some_iff.mp hst
  rw [startsStale, MemoryStore.getDeliveryLedger, hledger, Option.any_some,
    Bool.or_eq_false_iff, decide_eq_false_iff_not, decide_eq_false_iff_not, not_lt, not_lt]

/-! ## The times of a submission -/

/-- While an attempt is submitting, the email and the message bear times of the past. -/
def DeliveryLedgerState.Stamped (now : ℕ) (st : DeliveryLedgerState) : Prop :=
  (∃ a ∈ st.attempts, a.status = .submitting) →
    st.email.updatedAt ≤ now ∧ st.message.updatedAt ≤ now

theorem DeliveryLedgerState.Stamped.mono {now now' : ℕ} {st : DeliveryLedgerState}
    (h : st.Stamped now) (hle : now ≤ now') : st.Stamped now' :=
  fun hsub => (h hsub).imp hle.trans' hle.trans'

/-- The time of a call's claim, from the claim to the start of the attempt. -/
def Task.claimTime : Task → Option ℕ
  | .send _ _ (.ledger sending _ _) => some sending.updatedAt
  | .send _ _ (.begin _ a _ _) => some a.startedAt
  | _ => none

/-- A call claims at the time of the step, or keeps the time of its claim. -/
theorem SendPc.act_claimTime {id : String} {attempt now logged : ℕ} {issued : List String}
    {s : MemoryStore} {pc : SendPc} {choice : Choice} {eff : Effect}
    (h : pc.act id attempt now logged issued s choice = some eff) {task : Task}
    (hn : eff.next = .goto task) {t : ℕ} (ht : task.claimTime = some t) :
    t = now ∨ (Task.send id attempt pc).claimTime = some t := by
  unfold SendPc.act at h
  split at h
  case h_8 =>
    -- claim
    split at h <;> cases h <;> cases hn
    rename_i hc
    obtain ⟨e₀, -, -, rfl, -⟩ := MemoryStore.claimEmailForSend_eq_some.mp hc
    cases ht
    exact Or.inl rfl
  case h_9 =>
    -- ledger, with a new attempt
    split at h
    · cases h
    · split_ifs at h
      cases h
      cases hn
      exact Or.inr ht
  all_goals
    try dsimp only at h
    repeat' split at h
    all_goals first
      | (cases h; cases hn; cases ht)
      | (cases h; cases hn)
      | cases h

theorem Task.act_claimTime {now logged : ℕ} {issued : List String} {s : MemoryStore} {task : Task}
    {choice : Choice} {eff : Effect} (h : task.act now logged issued s choice = some eff)
    (ha : task.Acted issued s eff) {task' : Task} (hn : eff.next = .goto task') {t : ℕ}
    (ht : task'.claimTime = some t) : t = now ∨ task.claimTime = some t := by
  have hsubject := ha.subject task' hn
  cases task' with
  | send id attempt pc =>
    obtain ⟨attempt', pc', rfl⟩ := Task.eq_send hsubject.symm
    exact SendPc.act_claimTime h hn ht
  | _ => cases ht

/-! ## One step -/

/-- A planned operation that is no stale start sets no time back. -/
theorem Task.Moves.forward {now : ℕ} {s : MemoryStore} {task : Task} {k : String}
    {st st' : DeliveryLedgerState} (h : task.Moves now k st st') (hst : s.ledgerState k = some st)
    (hplans : task.plansLedger = true) (hstamped : st.Stamped now)
    (hstale : task.startsStale s = false) : st.email.updatedAt ≤ st'.email.updatedAt ∧
      st.message.updatedAt ≤ st'.message.updatedAt := by
  cases h with
  | started _ _ => exact (Task.startsStale_iff hst).mp hstale
  | accepted hi hsub | rejected hi hsub =>
    refine (hstamped ⟨_, List.mem_of_getElem? hi, hsub⟩).imp (fun hle => ?_) id
    rw [DeliveryLedgerState.completed, completeEmail_updatedAt]
    exact hle
  | suppressed _ | canceled _ | observed _ =>
    exact ⟨(le_max_left _ _).trans (le_max_left _ _), (le_max_right _ _).trans (le_max_left _ _)⟩
  | claimed _ | rescheduled _ | rescheduledEmail _ => cases hplans

/-- A move keeps the times of a submission in the past. -/
theorem Task.Moves.stamped {now : ℕ} {task : Task} {k : String} {st st' : DeliveryLedgerState}
    (h : task.Moves now k st st') (hinv : LedgerInv st) (hstamped : st.Stamped now)
    (hclaim : ∀ t, task.claimTime = some t → t ≤ now) : st'.Stamped now := by
  cases h with
  | started _ _ => exact fun _ => ⟨hclaim _ rfl, hclaim _ rfl⟩
  | accepted _ _ | rejected _ _ =>
    exact fun _ => ⟨(completeEmail_updatedAt _ _).le, le_refl _⟩
  | suppressed hno | canceled hno =>
    rintro ⟨a, ha, hsub⟩
    exact absurd hsub (hno a ha)
  | observed hc =>
    rintro ⟨a, ha, hsub⟩
    obtain ⟨b, hb, hacc⟩ := LedgerInv.exists_accepted_of_correlates hc
    have hlast := (hinv.submitting_last ha hsub).1
    rw [(hinv.accepted_last hb hacc).1, Option.some.injEq] at hlast
    rw [hlast, hsub] at hacc
    cases hacc
  | claimed _ => exact fun hsub => ⟨le_refl _, (hstamped hsub).2⟩
  | rescheduled hp | rescheduledEmail hp =>
    rintro ⟨a, ha, hsub⟩
    have hfailed := hinv.attempts_of_queued (hinv.queued_of_pending hp) a ha
    rw [hsub] at hfailed
    cases hfailed

/-- A start that is stale sets a time back. -/
theorem not_timesForward_of_startsStale {now logged : ℕ} {issued : List String} {s : MemoryStore}
    {task : Task} {choice : Choice} {eff : Effect} (hs : s.Inv) (hk : task.Sound s issued)
    (h : task.act now logged issued s choice = some eff) (hchange : eff.store ≠ s)
    (hstale : task.startsStale s = true) : ¬ s.TimesForward eff.store := by
  unfold Task.startsStale at hstale
  split at hstale
  · rename_i id attempt sending a readAt claimedAt
    obtain ⟨rfl, -, hn⟩ : a.messageId = id ∧ _ ∧ s.deliveryAttempts.get a.id = none := hk
    have hstarted : ∀ s' r, s.beginDeliveryAttempt a = .ok (s', r) → eff.store = s' →
        ¬ s.TimesForward eff.store := by
      rintro s' r hb rfl
      rcases hs.ledgerStep_begin hn hb with heq | ⟨st, -, -, hst⟩
      · exact absurd heq hchange
      · intro hforward
        have hle := MemoryStore.timesForward_iff.mp hforward _ _ _ hst.before hst.after
        obtain ⟨ledger, hledger, rfl⟩ := Option.map_eq_some_iff.mp hst.before
        rw [MemoryStore.getDeliveryLedger, hledger, Option.any_some, Bool.or_eq_true,
          decide_eq_true_eq, decide_eq_true_eq] at hstale
        rcases hstale with hlt | hlt
        · exact absurd hle.1 (not_le_of_gt hlt)
        · exact absurd hle.2 (not_le_of_gt hlt)
    cases choice with
    | go =>
      simp only [Task.act, SendPc.act] at h
      split at h <;> cases h
      · exact absurd rfl hchange
      all_goals
        rename_i hb
        exact hstarted _ _ hb rfl
    | _ => cases h
  · cases hstale

/-! ## Whole runs -/

namespace World

variable {w w' : World}

structure TimeInv (w : World) : Prop where
  stamped : ∀ k st, w.store.ledgerState k = some st → st.Stamped w.now
  claims : ∀ (i : ℕ) (x : Process), w.procs[i]? = some x → ∀ t, x.task.claimTime = some t →
    t ≤ w.now

theorem TimeInv.quiet (hi : w.Inv) (h : w.TimeInv) (hq : w.Quiet w') : w'.TimeInv where
  stamped k st hst :=
    (h.stamped k st ((hi.ledgerState_quiet hq k).symm.trans hst)).mono hq.now
  claims i x hx t ht := by
    rcases hq.procs i x hx with hx | hx
    · exact (h.claims i x hx t ht).trans hq.now
    · have hstart := hx.start
      unfold Task.claimTime at ht
      split at ht
      · rename_i htask
        rw [htask] at hstart
        cases hstart
      · rename_i htask
        rw [htask] at hstart
        cases hstart
      · cases ht

theorem TimeInv.after (hi : w.Inv) (h : w.TimeInv) {p : ℕ} {x : Process}
    (hp : w.procs[p]? = some x) {choice : Choice} {eff : Effect}
    (he : x.task.act w.now w.log.length w.issued w.store choice = some eff) :
    (w.after p x eff).TimeInv where
  stamped := by
    intro k st' hst'
    cases Task.act_ledgers hi.store (hi.sound p x hp) he with
    | same hsame => exact h.stamped k st' ((hsame k).symm.trans hst')
    | created hc =>
      rename_i c
      by_cases hk : k = c.message.id
      · obtain ⟨st, hst, -, -, hatt, -⟩ := hc.ledgerState_self hi.store
        rw [hk] at hst'
        rw [show (w.after p x eff).store = eff.store from rfl, hst, Option.some.injEq] at hst'
        subst hst'
        rintro ⟨a, ha, -⟩
        rw [hatt] at ha
        cases ha
      · exact h.stamped k st' ((hc.ledgerState_other hi.store hk).symm.trans hst')
    | moved hstep hmove =>
      rename_i k₀ st st₀
      by_cases hk : k = k₀
      · subst hk
        obtain rfl := Option.some.inj (hst'.symm.trans hstep.after)
        exact hmove.stamped (hi.store.ledger k st hstep.before) (h.stamped k st hstep.before)
          (h.claims p x hp)
      · exact h.stamped k st' ((hstep.others k hk).symm.trans hst')
  claims i y hy t ht := by
    rcases after_procs hy with ⟨-, hy⟩ | ⟨-, ⟨task, hn, rfl⟩ | rfl⟩
    · exact h.claims i y hy t ht
    · rcases Task.act_claimTime he (hi.acted hp he) hn ht with rfl | ht
      · exact le_refl _
      · exact h.claims p x hp t ht
    · cases ht

theorem reachable_timeInv (h : system.Reachable w) : w.TimeInv := by
  refine h.invariant ?_ fun w w' l hr ht hs => ?_
  · rintro _ ⟨now, rfl⟩
    exact ⟨fun _ _ h => (by cases h), fun _ _ h => (by cases h)⟩
  · have hi := reachable_inv hr
    rcases step_cases hs with hq | ⟨p, choice, x, eff, -, hp, he, rfl⟩
    · exact ht.quiet hi hq
    · exact ht.after hi hp he

end World

/-- **An operation that changes a ledger sets no time back, exactly if it is not the start of an
attempt whose claim is older than what is stored**, in every run. -/
theorem ledger_times_forward {w w' : World} (h : World.system.Reachable w) {p : ℕ}
    {choice : Choice} {x : Process} (hp : w.procs[p]? = some x)
    (hplans : x.task.plansLedger = true) (hs : w.step (.act p choice) = some w')
    (hchange : w'.store ≠ w.store) :
    w.store.TimesForward w'.store ↔ x.task.startsStale w.store = false := by
  have hi := World.reachable_inv h
  have ht := World.reachable_timeInv h
  obtain ⟨proc, hp', hs⟩ := Option.bind_eq_some_iff.mp hs
  obtain rfl : x = proc := Option.some.inj (hp.symm.trans hp')
  obtain ⟨eff, he, rfl⟩ := Option.map_eq_some_iff.mp hs
  constructor
  · intro hforward
    rw [Bool.eq_false_iff]
    exact fun hstale => not_timesForward_of_startsStale hi.store (hi.sound p x hp) he hchange
      hstale hforward
  · intro hstale
    rw [MemoryStore.timesForward_iff]
    intro k st st' hst hst'
    cases Task.act_ledgers hi.store (hi.sound p x hp) he with
    | same hsame =>
      obtain rfl := Option.some.inj (hst.symm.trans ((hsame k).symm.trans hst'))
      exact ⟨le_refl _, le_refl _⟩
    | created hc =>
      rename_i c
      have hk : k ≠ c.message.id := by
        rintro rfl
        have hm := (hi.store.ledgerState_eq_some.mp hst).2.1
        rw [hc.no_message] at hm
        cases hm
      obtain rfl := Option.some.inj (hst.symm.trans
        ((hc.ledgerState_other hi.store hk).symm.trans hst'))
      exact ⟨le_refl _, le_refl _⟩
    | moved hstep hmove =>
      rename_i k₀ st₀ st₁
      by_cases hk : k = k₀
      · subst hk
        obtain rfl := Option.some.inj (hst.symm.trans hstep.before)
        obtain rfl := Option.some.inj (hst'.symm.trans hstep.after)
        exact hmove.forward hst hplans (ht.stamped k st hst) hstale
      · obtain rfl := Option.some.inj (hst.symm.trans ((hstep.others k hk).symm.trans hst'))
        exact ⟨le_refl _, le_refl _⟩

/-- The second worker, the third process, claims the email when the lease of the first has run out
before its attempt started. -/
def World.reclaimSample : List Label :=
  deliverSample ++ [.act 1 .go, .act 1 .go, .act 1 (.suppressed false), .act 1 .go,
    .act 1 (.attemptId "attempt_0123456789abcdef012345"), .tick 122000,
    .enqueue (.sendEmail "email_0123456789abcdef" none), .deliver 0 2 "worker" 60 100,
    .act 2 .go, .act 2 .go, .act 2 (.suppressed false), .act 2 .go]

theorem stale_start : ∃ w w' x, World.system.Reachable w ∧ w.procs[1]? = some x ∧
    x.task.plansLedger = true ∧ w.step (.act 1 .go) = some w' ∧
    ¬ w.store.TimesForward w'.store := by
  have hrun : (World.system.run { now := 2000 } World.reclaimSample).any
      (fun w => (w.procs[1]?).any fun x => x.task.plansLedger && (w.step (.act 1 .go)).any
        fun w' => (w.store.getDeliveryLedger "email_0123456789abcdef").any fun ledger =>
          (w'.store.getDeliveryLedger "email_0123456789abcdef").any fun ledger' =>
            decide (ledger'.email.updatedAt < ledger.email.updatedAt)) := by decide +kernel
  obtain ⟨w, hw, h⟩ :=
    TransitionSystem.exists_reachable_of_run (T := World.system) ⟨2000, rfl⟩ hrun
  obtain ⟨x, hx, h⟩ := (Option.any_eq_true _ _).mp h
  rw [Bool.and_eq_true] at h
  obtain ⟨w', hw', h'⟩ := (Option.any_eq_true _ _).mp h.2
  obtain ⟨ledger, hledger, h'⟩ := (Option.any_eq_true _ _).mp h'
  obtain ⟨ledger', hledger', hlt⟩ := (Option.any_eq_true _ _).mp h'
  refine ⟨w, w', x, hw, hx, h.1, hw', fun hforward => ?_⟩
  exact absurd (hforward _ ledger ledger' hledger hledger').1 (not_le_of_gt (of_decide_eq_true hlt))

theorem ledger_times_forward_sample : ∃ w w', World.system.Reachable w ∧
    w.step (.act 1 .go) = some w' ∧ w'.store ≠ w.store ∧ w.store.TimesForward w'.store := by
  have hrun : (World.system.run { now := 2000 } (World.deliverSample ++ [.act 1 .go, .act 1 .go,
      .act 1 (.suppressed false), .act 1 .go,
      .act 1 (.attemptId "attempt_0123456789abcdef012345")])).any
      (fun w => (w.procs[1]?).any fun x => x.task.plansLedger && !x.task.startsStale w.store &&
        (w.step (.act 1 .go)).any fun w' => decide (w'.store ≠ w.store)) := by decide +kernel
  obtain ⟨w, hw, h⟩ :=
    TransitionSystem.exists_reachable_of_run (T := World.system) ⟨2000, rfl⟩ hrun
  obtain ⟨x, hx, h⟩ := (Option.any_eq_true _ _).mp h
  rw [Bool.and_eq_true, Bool.and_eq_true, Bool.not_eq_true'] at h
  obtain ⟨w', hw', hne⟩ := (Option.any_eq_true _ _).mp h.2
  have hne := of_decide_eq_true hne
  exact ⟨w, w', hw, hw', hne, (ledger_times_forward hw hx h.1.1 hw' hne).mpr h.1.2⟩

end HayaSend
