import HayaSend.Services.EventLog

/-!
# Submissions

What every reachable state of the delivery system says about a message: its ledger is coherent
(`ledger_coherent`), and it is submitted at most once (`submitted_at_most_once`).

Neither rests on the send lease. Of the attempts of a message only the last can be other than
failed retryably, and a call that finds its attempt begun is the only one that completes it; so an
attempt the transport accepted stays submitting or accepted for good, and no other can begin.
-/

namespace HayaSend

/-! ## Coherent ledgers -/

/-- What the records of a ledger say of each other. -/
structure DeliveryLedgerState.Coherent (s : DeliveryLedgerState) : Prop where
  /-- The attempts are numbered from one on. -/
  sequences : s.attempts.map (·.sequence) = List.range' 1 s.attempts.length
  submitting_unique : (s.attempts.filter (·.status == .submitting)).length ≤ 1
  /-- A submitting attempt is the last and owns every recipient. -/
  submitting : ∀ a ∈ s.attempts, a.status = .submitting → a.sequence = s.attempts.length ∧
    ∀ r ∈ s.recipients, r.status = .sending ∧ r.latestAttemptId = some a.id
  /-- No recipient is sending without one. -/
  sending : ∀ r ∈ s.recipients, r.status = .sending → ∃ a ∈ s.attempts, a.status = .submitting
  accepted_unique : (s.attempts.filter (·.status == .accepted)).length ≤ 1
  accepted : ∀ a ∈ s.attempts, a.status = .accepted → a.sequence = s.attempts.length ∧
    ∀ r ∈ s.recipients, r.status ≠ .queued ∧ r.status ≠ .sending
  message_status : deriveDeliveryMessageStatus s.recipients = .ok s.message.status ∨
    (s.message.status = .scheduled ∧ ∀ r ∈ s.recipients, r.status = .queued)
  email_status : s.email.status = derivePublicEmailStatus s.message.status s.recipients ∨
    ((∀ r ∈ s.recipients, r.status = .queued) ∧
      (s.email.status = .queued ∨ s.email.status = .scheduled ∨ s.email.status = .sending))

theorem LedgerInv.coherent {s : DeliveryLedgerState} (h : LedgerInv s) : s.Coherent where
  sequences := h.sequences
  submitting_unique := h.filter_le_one _ fun a ha => by simp_all
  submitting a ha hst := by
    obtain ⟨hlast, hown⟩ := h.submitting_last ha hst
    exact ⟨h.sequence_last hlast, hown⟩
  sending r hr hst := by
    rcases h.phase with ⟨hq, -⟩ | ⟨a, ha, hsub, -⟩ | ⟨hset, -⟩
    · have := (hq r hr).symm.trans hst
      cases this
    · exact ⟨a, List.mem_of_getLast? ha, hsub⟩
    · have := hset r hr
      rw [hst] at this
      cases this
  accepted_unique := h.filter_le_one _ fun a ha => by simp_all
  accepted a ha hst := by
    obtain ⟨hlast, hset⟩ := h.accepted_last ha hst
    exact ⟨h.sequence_last hlast, fun r hr => (RecipientStatus.isSettled_iff _).mp (hset r hr)⟩
  message_status := by
    refine h.message_status.imp_left fun hm => ?_
    rw [deriveDeliveryMessageStatus, if_neg h.recipients_ne_nil, hm]
  email_status := h.email_status

/-- **The ledgers of every reachable state are coherent.** -/
theorem ledger_coherent {w : World} (h : World.system.Reachable w) {id : String}
    {s : DeliveryLedgerSnapshot} (hs : w.store.getDeliveryLedger id = some s) :
    s.toDeliveryLedgerState.Coherent :=
  ((World.reachable_inv h).store.ledger id _
    (MemoryStore.ledgerState_of_deliveryLedger hs)).coherent

theorem ledger_coherent_sample : ∃ (w : World) (s : DeliveryLedgerSnapshot),
    World.system.Reachable w ∧ w.store.getDeliveryLedger "email_0123456789abcdef" = some s ∧
      s.toDeliveryLedgerState.Coherent := by
  have hrun : (World.system.run { now := 2000 } (World.deliverSample ++ World.sendSample)).any
      fun w => (w.store.getDeliveryLedger "email_0123456789abcdef").isSome := by decide +kernel
  obtain ⟨w, hw, hs⟩ :=
    TransitionSystem.exists_reachable_of_run (T := World.system) ⟨2000, rfl⟩ hrun
  obtain ⟨s, hs⟩ := Option.isSome_iff_exists.mp hs
  exact ⟨w, s, hw, hs, ledger_coherent hw hs⟩

/-! ## At most one accepted submission -/

/-- An acceptance of this email's submission. -/
def Event.accepts (id : String) : Event → Bool
  | .transportAccepted k _ => k == id
  | _ => false

/-- The attempt an acceptance names. -/
def Event.acceptedAttempt : Event → Option String
  | .transportAccepted _ a => a
  | _ => none

/-- The attempt is stored, and the transport may have taken it. -/
def MemoryStore.Submitted (s : MemoryStore) (id : String) : Option String → Prop
  | none => s.NoLedger id
  | some a => ∃ r, s.deliveryAttempts.get a = some r ∧ r.messageId = id ∧
      (r.status = .submitting ∨ r.status = .accepted)

/-- The call has heard from the transport that its attempt is accepted. -/
def Task.HasAccepted (task : Task) : Prop :=
  ∃ id attempt sending a providerId, task = .send id attempt (.accepted sending a providerId)

namespace World

/-- What the log says of the attempts the transport accepted. -/
structure AcceptedInv (w : World) : Prop where
  submitted : ∀ id a, .transportAccepted id a ∈ w.log → w.store.Submitted id a
  /-- The call that holds such an attempt has nothing left but to record it. -/
  holder : ∀ (i : ℕ) (x : Process) (a : String), w.procs[i]? = some x →
    x.task.attemptId = some a → (∃ id, .transportAccepted id (some a) ∈ w.log) → x.task.HasAccepted
  once : (w.log.filterMap Event.acceptedAttempt).Nodup

end World

theorem mem_acceptedAttempts {log : List Event} {a : String} :
    a ∈ log.filterMap Event.acceptedAttempt ↔ ∃ id, .transportAccepted id (some a) ∈ log := by
  rw [List.mem_filterMap]
  constructor
  · rintro ⟨e, he, hea⟩
    cases e with
    | transportAccepted id b =>
      obtain rfl : b = some a := hea
      exact ⟨id, he⟩
    | _ => cases hea
  · rintro ⟨id, he⟩
    exact ⟨_, he, rfl⟩

theorem MemoryStore.Step.submitted {s s' : MemoryStore} {f : MemoryStore.Footprint} (hs : s.Inv)
    (h : s.Step s' f) {id : String} {a : Option String} (ha : ∀ b, a = some b → f.attempt ≠ some b)
    (hsub : s.Submitted id a) : s'.Submitted id a := by
  cases a with
  | none => exact h.noLedger hs hsub
  | some a =>
    obtain ⟨r, hr, hm⟩ := hsub
    exact ⟨r, (h.attempts a (ha a rfl)).trans hr, hm⟩

theorem MemoryStore.Holds.submitted {s : MemoryStore} {id : String} {a : Option String}
    (h : s.Holds id a) : s.Submitted id a := by
  cases a with
  | none => exact h
  | some a =>
    obtain ⟨r, hr, hm, hst⟩ := h
    exact ⟨r, hr, hm, Or.inl hst⟩

/-- Recording an acceptance leaves the attempt submitted. -/
theorem MemoryStore.Inv.submitted_completed {s s' : MemoryStore} (hs : s.Inv) {id a pid : String}
    {now : ℕ} {r : Option DeliveryLedgerMutationResult} (hsub : s.Submitted id (some a))
    (hc : s.completeDeliveryAttempt (acceptedCompletion id a pid now) = .ok (s', r)) :
    s'.Submitted id (some a) := by
  obtain ⟨b, hb, hm, hst⟩ := hsub
  rcases hs.completeDeliveryAttempt hc with ⟨rfl, -⟩ | ⟨st, i, b', hst', hi, hid, -, rfl⟩
  · exact ⟨b, hb, hm, hst⟩
  · have hmem : b' ∈ s.attemptsOf id :=
      (hs.ledgerState_eq_some.mp hst').2.2.2 ▸ List.mem_of_getElem? hi
    refine ⟨completedAttempt (acceptedCompletion id a pid now) b', ?_,
      ((mem_attemptsOf hs).mp hmem).2, Or.inr rfl⟩
    have hkey : a = (completedAttempt (acceptedCompletion id a pid now) b').id := hid.symm
    rw [hkey]
    exact OrderedMap.get_set_self _ _ _

/-- A call that records an acceptance leaves the attempt submitted, and lets go of it. -/
theorem Task.HasAccepted.act {now logged : ℕ} {issued : List String} {s : MemoryStore}
    {task : Task} {choice : Choice} {eff : Effect} (hacc : task.HasAccepted) (hs : s.Inv)
    (hk : task.Sound s issued) (h : task.act now logged issued s choice = some eff) {a : String}
    (ha : task.attemptId = some a) :
    (∀ id, s.Submitted id (some a) → eff.store.Submitted id (some a)) ∧
      ∀ task', eff.next = .goto task' → task'.attemptId = none := by
  obtain ⟨id, attempt, sending, b, pid, rfl⟩ := hacc
  obtain rfl : b = some a := ha
  have hid : ∀ id', s.Submitted id' (some a) → id' = id := by
    rintro id' ⟨r, hr, hm, -⟩
    obtain ⟨r', hr', hm', -⟩ := hk
    rw [hr, Option.some.injEq] at hr'
    exact hm.symm.trans (hr' ▸ hm')
  cases choice with
  | go =>
    simp only [Task.act, SendPc.act] at h
    split at h <;> cases h
    · exact ⟨fun _ hsub => hsub, fun _ hn => by cases hn⟩
    · rename_i hc
      refine ⟨fun id' hsub => ?_, fun _ hn => by cases hn⟩
      obtain rfl := hid id' hsub
      exact hs.submitted_completed hsub hc
    · rename_i hc
      refine ⟨fun id' hsub => ?_, fun _ hn => by cases hn; rfl⟩
      obtain rfl := hid id' hsub
      exact hs.submitted_completed hsub hc
  | _ => cases h

namespace World

variable {w w' : World}

theorem AcceptedInv.quiet (hi : w.Inv) (h : w.AcceptedInv) (hq : w.Quiet w') :
    w'.AcceptedInv := by
  have hstep := hi.step_quiet hq
  refine ⟨?_, ?_, hq.log ▸ h.once⟩
  · rw [hq.log]
    exact fun id a he => hstep.submitted hi.store (fun _ _ => by simp) (h.submitted id a he)
  · rw [hq.log]
    intro i x a hx hxa he
    rcases hq.procs i x hx with hx | hx
    · exact h.holder i x a hx hxa he
    · rw [hx.attemptId] at hxa
      cases hxa

/-- An acceptance that a step logs is that of the attempt the call holds. -/
theorem logged_accepted {now : ℕ} {s : MemoryStore} {task : Task} {eff : Effect}
    (hl : task.Logs now s eff) {id : String} {a : Option String}
    (he : .transportAccepted id a ∈ eff.log) : ∃ attempt sending providerId,
      task = .send id attempt (.transport sending a) ∧ eff.store = s ∧
        eff.log = [.transportAccepted id a] ∧
        eff.next = .goto (.send id attempt (.accepted sending a providerId)) := by
  cases hl with
  | silent hnil =>
    rw [hnil] at he
    cases he
  | accepted =>
    obtain ⟨rfl, rfl⟩ : id = _ ∧ a = _ := by simpa using he
    exact ⟨_, _, _, rfl, rfl, rfl, rfl⟩
  | _ => simp at he

theorem logged_nodup {now : ℕ} {s : MemoryStore} {task : Task} {eff : Effect}
    (hl : task.Logs now s eff) : (eff.log.filterMap Event.acceptedAttempt).Nodup := by
  cases hl with
  | silent hnil => simp [hnil]
  | @accepted _ _ _ a _ =>
    cases a with
    | none => exact List.nodup_nil
    | some a => exact List.nodup_singleton a
  | _ => exact List.nodup_nil

theorem AcceptedInv.after (hi : w.Inv) (h : w.AcceptedInv) {p : ℕ} {x : Process}
    (hp : w.procs[p]? = some x) {choice : Choice} {eff : Effect}
    (he : x.task.act w.now w.log.length w.issued w.store choice = some eff) :
    (w.after p x eff).AcceptedInv := by
  have ha := hi.acted hp he
  have hl := Task.act_logs he
  have hk := hi.sound p x hp
  refine ⟨?_, ?_, ?_⟩
  · intro id a hm
    rcases List.mem_append.mp hm with hm | hm
    · have hsub := h.submitted id a hm
      cases a with
      | none => exact ha.step.noLedger hi.store hsub
      | some a =>
        by_cases hxa : x.task.attemptId = some a
        · exact ((h.holder p x a hp hxa ⟨id, hm⟩).act hi.store hk he hxa).1 id hsub
        · exact ha.step.submitted hi.store (fun b hb => by cases hb; exact hxa) hsub
    · obtain ⟨attempt, sending, pid, htask, hstore, -, -⟩ := logged_accepted hl hm
      rw [htask] at hk
      show eff.store.Submitted id a
      rw [hstore]
      exact MemoryStore.Holds.submitted hk
  · intro i y a hy hya ⟨id, hm⟩
    rcases List.mem_append.mp hm with hm | hm
    · rcases after_procs hy with ⟨-, hy⟩ | ⟨-, ⟨task, hn, rfl⟩ | rfl⟩
      · exact h.holder i y a hy hya ⟨id, hm⟩
      · -- the call that goes on holds no accepted attempt: it let go of it, or drew a new id
        exfalso
        rcases ha.holds task hn a hya with hxa | hnew
        · have := ((h.holder p x a hp hxa ⟨id, hm⟩).act hi.store hk he hxa).2 task hn
          rw [hya] at this
          cases this
        · obtain ⟨r, hr, -⟩ := h.submitted id (some a) hm
          exact ha.fresh a hnew (hi.issued a r hr)
      · cases hya
    · obtain ⟨attempt, sending, pid, htask, -, -, hnext⟩ := logged_accepted hl hm
      rcases after_procs hy with ⟨hip, hy⟩ | ⟨-, ⟨task, hn, rfl⟩ | rfl⟩
      · exact absurd (hi.owner i p y x a hy hp hya (by rw [htask]; rfl)) hip
      · rw [hnext, Next.goto.injEq] at hn
        exact ⟨id, attempt, sending, some a, pid, hn.symm⟩
      · cases hya
  · show ((w.log ++ eff.log).filterMap Event.acceptedAttempt).Nodup
    rw [List.filterMap_append, List.nodup_append']
    refine ⟨h.once, logged_nodup hl, ?_⟩
    intro a hold hnew
    obtain ⟨id', hm'⟩ := mem_acceptedAttempts.mp hold
    obtain ⟨id, hm⟩ := mem_acceptedAttempts.mp hnew
    obtain ⟨attempt, sending, pid, htask, -, -, -⟩ := logged_accepted hl hm
    obtain ⟨_, _, _, _, _, hacc⟩ := h.holder p x a hp (by rw [htask]; rfl) ⟨id', hm'⟩
    rw [htask] at hacc
    cases hacc

theorem reachable_acceptedInv (h : system.Reachable w) : w.AcceptedInv := by
  refine h.invariant ?_ ?_
  · rintro _ ⟨now, rfl⟩
    exact ⟨fun _ _ h => (List.not_mem_nil h).elim, fun _ _ _ h => (by cases h), List.nodup_nil⟩
  · intro w w' l hr hi hs
    have hinv := reachable_inv hr
    rcases step_cases hs with hq | ⟨p, choice, x, eff, -, hp, he, rfl⟩
    · exact hi.quiet hinv hq
    · exact hi.after hinv hp he

/-- The attempts of a ledger that the transport may have taken are one. -/
theorem Inv.submitted_unique (hi : w.Inv) {id : String} {st : DeliveryLedgerState}
    (hst : w.store.ledgerState id = some st) {a : Option String} (ha : w.store.Submitted id a) :
    ∃ own ∈ st.attempts, a = some own.id ∧ (own.status = .submitting ∨ own.status = .accepted) ∧
      ∀ b ∈ st.attempts, b.status = .submitting ∨ b.status = .accepted → b = own := by
  have hl := hi.store.ledger id st hst
  cases a with
  | none =>
    rw [hi.store.ledgerState_eq_none.mpr ha.message] at hst
    cases hst
  | some a =>
    obtain ⟨own, hown, hm, hstatus⟩ := ha
    obtain rfl := hi.store.attempt_id a own hown
    have hmem : own ∈ st.attempts :=
      (hi.store.ledgerState_eq_some.mp hst).2.2.2 ▸
        (MemoryStore.mem_attemptsOf hi.store).mpr ⟨hown, hm⟩
    refine ⟨own, hmem, rfl, hstatus, fun b hb hbs => ?_⟩
    have hlast := hl.eq_last hmem (by rcases hstatus with h | h <;> simp [h])
    rw [hl.eq_last hb (by rcases hbs with h | h <;> simp [h]), Option.some.injEq] at hlast
    exact hlast

end World

theorem logged_started {now : ℕ} {s : MemoryStore} {task : Task} {eff : Effect}
    (hl : task.Logs now s eff) {id : String} {a : Option String} {sending : EmailRecord}
    {readAt claimedAt : ℕ} (he : .transportStarted id a sending readAt claimedAt ∈ eff.log) :
    ∃ attempt, task = .send id attempt (.send sending a readAt claimedAt) := by
  cases hl with
  | silent hnil =>
    rw [hnil] at he
    cases he
  | started =>
    rw [List.mem_singleton, Event.transportStarted.injEq] at he
    obtain ⟨rfl, rfl, rfl, rfl, rfl⟩ := he
    exact ⟨_, rfl⟩
  | _ => simp at he

/-- **At most one accepted submission.** In every reachable state a message has at most one
submitting and at most one accepted attempt; a call that starts the transport holds the only
attempt that is either; and the transport has accepted the message at most once. -/
theorem submitted_at_most_once {w : World} (h : World.system.Reachable w) {id : String}
    {s : DeliveryLedgerSnapshot} (hs : w.store.getDeliveryLedger id = some s) :
    (s.attempts.filter (·.status == .submitting)).length ≤ 1 ∧
    (s.attempts.filter (·.status == .accepted)).length ≤ 1 ∧
    (∀ l w', w.step l = some w' → ∀ a sending readAt claimedAt,
      w'.log = w.log ++ [.transportStarted id a sending readAt claimedAt] →
      ∃ own ∈ s.attempts, a = some own.id ∧
        ∀ b ∈ s.attempts, b.status = .submitting ∨ b.status = .accepted → b = own) ∧
    (w.log.filter (Event.accepts id)).length ≤ 1 := by
  have hi := World.reachable_inv h
  have hacc := World.reachable_acceptedInv h
  have hst := MemoryStore.ledgerState_of_deliveryLedger hs
  have hc := (hi.store.ledger id _ hst).coherent
  refine ⟨hc.submitting_unique, hc.accepted_unique, ?_, ?_⟩
  · intro l w' hstep a sending readAt claimedAt hlog
    rcases World.step_cases hstep with hq | ⟨p, choice, x, eff, -, hp, he, rfl⟩
    · rw [hq.log] at hlog
      simp at hlog
    · have heff := List.append_cancel_left hlog
      obtain ⟨attempt, htask⟩ :=
        logged_started (Task.act_logs he) (by rw [heff]; exact List.mem_cons_self)
      have hk := hi.sound p x hp
      rw [htask] at hk
      obtain ⟨own, hown, ha, -, hunique⟩ :=
        hi.submitted_unique hst (MemoryStore.Holds.submitted hk)
      exact ⟨own, hown, ha, hunique⟩
  · -- the acceptances of one message all name its one submitted attempt, each of them once
    have hsub : ∀ e ∈ w.log.filter (Event.accepts id), ∃ a, e = .transportAccepted id a ∧
        w.store.Submitted id a := by
      intro e he
      obtain ⟨hm, hid⟩ := List.mem_filter.mp he
      cases e with
      | transportAccepted k a =>
        obtain rfl : k = id := by simpa [Event.accepts] using hid
        exact ⟨a, rfl, hacc.submitted k a hm⟩
      | _ => cases hid
    rcases List.eq_nil_or_concat (w.log.filter (Event.accepts id)) with hnil | ⟨es, e, hes⟩
    · simp [hnil]
    · obtain ⟨a, rfl, ha⟩ := hsub e (by simp [hes])
      obtain ⟨own, hown, rfl, hstatus, -⟩ := hi.submitted_unique hst ha
      have hall : ∀ e ∈ w.log.filter (Event.accepts id), e.acceptedAttempt = some own.id := by
        intro e he
        obtain ⟨b, rfl, hb⟩ := hsub e he
        obtain ⟨own', -, rfl, -, hunique⟩ := hi.submitted_unique hst hb
        rw [hunique own hown hstatus]
        rfl
      have hnodup := hacc.once.sublist
        ((List.filter_sublist (p := Event.accepts id) (l := w.log)).filterMap _)
      rw [List.filterMap_congr (g := fun _ => some own.id) hall, List.filterMap_eq_map',
        List.map_const', List.nodup_replicate] at hnodup
      exact hnodup

theorem submitted_at_most_once_sample : ∃ (w : World) (s : DeliveryLedgerSnapshot),
    World.system.Reachable w ∧ w.store.getDeliveryLedger "email_0123456789abcdef" = some s ∧
      (s.attempts.filter (·.status == .accepted)).length ≤ 1 ∧
      (w.log.filter (Event.accepts "email_0123456789abcdef")).length ≤ 1 := by
  have hrun : (World.system.run { now := 2000 } (World.deliverSample ++ World.sendSample ++
      [.act 1 (.providerId "provider-1"), .act 1 .go])).any
      fun w => (w.store.getDeliveryLedger "email_0123456789abcdef").isSome := by decide +kernel
  obtain ⟨w, hw, hs⟩ :=
    TransitionSystem.exists_reachable_of_run (T := World.system) ⟨2000, rfl⟩ hrun
  obtain ⟨s, hs⟩ := Option.isSome_iff_exists.mp hs
  have hall := submitted_at_most_once hw hs
  exact ⟨w, s, hw, hs, hall.2.1, hall.2.2.2⟩

end HayaSend
