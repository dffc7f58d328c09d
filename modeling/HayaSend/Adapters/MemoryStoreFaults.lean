import HayaSend.Adapters.MemoryStoreLedger
import HayaSend.Foundations.StagedWrites
import HayaSend.Services.World

/-!
# Commits of the in-memory store under faults

A delivery commit and the commit of a ledger plan stage their writes in copies of the maps and put
the copies in place at the end. The hook of the store is called after every write and, in a
delivery commit, after the swap; it may throw at any call. `commits_atomic` says that whatever it
does, nothing is visible of a commit before its swap and all of it after, to the hook itself as to
everybody later, and `commits_unfaulted` that under a hook that never throws the commits are those of
the store.
-/

namespace HayaSend

/-- The entities of the delivery mutations. -/
inductive DeliveryEntity
  | email
  | message
  | recipient
  | idempotency
  | outbox
  | attempt
  | providerEvent
  deriving DecidableEq, Repr

/-- `MemoryDeliveryMutation`, of the two commits. -/
inductive MemoryDeliveryMutation
  | commit (entity : DeliveryEntity) (index : Option ℕ)
  | commitSwap
  | ledger (entity : DeliveryEntity) (index : Option ℕ)
  deriving DecidableEq, Repr

def MemoryDeliveryMutation.isSwap : MemoryDeliveryMutation → Bool
  | .commitSwap => true
  | _ => false

/-- `afterDeliveryMutation`: whether it throws may depend on the number of its calls so far. -/
abbrev MutationHook := ℕ → MemoryDeliveryMutation → Option Failure

/-- A method of the store that stages writes and calls the hook. -/
abbrev StoreProcedure := Staged MemoryStore MemoryDeliveryMutation Failure

namespace MemoryStore

open Staged

/-! ## The commit of a delivery -/

section Procedures

variable (hook : MutationHook)

/-- Stage a recipient of a commit. -/
def stageRecipient (index : ℕ) (recipient : RecipientRecord) : StoreProcedure Unit := do
  reads fun st => throwIf (st.copy.deliveryRecipients.has recipient.id)
    (.conflict "Recipient identity is already in use.")
  write fun next => { next with
    deliveryRecipients := next.deliveryRecipients.set recipient.id recipient }
  call hook (.commit .recipient (some index))

/-- Stage the claim of a commit. -/
def stageIdempotency (emailId : String) : Option IdempotencyClaim → StoreProcedure Unit
  | none => pure ()
  | some claim => do
    write fun next => { next with
      idempotency := next.idempotency.set claim.keyHash { claim with emailId := emailId } }
    call hook (.commit .idempotency none)

/-- Everything `commitDelivery` stages. -/
def stageDelivery (c : DeliveryCommit) : StoreProcedure Unit := do
  copyMaps
  write fun next => { next with emails := next.emails.set c.email.id c.email }
  call hook (.commit .email none)
  write fun next => { next with deliveryMessages := next.deliveryMessages.set c.message.id c.message }
  call hook (.commit .message none)
  forEach (stageRecipient hook) 0 c.recipients
  stageIdempotency hook c.email.id c.idempotency
  write fun next => { next with outboxItems := next.outboxItems.set c.outbox.id c.outbox }
  write fun next => { next with outboxByMessage := next.outboxByMessage.set c.message.id c.outbox.id }
  call hook (.commit .outbox none)

/-- The maps a delivery commit swaps: assignments with no call between them. -/
def swapDelivery (live next : MemoryStore) : MemoryStore :=
  { live with
    emails := next.emails
    idempotency := next.idempotency
    deliveryMessages := next.deliveryMessages
    deliveryRecipients := next.deliveryRecipients
    outboxItems := next.outboxItems
    outboxByMessage := next.outboxByMessage }

/-- The store with the records of a new delivery, whose recipients are now `recipients`. -/
def withDelivery (s : MemoryStore) (c : DeliveryCommit)
    (recipients : OrderedMap String RecipientRecord) : MemoryStore :=
  { s with
    emails := s.emails.set c.email.id c.email
    deliveryMessages := s.deliveryMessages.set c.message.id c.message
    deliveryRecipients := recipients
    idempotency := match c.idempotency with
      | none => s.idempotency
      | some claim => s.idempotency.set claim.keyHash { claim with emailId := c.email.id }
    outboxItems := s.outboxItems.set c.outbox.id c.outbox
    outboxByMessage := s.outboxByMessage.set c.message.id c.outbox.id }

/-- The commit of the records of a new delivery. -/
def commitRecords (c : DeliveryCommit) : StoreProcedure DeliveryCommitResult := do
  stageDelivery hook c
  swap swapDelivery
  call hook .commitSwap
  return { c with replayed := false }

/-- The replay of a delivery whose key is claimed. -/
def replayDelivery (s : MemoryStore) (c : DeliveryCommit) (entry : IdempotencyEntry) :
    Except Failure DeliveryCommitResult :=
  if c.idempotency.any fun claim => entry.requestHash != claim.requestHash then
    .error (.conflict "The Idempotency-Key has already been used with a different request.")
  else
    match s.deliveryResult entry.emailId true with
    | none => .error (.conflict
        "The idempotent delivery exists but its atomic records are unavailable.")
    | some replay => .ok replay

/-- `commitDelivery`, with the hook. -/
def commitDeliveryUnder (input : DeliveryCommit) (nowEpochSeconds : ℕ) :
    StoreProcedure DeliveryCommitResult := do
  let c ← reads fun _ => validateDeliveryCommit input nowEpochSeconds
  let existingClaim ← reads fun st => .ok ((c.idempotency.bind fun claim =>
    st.live.idempotency.get claim.keyHash).filter fun entry => nowEpochSeconds < entry.expiresAt)
  match existingClaim with
  | some entry => reads fun st => replayDelivery st.live c entry
  | none => do
    reads fun st => throwIf (st.live.emails.has c.email.id ||
        st.live.deliveryMessages.has c.message.id || st.live.outboxItems.has c.outbox.id)
      (.conflict "Delivery identity is already in use.")
    commitRecords hook c

/-! ## The commit of a ledger plan -/

/-- Stage a recipient of a plan. -/
def stageLedgerRecipient (index : ℕ) (recipient : RecipientRecord) : StoreProcedure Unit := do
  write fun next => { next with
    deliveryRecipients := next.deliveryRecipients.set recipient.id recipient }
  call hook (.ledger .recipient (some index))

def stageAttempt : Option AttemptRecord → StoreProcedure Unit
  | none => pure ()
  | some attempt => do
    write fun next => { next with
      deliveryAttempts := next.deliveryAttempts.set attempt.id attempt }
    call hook (.ledger .attempt none)

def stageEvent : Option ProviderEventRecord → StoreProcedure Unit
  | none => pure ()
  | some event => do
    write fun next => { next with providerEvents := next.providerEvents.set event.id event }
    call hook (.ledger .providerEvent none)

/-- Everything `commitLedgerPlan` stages. -/
def stageLedgerPlan (plan : DeliveryLedgerState) (attempt : Option AttemptRecord)
    (event : Option ProviderEventRecord) : StoreProcedure Unit := do
  copyMaps
  write fun next => { next with emails := next.emails.set plan.email.id plan.email }
  call hook (.ledger .email none)
  write fun next => { next with
    deliveryMessages := next.deliveryMessages.set plan.message.id plan.message }
  call hook (.ledger .message none)
  forEach (stageLedgerRecipient hook) 0 plan.recipients
  stageAttempt hook attempt
  stageEvent hook event

/-- The maps the commit of a plan swaps, likewise. -/
def swapLedgerPlan (live next : MemoryStore) : MemoryStore :=
  { live with
    emails := next.emails
    deliveryMessages := next.deliveryMessages
    deliveryRecipients := next.deliveryRecipients
    deliveryAttempts := next.deliveryAttempts
    providerEvents := next.providerEvents }

/-- `commitLedgerPlan`, with the hook. -/
def commitLedgerPlanUnder (plan : DeliveryLedgerState) (attempt : Option AttemptRecord)
    (event : Option ProviderEventRecord) : StoreProcedure Unit := do
  stageLedgerPlan hook plan attempt event
  swap swapLedgerPlan

end Procedures

/-! ## What is staged -/

section Staging

variable {hook : MutationHook} {st st' : Staging MemoryStore MemoryDeliveryMutation}

theorem stages_stageRecipient (i : ℕ) (r : RecipientRecord) :
    Stages hook (·.isSwap) (stageRecipient hook i r) :=
  (Stages.reads _).bind fun _ => (Stages.write _).bind fun _ => .call rfl

theorem stages_stageIdempotency (id : String) (claim : Option IdempotencyClaim) :
    Stages hook (·.isSwap) (stageIdempotency hook id claim) := by
  cases claim with
  | none => exact .pure ()
  | some claim => exact (Stages.write _).bind fun _ => .call rfl

theorem stages_stageDelivery (c : DeliveryCommit) :
    Stages hook (·.isSwap) (stageDelivery hook c) :=
  Stages.copyMaps.bind fun _ => (Stages.write _).bind fun _ => (Stages.call rfl).bind fun _ =>
    (Stages.write _).bind fun _ => (Stages.call rfl).bind fun _ =>
    (Stages.forEach stages_stageRecipient _ _).bind fun _ =>
    (stages_stageIdempotency _ _).bind fun _ => (Stages.write _).bind fun _ =>
    (Stages.write _).bind fun _ => .call rfl

theorem stages_stageLedgerPlan (plan : DeliveryLedgerState) (attempt : Option AttemptRecord)
    (event : Option ProviderEventRecord) :
    Stages hook (·.isSwap) (stageLedgerPlan hook plan attempt event) := by
  have hrecipient : ∀ i r, Stages hook (·.isSwap) (stageLedgerRecipient hook i r) := fun i r =>
    (Stages.write _).bind fun _ => .call rfl
  have hattempt : Stages hook (·.isSwap) (stageAttempt hook attempt) := by
    cases attempt with
    | none => exact .pure ()
    | some a => exact (Stages.write _).bind fun _ => .call rfl
  have hevent : Stages hook (·.isSwap) (stageEvent hook event) := by
    cases event with
    | none => exact .pure ()
    | some e => exact (Stages.write _).bind fun _ => .call rfl
  exact Stages.copyMaps.bind fun _ => (Stages.write _).bind fun _ => (Stages.call rfl).bind fun _ =>
    (Stages.write _).bind fun _ => (Stages.call rfl).bind fun _ =>
    (Stages.forEach hrecipient _ _).bind fun _ => hattempt.bind fun _ => hevent

/-- The recipients that a commit has staged when it gets past them. -/
theorem exec_stageRecipients_ok {rs : List RecipientRecord} {i : ℕ} {u : Unit}
    (h : exec (forEach (stageRecipient hook) i rs) st = (.ok u, st')) :
    ∃ rows, stageRecipients st.copy.deliveryRecipients rs = .ok rows ∧
      st'.copy = { st.copy with deliveryRecipients := rows } := by
  induction rs generalizing i st with
  | nil =>
    cases h
    exact ⟨_, rfl, rfl⟩
  | cons r rs ih =>
    obtain ⟨_, t, hstage, h⟩ := exec_bind_ok.mp h
    rw [stageRecipient, exec_reads_bind] at hstage
    cases hfree : st.copy.deliveryRecipients.has r.id with
    | true =>
      rw [hfree] at hstage
      cases hstage
    | false =>
      rw [hfree] at hstage
      dsimp only [throwIf, Bool.false_eq_true, ↓reduceIte] at hstage
      rw [exec_write_bind] at hstage
      obtain rfl := eq_of_exec_call_ok hstage
      rw [stageRecipients, hfree]
      exact ih h

theorem exec_stageIdempotency_ok {id : String} {claim : Option IdempotencyClaim} {u : Unit} :
    exec (stageIdempotency hook id claim) st = (.ok u, st') →
    st'.copy = { st.copy with
      idempotency := match claim with
        | none => st.copy.idempotency
        | some claim => st.copy.idempotency.set claim.keyHash { claim with emailId := id } } := by
  intro h
  cases claim with
  | none =>
    cases h
    rfl
  | some claim =>
    rw [stageIdempotency, exec_write_bind] at h
    rw [eq_of_exec_call_ok h]

/-- **What a delivery commit has staged** when it gets to the swap. -/
theorem exec_stageDelivery_ok {c : DeliveryCommit} {u : Unit}
    (h : exec (stageDelivery hook c) st = (.ok u, st')) :
    ∃ rows, stageRecipients st.live.deliveryRecipients c.recipients = .ok rows ∧
      swapDelivery st.live st'.copy = st.live.withDelivery c rows := by
  rw [stageDelivery, exec_copyMaps_bind, exec_write_bind] at h
  replace h := exec_call_bind_ok h
  rw [exec_write_bind] at h
  obtain ⟨_, t₁, hrecipients, h⟩ := exec_bind_ok.mp (exec_call_bind_ok h)
  obtain ⟨_, t₂, hclaim, h⟩ := exec_bind_ok.mp h
  rw [exec_write_bind, exec_write_bind] at h
  obtain rfl := eq_of_exec_call_ok h
  obtain ⟨rows, hrows, hcopy₁⟩ := exec_stageRecipients_ok hrecipients
  have hcopy₂ := exec_stageIdempotency_ok hclaim
  refine ⟨rows, hrows, ?_⟩
  dsimp only [swapDelivery, withDelivery]
  rw [hcopy₂, hcopy₁]

/-- The recipients that the commit of a plan has staged. -/
theorem exec_stageLedgerRecipients_ok {rs : List RecipientRecord} {i : ℕ} {u : Unit}
    (h : exec (forEach (stageLedgerRecipient hook) i rs) st = (.ok u, st')) :
    st'.copy = { st.copy with
      deliveryRecipients := st.copy.deliveryRecipients.setAll (·.id) rs } := by
  induction rs generalizing i st with
  | nil =>
    cases h
    rfl
  | cons r rs ih =>
    obtain ⟨_, t, hstage, h⟩ := exec_bind_ok.mp h
    rw [stageLedgerRecipient, exec_write_bind] at hstage
    obtain rfl := eq_of_exec_call_ok hstage
    exact ih h

theorem exec_stageAttempt_ok {attempt : Option AttemptRecord} {u : Unit} :
    exec (stageAttempt hook attempt) st = (.ok u, st') →
    st'.copy = { st.copy with
      deliveryAttempts := match attempt with
        | none => st.copy.deliveryAttempts
        | some a => st.copy.deliveryAttempts.set a.id a } := by
  intro h
  cases attempt with
  | none =>
    cases h
    rfl
  | some a =>
    rw [stageAttempt, exec_write_bind] at h
    rw [eq_of_exec_call_ok h]

theorem exec_stageEvent_ok {event : Option ProviderEventRecord} {u : Unit} :
    exec (stageEvent hook event) st = (.ok u, st') →
    st'.copy = { st.copy with
      providerEvents := match event with
        | none => st.copy.providerEvents
        | some e => st.copy.providerEvents.set e.id e } := by
  intro h
  cases event with
  | none =>
    cases h
    rfl
  | some e =>
    rw [stageEvent, exec_write_bind] at h
    rw [eq_of_exec_call_ok h]

/-- **What the commit of a plan has staged** when it gets to the swap. -/
theorem exec_stageLedgerPlan_ok {plan : DeliveryLedgerState} {attempt : Option AttemptRecord}
    {event : Option ProviderEventRecord} {u : Unit}
    (h : exec (stageLedgerPlan hook plan attempt event) st = (.ok u, st')) :
    swapLedgerPlan st.live st'.copy = st.live.commitLedgerPlan plan attempt event := by
  rw [stageLedgerPlan, exec_copyMaps_bind, exec_write_bind] at h
  replace h := exec_call_bind_ok h
  rw [exec_write_bind] at h
  obtain ⟨_, t₁, hrecipients, h⟩ := exec_bind_ok.mp (exec_call_bind_ok h)
  obtain ⟨_, t₂, hattempt, hevent⟩ := exec_bind_ok.mp h
  have hcopy₁ := exec_stageLedgerRecipients_ok hrecipients
  have hcopy₂ := exec_stageAttempt_ok hattempt
  have hcopy₃ := exec_stageEvent_ok hevent
  dsimp only [swapLedgerPlan, commitLedgerPlan]
  rewrite [hcopy₃, hcopy₂, hcopy₁]
  rfl

end Staging

/-! ## Whole commits -/

/-- The store after a commit without faults. -/
def afterCommit (s : MemoryStore) (input : DeliveryCommit) (nowEpochSeconds : ℕ) : MemoryStore :=
  match s.commitDelivery input nowEpochSeconds with
  | .ok (s', _) => s'
  | .error _ => s

/-- The store with no commit under way. -/
def idle (s : MemoryStore) : Staging MemoryStore MemoryDeliveryMutation := ⟨s, s, []⟩

theorem commitDeliveryUnder_cases (hook : MutationHook) (s : MemoryStore) (input : DeliveryCommit)
    (now : ℕ) :
    ((∃ e, exec (commitDeliveryUnder hook input now) s.idle = (.error e, s.idle) ∧
        s.commitDelivery input now = .error e) ∨
      ∃ r, exec (commitDeliveryUnder hook input now) s.idle = (.ok r, s.idle) ∧
        s.commitDelivery input now = .ok (s, r)) ∨
    ∃ c, exec (commitDeliveryUnder hook input now) s.idle = exec (commitRecords hook c) s.idle ∧
      s.commitDelivery input now = (stageRecipients s.deliveryRecipients c.recipients).map
        fun rows => (s.withDelivery c rows, { c with replayed := false }) := by
  unfold commitDeliveryUnder commitDelivery
  rw [exec_reads_bind]
  cases validateDeliveryCommit input now with
  | error e => exact Or.inl (Or.inl ⟨e, rfl, rfl⟩)
  | ok c =>
    dsimp only
    rw [exec_reads_bind, ok_bind]
    dsimp only [idle]
    generalize ((c.idempotency.bind fun claim => s.idempotency.get claim.keyHash).filter
      fun entry => now < entry.expiresAt) = existingClaim
    cases existingClaim with
    | some entry =>
      dsimp only
      rw [exec_reads]
      left
      unfold replayDelivery
      split_ifs
      · exact Or.inl ⟨_, rfl, rfl⟩
      · cases s.deliveryResult entry.emailId true with
        | none => exact Or.inl ⟨_, rfl, rfl⟩
        | some replay => exact Or.inr ⟨replay, rfl, rfl⟩
    | none =>
      dsimp only
      rw [exec_reads_bind]
      dsimp only
      cases hfree : (s.emails.has c.email.id || s.deliveryMessages.has c.message.id ||
          s.outboxItems.has c.outbox.id) with
      | true => exact Or.inl (Or.inl ⟨_, rfl, rfl⟩)
      | false =>
        refine Or.inr ⟨c, rfl, ?_⟩
        cases stageRecipients s.deliveryRecipients c.recipients with
        | error e => rfl
        | ok rows => rfl

section Records

variable {hook : MutationHook} {s : MemoryStore} {input c : DeliveryCommit} {now : ℕ}

/-- What is staged is what `commitDelivery` commits. -/
theorem commitDelivery_of_staged
    (hcommit : s.commitDelivery input now =
      (stageRecipients s.deliveryRecipients c.recipients).map
        fun rows => (s.withDelivery c rows, { c with replayed := false }))
    {u : Unit} {t : Staging MemoryStore MemoryDeliveryMutation}
    (h : exec (stageDelivery hook c) s.idle = (.ok u, t)) :
    s.commitDelivery input now = .ok (swapDelivery s t.copy, { c with replayed := false }) := by
  obtain ⟨rows, hrows, hswap⟩ := exec_stageDelivery_ok h
  change stageRecipients s.deliveryRecipients c.recipients = .ok rows at hrows
  rw [hcommit, hrows]
  exact congrArg (fun s' => Except.ok (s', _)) hswap.symm

theorem commitRecords_atomic
    (hcommit : s.commitDelivery input now =
      (stageRecipients s.deliveryRecipients c.recipients).map
        fun rows => (s.withDelivery c rows, { c with replayed := false })) :
    AtomicUnder hook (·.isSwap) s (s.afterCommit input now)
      (exec (commitRecords hook c) s.idle).2 := by
  refine .of_swap (stages_stageDelivery c) (fun u t h => ?_) fun _ t => ?_
  · rw [afterCommit, commitDelivery_of_staged hcommit h]
  · rw [exec_bind, exec_call]
    have hnew : ∀ x ∈ [(MemoryDeliveryMutation.commitSwap, t.live)],
        x.2 = t.live ∧ x.1.isSwap = true := by
      simp [MemoryDeliveryMutation.isSwap]
    cases hook t.calls.length .commitSwap with
    | none => exact ⟨rfl, _, rfl, hnew⟩
    | some e => exact ⟨rfl, _, rfl, hnew⟩

/-- Past the swap the commit has succeeded. -/
theorem commitDelivery_of_swapped
    (hcommit : s.commitDelivery input now =
      (stageRecipients s.deliveryRecipients c.recipients).map
        fun rows => (s.withDelivery c rows, { c with replayed := false }))
    {x : MemoryDeliveryMutation × MemoryStore}
    (hx : x ∈ (exec (commitRecords hook c) s.idle).2.calls) (hswap : x.1.isSwap = true) :
    ∃ r, s.commitDelivery input now = .ok (x.2, r) := by
  have hseen := (commitRecords_atomic hcommit).seen x hx
  rw [if_pos hswap] at hseen
  rw [commitRecords, exec_bind] at hx
  rcases hstage : exec (stageDelivery hook c) s.idle with ⟨r, t⟩
  rw [hstage] at hx
  cases r with
  | error e =>
    have hstages : Stages hook (·.isSwap) (stageDelivery hook c) := stages_stageDelivery c
    obtain ⟨new, hcalls, hnew⟩ := (hstages s.idle).1.calls
    rw [hstage] at hcalls
    have hmem : x ∈ s.idle.calls ++ new := hcalls ▸ hx
    rw [(hnew x hmem).2] at hswap
    cases hswap
  | ok u =>
    have hdone := commitDelivery_of_staged hcommit hstage
    rw [hseen, afterCommit, hdone]
    exact ⟨_, rfl⟩

theorem commitRecords_ok
    (hcommit : s.commitDelivery input now =
      (stageRecipients s.deliveryRecipients c.recipients).map
        fun rows => (s.withDelivery c rows, { c with replayed := false }))
    {r : DeliveryCommitResult} {t : Staging MemoryStore MemoryDeliveryMutation}
    (h : exec (commitRecords hook c) s.idle = (.ok r, t)) :
    s.commitDelivery input now = .ok (t.live, r) := by
  obtain ⟨_, t₁, hstage, h⟩ := exec_bind_ok.mp h
  have hlive : t₁.live = s := (stages_stageDelivery c).live_eq hstage
  rw [exec_swap_bind] at h
  cases exec_call_bind_ok h
  rw [commitDelivery_of_staged hcommit hstage]
  dsimp only
  rw [hlive]

end Records

/-- The swap of a plan is the last thing its commit does. -/
theorem commitLedgerPlanUnder_eq (hook : MutationHook) (plan : DeliveryLedgerState)
    (attempt : Option AttemptRecord) (event : Option ProviderEventRecord) :
    commitLedgerPlanUnder hook plan attempt event =
      stageLedgerPlan hook plan attempt event >>= fun _ =>
        swap swapLedgerPlan >>= fun _ => pure () := rfl

/-! ### Without faults -/

section Unfaulted

variable {hook : MutationHook} (hquiet : ∀ n m, hook n m = none)
include hquiet

theorem exec_stageRecipients_quiet {rs : List RecipientRecord} {i : ℕ}
    {st : Staging MemoryStore MemoryDeliveryMutation} :
    (exec (forEach (stageRecipient hook) i rs) st).1 =
      (stageRecipients st.copy.deliveryRecipients rs).map fun _ => () := by
  induction rs generalizing i st with
  | nil => rfl
  | cons r rs ih =>
    rw [forEach, stageRecipients, exec_bind, stageRecipient, exec_reads_bind]
    cases st.copy.deliveryRecipients.has r.id with
    | true => rfl
    | false =>
      dsimp only [throwIf, Bool.false_eq_true, ↓reduceIte]
      rw [exec_write_bind, exec_call, hquiet]
      exact ih

/-- Only a recipient that is in use ends the staging of a delivery. -/
theorem exec_stageDelivery_quiet {c : DeliveryCommit} (s : MemoryStore) :
    (exec (stageDelivery hook c) s.idle).1 =
      (stageRecipients s.deliveryRecipients c.recipients).map fun _ => () := by
  have hrest : ∀ t, (exec (stageIdempotency hook c.email.id c.idempotency >>= fun _ =>
      write (fun next => { next with outboxItems := next.outboxItems.set c.outbox.id c.outbox }) >>=
      fun _ => write (fun next => { next with
        outboxByMessage := next.outboxByMessage.set c.message.id c.outbox.id }) >>=
      fun _ => call hook (.commit .outbox none)) t).1 = .ok () := by
    intro t
    have hclaim : ∃ t', exec (stageIdempotency hook c.email.id c.idempotency) t = (.ok (), t') := by
      cases c.idempotency with
      | none => exact ⟨t, rfl⟩
      | some claim =>
        rw [stageIdempotency, exec_write_bind, exec_call, hquiet]
        exact ⟨_, rfl⟩
    obtain ⟨t', ht'⟩ := hclaim
    rw [exec_bind, ht']
    dsimp only
    rw [exec_write_bind, exec_write_bind, exec_call, hquiet]
  rw [stageDelivery, exec_copyMaps_bind, exec_write_bind, exec_call_bind_of_none (hquiet _ _),
    exec_write_bind, exec_call_bind_of_none (hquiet _ _), fst_exec_bind_of_ok hrest]
  exact exec_stageRecipients_quiet hquiet

/-- Nothing ends the staging of a plan. -/
theorem exec_stageLedgerPlan_quiet (plan : DeliveryLedgerState) (attempt : Option AttemptRecord)
    (event : Option ProviderEventRecord) (s : MemoryStore) :
    (exec (stageLedgerPlan hook plan attempt event) s.idle).1 = .ok () := by
  have hrecipients : ∀ (rs : List RecipientRecord) (i : ℕ) (t),
      (exec (forEach (stageLedgerRecipient hook) i rs) t).1 = .ok () := by
    intro rs
    induction rs with
    | nil => exact fun _ _ => rfl
    | cons r rs ih =>
      intro i t
      rw [forEach, exec_bind, stageLedgerRecipient, exec_write_bind, exec_call, hquiet]
      exact ih _ _
  have hevent : ∀ t, (exec (stageEvent hook event) t).1 = .ok () := by
    intro t
    cases event with
    | none => rfl
    | some e => rw [stageEvent, exec_write_bind, exec_call, hquiet]
  have hattempt : ∀ t, (exec (stageAttempt hook attempt >>= fun _ => stageEvent hook event) t).1 =
      .ok () := by
    intro t
    rw [fst_exec_bind_of_ok hevent]
    cases attempt with
    | none => rfl
    | some a => rw [stageAttempt, exec_write_bind, exec_call, hquiet]
  rw [stageLedgerPlan, exec_copyMaps_bind, exec_write_bind, exec_call_bind_of_none (hquiet _ _),
    exec_write_bind, exec_call_bind_of_none (hquiet _ _), fst_exec_bind_of_ok hattempt]
  exact hrecipients _ _ _

/-- **Without faults** the commits under the hook are the commits of the store. -/
theorem commits_unfaulted (s : MemoryStore) :
    (∀ input now, ∃ t, exec (commitDeliveryUnder hook input now) s.idle =
        ((s.commitDelivery input now).map Prod.snd, t) ∧ t.live = s.afterCommit input now) ∧
    ∀ plan attempt event, ∃ t, exec (commitLedgerPlanUnder hook plan attempt event) s.idle =
      (.ok (), t) ∧ t.live = s.commitLedgerPlan plan attempt event := by
  refine ⟨fun input now => ?_, fun plan attempt event => ?_⟩
  · unfold afterCommit
    rcases commitDeliveryUnder_cases hook s input now with
      (⟨e, hexec, he⟩ | ⟨r, hexec, hr⟩) | ⟨c, hexec, hcommit⟩
    · rw [hexec, he]
      exact ⟨_, rfl, rfl⟩
    · rw [hexec, hr]
      exact ⟨_, rfl, rfl⟩
    · rw [hexec, commitRecords, exec_bind]
      have hquietly := exec_stageDelivery_quiet hquiet (c := c) s
      rcases hstage : exec (stageDelivery hook c) s.idle with ⟨e | u, t⟩
      · rw [hstage] at hquietly
        cases hrows : stageRecipients s.deliveryRecipients c.recipients with
        | ok rows =>
          rw [hrows] at hquietly
          cases hquietly
        | error f =>
          rw [hrows] at hquietly
          cases hquietly
          rw [hcommit, hrows]
          exact ⟨t, rfl, (stages_stageDelivery c).live_eq hstage⟩
      · have hlive : t.live = s := (stages_stageDelivery c).live_eq hstage
        rw [commitDelivery_of_staged hcommit hstage]
        dsimp only
        rw [exec_swap_bind, exec_call_bind_of_none (hquiet _ _), hlive]
        exact ⟨_, rfl, rfl⟩
  · have hok := exec_stageLedgerPlan_quiet hquiet plan attempt event s
    rcases hstage : exec (stageLedgerPlan hook plan attempt event) s.idle with ⟨r, t⟩
    rw [hstage] at hok
    obtain rfl : r = .ok () := hok
    have hlive : t.live = s := (stages_stageLedgerPlan plan attempt event).live_eq hstage
    rw [commitLedgerPlanUnder_eq, exec_bind, hstage]
    refine ⟨_, rfl, ?_⟩
    dsimp only
    rw [hlive]
    exact exec_stageLedgerPlan_ok hstage

end Unfaulted

/-- **The commits of the store are atomic under faults.** Wherever the hook throws, every map of the
store is as before or as after the whole commit: as before if the fault came before the swap, as
after if it came at the swap; the hook itself never sees anything else. The swap hook is called only
for a commit that succeeds, and a commit that returns has made all of its writes. -/
theorem commits_atomic (hook : MutationHook) (s : MemoryStore) :
    (∀ input now,
      AtomicUnder hook (·.isSwap) s (s.afterCommit input now)
        (exec (commitDeliveryUnder hook input now) s.idle).2 ∧
      (∀ x ∈ (exec (commitDeliveryUnder hook input now) s.idle).2.calls, x.1.isSwap = true →
        ∃ r, s.commitDelivery input now = .ok (x.2, r)) ∧
      ∀ r t, exec (commitDeliveryUnder hook input now) s.idle = (.ok r, t) →
        s.commitDelivery input now = .ok (t.live, r)) ∧
    ∀ plan attempt event,
      AtomicUnder hook (·.isSwap) s (s.commitLedgerPlan plan attempt event)
        (exec (commitLedgerPlanUnder hook plan attempt event) s.idle).2 ∧
      ∀ u t, exec (commitLedgerPlanUnder hook plan attempt event) s.idle = (.ok u, t) →
        t.live = s.commitLedgerPlan plan attempt event := by
  refine ⟨fun input now => ?_, fun plan attempt event => ⟨?_, fun u t h => ?_⟩⟩
  · rcases commitDeliveryUnder_cases hook s input now with
      (⟨e, hexec, he⟩ | ⟨r, hexec, hr⟩) | ⟨c, hexec, hcommit⟩ <;> rw [hexec]
    · exact ⟨.of_nothing rfl rfl, fun x hx => (by cases hx), fun r t h => (by cases h)⟩
    · refine ⟨.of_nothing rfl rfl, fun x hx => (by cases hx), fun r' t h => ?_⟩
      cases h
      exact hr
    · exact ⟨commitRecords_atomic hcommit, fun x hx => commitDelivery_of_swapped hcommit hx,
        fun r t h => commitRecords_ok hcommit h⟩
  · rw [commitLedgerPlanUnder_eq]
    refine .of_swap (stages_stageLedgerPlan plan attempt event) (fun _ _ h => ?_) fun _ t => ?_
    · exact exec_stageLedgerPlan_ok h
    · exact ⟨rfl, [], (List.append_nil _).symm, by simp⟩
  · obtain ⟨_, t₁, hstage, hswap⟩ := exec_bind_ok.mp h
    have hlive : t₁.live = s := (stages_stageLedgerPlan plan attempt event).live_eq hstage
    cases hswap
    dsimp only
    rw [hlive]
    exact exec_stageLedgerPlan_ok hstage

/-- A hook that throws at the swap. -/
def swapFault : MutationHook := fun _ mutation =>
  if mutation.isSwap then some (.error "fault") else none

/-- The commit throws, and all of it is in the store. -/
example :
    let run := exec (commitDeliveryUnder swapFault sampleCommit 1) ({} : MemoryStore).idle
    run.1.toOption = none ∧ run.2.live = ({} : MemoryStore).afterCommit sampleCommit 1 ∧
      run.2.live.emails.has sampleCommit.email.id = true := by
  decide +kernel

end MemoryStore

end HayaSend
