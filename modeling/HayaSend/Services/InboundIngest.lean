import HayaSend.Foundations.OrderedMap
import HayaSend.Foundations.TransitionSystem
import HayaSend.Services.ReceivedEmails

/-!
# Inbound ingest

Any number of `ReceivedEmailService.ingest` calls on `MemoryStore`, each of which may stop between
any two operations. A call takes a lease, which only its expiry names, stores the record and has the
queue publish it; it releases the lease while the publication is still under way. The record of an
id is created once, the calls that return it agree, and none returns it before the queue has
accepted its job; while the clock does not go back, a call frees no lease but its own
(`ingest_exactly_once`).
-/

namespace HayaSend

/-! ## The store -/

/-- The leases and the records of received emails in `MemoryStore`. -/
structure ReceivedStore where
  receivedClaims : OrderedMap String ℕ := ∅
  receivedEmails : OrderedMap String ReceivedEmailRecord := ∅

namespace ReceivedStore

/-- A lease is refused while one is stored that has not expired. -/
def claimReceivedEmail (s : ReceivedStore) (id : String) (now leaseUntil : ℕ) :
    ReceivedStore × Bool :=
  if (s.receivedClaims.get id).any (now ≤ ·) then (s, false)
  else ({ s with receivedClaims := s.receivedClaims.set id leaseUntil }, true)

def releaseReceivedEmailClaim (s : ReceivedStore) (id : String) (leaseUntil : ℕ) : ReceivedStore :=
  if s.receivedClaims.get id = some leaseUntil then
    { s with receivedClaims := s.receivedClaims.erase id }
  else s

def createReceivedEmail (s : ReceivedStore) (record : ReceivedEmailRecord) : ReceivedStore × Bool :=
  if s.receivedEmails.has record.id then (s, false)
  else ({ s with receivedEmails := s.receivedEmails.set record.id record }, true)

def getReceivedEmail (s : ReceivedStore) (id : String) : Option ReceivedEmailRecord :=
  s.receivedEmails.get id

theorem releaseReceivedEmailClaim_eq (s : ReceivedStore) (id : String) (leaseUntil : ℕ) :
    s.releaseReceivedEmailClaim id leaseUntil = { s with
      receivedClaims := if s.receivedClaims.get id = some leaseUntil then s.receivedClaims.erase id
        else s.receivedClaims } := by
  unfold releaseReceivedEmailClaim
  split <;> rfl

/-- The one update there is, of `webhook_queued_at`. -/
def updateReceivedEmail (s : ReceivedStore) (id webhookQueuedAt : String) :
    ReceivedStore × Option ReceivedEmailRecord :=
  match s.receivedEmails.get id with
  | none => (s, none)
  | some record =>
    let updated := record.marked webhookQueuedAt
    ({ s with receivedEmails := s.receivedEmails.set id updated }, some updated)

end ReceivedStore

/-! ## Calls -/

/-- The job `publish_received_email`. -/
structure PublishReceivedEmail where
  emailId : String
  deriving DecidableEq, Repr

/-- How `queue.enqueue` ends: it may fail after the job was accepted. -/
inductive EnqueueAnswer
  | accepted
  | acceptedThenFailed (e : Failure)
  | failed (e : Failure)
  deriving DecidableEq, Repr

/-- What a step finds outside the store: the size of the raw message, the parsed message, whether a
write to the object storage fails, and the answer of the queue. -/
structure IngestAnswers where
  raw : Except Failure ℕ := .ok 1
  parsed : Except Failure ParsedEmail
  written : Except Failure Unit := .ok ()
  queue : EnqueueAnswer := .accepted

/-- Where a call stands: the operation it is about to do, with what it needs for it. -/
inductive IngestPc
  | requested
  | claiming
  | refused
  | reading
  | writing (parsed : ParsedEmail) (attachments : List ReceivedEmailAttachment)
  | creating (parsed : ParsedEmail) (attachments : List ReceivedEmailAttachment)
  | rereading
  | enqueueing (record : ReceivedEmailRecord)
  | marking (record : ReceivedEmailRecord)
  | settled (result : Except Failure (Option ReceivedEmailRecord))
  | crashed

/-- A call, with the lease it has to release and the expiry of its record. -/
structure IngestCall where
  event : InboundEmailEvent
  pc : IngestPc := .requested
  lease : Option ℕ := none
  expiresAt : ℕ := 0

/-- The store and the call after a step; the lease the call took, the id of the record it created
and the job it had accepted. -/
structure IngestAdvance where
  store : ReceivedStore
  call : IngestCall
  claimed : Option ℕ := none
  created : Option String := none
  accepted : Option PublishReceivedEmail := none

namespace IngestCall

/-- The call goes on at another place. -/
def goto (c : IngestCall) (pc : IngestPc) : IngestCall := { c with pc := pc }

def fail (c : IngestCall) (e : Failure) : IngestCall := c.goto (.settled (.error e))

/-- `ensureWebhookQueued`, up to its call of the queue. -/
def ensureWebhookQueued (c : IngestCall) (record : ReceivedEmailRecord) : IngestCall :=
  if isSet record.webhookQueuedAt then c.goto (.settled (.ok (some record)))
  else c.goto (.enqueueing record)

/-- The raw message is read and parsed. -/
def read (options : ReceivedEmailOptions) (answers : IngestAnswers) (c : IngestCall) :
    IngestCall :=
  match (do
    let byteLength ← answers.raw
    throwIf (byteLength < 1 || byteLength > options.maxMessageBytes)
      (.validation ("Inbound message size must be between 1 and " ++
        toString options.maxMessageBytes ++ " bytes."))
    let parsed ← answers.parsed
    throwIf (maxReceivedAttachments < parsed.attachments.length)
      (.validation ("Inbound messages may contain at most " ++ toString maxReceivedAttachments ++
        " attachments."))
    return parsed) with
  | .error e => c.fail e
  | .ok parsed => c.goto (.writing parsed [])

/-- The next attachment is written, or after the last the content. -/
def write (p : Platform) (answers : IngestAnswers) (c : IngestCall) (parsed : ParsedEmail)
    (attachments : List ReceivedEmailAttachment) : IngestCall :=
  match parsed.attachments[attachments.length]? with
  | some attachment =>
    match (do
      let received ← receivedAttachment p (receivedId p c.event) attachments.length attachment
      answers.written
      return received) with
    | .error e => c.fail e
    | .ok received => c.goto (.writing parsed (attachments ++ [received]))
  | none =>
    match answers.written with
    | .error e => c.fail e
    | .ok () => c.goto (.creating parsed attachments)

/-- A call up to the end of its next operation; `now` is the time in milliseconds. -/
def advance (p : Platform) (options : ReceivedEmailOptions) (now : ℕ) (answers : IngestAnswers)
    (s : ReceivedStore) (c : IngestCall) : Option IngestAdvance :=
  let id := receivedId p c.event
  match c.pc with
  | .requested =>
    if !validProviderMessageId c.event.providerMessageId then
      some {
        store := s
        call := c.fail (.validation "Invalid inbound provider message ID.") }
    else match s.getReceivedEmail id with
      | some existing => some { store := s, call := c.ensureWebhookQueued existing }
      | none => some { store := s, call := c.goto .claiming }
  | .claiming =>
    let leaseUntil := epochSeconds now + processingLeaseSeconds
    match s.claimReceivedEmail id (epochSeconds now) leaseUntil with
    | (s', true) => some {
        store := s'
        call := { c with
          pc := .reading
          lease := some leaseUntil
          expiresAt := epochSeconds now + options.retentionDays * 24 * 60 * 60 }
        claimed := some leaseUntil }
    | (s', false) => some { store := s', call := c.goto .refused }
  | .refused =>
    match s.getReceivedEmail id with
    | some completed => some { store := s, call := c.ensureWebhookQueued completed }
    | none => some {
        store := s
        call := c.fail
          (.error "Inbound email processing is already leased; retry the event.") }
  | .reading => some { store := s, call := c.read options answers }
  | .writing parsed attachments => some { store := s, call := c.write p answers parsed attachments }
  | .creating parsed attachments =>
    let record := receivedRecord p options c.event parsed attachments c.expiresAt now
    match s.createReceivedEmail record with
    | (s', true) => some {
        store := s'
        call := c.ensureWebhookQueued record
        created := some record.id }
    | (s', false) => some { store := s', call := c.goto .rereading }
  | .rereading =>
    match s.getReceivedEmail id with
    | some persisted => some { store := s, call := c.ensureWebhookQueued persisted }
    | none => some { store := s, call := c.goto (.settled (.ok none)) }
  | .enqueueing record =>
    match answers.queue with
    | .accepted => some {
        store := s
        call := c.goto (.marking record)
        accepted := some ⟨record.id⟩ }
    | .acceptedThenFailed e => some {
        store := s
        call := c.fail e
        accepted := some ⟨record.id⟩ }
    | .failed e => some { store := s, call := c.fail e }
  | .marking record =>
    let (s', updated) := s.updateReceivedEmail record.id (toISOString now)
    some { store := s', call := c.goto (.settled (.ok (some (updated.getD record)))) }
  | .settled _ | .crashed => none

/-- The lease the `finally` of a call releases. It runs as soon as the call has returned the promise
of `ensureWebhookQueued`, which need not be settled. -/
def releasing (c : IngestCall) : Option ℕ :=
  match c.pc with
  | .enqueueing _ | .marking _ | .settled _ => c.lease
  | _ => none

/-- The record a call has resolved with. -/
def resolved (c : IngestCall) : Option ReceivedEmailRecord :=
  match c.pc, c.lease with
  | .settled (.ok record), none => record
  | _, _ => none

end IngestCall

/-! ## Runs -/

/-- A lease that was freed: the call that released it, and the one that had taken it. -/
structure FreedLease where
  releasedBy : ℕ
  takenBy : Option ℕ
  deriving DecidableEq, Repr

/-- The clock, in milliseconds, the store and the calls; the jobs accepted, the ids of the records
created, the call that took the lease of each id last, and the leases freed. -/
structure IngestWorld where
  clock : ℕ := 0
  store : ReceivedStore := {}
  calls : List IngestCall := []
  accepted : List PublishReceivedEmail := []
  created : List String := []
  takenBy : OrderedMap String ℕ := ∅
  freed : List FreedLease := []

inductive IngestLabel
  /-- The clock shows another time. -/
  | clock (now : ℕ)
  | ingest (event : InboundEmailEvent)
  | advance (call : ℕ) (answers : IngestAnswers)
  | release (call : ℕ)
  | crash (call : ℕ)

/-- The call at a place frees the lease of an id, if it is stored as the call took it. -/
def IngestWorld.release (w : IngestWorld) (id : String) (i leaseUntil : ℕ) : IngestWorld :=
  { w with
    store := w.store.releaseReceivedEmailClaim id leaseUntil
    freed := if w.store.receivedClaims.get id = some leaseUntil then
      w.freed ++ [⟨i, w.takenBy.get id⟩] else w.freed }

/-- Calls for any messages, in any interleaving. -/
def ingestSystem (p : Platform) (options : ReceivedEmailOptions) :
    TransitionSystem IngestWorld IngestLabel where
  init w := w = {}
  step w
    | .clock now => some { w with clock := now }
    | .ingest event => some { w with calls := w.calls ++ [{ event := event }] }
    | .advance i answers => do
      let c ← w.calls[i]?
      let after ← c.advance p options w.clock answers w.store
      return { w with
        store := after.store
        calls := w.calls.set i after.call
        accepted := w.accepted ++ after.accepted.toList
        created := w.created ++ after.created.toList
        takenBy := if after.claimed.isSome then w.takenBy.set (receivedId p c.event) i
          else w.takenBy }
    | .release i => do
      let c ← w.calls[i]?
      let leaseUntil ← c.releasing
      return { w.release (receivedId p c.event) i leaseUntil with
        calls := w.calls.set i { c with lease := none } }
    | .crash i => do
      let c ← w.calls[i]?
      return { w with calls := w.calls.set i (c.goto .crashed) }

/-- The clock does not go back. -/
def ClockForward (w : IngestWorld) : IngestLabel → Prop
  | .clock now => w.clock ≤ now
  | _ => True

instance (w : IngestWorld) (l : IngestLabel) : Decidable (ClockForward w l) :=
  match l with
  | .clock now => inferInstanceAs (Decidable (w.clock ≤ now))
  | .ingest _ | .advance _ _ | .release _ | .crash _ => .isTrue trivial

/-! ## What a call knows -/

/-- A record is stored under the id, up to `webhook_queued_at`. -/
def ReceivedStore.Holds (s : ReceivedStore) (id : String) (record : ReceivedEmailRecord) : Prop :=
  ∃ stored, s.receivedEmails.get id = some stored ∧ stored.unmarked = record.unmarked

/-- Records are stored under their ids, and the job of one that is marked was accepted. -/
def ReceivedStore.Published (s : ReceivedStore) (accepted : List PublishReceivedEmail) : Prop :=
  ∀ id record, s.receivedEmails.get id = some record →
    record.id = id ∧ (isSet record.webhookQueuedAt → ⟨id⟩ ∈ accepted)

/-- A call holds the stored record, and past its enqueue the job of it was accepted. -/
def IngestCall.Known (p : Platform) (s : ReceivedStore) (accepted : List PublishReceivedEmail)
    (c : IngestCall) : Prop :=
  match c.pc with
  | .enqueueing record => s.Holds (receivedId p c.event) record
  | .marking record | .settled (.ok (some record)) =>
    s.Holds (receivedId p c.event) record ∧ ⟨receivedId p c.event⟩ ∈ accepted
  | _ => True

/-- Records stay stored, up to `webhook_queued_at`. -/
def ReceivedStore.Keeps (s s' : ReceivedStore) : Prop :=
  ∀ id record, s.Holds id record → s'.Holds id record

section Knowledge

variable {p : Platform} {s s' : ReceivedStore} {accepted more : List PublishReceivedEmail}
  {c : IngestCall} {id : String} {record : ReceivedEmailRecord}

theorem ReceivedStore.Holds.id_eq (h : s.Holds id record) (hs : s.Published accepted) :
    record.id = id := by
  obtain ⟨stored, hstored, hrecord⟩ := h
  rw [← (hs id stored hstored).1]
  exact (congrArg ReceivedEmailRecord.id hrecord).symm

/-- Two calls hold the same record. -/
theorem ReceivedStore.Holds.agree {other : ReceivedEmailRecord} (h : s.Holds id record)
    (h' : s.Holds id other) : record.unmarked = other.unmarked := by
  obtain ⟨stored, hstored, hrecord⟩ := h
  obtain ⟨stored', hstored', hother⟩ := h'
  obtain rfl : stored = stored' := Option.some.inj (hstored.symm.trans hstored')
  exact hrecord.symm.trans hother

theorem IngestCall.Known.mono (h : c.Known p s accepted) (hs : s.Keeps s')
    (hsub : accepted ⊆ more) : c.Known p s' more := by
  unfold IngestCall.Known at h ⊢
  split
  · rename_i record hpc
    rw [hpc] at h
    exact hs _ _ h
  · rename_i record hpc
    rw [hpc] at h
    exact ⟨hs _ _ h.1, hsub h.2⟩
  · rename_i record hpc
    rw [hpc] at h
    exact ⟨hs _ _ h.1, hsub h.2⟩
  · trivial

theorem IngestCall.ensureWebhookQueued_known (hs : s.Published accepted)
    (h : s.receivedEmails.get (receivedId p c.event) = some record) :
    (c.ensureWebhookQueued record).Known p s accepted := by
  unfold IngestCall.ensureWebhookQueued
  split
  · rename_i hset
    exact ⟨⟨record, h, rfl⟩, (hs _ _ h).2 hset⟩
  · exact ⟨record, h, rfl⟩

end Knowledge

/-! ## What a step does -/

/-- **A step of a call**, which does one of four things to the store. -/
inductive IngestStep (p : Platform) (now : ℕ) (s : ReceivedStore)
    (accepted : List PublishReceivedEmail) (c : IngestCall) (after : IngestAdvance) : Prop
  | kept (hstore : after.store = s) (hclaimed : after.claimed = none)
      (hcreated : after.created = none) (hlease : after.call.lease = c.lease)
      (hknown : after.call.Known p s (accepted ++ after.accepted.toList))
  | claimed (leaseUntil : ℕ)
      (hstore : after.store = { s with
        receivedClaims := s.receivedClaims.set (receivedId p c.event) leaseUntil })
      (hfree : ∀ stored, s.receivedClaims.get (receivedId p c.event) = some stored →
        stored < epochSeconds now)
      (hlease : leaseUntil = epochSeconds now + processingLeaseSeconds)
      (hcall : after.call.lease = some leaseUntil) (hpc : after.call.pc = .reading)
      (hclaimed : after.claimed = some leaseUntil) (hcreated : after.created = none)
      (haccepted : after.accepted = none)
  | created (record : ReceivedEmailRecord)
      (hstore : after.store = { s with
        receivedEmails := s.receivedEmails.set (receivedId p c.event) record })
      (habsent : s.receivedEmails.get (receivedId p c.event) = none)
      (hid : record.id = receivedId p c.event) (hmark : record.webhookQueuedAt = none)
      (hcall : after.call = c.goto (.enqueueing record))
      (hclaimed : after.claimed = none) (hcreated : after.created = some (receivedId p c.event))
      (haccepted : after.accepted = none)
  | marked (record : ReceivedEmailRecord) (webhookQueuedAt : String)
      (hstored : s.receivedEmails.get (receivedId p c.event) = some record)
      (hstore : after.store = { s with
        receivedEmails := s.receivedEmails.set (receivedId p c.event)
          (record.marked webhookQueuedAt) })
      (hcall : after.call = c.goto (.settled (.ok (some (record.marked webhookQueuedAt)))))
      (hjob : ⟨receivedId p c.event⟩ ∈ accepted)
      (hclaimed : after.claimed = none) (hcreated : after.created = none)
      (haccepted : after.accepted = none)

section Step

variable {p : Platform} {options : ReceivedEmailOptions} {now : ℕ} {answers : IngestAnswers}
  {s : ReceivedStore} {accepted : List PublishReceivedEmail} {c : IngestCall}
  {after : IngestAdvance}

@[simp] theorem IngestCall.fail_known (e : Failure) : (c.fail e).Known p s accepted := trivial

@[simp] theorem IngestCall.ensureWebhookQueued_lease (record : ReceivedEmailRecord) :
    (c.ensureWebhookQueued record).lease = c.lease := by
  unfold IngestCall.ensureWebhookQueued
  split <;> rfl

@[simp] theorem IngestCall.ensureWebhookQueued_event (record : ReceivedEmailRecord) :
    (c.ensureWebhookQueued record).event = c.event := by
  unfold IngestCall.ensureWebhookQueued
  split <;> rfl

/-- A step that only moves the call. -/
theorem ingestStep_moved {c' : IngestCall} (hlease : c'.lease = c.lease)
    (hknown : c'.Known p s accepted) :
    IngestStep p now s accepted c { store := s, call := c' } :=
  .kept rfl rfl rfl hlease (by simpa using hknown)

@[simp] theorem IngestCall.read_lease : (c.read options answers).lease = c.lease := by
  unfold IngestCall.read
  split <;> rfl

@[simp] theorem IngestCall.read_event : (c.read options answers).event = c.event := by
  unfold IngestCall.read
  split <;> rfl

theorem IngestCall.read_known : (c.read options answers).Known p s accepted := by
  unfold IngestCall.read
  split <;> trivial

section Write

variable {parsed : ParsedEmail} {attachments : List ReceivedEmailAttachment}

@[simp] theorem IngestCall.write_lease :
    (c.write p answers parsed attachments).lease = c.lease := by
  unfold IngestCall.write
  split <;> split <;> rfl

@[simp] theorem IngestCall.write_event :
    (c.write p answers parsed attachments).event = c.event := by
  unfold IngestCall.write
  split <;> split <;> rfl

theorem IngestCall.write_known : (c.write p answers parsed attachments).Known p s accepted := by
  unfold IngestCall.write
  split <;> split <;> trivial

end Write

theorem claim_step (hpc : c.pc = .claiming)
    (h : c.advance p options now answers s = some after) : IngestStep p now s accepted c after := by
  simp only [IngestCall.advance, hpc, ReceivedStore.claimReceivedEmail] at h
  by_cases hheld : (s.receivedClaims.get (receivedId p c.event)).any (epochSeconds now ≤ ·)
  · simp only [hheld, if_true, Option.some.injEq] at h
    subst h
    exact ingestStep_moved rfl trivial
  · simp only [hheld, Bool.false_eq_true, if_false, Option.some.injEq] at h
    subst h
    refine .claimed _ rfl (fun stored hstored => ?_) rfl rfl rfl rfl rfl rfl
    simpa [hstored] using hheld

theorem create_step {parsed : ParsedEmail} {attachments : List ReceivedEmailAttachment}
    (hpc : c.pc = .creating parsed attachments)
    (h : c.advance p options now answers s = some after) : IngestStep p now s accepted c after := by
  simp only [IngestCall.advance, hpc, ReceivedStore.createReceivedEmail] at h
  by_cases hhas : s.receivedEmails.has
      (receivedRecord p options c.event parsed attachments c.expiresAt now).id
  · simp only [hhas, if_true, Option.some.injEq] at h
    subst h
    exact ingestStep_moved rfl trivial
  · simp only [hhas, Bool.false_eq_true, if_false, Option.some.injEq] at h
    subst h
    have habsent := (OrderedMap.get_eq_none_iff _ _).mpr (Bool.not_eq_true _ ▸ hhas)
    exact .created _ rfl habsent rfl rfl rfl rfl rfl rfl

theorem enqueue_step {record : ReceivedEmailRecord} (hs : s.Published accepted)
    (hpc : c.pc = .enqueueing record) (hheld : s.Holds (receivedId p c.event) record)
    (h : c.advance p options now answers s = some after) : IngestStep p now s accepted c after := by
  simp only [IngestCall.advance, hpc] at h
  split at h
  · obtain rfl := Option.some.inj h
    refine .kept rfl rfl rfl rfl ⟨hheld, ?_⟩
    rw [hheld.id_eq hs]
    exact List.mem_append_right _ (List.mem_singleton_self _)
  · obtain rfl := Option.some.inj h
    exact .kept rfl rfl rfl rfl trivial
  · obtain rfl := Option.some.inj h
    exact .kept rfl rfl rfl rfl trivial

theorem mark_step {record : ReceivedEmailRecord} (hs : s.Published accepted)
    (hpc : c.pc = .marking record) (hheld : s.Holds (receivedId p c.event) record)
    (hjob : ⟨receivedId p c.event⟩ ∈ accepted)
    (h : c.advance p options now answers s = some after) : IngestStep p now s accepted c after := by
  have hid := hheld.id_eq hs
  obtain ⟨stored, hstored, -⟩ := hheld
  simp only [IngestCall.advance, hpc, ReceivedStore.updateReceivedEmail, hid, hstored,
    Option.some.injEq] at h
  subst h
  exact .marked stored _ hstored rfl rfl hjob rfl rfl rfl

/-- **What a step does.** -/
theorem ingest_step (hs : s.Published accepted) (hc : c.Known p s accepted)
    (h : c.advance p options now answers s = some after) : IngestStep p now s accepted c after := by
  cases hpc : c.pc with
  | requested =>
    simp only [IngestCall.advance, hpc] at h
    split at h
    · obtain rfl := Option.some.inj h
      exact ingestStep_moved rfl trivial
    · split at h
      · rename_i existing hexisting
        obtain rfl := Option.some.inj h
        exact ingestStep_moved (by simp) (IngestCall.ensureWebhookQueued_known hs hexisting)
      · obtain rfl := Option.some.inj h
        exact ingestStep_moved rfl trivial
  | claiming => exact claim_step hpc h
  | refused =>
    simp only [IngestCall.advance, hpc] at h
    split at h
    · rename_i completed hcompleted
      obtain rfl := Option.some.inj h
      exact ingestStep_moved (by simp) (IngestCall.ensureWebhookQueued_known hs hcompleted)
    · obtain rfl := Option.some.inj h
      exact ingestStep_moved rfl trivial
  | reading =>
    simp only [IngestCall.advance, hpc, Option.some.injEq] at h
    subst h
    exact ingestStep_moved (by simp) IngestCall.read_known
  | writing parsed attachments =>
    simp only [IngestCall.advance, hpc, Option.some.injEq] at h
    subst h
    exact ingestStep_moved (by simp) IngestCall.write_known
  | creating parsed attachments => exact create_step hpc h
  | rereading =>
    simp only [IngestCall.advance, hpc] at h
    split at h
    · rename_i persisted hpersisted
      obtain rfl := Option.some.inj h
      exact ingestStep_moved (by simp) (IngestCall.ensureWebhookQueued_known hs hpersisted)
    · obtain rfl := Option.some.inj h
      exact ingestStep_moved rfl trivial
  | enqueueing record =>
    simp only [IngestCall.Known, hpc] at hc
    exact enqueue_step hs hpc hc h
  | marking record =>
    simp only [IngestCall.Known, hpc] at hc
    exact mark_step hs hpc hc.1 hc.2 h
  | settled result => simp [IngestCall.advance, hpc] at h
  | crashed => simp [IngestCall.advance, hpc] at h

/-- A call keeps its event. -/
theorem IngestCall.advance_event (h : c.advance p options now answers s = some after) :
    after.call.event = c.event := by
  unfold IngestCall.advance at h
  simp only at h
  split at h <;> (try split at h) <;> (try split at h) <;> first
    | (obtain rfl := Option.some.inj h; first | rfl | simp)
    | cases h

theorem IngestStep.keeps (h : IngestStep p now s accepted c after) : s.Keeps after.store := by
  intro id record hheld
  obtain ⟨stored, hstored, hrecord⟩ := hheld
  cases h with
  | kept hstore => exact ⟨stored, by rw [hstore, hstored], hrecord⟩
  | claimed _ hstore => exact ⟨stored, by rw [hstore, hstored], hrecord⟩
  | created new hstore habsent =>
    have hne : id ≠ receivedId p c.event := by
      rintro rfl
      simp [habsent] at hstored
    exact ⟨stored, by rw [hstore, OrderedMap.get_set_ne _ _ hne, hstored], hrecord⟩
  | marked old webhookQueuedAt hold hstore =>
    by_cases hid : id = receivedId p c.event
    · subst hid
      obtain rfl : old = stored := Option.some.inj (hold.symm.trans hstored)
      exact ⟨old.marked webhookQueuedAt, by rw [hstore, OrderedMap.get_set_self], hrecord⟩
    · exact ⟨stored, by rw [hstore, OrderedMap.get_set_ne _ _ hid, hstored], hrecord⟩

theorem IngestStep.published (h : IngestStep p now s accepted c after)
    (hs : s.Published accepted) : after.store.Published (accepted ++ after.accepted.toList) := by
  intro id record hrecord
  have hold : s.receivedEmails.get id = some record →
      record.id = id ∧ (isSet record.webhookQueuedAt →
        ⟨id⟩ ∈ accepted ++ after.accepted.toList) := fun h =>
    ⟨(hs id record h).1, fun hset => List.mem_append_left _ ((hs id record h).2 hset)⟩
  cases h with
  | kept hstore => exact hold (by rw [← hrecord, hstore])
  | claimed _ hstore => exact hold (by rw [← hrecord, hstore])
  | created new hstore _ hid hmark =>
    rw [hstore, OrderedMap.get_set] at hrecord
    split_ifs at hrecord with hkey
    · obtain rfl := Option.some.inj hrecord
      exact ⟨hid.trans hkey.symm, by simp [hmark, isSet]⟩
    · exact hold hrecord
  | marked old webhookQueuedAt hstored hstore _ hjob =>
    rw [hstore, OrderedMap.get_set] at hrecord
    split_ifs at hrecord with hkey
    · obtain rfl := Option.some.inj hrecord
      exact ⟨(hs _ _ hstored).1.trans hkey.symm,
        fun _ => List.mem_append_left _ (hkey ▸ hjob)⟩
    · exact hold hrecord

theorem IngestStep.known (h : IngestStep p now s accepted c after) :
    after.call.Known p after.store (accepted ++ after.accepted.toList) := by
  cases h with
  | kept hstore _ _ _ hknown => exact hstore ▸ hknown
  | claimed _ _ _ _ _ hpc =>
    simp only [IngestCall.Known, hpc]
  | created record hstore _ _ _ hcall =>
    rw [hcall, hstore]
    exact ⟨record, OrderedMap.get_set_self _ _ _, rfl⟩
  | marked record webhookQueuedAt _ hstore hcall hjob =>
    rw [hcall, hstore]
    exact ⟨⟨_, OrderedMap.get_set_self _ _ _, rfl⟩, List.mem_append_left _ hjob⟩

/-- A record is created under an id that has none. -/
theorem IngestStep.creates (h : IngestStep p now s accepted c after) {id : String}
    (hid : after.created = some id) :
    s.receivedEmails.get id = none ∧ after.store.receivedEmails.get id ≠ none := by
  cases h with
  | kept _ _ hcreated => simp [hcreated] at hid
  | claimed _ _ _ _ _ _ _ hcreated => simp [hcreated] at hid
  | marked _ _ _ _ _ _ _ hcreated => simp [hcreated] at hid
  | created record hstore habsent _ _ _ _ hcreated =>
    obtain rfl := Option.some.inj (hcreated.symm.trans hid)
    rw [hstore, OrderedMap.get_set_self]
    exact ⟨habsent, by simp⟩

end Step

/-! ## What holds in every state -/

/-- The records and the calls that hold them, whatever the clock shows. -/
structure IngestInvariant (p : Platform) (w : IngestWorld) : Prop where
  published : w.store.Published w.accepted
  known : ∀ c ∈ w.calls, c.Known p w.store w.accepted
  created : w.created.Nodup
  kept : ∀ id ∈ w.created, w.store.receivedEmails.get id ≠ none

section Runs

variable {p : Platform} {options : ReceivedEmailOptions} {w w' : IngestWorld}

theorem ReceivedStore.Keeps.get_ne_none {s s' : ReceivedStore} (h : s.Keeps s') {id : String}
    (hid : s.receivedEmails.get id ≠ none) : s'.receivedEmails.get id ≠ none := by
  obtain ⟨record, hrecord⟩ := Option.ne_none_iff_exists'.mp hid
  obtain ⟨stored, hstored, -⟩ := h id record ⟨record, hrecord, rfl⟩
  simp [hstored]

theorem IngestInvariant.advance (h : IngestInvariant p w) {i : ℕ} {c : IngestCall}
    {after : IngestAdvance} {takenBy : OrderedMap String ℕ} {answers : IngestAnswers}
    (hc : c ∈ w.calls)
    (hafter : c.advance p options w.clock answers w.store = some after) :
    IngestInvariant p { w with
      store := after.store
      calls := w.calls.set i after.call
      accepted := w.accepted ++ after.accepted.toList
      created := w.created ++ after.created.toList
      takenBy := takenBy } := by
  have hstep := ingest_step h.published (h.known c hc) hafter
  have hkeeps := hstep.keeps
  refine ⟨hstep.published h.published, fun d hd => ?_, ?_, fun id hid => ?_⟩
  · rcases List.mem_or_eq_of_mem_set hd with hd | rfl
    · exact (h.known d hd).mono hkeeps (List.subset_append_left _ _)
    · exact hstep.known
  · cases hcreated : after.created with
    | none => simpa using h.created
    | some id =>
      have hnew : id ∉ w.created := fun hid => h.kept id hid (hstep.creates hcreated).1
      simpa [List.nodup_append, h.created] using fun a ha => ne_of_mem_of_not_mem ha hnew
  · rcases List.mem_append.mp hid with hid | hid
    · exact hkeeps.get_ne_none (h.kept id hid)
    · exact (hstep.creates (Option.mem_toList.mp hid)).2

/-- A lease is no part of a record, and what a call knows is not about its lease. -/
theorem IngestInvariant.of_lease {claims : OrderedMap String ℕ} {takenBy : OrderedMap String ℕ}
    {freed : List FreedLease} {calls : List IngestCall} {clock : ℕ} (h : IngestInvariant p w)
    (hcalls : ∀ c ∈ calls, c.Known p w.store w.accepted) :
    IngestInvariant p { w with
      clock := clock
      store := { w.store with receivedClaims := claims }
      calls := calls
      takenBy := takenBy
      freed := freed } :=
  ⟨h.published, hcalls, h.created, h.kept⟩

theorem IngestInvariant.step {l : IngestLabel} (h : IngestInvariant p w)
    (hs : (ingestSystem p options).step w l = some w') : IngestInvariant p w' := by
  cases l with
  | clock now =>
    obtain rfl := Option.some.inj hs
    exact h.of_lease h.known
  | ingest event =>
    obtain rfl := Option.some.inj hs
    refine h.of_lease fun c hc => ?_
    rcases List.mem_append.mp hc with hc | hc
    · exact h.known c hc
    · rw [List.mem_singleton.mp hc]
      trivial
  | advance i answers =>
    obtain ⟨c, hc, hs⟩ := Option.bind_eq_some_iff.mp hs
    obtain ⟨after, hafter, hs⟩ := Option.bind_eq_some_iff.mp hs
    obtain rfl := Option.some.inj hs
    exact h.advance (List.mem_of_getElem? hc) hafter
  | release i =>
    obtain ⟨c, hc, hs⟩ := Option.bind_eq_some_iff.mp hs
    obtain ⟨leaseUntil, -, hs⟩ := Option.bind_eq_some_iff.mp hs
    obtain rfl := Option.some.inj hs
    rw [IngestWorld.release, ReceivedStore.releaseReceivedEmailClaim_eq]
    refine h.of_lease fun d hd => ?_
    rcases List.mem_or_eq_of_mem_set hd with hd | rfl
    · exact h.known d hd
    · exact h.known c (List.mem_of_getElem? hc)
  | crash i =>
    obtain ⟨c, -, hs⟩ := Option.bind_eq_some_iff.mp hs
    obtain rfl := Option.some.inj hs
    refine h.of_lease fun d hd => ?_
    rcases List.mem_or_eq_of_mem_set hd with hd | rfl
    · exact h.known d hd
    · trivial

/-- **Records in every state**: each id has at most one record, ever, and calls hold what is
stored. -/
theorem ingestInvariant_of_reachable (h : (ingestSystem p options).Reachable w) :
    IngestInvariant p w := by
  refine h.invariant (fun w h₀ => ?_) (fun _ _ _ _ hi hs => hi.step hs)
  obtain rfl := h₀
  exact ⟨fun id _ hr => by simp at hr, by simp, List.nodup_nil, by simp⟩

/-! ## Leases -/

/-- What is known of a lease that the call `i` took and has not released: its expiry is at most a
term ahead, it is the stored lease or has expired, and if it is stored no other call took it. -/
structure LeaseKnown (p : Platform) (w : IngestWorld) (i : ℕ) (c : IngestCall) (leaseUntil : ℕ) :
    Prop where
  bounded : leaseUntil ≤ epochSeconds w.clock + processingLeaseSeconds
  current : w.store.receivedClaims.get (receivedId p c.event) = some leaseUntil ∨
    leaseUntil < epochSeconds w.clock
  own : w.store.receivedClaims.get (receivedId p c.event) = some leaseUntil →
    w.takenBy.get (receivedId p c.event) = some i

/-- The leases, while the clock does not go back. -/
structure LeaseInvariant (p : Platform) (w : IngestWorld) : Prop where
  held : ∀ i c, w.calls[i]? = some c → ∀ leaseUntil, c.lease = some leaseUntil →
    LeaseKnown p w i c leaseUntil
  freed : ∀ f ∈ w.freed, f.takenBy = some f.releasedBy

theorem LeaseKnown.of_eq {i : ℕ} {c : IngestCall} {leaseUntil : ℕ} {d : IngestCall}
    (h : LeaseKnown p w i c leaseUntil) (hclock : w.clock ≤ w'.clock)
    (hevent : d.event = c.event)
    (hclaims : w'.store.receivedClaims.get (receivedId p c.event) =
      w.store.receivedClaims.get (receivedId p c.event))
    (htaken : w'.takenBy.get (receivedId p c.event) = w.takenBy.get (receivedId p c.event)) :
    LeaseKnown p w' i d leaseUntil := by
  have hseconds : epochSeconds w.clock ≤ epochSeconds w'.clock := Nat.div_le_div_right hclock
  refine ⟨h.bounded.trans (by omega), ?_, ?_⟩
  · rw [hevent, hclaims]
    exact h.current.imp id fun hlt => by omega
  · rw [hevent, hclaims, htaken]
    exact h.own

/-- Another call took the lease of the same id: the one held is no longer stored. -/
theorem LeaseKnown.of_taken {i : ℕ} {c : IngestCall} {leaseUntil : ℕ}
    (h : LeaseKnown p w i c leaseUntil) (hclock : w'.clock = w.clock)
    (hfree : ∀ stored, w.store.receivedClaims.get (receivedId p c.event) = some stored →
      stored < epochSeconds w.clock)
    (hclaims : w'.store.receivedClaims.get (receivedId p c.event) =
      some (epochSeconds w.clock + processingLeaseSeconds)) :
    LeaseKnown p w' i c leaseUntil := by
  have hexpired : leaseUntil < epochSeconds w.clock := h.current.elim (hfree _) id
  refine ⟨hclock ▸ h.bounded, .inr (hclock ▸ hexpired), fun hstored => ?_⟩
  rw [hclaims, Option.some.injEq] at hstored
  omega

theorem LeaseInvariant.advance {i : ℕ} {c : IngestCall} {after : IngestAdvance}
    (h : LeaseInvariant p w) (hi : w.calls[i]? = some c)
    (hstep : IngestStep p w.clock w.store w.accepted c after)
    (hevent : after.call.event = c.event)
    (hclock : w'.clock = w.clock) (hfreed : w'.freed = w.freed)
    (hstore : w'.store = after.store) (hcalls : w'.calls = w.calls.set i after.call)
    (htaken : w'.takenBy = if after.claimed.isSome then w.takenBy.set (receivedId p c.event) i
      else w.takenBy) : LeaseInvariant p w' := by
  have hlt : i < w.calls.length := (List.getElem?_eq_some_iff.mp hi).1
  refine ⟨fun j d hd leaseUntil hlease => ?_, by rw [hfreed]; exact h.freed⟩
  rw [hcalls] at hd
  -- the leases stored and the call itself stay as they are
  have hkept : after.store.receivedClaims = w.store.receivedClaims → after.claimed = none →
      after.call.lease = c.lease → LeaseKnown p w' j d leaseUntil := by
    intro hclaims hclaimed hcallLease
    have htaken' : w'.takenBy = w.takenBy := by simp [htaken, hclaimed]
    by_cases hj : j = i
    · subst hj
      rw [List.getElem?_set_self hlt, Option.some.injEq] at hd
      subst hd
      exact (h.held j c hi leaseUntil (hcallLease ▸ hlease)).of_eq hclock.ge hevent
        (by rw [hstore, hclaims]) (by rw [htaken'])
    · rw [List.getElem?_set_ne (Ne.symm hj)] at hd
      exact (h.held j d hd leaseUntil hlease).of_eq hclock.ge rfl
        (by rw [hstore, hclaims]) (by rw [htaken'])
  cases hstep with
  | kept hafter hclaimed _ hcallLease => exact hkept (by rw [hafter]) hclaimed hcallLease
  | created _ hafter _ _ _ hcall hclaimed => exact hkept (by rw [hafter]) hclaimed (by rw [hcall]; rfl)
  | marked _ _ _ hafter hcall _ hclaimed => exact hkept (by rw [hafter]) hclaimed (by rw [hcall]; rfl)
  | claimed until_ hafter hfree hterm hcall _ hclaimed =>
    have hclaims : w'.store.receivedClaims =
        w.store.receivedClaims.set (receivedId p c.event) until_ := by rw [hstore, hafter]
    have htaken' : w'.takenBy = w.takenBy.set (receivedId p c.event) i := by
      simp [htaken, hclaimed]
    by_cases hj : j = i
    · subst hj
      rw [List.getElem?_set_self hlt, Option.some.injEq] at hd
      subst hd
      obtain rfl := Option.some.inj (hcall.symm.trans hlease)
      refine ⟨by rw [hclock, hterm], .inl ?_, fun _ => ?_⟩
      · rw [hevent, hclaims, OrderedMap.get_set_self]
      · rw [hevent, htaken', OrderedMap.get_set_self]
    · rw [List.getElem?_set_ne (Ne.symm hj)] at hd
      have hheld := h.held j d hd leaseUntil hlease
      by_cases hid : receivedId p d.event = receivedId p c.event
      · exact hheld.of_taken hclock (hid ▸ hfree)
          (by rw [hclaims, hid, OrderedMap.get_set_self, hterm])
      · exact hheld.of_eq hclock.ge rfl (by rw [hclaims, OrderedMap.get_set_ne _ _ hid])
          (by rw [htaken', OrderedMap.get_set_ne _ _ hid])

theorem IngestCall.lease_of_releasing {c : IngestCall} {leaseUntil : ℕ}
    (h : c.releasing = some leaseUntil) : c.lease = some leaseUntil := by
  unfold IngestCall.releasing at h
  split at h <;> first | exact h | cases h

/-- Freeing a lease leaves the others' as they are. -/
theorem LeaseInvariant.release {i : ℕ} {c : IngestCall} {leaseUntil : ℕ}
    (h : LeaseInvariant p w) (hi : w.calls[i]? = some c) (hlease : c.lease = some leaseUntil) :
    LeaseInvariant p { w.release (receivedId p c.event) i leaseUntil with
      calls := w.calls.set i { c with lease := none } } := by
  have hown := h.held i c hi leaseUntil hlease
  have hlt : i < w.calls.length := (List.getElem?_eq_some_iff.mp hi).1
  refine ⟨fun j d hd other hother => ?_, fun f hf => ?_⟩
  · change (w.calls.set i { c with lease := none })[j]? = some d at hd
    have hj : j ≠ i := by
      rintro rfl
      rw [List.getElem?_set_self hlt, Option.some.injEq] at hd
      subst hd
      cases hother
    rw [List.getElem?_set_ne (Ne.symm hj)] at hd
    have hheld := h.held j d hd other hother
    have hclaims : (w.release (receivedId p c.event) i leaseUntil).store.receivedClaims =
        if w.store.receivedClaims.get (receivedId p c.event) = some leaseUntil then
          w.store.receivedClaims.erase (receivedId p c.event) else w.store.receivedClaims := by
      rw [IngestWorld.release, ReceivedStore.releaseReceivedEmailClaim_eq]
    by_cases hstored : w.store.receivedClaims.get (receivedId p c.event) = some leaseUntil
    · rw [if_pos hstored] at hclaims
      by_cases hid : receivedId p d.event = receivedId p c.event
      · -- were the lease of the other call stored, that call would have taken it
        have hexpired : other < epochSeconds w.clock := by
          refine hheld.current.elim (fun hother' => ?_) id
          have hj' := hheld.own hother'
          rw [hid, hown.own hstored, Option.some.injEq] at hj'
          exact absurd hj'.symm hj
        refine ⟨hheld.bounded, .inr hexpired, fun habsurd => ?_⟩
        change (w.release _ i leaseUntil).store.receivedClaims.get _ = _ at habsurd
        rw [hclaims, hid, OrderedMap.get_erase, if_pos rfl] at habsurd
        cases habsurd
      · refine hheld.of_eq le_rfl rfl ?_ rfl
        change (w.release _ i leaseUntil).store.receivedClaims.get _ = _
        rw [hclaims, OrderedMap.get_erase, if_neg hid]
    · rw [if_neg hstored] at hclaims
      refine hheld.of_eq le_rfl rfl ?_ rfl
      change (w.release _ i leaseUntil).store.receivedClaims.get _ = _
      rw [hclaims]
  · change f ∈ ite _ _ _ at hf
    split_ifs at hf with hstored
    · rcases List.mem_append.mp hf with hf | hf
      · exact h.freed f hf
      · rw [List.mem_singleton.mp hf]
        exact hown.own hstored
    · exact h.freed f hf

theorem LeaseInvariant.step {l : IngestLabel} (hi : IngestInvariant p w) (h : LeaseInvariant p w)
    (hl : ClockForward w l) (hs : (ingestSystem p options).step w l = some w') :
    LeaseInvariant p w' := by
  cases l with
  | clock now =>
    obtain rfl := Option.some.inj hs
    exact ⟨fun j d hd other hother => (h.held j d hd other hother).of_eq hl rfl rfl rfl, h.freed⟩
  | ingest event =>
    obtain rfl := Option.some.inj hs
    refine ⟨fun j d hd other hother => ?_, h.freed⟩
    change (w.calls ++ [_])[j]? = some d at hd
    rw [List.getElem?_append] at hd
    split_ifs at hd with hj
    · exact (h.held j d hd other hother).of_eq le_rfl rfl rfl rfl
    · obtain rfl : _ = d := List.mem_singleton.mp (List.mem_of_getElem? hd) |>.symm
      cases hother
  | advance i answers =>
    obtain ⟨c, hc, hs⟩ := Option.bind_eq_some_iff.mp hs
    obtain ⟨after, hafter, hs⟩ := Option.bind_eq_some_iff.mp hs
    obtain rfl := Option.some.inj hs
    exact h.advance hc (ingest_step hi.published (hi.known c (List.mem_of_getElem? hc)) hafter)
      (IngestCall.advance_event hafter) rfl rfl rfl rfl rfl
  | release i =>
    obtain ⟨c, hc, hs⟩ := Option.bind_eq_some_iff.mp hs
    obtain ⟨leaseUntil, hleaseUntil, hs⟩ := Option.bind_eq_some_iff.mp hs
    obtain rfl := Option.some.inj hs
    exact h.release hc (IngestCall.lease_of_releasing hleaseUntil)
  | crash i =>
    obtain ⟨c, hc, hs⟩ := Option.bind_eq_some_iff.mp hs
    obtain rfl := Option.some.inj hs
    refine ⟨fun j d hd other hother => ?_, h.freed⟩
    change (w.calls.set i (c.goto .crashed))[j]? = some d at hd
    by_cases hj : j = i
    · subst hj
      rw [List.getElem?_set_self (List.getElem?_eq_some_iff.mp hc).1, Option.some.injEq] at hd
      subst hd
      exact (h.held j c hc other hother).of_eq le_rfl rfl rfl rfl
    · rw [List.getElem?_set_ne (Ne.symm hj)] at hd
      exact (h.held j d hd other hother).of_eq le_rfl rfl rfl rfl

/-- **Leases** are freed by the calls that took them, while the clock does not go back. -/
theorem leaseInvariant_of_reachable
    (h : (ingestSystem p options).ReachableWhere ClockForward w) : LeaseInvariant p w := by
  refine h.invariant (fun w h₀ => ?_) fun _ _ _ hr hi hl hs =>
    hi.step (ingestInvariant_of_reachable hr.reachable) hl hs
  obtain rfl := h₀
  exact ⟨fun i c hc => by simp at hc, by simp⟩

/-! ## Exactly once, and at least once -/

theorem IngestCall.pc_of_resolved {c : IngestCall} {record : ReceivedEmailRecord}
    (h : c.resolved = some record) : c.pc = .settled (.ok (some record)) := by
  unfold IngestCall.resolved at h
  split at h
  · rename_i hpc _
    rw [hpc, h]
  · cases h

/-- **Ingest is exactly-once in the store and at-least-once to the outside.** In every state of
every run, no id has had two records created; calls for one message that have resolved with a
record have the same up to `webhook_queued_at`; and the queue has accepted the job of that record.
In the runs whose clock does not go back, a lease that was freed was freed by the call that had
taken it. -/
theorem ingest_exactly_once (p : Platform) (options : ReceivedEmailOptions) (w : IngestWorld) :
    ((ingestSystem p options).Reachable w →
      w.created.Nodup ∧
      (∀ c ∈ w.calls, ∀ d ∈ w.calls,
        c.event.providerMessageId = d.event.providerMessageId →
        ∀ record other, c.resolved = some record → d.resolved = some other →
          record.unmarked = other.unmarked) ∧
      ∀ c ∈ w.calls, ∀ record, c.resolved = some record →
        record.id = receivedId p c.event ∧ ⟨record.id⟩ ∈ w.accepted) ∧
    ((ingestSystem p options).ReachableWhere ClockForward w →
      ∀ f ∈ w.freed, f.takenBy = some f.releasedBy) := by
  refine ⟨fun h => ?_, fun h => (leaseInvariant_of_reachable h).freed⟩
  have hi := ingestInvariant_of_reachable h
  have hresolved : ∀ c ∈ w.calls, ∀ record, c.resolved = some record →
      w.store.Holds (receivedId p c.event) record ∧ ⟨receivedId p c.event⟩ ∈ w.accepted := by
    intro c hc record hrecord
    have hknown := hi.known c hc
    simpa only [IngestCall.Known, IngestCall.pc_of_resolved hrecord] using hknown
  refine ⟨hi.created, fun c hc d hd hmessage record other hrecord hother => ?_,
    fun c hc record hrecord => ?_⟩
  · have hid : receivedId p d.event = receivedId p c.event := by
      rw [receivedId, receivedId, hmessage]
    exact (hresolved c hc record hrecord).1.agree (hid ▸ (hresolved d hd other hother).1)
  · obtain ⟨hheld, hjob⟩ := hresolved c hc record hrecord
    have hid := hheld.id_eq hi.published
    exact ⟨hid, hid ▸ hjob⟩

end Runs

/-- A platform that knows the digest of one message id. -/
def inboundPlatform : Platform where
  parseDate _ := none
  toLowerCase := String.toLower
  localeCompare a b := decide (a ≤ b)
  convertHtml html _ := html
  base64Length _ := none
  sha256 text :=
    if text = "m1" then "ca0df2c95aa144c1d0ff2ff3c8f967fdc1de9ef0c4120b3726416701b519d619"
    else "0000000000000000000000000000000000000000000000000000000000000000"

/-- A message without content. -/
def emptyMessage : IngestAnswers where
  parsed := .ok ⟨none, none, none, none, none, none, none, none, none, [], []⟩

/-- Two calls for one message: the second takes the lease after that of the first has expired, the
first creates the record, and both have it published. -/
def overlappingCalls : List IngestLabel :=
  [.clock 1000000, .ingest ⟨"m1", "ada@example.com", ["in@example.com"], ""⟩,
    .ingest ⟨"m1", "ada@example.com", ["in@example.com"], ""⟩,
    .advance 0 emptyMessage, .advance 0 emptyMessage, .clock 1151000,
    .advance 1 emptyMessage, .advance 1 emptyMessage, .advance 1 emptyMessage,
    .advance 0 emptyMessage, .advance 0 emptyMessage, .advance 0 emptyMessage, .release 0,
    .advance 1 emptyMessage, .advance 1 emptyMessage, .advance 1 emptyMessage,
    .advance 0 emptyMessage, .advance 0 emptyMessage, .release 1,
    .advance 1 emptyMessage, .advance 1 emptyMessage]

theorem ingest_exactly_once_sample : ∃ w : IngestWorld,
    w.calls.map (fun c => c.resolved.isSome) = [true, true] ∧ w.freed.length = 1 ∧
      w.created.Nodup ∧ ∀ f ∈ w.freed, f.takenBy = some f.releasedBy := by
  have hrun : ((ingestSystem inboundPlatform ⟨"inbound/", 30, 1000⟩).runWhere
      (fun w l => decide (ClockForward w l)) {} overlappingCalls).any (fun w =>
        decide (w.calls.map (fun c => c.resolved.isSome) = [true, true] ∧
          w.freed.length = 1)) = true := by
    decide +kernel
  obtain ⟨w, hw, hends⟩ := TransitionSystem.exists_reachableWhere_of_run rfl hrun
  have hforward := hw.mono fun _ _ h => of_decide_eq_true h
  obtain ⟨hall, hfreed⟩ := ingest_exactly_once inboundPlatform ⟨"inbound/", 30, 1000⟩ w
  obtain ⟨hresolved, hlength⟩ := of_decide_eq_true hends
  exact ⟨w, hresolved, hlength, (hall hw.reachable).1, hfreed hforward⟩

end HayaSend
