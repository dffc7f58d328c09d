import HayaSend.Core.LedgerMachine
import HayaSend.Foundations.OrderedMap
import Mathlib.Data.List.Sort

/-!
# The in-memory store

The delivery part of `MemoryStore`: emails, idempotency entries, messages, recipients, attempts,
provider events and the outbox, each in a map of its own. Every operation is atomic. An operation
returns the store it leaves with its result; one that throws before its first write returns the
error alone, and one that may throw between two writes returns the store as far as it got.

Text is compared by code point where the source compares by locale; only the order of listings
depends on it.
-/

namespace HayaSend

structure IdempotencyEntry extends IdempotencyClaim where
  emailId : String
  deriving DecidableEq, Repr

structure MemoryStore where
  emails : OrderedMap String EmailRecord := ∅
  idempotency : OrderedMap String IdempotencyEntry := ∅
  deliveryMessages : OrderedMap String MessageRecord := ∅
  deliveryRecipients : OrderedMap String RecipientRecord := ∅
  deliveryAttempts : OrderedMap String AttemptRecord := ∅
  providerEvents : OrderedMap String ProviderEventRecord := ∅
  outboxItems : OrderedMap String OutboxItemRecord := ∅
  /-- The id of the outbox item of a message. -/
  outboxByMessage : OrderedMap String String := ∅
  outboxPublishFailures : ℕ := 0
  deriving DecidableEq

/-- `DeliveryCommitResult` -/
structure DeliveryCommitResult extends DeliveryCommit where
  replayed : Bool
  deriving DecidableEq, Repr

/-- `DeliveryLedgerMutationResult` -/
structure DeliveryLedgerMutationResult extends DeliveryLedgerSnapshot where
  replayed : Bool
  changedRecipientIds : List String
  attempt : Option AttemptRecord := none
  event : Option ProviderEventRecord := none
  deriving DecidableEq, Repr

/-- `LeaseDueOutboxInput` -/
structure LeaseDueOutboxInput where
  owner : String
  now : ℕ
  leaseSeconds : ℕ
  limit : ℕ
  deriving DecidableEq, Repr

/-- `/\s/` -/
def isSpace (c : Char) : Bool :=
  let n := c.toNat
  (9 ≤ n && n ≤ 13) || n == 0x20 || n == 0xA0 || n == 0x1680 || (0x2000 ≤ n && n ≤ 0x200A) ||
    n == 0x2028 || n == 0x2029 || n == 0x202F || n == 0x205F || n == 0x3000 || n == 0xFEFF

/-- `^[^\s@]{1,512}$` -/
def isLeaseOwner (owner : String) : Bool :=
  owner.toList.all (fun c => !isSpace c && c != '@') && 1 ≤ utf16Length owner &&
    utf16Length owner ≤ 512

/-- By sequence, then by id. -/
def attemptOrder (left right : AttemptRecord) : Prop :=
  left.sequence < right.sequence ∨ left.sequence = right.sequence ∧ left.id ≤ right.id

instance : DecidableRel attemptOrder := fun left right => inferInstanceAs (Decidable
  (left.sequence < right.sequence ∨ left.sequence = right.sequence ∧ left.id ≤ right.id))

/-- By time of receipt, then by id. -/
def eventOrder (left right : ProviderEventRecord) : Prop :=
  left.receivedAt < right.receivedAt ∨ left.receivedAt = right.receivedAt ∧ left.id ≤ right.id

instance : DecidableRel eventOrder := fun left right => inferInstanceAs (Decidable
  (left.receivedAt < right.receivedAt ∨ left.receivedAt = right.receivedAt ∧ left.id ≤ right.id))

/-- By due time, then by id. -/
def outboxOrder (left right : OutboxItemRecord) : Prop :=
  left.dueAt < right.dueAt ∨ left.dueAt = right.dueAt ∧ left.id ≤ right.id

instance : DecidableRel outboxOrder := fun left right => inferInstanceAs (Decidable
  (left.dueAt < right.dueAt ∨ left.dueAt = right.dueAt ∧ left.id ≤ right.id))

namespace MemoryStore

/-! ## Reads -/

def getEmail (s : MemoryStore) (id : String) : Option EmailRecord := s.emails.get id

/-- The recipients a message lists, `none` when one is missing. -/
def recipientsOf (s : MemoryStore) (message : MessageRecord) : Option (List RecipientRecord) :=
  message.recipientIds.mapM s.deliveryRecipients.get

/-- The attempts of a message, in the order they were first stored. -/
def attemptsOf (s : MemoryStore) (messageId : String) : List AttemptRecord :=
  s.deliveryAttempts.values.filter (·.messageId == messageId)

/-- The provider events of a message, in the order they were stored. -/
def eventsOf (s : MemoryStore) (messageId : String) : List ProviderEventRecord :=
  s.providerEvents.values.filter (·.messageId == messageId)

/-- The outbox item of a message. -/
def outboxOf (s : MemoryStore) (messageId : String) : Option OutboxItemRecord :=
  (s.outboxByMessage.get messageId).bind s.outboxItems.get

/-- `deliveryLedger` -/
def deliveryLedger (s : MemoryStore) (messageId : String) : Option DeliveryLedgerSnapshot := do
  let email ← s.emails.get messageId
  let message ← s.deliveryMessages.get messageId
  let recipients ← s.recipientsOf message
  return {
    email := email
    message := message
    recipients := recipients
    attempts := (s.attemptsOf messageId).insertionSort attemptOrder
    events := (s.eventsOf messageId).insertionSort eventOrder }

/-- `getDeliveryLedger` -/
def getDeliveryLedger (s : MemoryStore) (messageId : String) : Option DeliveryLedgerSnapshot :=
  s.deliveryLedger messageId

/-- `deliveryResult` -/
def deliveryResult (s : MemoryStore) (messageId : String) (replayed : Bool) :
    Option DeliveryCommitResult := do
  let email ← s.emails.get messageId
  let message ← s.deliveryMessages.get messageId
  let outbox ← s.outboxOf messageId
  let recipients ← s.recipientsOf message
  let claimEntry := s.idempotency.values.find? (·.emailId == messageId)
  return {
    email := email
    message := message
    recipients := recipients
    outbox := outbox
    idempotency := claimEntry.map (·.toIdempotencyClaim)
    replayed := replayed }

/-- `deliveryLedgerResult` -/
def deliveryLedgerResult (s : MemoryStore) (messageId : String) (replayed : Bool)
    (changedRecipientIds : List String) (attempt : Option AttemptRecord)
    (event : Option ProviderEventRecord) : Option DeliveryLedgerMutationResult :=
  (s.deliveryLedger messageId).map fun snapshot => { snapshot with
    replayed := replayed
    changedRecipientIds := changedRecipientIds
    attempt := attempt
    event := event }

/-! ## Emails -/

/-- `createEmail`: an email without a delivery ledger. -/
def createEmail (s : MemoryStore) (record : EmailRecord) (idempotency : Option IdempotencyClaim)
    (now : ℕ) : Except Failure (MemoryStore × EmailRecord × Bool) :=
  let existingClaim := (idempotency.bind fun claim => s.idempotency.get claim.keyHash).filter
    fun entry => epochSeconds now < entry.expiresAt
  match existingClaim, idempotency with
  | some entry, some claim =>
    if entry.requestHash != claim.requestHash then
      .error (.conflict
        "The Idempotency-Key has already been used with a different request.")
    else
      match s.emails.get entry.emailId with
      | none => .error (.conflict
          "The idempotent request exists but its email record is unavailable.")
      | some existingEmail => .ok (s, existingEmail, true)
  | _, none => .ok ({ s with emails := s.emails.set record.id record }, record, false)
  | _, some claim =>
    .ok ({ s with
      emails := s.emails.set record.id record
      idempotency := s.idempotency.set claim.keyHash { claim with emailId := record.id } },
      record, false)

/-- `claimEmailForSend` -/
def claimEmailForSend (s : MemoryStore) (id : String) (attempt now : ℕ) :
    Option (MemoryStore × EmailRecord) := do
  let record ← s.emails.get id
  if record.claimable now then
    let updated := record.claimed (max (record.attempts + 1) attempt) now
    some ({ s with emails := s.emails.set id updated }, updated)
  else none

/-- `updateEmail` -/
def updateEmail (s : MemoryStore) (id : String) (updates : EmailUpdates)
    (fromStatuses : Option (List EmailStatus)) : Option (MemoryStore × EmailRecord) := do
  let record ← s.emails.get id
  if record.updatable fromStatuses then
    let updated := updates.applyTo record
    some ({ s with emails := s.emails.set id updated }, updated)
  else none

/-- `rescheduleEmailAndOutbox` -/
def rescheduleEmailAndOutbox (s : MemoryStore) (id : String) (scheduledAt now : ℕ) :
    Option (MemoryStore × EmailRecord) := do
  let email ← s.emails.get id
  let message ← s.deliveryMessages.get id
  let outbox ← s.outboxOf id
  if email.status.isPending && outbox.dispatchedAt.isNone && outbox.leaseOwner.isNone then
    let updatedEmail := email.rescheduled scheduledAt now
    some ({ s with
      emails := s.emails.set id updatedEmail
      deliveryMessages := s.deliveryMessages.set id (message.rescheduled scheduledAt now)
      outboxItems := s.outboxItems.set outbox.id
        { outbox with dueAt := scheduledAt, updatedAt := now } }, updatedEmail)
  else none

/-! ## Deliveries -/

/-- Stage the recipients of a commit. -/
def stageRecipients (recipients : OrderedMap String RecipientRecord) :
    List RecipientRecord → Except Failure (OrderedMap String RecipientRecord)
  | [] => .ok recipients
  | r :: rs =>
    if recipients.has r.id then .error (.conflict "Recipient identity is already in use.")
    else stageRecipients (recipients.set r.id r) rs

/-- `commitDelivery` -/
def commitDelivery (s : MemoryStore) (input : DeliveryCommit) (nowEpochSeconds : ℕ) :
    Except Failure (MemoryStore × DeliveryCommitResult) := do
  let c ← validateDeliveryCommit input nowEpochSeconds
  let existingClaim := (c.idempotency.bind fun claim => s.idempotency.get claim.keyHash).filter
    fun entry => nowEpochSeconds < entry.expiresAt
  match existingClaim with
  | some entry =>
    if c.idempotency.any fun claim => entry.requestHash != claim.requestHash then
      .error (.conflict
        "The Idempotency-Key has already been used with a different request.")
    else
      match s.deliveryResult entry.emailId true with
      | none => .error (.conflict
          "The idempotent delivery exists but its atomic records are unavailable.")
      | some replay => .ok (s, replay)
  | none =>
    throwIf (s.emails.has c.email.id || s.deliveryMessages.has c.message.id ||
        s.outboxItems.has c.outbox.id) (.conflict "Delivery identity is already in use.")
    let nextRecipients ← stageRecipients s.deliveryRecipients c.recipients
    return ({ s with
      emails := s.emails.set c.email.id c.email
      deliveryMessages := s.deliveryMessages.set c.message.id c.message
      deliveryRecipients := nextRecipients
      idempotency := match c.idempotency with
        | none => s.idempotency
        | some claim => s.idempotency.set claim.keyHash { claim with emailId := c.email.id }
      outboxItems := s.outboxItems.set c.outbox.id c.outbox
      outboxByMessage := s.outboxByMessage.set c.message.id c.outbox.id },
      { c with replayed := false })

/-- `commitLedgerPlan` -/
def commitLedgerPlan (s : MemoryStore) (plan : DeliveryLedgerState)
    (attempt : Option AttemptRecord) (event : Option ProviderEventRecord) : MemoryStore :=
  { s with
    emails := s.emails.set plan.email.id plan.email
    deliveryMessages := s.deliveryMessages.set plan.message.id plan.message
    deliveryRecipients := s.deliveryRecipients.setAll (·.id) plan.recipients
    deliveryAttempts := match attempt with
      | none => s.deliveryAttempts
      | some a => s.deliveryAttempts.set a.id a
    providerEvents := match event with
      | none => s.providerEvents
      | some e => s.providerEvents.set e.id e }

/-- `beginDeliveryAttempt` -/
def beginDeliveryAttempt (s : MemoryStore) (input : AttemptRecord) :
    Except Failure (MemoryStore × Option DeliveryLedgerMutationResult) := do
  let attempt ← input.parse
  match s.deliveryLedger attempt.messageId with
  | none => return (s, none)
  | some snapshot =>
    match snapshot.attempts.find? fun candidate =>
        candidate.id == attempt.id || candidate.sequence == attempt.sequence with
    | some existing =>
      throwIf (existing != attempt)
        (.conflict "Delivery attempt identity or sequence is already in use.")
      return (s, s.deliveryLedgerResult attempt.messageId true [] existing none)
    | none =>
      let (plan, _) ← planAttemptStart snapshot.toDeliveryLedgerState attempt
      let s' := s.commitLedgerPlan plan.toDeliveryLedgerState attempt none
      return (s', s'.deliveryLedgerResult attempt.messageId false plan.changedRecipientIds
        attempt none)

/-- `completeDeliveryAttempt` -/
def completeDeliveryAttempt (s : MemoryStore) (input : AttemptCompletion) :
    Except Failure (MemoryStore × Option DeliveryLedgerMutationResult) :=
  match s.deliveryLedger input.messageId with
  | none => .ok (s, none)
  | some snapshot =>
    match snapshot.attempts.find? (·.id == input.attemptId) with
    | none => .error (.conflict "Delivery attempt does not exist.")
    | some existing =>
      if existing.status != .submitting then do
        throwIf (!(existing.status == input.status.toAttemptStatus &&
            existing.completedAt == some input.completedAt &&
            existing.providerMessageId == input.providerMessageId &&
            existing.diagnosticCategory == input.diagnosticCategory))
          (.conflict "Delivery attempt has already completed differently.")
        return (s, s.deliveryLedgerResult input.messageId true [] existing none)
      else do
        let (plan, attempt) ← planAttemptCompletion snapshot.toDeliveryLedgerState input
        let s' := s.commitLedgerPlan plan.toDeliveryLedgerState attempt none
        return (s', s'.deliveryLedgerResult input.messageId false plan.changedRecipientIds
          attempt none)

/-- `appendProviderEvent` -/
def appendProviderEvent (s : MemoryStore) (input : ProviderEventRecord) :
    Except Failure (MemoryStore × Option DeliveryLedgerMutationResult) := do
  let event ← input.parse
  match s.providerEvents.get event.id with
  | some existing =>
    throwIf (!existing.isEquivalentReplay event) (.conflict
      "Provider event identity is already used by a different normalized event.")
    return (s, s.deliveryLedgerResult existing.messageId true [] none existing)
  | none =>
    match s.deliveryLedger event.messageId with
    | none => return (s, none)
    | some snapshot =>
      let (plan, _) ← planProviderEvent snapshot.toDeliveryLedgerState event
      let s' := s.commitLedgerPlan plan.toDeliveryLedgerState none event
      return (s', s'.deliveryLedgerResult event.messageId false plan.changedRecipientIds
        none event)

/-- `applyLocalDeliveryState` -/
def applyLocalDeliveryState (s : MemoryStore) (messageId : String) (status : LocalStatus)
    (updatedAt : ℕ) : Except Failure (MemoryStore × Option DeliveryLedgerMutationResult) :=
  match s.deliveryLedger messageId with
  | none => .ok (s, none)
  | some snapshot => do
    let plan ← planLocalRecipientState snapshot.toDeliveryLedgerState status updatedAt
    let s' := s.commitLedgerPlan plan.toDeliveryLedgerState none none
    return (s', s'.deliveryLedgerResult messageId false plan.changedRecipientIds none none)

/-! ## The outbox -/

/-- Whether an outbox item may be leased. -/
def isDue (now : ℕ) (item : OutboxItemRecord) : Bool :=
  item.dispatchedAt.isNone && decide (item.dueAt ≤ now) &&
    item.leaseExpiresAt.all (fun t => decide (t ≤ now))

/-- An outbox item under a new lease. -/
def leasedItem (input : LeaseDueOutboxInput) (item : OutboxItemRecord) : OutboxItemRecord :=
  { item with
    attempts := item.attempts + 1
    leaseOwner := some input.owner
    leaseExpiresAt := some (input.now + input.leaseSeconds * 1000)
    updatedAt := input.now }

/-- Lease the items of a list, one after the other. -/
def leaseItems (input : LeaseDueOutboxInput) (s : MemoryStore) :
    List OutboxItemRecord → MemoryStore × Except Failure (List OutboxItemRecord)
  | [] => (s, .ok [])
  | item :: items =>
    match (leasedItem input item).parse with
    | .error e => (s, .error e)
    | .ok updated =>
      let (s', rest) :=
        leaseItems input { s with outboxItems := s.outboxItems.set item.id updated } items
      (s', rest.map (updated :: ·))

/-- `leaseDueOutbox` -/
def leaseDueOutbox (s : MemoryStore) (input : LeaseDueOutboxInput) :
    MemoryStore × Except Failure (List OutboxItemRecord) :=
  if !isLeaseOwner input.owner then
    (s, .error (.error "Outbox lease owner must be a privacy-safe opaque ID."))
  else if input.leaseSeconds = 0 then
    (s, .error (.error "Outbox lease duration must be a positive integer."))
  else if input.limit = 0 then
    (s, .error (.error "Outbox lease limit must be a positive integer."))
  else if 1000 < input.limit then
    (s, .error (.error "Outbox lease limit cannot exceed 1000."))
  else
    leaseItems input s (((s.outboxItems.values.filter (isDue input.now)).insertionSort
      outboxOrder).take input.limit)

/-- The item of a live lease of `owner`. -/
def heldItem (s : MemoryStore) (id owner : String) : Option OutboxItemRecord :=
  (s.outboxItems.get id).filter fun item =>
    item.dispatchedAt.isNone && item.leaseOwner == some owner

/-- An outbox item whose job is queued. -/
def acknowledgedItem (now : ℕ) (item : OutboxItemRecord) : OutboxItemRecord :=
  { item with
    leaseOwner := none
    leaseExpiresAt := none
    dispatchedAt := some now
    updatedAt := now }

/-- An outbox item given back after a failure. -/
def failedItem (category : DiagnosticCategory) (now : ℕ) (item : OutboxItemRecord) :
    OutboxItemRecord :=
  { item with
    leaseOwner := none
    leaseExpiresAt := none
    lastDiagnosticCategory := some category
    updatedAt := now }

/-- `acknowledgeOutbox` -/
def acknowledgeOutbox (s : MemoryStore) (id owner : String) (now : ℕ) :
    Except Failure (MemoryStore × Bool) :=
  match s.heldItem id owner with
  | none => .ok (s, false)
  | some item => do
    let updated ← (acknowledgedItem now item).parse
    return ({ s with outboxItems := s.outboxItems.set id updated }, true)

/-- `recordOutboxFailure` -/
def recordOutboxFailure (s : MemoryStore) (id owner : String) (category : DiagnosticCategory)
    (now : ℕ) : Except Failure (MemoryStore × Bool) :=
  match s.heldItem id owner with
  | none => .ok (s, false)
  | some item => do
    let updated ← (failedItem category now item).parse
    return ({ s with
      outboxItems := s.outboxItems.set id updated
      outboxPublishFailures := s.outboxPublishFailures + 1 }, true)

end MemoryStore

end HayaSend
