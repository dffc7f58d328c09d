import HayaSend.Adapters.MemoryStore
import HayaSend.Core.Schedule

/-!
# The calls of the email service

`EmailService.create`, `cancel`, `reschedule`, `processSend`, `applyProviderEvent` and
`OutboxReconciler.sweep` over the in-memory store, with a `QueueEmailScheduler`. A call is a small
program with a place to stand between any two of its operations; `Task.act` makes it take one step
of that program: at most one store operation, or one operation on the queue, the transport or the
clock. What the call learns from the outside in that step is its `Choice`.

The effect of a step is the store it leaves, the jobs it enqueues, the attempt id it drew, the
events it logs and where the call goes on. The log is a record for the theorems; no step reads
it, except that a `processSend` call remembers its length.
-/

namespace HayaSend

/-- What the transport threw: its category, whether it is worth a retry, and the public text. -/
structure SendError where
  category : DiagnosticCategory
  retryable : Bool
  message : String
  deriving DecidableEq, Repr

/-- What happens that the theorems speak about. -/
inductive Event
  /-- An attempt began, at this time, in a call that had read the email at this point of the
  log. -/
  | attemptBegun (messageId attemptId : String) (time readAt : ℕ)
  /-- `transport.send` was called with the record of the claim; the call had read the email and
  claimed it at these points of the log. -/
  | transportStarted (messageId : String) (attemptId : Option String) (sending : EmailRecord)
      (readAt claimedAt : ℕ)
  /-- `transport.send` returned. -/
  | transportAccepted (messageId : String) (attemptId : Option String)
  /-- `cancel` resolved with a record. -/
  | cancelResolved (messageId : String) (record : EmailRecord)
  /-- A reschedule wrote the new time. -/
  | rescheduled (messageId : String) (scheduledAt : ℕ)
  deriving DecidableEq, Repr

/-! ## Where a call stands -/

/-- `processSend`. From the read on it carries the log's length at the read, from the claim on
that at the claim. -/
inductive SendPc
  | getEmail
  | delay (record : EmailRecord) (readAt : ℕ)
  | requeue
  | findSuppressed (record : EmailRecord) (readAt : ℕ)
  | suppressedLedger
  | suppressApply (updatedAt : ℕ)
  | suppressUpdate (updatedAt : ℕ)
  | claim (record : EmailRecord) (readAt : ℕ)
  | ledger (sending : EmailRecord) (readAt claimedAt : ℕ)
  | begin (sending : EmailRecord) (attempt : AttemptRecord) (readAt claimedAt : ℕ)
  | send (sending : EmailRecord) (attemptId : Option String) (readAt claimedAt : ℕ)
  | transport (sending : EmailRecord) (attemptId : Option String)
  | accepted (sending : EmailRecord) (attemptId : Option String) (providerId : String)
  | rejected (sending : EmailRecord) (attemptId : Option String) (error : SendError)
  /-- Only the webhooks are left. -/
  | publish
  deriving DecidableEq, Repr

inductive CancelPc
  | getEmail
  | ledger
  | apply (updatedAt : ℕ)
  | update (updatedAt : ℕ)
  | resolve (record : EmailRecord)
  deriving DecidableEq, Repr

/-- `reschedule`; `isAtomic` says whether the store moved email, message and outbox together. -/
inductive ReschedulePc
  | getEmail (scheduledAt : ScheduleText)
  | parse (scheduledAt : ScheduleText)
  | store (scheduledAt : ℕ)
  | update (scheduledAt now : ℕ)
  | schedule (scheduledAt : ℕ) (isAtomic : Bool)
  | reread (scheduledAt : ℕ) (isAtomic : Bool)
  | again (isAtomic : Bool)
  deriving DecidableEq, Repr

inductive ProviderEventPc
  | ledger
  | update
  | append (event : ProviderEventRecord)
  deriving DecidableEq, Repr

inductive CreatePc
  | commit (input : DeliveryCommit) (nowEpochSeconds : ℕ)
  | schedule (outboxId : String)
  deriving DecidableEq, Repr

inductive SweepPc
  | lease
  | enqueue (now : ℕ) (items : List OutboxItemRecord)
  | acknowledge (now : ℕ) (item : OutboxItemRecord) (items : List OutboxItemRecord)
  | failure (now : ℕ) (item : OutboxItemRecord) (category : DiagnosticCategory)
      (items : List OutboxItemRecord)
  deriving DecidableEq, Repr

/-- A call under way. -/
inductive Task
  | idle
  | create (pc : CreatePc)
  | send (id : String) (attempt : ℕ) (pc : SendPc)
  | cancel (id : String) (pc : CancelPc)
  | reschedule (id : String) (pc : ReschedulePc)
  /-- An event of the provider; an email without a ledger takes the given status. -/
  | providerEvent (id : String) (status : EmailStatus) (receivedAt : ℕ) (pc : ProviderEventPc)
  | sweep (owner : String) (leaseSeconds limit : ℕ) (pc : SweepPc)
  deriving DecidableEq, Repr

/-- What a call learns from outside the store in one step. -/
inductive Choice
  | go
  /-- A publish, an enqueue or a read of attachments threw. -/
  | throws (error : SendError)
  /-- Whether a recipient is on the suppression list. -/
  | suppressed (found : Bool)
  | attemptId (id : String)
  | providerId (id : String)
  /-- The normalized provider event. -/
  | event (event : ProviderEventRecord)
  deriving DecidableEq, Repr

/-- How a call goes on: at another place, resolved, or with an error thrown to its caller. -/
inductive Next
  | goto (task : Task)
  | resolve
  | throw
  deriving DecidableEq, Repr

structure Effect where
  store : MemoryStore
  enqueued : List Job := []
  issued : List String := []
  log : List Event := []
  next : Next

/-! ## Steps -/

/-- `shouldRetryOperationalError` and the third claim decide whether an attempt is the last. -/
def isFinalAttempt (sending : EmailRecord) (error : SendError) : Bool :=
  decide (3 ≤ sending.attempts) || !error.retryable

/-- The attempt `processSend` starts on a ledger. -/
def newAttempt (ledger : DeliveryLedgerSnapshot) (id attemptId : String) (sending : EmailRecord) :
    AttemptRecord where
  id := attemptId
  messageId := id
  recipientIds := ledger.message.recipientIds
  sequence := lastSequence ledger.attempts + 1
  provider := ledger.message.provider
  status := .submitting
  startedAt := sending.updatedAt

/-- The updates of an email that has no ledger. -/
def localUpdates (status : EmailStatus) (updatedAt : ℕ) : EmailUpdates where
  status := some status
  lastEvent := some (.status status)
  updatedAt := some updatedAt

def sentUpdates (providerId : String) (completedAt : ℕ) : EmailUpdates where
  status := some .sent
  lastEvent := some (.status .sent)
  providerId := some providerId
  updatedAt := some completedAt
  error := some none
  sendLeaseUntil := some none

def failedUpdates (isFinal : Bool) (message : String) (completedAt : ℕ) : EmailUpdates where
  status := some (if isFinal then .failed else .queued)
  lastEvent := some (if isFinal then .status .failed else .retrying)
  updatedAt := some completedAt
  error := some (some message)
  sendLeaseUntil := some none

/-- The completion of an accepted attempt. -/
def acceptedCompletion (id attemptId providerId : String) (completedAt : ℕ) :
    AttemptCompletion where
  messageId := id
  attemptId := attemptId
  status := .accepted
  completedAt := completedAt
  providerMessageId := some providerId

/-- The completion of a failed attempt. -/
def failedCompletion (id attemptId : String) (isFinal : Bool) (error : SendError)
    (completedAt : ℕ) : AttemptCompletion where
  messageId := id
  attemptId := attemptId
  status := if isFinal then .permanentFailed else .retryableFailed
  completedAt := completedAt
  diagnosticCategory := some error.category
  publicError := some error.message

/-- `EmailService.processSend` -/
def SendPc.act (id : String) (attempt now logged : ℕ) (issued : List String) (s : MemoryStore) :
    SendPc → Choice → Option Effect
  | .getEmail, .go =>
    match s.getEmail id with
    | none => some { store := s, next := .resolve }
    | some record =>
      if record.status.isFinal then some { store := s, next := .resolve }
      else some { store := s, next := .goto (.send id attempt (.delay record logged)) }
  | .delay record readAt, .go =>
    if record.scheduledAt.isSome && 0 < secondsUntil record.scheduledAt now then
      some { store := s, next := .goto (.send id attempt .requeue) }
    else some { store := s, next := .goto (.send id attempt (.findSuppressed record readAt)) }
  -- `rescheduleDelivery`; the delay of the job is the queue's business
  | .requeue, .go => some {
      store := s
      enqueued := [.sendEmail id none]
      next := .goto (.send id attempt .publish) }
  | .findSuppressed record readAt, .suppressed found =>
    if found then some { store := s, next := .goto (.send id attempt .suppressedLedger) }
    else some { store := s, next := .goto (.send id attempt (.claim record readAt)) }
  | .suppressedLedger, .go =>
    match s.getDeliveryLedger id with
    | some _ => some { store := s, next := .goto (.send id attempt (.suppressApply now)) }
    | none => some { store := s, next := .goto (.send id attempt (.suppressUpdate now)) }
  | .suppressApply updatedAt, .go =>
    match s.applyLocalDeliveryState id .suppressed updatedAt with
    | .error _ => some { store := s, next := .throw }
    | .ok (s', none) => some { store := s', next := .resolve }
    | .ok (s', some _) => some { store := s', next := .goto (.send id attempt .publish) }
  | .suppressUpdate updatedAt, .go =>
    match s.updateEmail id (localUpdates .suppressed updatedAt) (some pendingStatuses) with
    | none => some { store := s, next := .resolve }
    | some (s', _) => some { store := s', next := .goto (.send id attempt .publish) }
  | .claim _ readAt, .go =>
    match s.claimEmailForSend id attempt now with
    | none => some { store := s, next := .resolve }
    | some (s', sending) => some {
        store := s'
        next := .goto (.send id attempt (.ledger sending readAt logged)) }
  | .ledger sending readAt claimedAt, .attemptId a =>
    match s.getDeliveryLedger id with
    | none => none
    | some snapshot =>
      -- `createId` draws a random id
      if a ∈ issued then none
      else some {
        store := s
        issued := [a]
        next := .goto (.send id attempt
          (.begin sending (newAttempt snapshot id a sending) readAt claimedAt)) }
  | .ledger sending readAt claimedAt, .go =>
    match s.getDeliveryLedger id with
    | none => some {
        store := s
        next := .goto (.send id attempt (.send sending none readAt claimedAt)) }
    | some _ => none
  | .begin sending a readAt claimedAt, .go =>
    match s.beginDeliveryAttempt a with
    | .error _ => some { store := s, next := .throw }
    | .ok (s', none) => some { store := s', next := .throw }
    | .ok (s', some _) => some {
        store := s'
        log := [.attemptBegun id a.id now readAt]
        next := .goto (.send id attempt (.send sending (some a.id) readAt claimedAt)) }
  | .send sending attemptId readAt claimedAt, .go => some {
      store := s
      log := [.transportStarted id attemptId sending readAt claimedAt]
      next := .goto (.send id attempt (.transport sending attemptId)) }
  | .send sending attemptId _ _, .throws error =>
    some { store := s, next := .goto (.send id attempt (.rejected sending attemptId error)) }
  | .transport sending attemptId, .providerId providerId => some {
      store := s
      log := [.transportAccepted id attemptId]
      next := .goto (.send id attempt (.accepted sending attemptId providerId)) }
  | .transport sending attemptId, .throws error =>
    some { store := s, next := .goto (.send id attempt (.rejected sending attemptId error)) }
  | .accepted _ (some a) providerId, .go =>
    match s.completeDeliveryAttempt (acceptedCompletion id a providerId now) with
    | .error _ => some { store := s, next := .throw }
    | .ok (s', none) => some { store := s', next := .resolve }
    | .ok (s', some _) => some { store := s', next := .goto (.send id attempt .publish) }
  | .accepted _ none providerId, .go =>
    match s.updateEmail id (sentUpdates providerId now) (some [.sending]) with
    | none => some { store := s, next := .resolve }
    | some (s', _) => some { store := s', next := .goto (.send id attempt .publish) }
  | .rejected sending (some a) error, .go =>
    let isFinal := isFinalAttempt sending error
    match s.completeDeliveryAttempt (failedCompletion id a isFinal error now) with
    | .error _ => some { store := s, next := .throw }
    | .ok (s', none) => some { store := s', next := if isFinal then .resolve else .throw }
    | .ok (s', some _) =>
      some { store := s', next := if isFinal then .goto (.send id attempt .publish) else .throw }
  | .rejected sending none error, .go =>
    let isFinal := isFinalAttempt sending error
    match s.updateEmail id (failedUpdates isFinal error.message now) (some [.sending]) with
    | none => some { store := s, next := if isFinal then .resolve else .throw }
    | some (s', _) =>
      some { store := s', next := if isFinal then .goto (.send id attempt .publish) else .throw }
  | .publish, .go => some { store := s, next := .resolve }
  | .requeue, .throws _ | .findSuppressed _ _, .throws _ | .publish, .throws _ =>
    some { store := s, next := .throw }
  | _, _ => none

/-- `EmailService.cancel`; the scheduler has nothing to cancel. -/
def CancelPc.act (id : String) (now : ℕ) (s : MemoryStore) : CancelPc → Option Effect
  | .getEmail =>
    match s.getEmail id with
    | none => some { store := s, next := .throw }
    | some record =>
      if record.status.isPending then some { store := s, next := .goto (.cancel id .ledger) }
      else some { store := s, next := .throw }
  | .ledger =>
    match s.getDeliveryLedger id with
    | some _ => some { store := s, next := .goto (.cancel id (.apply now)) }
    | none => some { store := s, next := .goto (.cancel id (.update now)) }
  | .apply updatedAt =>
    match s.applyLocalDeliveryState id .canceled updatedAt with
    | .error _ => some { store := s, next := .throw }
    | .ok (s', none) => some { store := s', next := .throw }
    | .ok (s', some result) =>
      some { store := s', next := .goto (.cancel id (.resolve result.email)) }
  | .update updatedAt =>
    match s.updateEmail id (localUpdates .canceled updatedAt) (some pendingStatuses) with
    | none => some { store := s, next := .throw }
    | some (s', record) => some { store := s', next := .goto (.cancel id (.resolve record)) }
  | .resolve record => some { store := s, log := [.cancelResolved id record], next := .resolve }

/-- The outbox item a reschedule wakes up. -/
def dispatchOutboxId (id : String) : Option String :=
  (createOutboxIdentity id .dispatchMessage 0).toOption

/-- The job a reschedule enqueues. -/
def rescheduleJob (id : String) (isAtomic : Bool) : Job :=
  if isAtomic then .reconcileOutbox (dispatchOutboxId id) else .sendEmail id none

/-- `EmailService.reschedule` -/
def ReschedulePc.act (id : String) (now : ℕ) (s : MemoryStore) :
    ReschedulePc → Choice → Option Effect
  | .getEmail scheduledAt, .go =>
    match s.getEmail id with
    | none => some { store := s, next := .throw }
    | some record =>
      if record.status.isPending then
        some { store := s, next := .goto (.reschedule id (.parse scheduledAt)) }
      else some { store := s, next := .throw }
  | .parse scheduledAt, .go =>
    match parseScheduledAt (some scheduledAt) now with
    | .ok (some parsed) => some { store := s, next := .goto (.reschedule id (.store parsed)) }
    | _ => some { store := s, next := .throw }
  | .store scheduledAt, .go =>
    match s.rescheduleEmailAndOutbox id scheduledAt now with
    | none => some { store := s, next := .goto (.reschedule id (.update scheduledAt now)) }
    | some (s', _) => some {
        store := s'
        log := [.rescheduled id scheduledAt]
        next := .goto (.reschedule id (.schedule scheduledAt true)) }
  | .update scheduledAt updatedAt, .go =>
    match s.updateEmail id (rescheduleUpdates scheduledAt updatedAt) (some pendingStatuses) with
    | none => some { store := s, next := .throw }
    | some (s', _) => some {
        store := s'
        log := [.rescheduled id scheduledAt]
        next := .goto (.reschedule id (.schedule scheduledAt false)) }
  | .schedule scheduledAt isAtomic, .go => some {
      store := s
      enqueued := [rescheduleJob id isAtomic]
      next := .goto (.reschedule id (.reread scheduledAt isAtomic)) }
  | .schedule scheduledAt isAtomic, .throws _ =>
    -- a wake-up that fails is counted, a send job that fails is an error
    if isAtomic then
      some { store := s, next := .goto (.reschedule id (.reread scheduledAt isAtomic)) }
    else some { store := s, next := .throw }
  | .reread scheduledAt isAtomic, .go =>
    match s.getEmail id with
    | none => some { store := s, next := .resolve }
    | some current =>
      if current.status == .scheduled && current.scheduledAt.any (· != scheduledAt) then
        some { store := s, next := .goto (.reschedule id (.again isAtomic)) }
      else some { store := s, next := .resolve }
  | .again isAtomic, .go =>
    some { store := s, enqueued := [rescheduleJob id isAtomic], next := .resolve }
  | .again isAtomic, .throws _ =>
    some { store := s, next := if isAtomic then .resolve else .throw }
  | _, _ => none

/-- `EmailService.applyProviderEvent`. The event it normalizes is a `Choice`; the store checks
it. -/
def ProviderEventPc.act (id : String) (status : EmailStatus) (receivedAt : ℕ) (s : MemoryStore) :
    ProviderEventPc → Choice → Option Effect
  | .ledger, .go =>
    match s.getDeliveryLedger id with
    | none => some { store := s, next := .goto (.providerEvent id status receivedAt .update) }
    | some _ => none
  | .ledger, .event event =>
    match s.getDeliveryLedger id with
    | none => none
    | some _ =>
      if event.messageId = id then
        some { store := s, next := .goto (.providerEvent id status receivedAt (.append event)) }
      else some { store := s, next := .throw }
  | .update, .go =>
    match s.updateEmail id (localUpdates status receivedAt) none with
    | none => some { store := s, next := .resolve }
    | some (s', _) => some { store := s', next := .resolve }
  | .append event, .go =>
    match s.appendProviderEvent event with
    | .error _ => some { store := s, next := .throw }
    | .ok (s', _) => some { store := s', next := .resolve }
  | _, _ => none

/-- `EmailService.create`, from the prepared email on; `createBatch` makes one such call for each of
its emails. The records of the commit are those of the call: the store checks them. -/
def CreatePc.act (s : MemoryStore) : CreatePc → Choice → Option Effect
  | .commit input nowEpochSeconds, .go =>
    match s.commitDelivery input nowEpochSeconds with
    | .error _ => some { store := s, next := .throw }
    | .ok (s', created) =>
      if created.replayed && (created.outbox.dispatchedAt.isSome ||
          !(created.email.status == .queued ||
            created.email.status == .scheduled && created.email.scheduledAt.isSome)) ||
          !created.replayed && created.email.status == .suppressed then
        some { store := s', next := .resolve }
      else some { store := s', next := .goto (.create (.schedule created.outbox.id)) }
  | .schedule outboxId, .go =>
    some { store := s, enqueued := [.reconcileOutbox (some outboxId)], next := .resolve }
  | .schedule _, .throws _ => some { store := s, next := .resolve }
  | _, _ => none

/-- `OutboxReconciler.sweep` -/
def SweepPc.act (owner : String) (leaseSeconds limit now : ℕ) (s : MemoryStore) :
    SweepPc → Choice → Option Effect
  | .lease, .go =>
    match s.leaseDueOutbox ⟨owner, now, leaseSeconds, limit⟩ with
    | (s', .error _) => some { store := s', next := .throw }
    | (s', .ok leased) => some {
        store := s'
        next := .goto (.sweep owner leaseSeconds limit (.enqueue now leased)) }
  | .enqueue _ [], .go => some { store := s, next := .resolve }
  | .enqueue t (item :: items), .go => some {
      store := s
      enqueued := [.sendEmail item.messageId (some item.id)]
      next := .goto (.sweep owner leaseSeconds limit (.acknowledge t item items)) }
  | .enqueue t (item :: items), .throws error => some {
      store := s
      next := .goto (.sweep owner leaseSeconds limit (.failure t item error.category items)) }
  | .acknowledge t item items, .go =>
    match s.acknowledgeOutbox item.id owner t with
    | .error _ => some { store := s, next := .throw }
    | .ok (s', _) => some {
        store := s'
        next := .goto (.sweep owner leaseSeconds limit (.enqueue t items)) }
  | .failure t item category items, .go =>
    match s.recordOutboxFailure item.id owner category t with
    | .error _ => some { store := s, next := .throw }
    | .ok (s', _) => some {
        store := s'
        next := .goto (.sweep owner leaseSeconds limit (.enqueue t items)) }
  | _, _ => none

/-- One step of a call. -/
def Task.act (now logged : ℕ) (issued : List String) (s : MemoryStore) :
    Task → Choice → Option Effect
  | .idle, _ => none
  | .create pc, c => pc.act s c
  | .send id attempt pc, c => pc.act id attempt now logged issued s c
  | .cancel id pc, .go => pc.act id now s
  | .cancel _ _, _ => none
  | .reschedule id pc, c => pc.act id now s c
  | .providerEvent id status receivedAt pc, c => pc.act id status receivedAt s c
  | .sweep owner leaseSeconds limit pc, c => pc.act owner leaseSeconds limit now s c

/-- The calls an API client or a timer starts. -/
def Task.isCall : Task → Bool
  | .create (.commit _ _) | .cancel _ .getEmail | .reschedule _ (.getEmail _)
  | .providerEvent _ _ _ .ledger | .sweep _ _ _ .lease => true
  | _ => false

end HayaSend
