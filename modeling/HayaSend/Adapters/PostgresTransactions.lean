import HayaSend.Adapters.DynamoSerializability
import HayaSend.Adapters.MemoryStoreOutbox
import HayaSend.Adapters.SqlDeliveryStores
import HayaSend.Foundations.RowLocks

/-!
# The transactions of the PostgreSQL delivery store

The operations of `PostgresDeliveryStore` on any number of messages, statement by statement, under
READ COMMITTED: a statement sees the rows that were committed when it runs, a row that it locks is
read again when the lock is granted, and a row that is inserted with a key waits for the transaction
that holds the key. A ledger operation locks the email and the message, and everything else of the
message only under the lock of the message.

`postgres_serializable`: the rows are those of the committed transactions, run alone in the order of
their commits. `postgres_ledgers`: the ledger of a message is then what its commit and the operations
on it make of it, one after the other, whatever happens on other messages, and it is `Sound`.
-/

namespace HayaSend

/-! ## Rows -/

/-- A row of the delivery tables or an entry of a unique index. Rows that are read by message stand
together. -/
inductive DeliveryRow
  | email (id : String)
  | message (id : String)
  | recipients (messageId : String)
  | recipientId (id : String)
  | attempts (messageId : String)
  | attemptId (id : String)
  | providerMessage (provider id : String)
  | events (messageId : String)
  | event (id : String)
  | providerEventMetrics
  | outboxItem (id : String)
  | messageOutbox (messageId : String)
  | outboxMetrics
  | claim (keyHash : String)
  deriving DecidableEq

namespace DeliveryRow

/-- What is stored; the entry of an index names the row. -/
abbrev Value : DeliveryRow → Type
  | email _ => Option EmailRecord
  | message _ => Option MessageRecord
  | recipients _ => OrderedMap String RecipientRecord
  | recipientId _ | attemptId _ | messageOutbox _ | providerMessage _ _ => Option String
  | attempts _ => List AttemptRecord
  | events _ => List ProviderEventRecord
  | event _ => Option ProviderEventRecord
  | providerEventMetrics => Option ℕ
  | outboxItem _ => Option OutboxItemRecord
  | outboxMetrics => ℕ
  | claim _ => Option IdempotencyEntry

/-- Whose lock a transaction has when it writes the row. -/
def guard : DeliveryRow → DeliveryRow
  | recipients messageId | attempts messageId | events messageId | messageOutbox messageId =>
    message messageId
  | row => row

end DeliveryRow

abbrev DeliveryRows := ∀ row : DeliveryRow, row.Value

/-- The tables after the migrations. -/
def DeliveryRows.empty : DeliveryRows
  | .email _ | .message _ | .recipientId _ | .attemptId _ | .messageOutbox _
  | .providerMessage _ _ | .event _ | .providerEventMetrics | .outboxItem _ | .claim _ => none
  | .recipients _ => ∅
  | .attempts _ | .events _ => []
  | .outboxMetrics => (0 : ℕ)

abbrev PostgresProgram := RowProgram DeliveryRow DeliveryRow.Value

namespace PostgresProgram

open RowProgram

/-! ## Statements -/

/-- `UPDATE emails SET entity = $1 WHERE id = $3` -/
def writeEmail (record : EmailRecord) (next : PostgresProgram) : PostgresProgram :=
  update (.email record.id) (Option.map fun _ => record) next

def writeMessage (record : MessageRecord) (next : PostgresProgram) : PostgresProgram :=
  update (.message record.id) (Option.map fun _ => record) next

/-- `UPDATE delivery_recipients SET entity = $1 WHERE id = $3 AND message_id = $4`, for the
recipients of a plan. -/
def updateRecipients (messageId : String) (rows : OrderedMap String RecipientRecord)
    (recipients : List RecipientRecord) : OrderedMap String RecipientRecord :=
  recipients.foldl (fun rows r =>
    rows.updateWhere (fun id _ => id == r.id && messageId == r.messageId) fun _ => r) rows

/-- `applyLedgerPlan` -/
def applyLedgerPlan (messageId : String) (plan : DeliveryLedgerState) (next : PostgresProgram) :
    PostgresProgram :=
  writeEmail plan.email <| writeMessage plan.message <|
    .read (.recipients messageId) fun rows =>
      .write (.recipients messageId) (updateRecipients messageId rows plan.recipients) next

/-- The unique index of the provider message ids that are not null. -/
def indexProviderMessage (attempt : AttemptRecord) (next : PostgresProgram) : PostgresProgram :=
  match attempt.providerMessageId with
  | none => next
  | some id => insert (.providerMessage attempt.provider.name id)
      (fun old : Option String => old.all (· == attempt.id)) (some attempt.id : Option String) next

/-- `INSERT INTO delivery_attempts` -/
def insertAttempt (messageId : String) (attempt : AttemptRecord) (next : PostgresProgram) :
    PostgresProgram :=
  insert (.attemptId attempt.id) Option.isNone (some messageId : Option String) <|
    indexProviderMessage attempt <|
    .read (.attempts messageId) fun rows : List AttemptRecord =>
      if rows.any (·.sequence == attempt.sequence) then .rollback
      else .write (.attempts messageId) (rows ++ [attempt]) next

/-- The entry of the row's version that an update replaces. -/
def releaseProviderMessage (old : AttemptRecord) (next : PostgresProgram) : PostgresProgram :=
  match old.providerMessageId with
  | none => next
  | some id => update (.providerMessage old.provider.name id)
      (fun entry : Option String => entry.filter (· != old.id)) next

/-- `UPDATE delivery_attempts SET ... WHERE id = $3 AND message_id = $4` -/
def updateAttempt (messageId : String) (attempt : AttemptRecord) (next : PostgresProgram) :
    PostgresProgram :=
  .read (.attempts messageId) fun rows : List AttemptRecord =>
    match rows.find? fun b => b.id = attempt.id ∧ attempt.messageId = messageId with
    | none => next
    | some old => releaseProviderMessage old <| indexProviderMessage attempt <|
        .write (.attempts messageId) (rows.map fun b =>
          if b.id = attempt.id ∧ attempt.messageId = messageId then attempt else b) next

/-! ## Ledgers -/

/-- What `getStoredLedgerState` makes of the rows it selected; `none` is `undefined`. -/
def storedLedgerState (email : EmailRecord) (messageRow : MessageRecord)
    (recipientRows : OrderedMap String RecipientRecord) (attemptRows : List AttemptRecord) :
    Except Failure (Option DeliveryLedgerState) := do
  let message ← messageRow.parse
  let recipients ← recipientRows.values.mapM RecipientRecord.parse
  let recipientById := OrderedMap.ofList (recipients.map fun r => (r.id, r))
  match message.recipientIds.mapM recipientById.get with
  | none => return none
  | some orderedRecipients => do
    let attempts ← (attemptRows.insertionSort attemptOrder).mapM AttemptRecord.parse
    return some ⟨email, message, orderedRecipients, attempts⟩

/-- `getStoredLedgerState`, with the rows of the email and the message locked. -/
def getStoredLedgerState (messageId : String) (next : DeliveryLedgerState → PostgresProgram) :
    PostgresProgram :=
  selectForUpdate (.email messageId) id fun email : EmailRecord =>
    selectForUpdate (.message messageId) id fun message : MessageRecord =>
      .read (.recipients messageId) fun recipientRows => .read (.attempts messageId) fun attemptRows =>
        match storedLedgerState email message recipientRows attemptRows with
        | .error _ => .rollback
        | .ok none => .commit
        | .ok (some stored) => next stored

/-- The writes of a planned ledger operation. -/
def writePlan (messageId : String) (planned : PlannedWrite) : PostgresProgram :=
  applyLedgerPlan messageId planned.plan <| match planned.putAttempt, planned.updateAttempt with
    | some attempt, _ => insertAttempt messageId attempt .commit
    | none, some attempt => updateAttempt messageId attempt .commit
    | none, none => .commit

/-- `beginDeliveryAttempt`, `completeDeliveryAttempt` and `applyLocalDeliveryState`. -/
def ledgerOperation (messageId : String) (req : LedgerRequest) : PostgresProgram :=
  getStoredLedgerState messageId fun stored =>
    match req.plan stored with
    | .error _ => .rollback
    | .ok none => .commit
    | .ok (some planned) => writePlan messageId planned

/-- The writes of `appendProviderEvent`. -/
def writeEvent (plan : DeliveryLedgerState) (event : ProviderEventRecord) : PostgresProgram :=
  applyLedgerPlan event.messageId plan <|
    insert (.event event.id) Option.isNone (some event : Option ProviderEventRecord) <|
    .read (.events event.messageId) fun rows : List ProviderEventRecord =>
      .write (.events event.messageId) (rows ++ [event]) <|
    update .providerEventMetrics (fun latest : Option ℕ =>
      some (max (latest.getD event.receivedAt) event.receivedAt)) .commit

def appendProviderEvent (input : ProviderEventRecord) : PostgresProgram :=
  match input.parse with
  | .error _ => .rollback
  | .ok event => getStoredLedgerState event.messageId fun stored =>
    .read (.event event.id) fun existing : Option ProviderEventRecord => match existing with
      | some existing => if existing.isEquivalentReplay event then .commit else .rollback
      | none => match planProviderEvent stored event with
        | .error _ => .rollback
        | .ok (plan, _) => writeEvent plan.toDeliveryLedgerState event

/-! ## Deliveries -/

/-- `DELETE FROM idempotency_claims WHERE key_hash = $1 AND expires_at <= $2` -/
def deleteExpiredClaim (keyHash : String) (nowEpochSeconds : ℕ) (next : PostgresProgram) :
    PostgresProgram :=
  let isExpired (claim : Option IdempotencyEntry) := claim.any (·.expiresAt ≤ nowEpochSeconds)
  .read (.claim keyHash) fun claim =>
    if isExpired claim then .lock (.claim keyHash) fun claim =>
      if isExpired claim then .write (.claim keyHash) (none : Option IdempotencyEntry) next
      else next
    else next

/-- `INSERT INTO delivery_recipients` -/
def insertRecipients (messageId : String) (recipients : List RecipientRecord)
    (next : PostgresProgram) : PostgresProgram :=
  recipients.foldr (fun r next =>
    insert (.recipientId r.id) Option.isNone (some messageId : Option String) next) <|
    .read (.recipients messageId) fun rows =>
      .write (.recipients messageId) (rows.setAll (·.id) recipients) next

/-- `INSERT INTO outbox_items` -/
def insertOutboxItem (messageId : String) (item : OutboxItemRecord) (next : PostgresProgram) :
    PostgresProgram :=
  insert (.outboxItem item.id) Option.isNone (some item : Option OutboxItemRecord) <|
    .read (.messageOutbox messageId) fun taken : Option String =>
      if taken.isSome then .rollback
      else .write (.messageOutbox messageId) (some item.id : Option String) next

/-- `INSERT INTO idempotency_claims`, when there is a claim. -/
def insertClaim (c : DeliveryCommit) (next : PostgresProgram) : PostgresProgram :=
  match c.claimEntry with
  | none => next
  | some entry =>
    insert (.claim entry.keyHash) Option.isNone (some entry : Option IdempotencyEntry) next

def insertDelivery (c : DeliveryCommit) : PostgresProgram :=
  insert (.email c.email.id) Option.isNone (some c.email : Option EmailRecord) <|
    insert (.message c.message.id) Option.isNone (some c.message : Option MessageRecord) <|
    insertRecipients c.message.id c.recipients <| insertOutboxItem c.message.id c.outbox <|
    insertClaim c .commit

/-- The transaction of `commitDelivery`. -/
def commitDelivery (input : DeliveryCommit) (nowEpochSeconds : ℕ) : PostgresProgram :=
  match validateDeliveryCommit input nowEpochSeconds with
  | .error _ => .rollback
  | .ok c => match c.idempotency with
    | none => insertDelivery c
    | some claim => deleteExpiredClaim claim.keyHash nowEpochSeconds (insertDelivery c)

/-! ## Emails and the outbox -/

def claimEmailForSend (emailId : String) (attempt now : ℕ) : PostgresProgram :=
  selectForUpdate (.email emailId) id fun record : EmailRecord =>
    if record.claimable now then
      writeEmail (record.claimed (StoreKind.postgres.claimCounter attempt record.attempts) now)
        .commit
    else .commit

def updateEmail (emailId : String) (updates : EmailUpdates)
    (fromStatuses : Option (List EmailStatus)) : PostgresProgram :=
  selectForUpdate (.email emailId) id fun record : EmailRecord =>
    if record.updatable fromStatuses then writeEmail (updates.applyTo record) .commit else .commit

def rescheduleEmailAndOutbox (emailId : String) (scheduledAt now : ℕ) : PostgresProgram :=
  selectForUpdate (.email emailId) id fun email : EmailRecord =>
    selectForUpdate (.message emailId) id fun message : MessageRecord =>
      .read (.messageOutbox emailId) fun outboxId : Option String => match outboxId with
        | none => .commit
        | some outboxId => selectForUpdate (.outboxItem outboxId) id fun outbox : OutboxItemRecord =>
          if email.status.isPending && outbox.dispatchedAt.isNone && outbox.leaseOwner.isNone then
            writeEmail (email.rescheduled scheduledAt now) <|
              update (.message emailId)
                (Option.map fun _ : MessageRecord => message.rescheduled scheduledAt now) <|
              update (.outboxItem outboxId) (Option.map fun _ : OutboxItemRecord =>
                MemoryStore.rescheduledItem scheduledAt now outbox) .commit
          else .commit

/-- The condition under which an item is given back. -/
def heldItem (owner : String) (row : Option OutboxItemRecord) : Option OutboxItemRecord :=
  row.filter fun item => item.dispatchedAt.isNone && item.leaseOwner == some owner

def acknowledgeOutbox (outboxId owner : String) (now : ℕ) : PostgresProgram :=
  selectForUpdate (.outboxItem outboxId) (heldItem owner) fun item : OutboxItemRecord =>
    .write (.outboxItem outboxId)
      (some (MemoryStore.acknowledgedItem now item) : Option OutboxItemRecord) .commit

def recordOutboxFailure (outboxId owner : String) (category : DiagnosticCategory) (now : ℕ) :
    PostgresProgram :=
  selectForUpdate (.outboxItem outboxId) (heldItem owner) fun item : OutboxItemRecord =>
    .write (.outboxItem outboxId)
      (some (MemoryStore.failedItem category now item) : Option OutboxItemRecord) <|
    update .outboxMetrics (fun total : ℕ => total + 1) .commit

/-- `FOR UPDATE SKIP LOCKED`: of the rows that the statement could lock, those that are still due. -/
def lockCandidates (now : ℕ) : List String → List (String × OutboxItemRecord) →
    (List (String × OutboxItemRecord) → PostgresProgram) → PostgresProgram
  | [], found, next => next found.reverse
  | id :: ids, found, next => .lock (.outboxItem id) fun row : Option OutboxItemRecord =>
    match row.filter (MemoryStore.isDue now) with
    | none => lockCandidates now ids found next
    | some item => lockCandidates now ids ((id, item) :: found) next

def writeLeases (input : LeaseDueOutboxInput) : List (String × OutboxItemRecord) →
    PostgresProgram → PostgresProgram
  | [], next => next
  | (id, item) :: found, next =>
    .write (.outboxItem id) (some (MemoryStore.leasedItem input item) : Option OutboxItemRecord)
      (writeLeases input found next)

def validateLeaseInput (input : LeaseDueOutboxInput) : Except Failure Unit := do
  throwIf (!isLeaseOwner input.owner)
    (.error "Outbox lease owner must be a privacy-safe opaque ID.")
  throwIf (input.leaseSeconds == 0)
    (.error "Outbox lease duration must be a positive integer.")
  throwIf (input.limit == 0 || decide (1000 < input.limit))
    (.error "Outbox lease limit must be between 1 and 1000.")

/-- `leaseDueOutbox`, with the rows that no other transaction had locked. -/
def leaseDueOutbox (input : LeaseDueOutboxInput) (unlocked : List String) : PostgresProgram :=
  match validateLeaseInput input with
  | .error _ => .rollback
  | .ok () => lockCandidates input.now (unlocked.take input.limit) [] fun found =>
    writeLeases input found <|
      if found.all fun p => decide (MemoryStore.leasedItem input p.2).Valid then .commit
      else .rollback

end PostgresProgram

/-! ## Operations -/

inductive PostgresOperation
  | commitDelivery (input : DeliveryCommit) (nowEpochSeconds : ℕ)
  | beginDeliveryAttempt (attempt : AttemptRecord)
  | completeDeliveryAttempt (input : AttemptCompletion)
  | applyLocalDeliveryState (messageId : String) (status : LocalStatus) (updatedAt : ℕ)
  | appendProviderEvent (event : ProviderEventRecord)
  | claimEmailForSend (emailId : String) (attempt now : ℕ)
  | updateEmail (emailId : String) (updates : EmailUpdates)
    (fromStatuses : Option (List EmailStatus))
  | rescheduleEmailAndOutbox (emailId : String) (scheduledAt now : ℕ)
  | leaseDueOutbox (input : LeaseDueOutboxInput) (unlocked : List String)
  | acknowledgeOutbox (outboxId owner : String) (now : ℕ)
  | recordOutboxFailure (outboxId owner : String) (category : DiagnosticCategory) (now : ℕ)
  deriving DecidableEq

namespace PostgresOperation

def program : PostgresOperation → PostgresProgram
  | commitDelivery input now => PostgresProgram.commitDelivery input now
  | beginDeliveryAttempt attempt =>
    PostgresProgram.ledgerOperation attempt.messageId (.begin attempt)
  | completeDeliveryAttempt input =>
    PostgresProgram.ledgerOperation input.messageId (.complete input)
  | applyLocalDeliveryState messageId status updatedAt =>
    PostgresProgram.ledgerOperation messageId (.localState status updatedAt)
  | appendProviderEvent event => PostgresProgram.appendProviderEvent event
  | claimEmailForSend emailId attempt now =>
    PostgresProgram.claimEmailForSend emailId attempt now
  | updateEmail emailId updates fromStatuses =>
    PostgresProgram.updateEmail emailId updates fromStatuses
  | rescheduleEmailAndOutbox emailId scheduledAt now =>
    PostgresProgram.rescheduleEmailAndOutbox emailId scheduledAt now
  | leaseDueOutbox input unlocked => PostgresProgram.leaseDueOutbox input unlocked
  | acknowledgeOutbox outboxId owner now => PostgresProgram.acknowledgeOutbox outboxId owner now
  | recordOutboxFailure outboxId owner category now =>
    PostgresProgram.recordOutboxFailure outboxId owner category now

end PostgresOperation

/-! ## Locks -/

namespace PostgresProgram

open RowProgram DeliveryRow

variable {held : List DeliveryRow} {next : PostgresProgram} {messageId : String}

/-- What comes next is under the lock of the message. -/
def UnderLock (messageId : String) (next : PostgresProgram) : Prop :=
  ∀ held, DeliveryRow.message messageId ∈ held → Disciplined guard held next

theorem UnderLock.commit : UnderLock messageId .commit := fun _ _ => .commit

theorem UnderLock.insert {row : DeliveryRow} {isFree : row.Value → Bool} {v : row.Value}
    (hrow : guard row = row) (h : UnderLock messageId next) :
    UnderLock messageId (insert row isFree v next) :=
  fun _ hm => .insert hrow (h _ (List.mem_cons_of_mem _ hm))

theorem UnderLock.update {row : DeliveryRow} {f : row.Value → row.Value}
    (hrow : guard row = row) (h : UnderLock messageId next) :
    UnderLock messageId (update row f next) :=
  fun _ hm => .update hrow (h _ (List.mem_cons_of_mem _ hm))

theorem UnderLock.applyLedgerPlan {plan : DeliveryLedgerState} (h : UnderLock messageId next) :
    UnderLock messageId (applyLedgerPlan messageId plan next) :=
  .update rfl <| .update rfl fun held hm => .read hm fun _ => .write hm (h held hm)

theorem UnderLock.indexProviderMessage {attempt : AttemptRecord} (h : UnderLock messageId next) :
    UnderLock messageId (indexProviderMessage attempt next) := by
  unfold PostgresProgram.indexProviderMessage
  split
  · exact h
  · exact .insert rfl h

theorem UnderLock.insertAttempt {attempt : AttemptRecord} (h : UnderLock messageId next) :
    UnderLock messageId (insertAttempt messageId attempt next) := by
  refine .insert rfl <| .indexProviderMessage fun held hm => .read hm fun rows => ?_
  split_ifs
  · exact .rollback
  · exact .write hm (h held hm)

theorem UnderLock.releaseProviderMessage {old : AttemptRecord} (h : UnderLock messageId next) :
    UnderLock messageId (releaseProviderMessage old next) := by
  unfold PostgresProgram.releaseProviderMessage
  split
  · exact h
  · exact .update rfl h

theorem UnderLock.updateAttempt {attempt : AttemptRecord} (h : UnderLock messageId next) :
    UnderLock messageId (updateAttempt messageId attempt next) := by
  refine fun held hm => .read hm fun rows => ?_
  split
  · exact h held hm
  · refine UnderLock.releaseProviderMessage (.indexProviderMessage ?_) held hm
    exact fun held hm => .write hm (h held hm)

theorem UnderLock.writePlan {planned : PlannedWrite} :
    UnderLock messageId (writePlan messageId planned) := by
  refine .applyLedgerPlan ?_
  split
  · exact .insertAttempt .commit
  · exact .updateAttempt .commit
  · exact .commit

theorem UnderLock.writeEvent {plan : DeliveryLedgerState} {event : ProviderEventRecord} :
    UnderLock event.messageId (writeEvent plan event) :=
  .applyLedgerPlan <| .insert rfl fun held hm => .read hm fun _ => .write hm <|
    UnderLock.update rfl .commit held hm

theorem UnderLock.insertRecipients {recipients : List RecipientRecord}
    (h : UnderLock messageId next) :
    UnderLock messageId (insertRecipients messageId recipients next) := by
  unfold PostgresProgram.insertRecipients
  generalize hwrite : RowProgram.read (DeliveryRow.recipients messageId) _ = written
  have hwritten : UnderLock messageId written := by
    rw [← hwrite]
    exact fun held hm => .read hm fun _ => .write hm (h held hm)
  clear hwrite
  induction recipients with
  | nil => exact hwritten
  | cons r rs ih => exact .insert rfl ih

theorem UnderLock.insertOutboxItem {item : OutboxItemRecord} (h : UnderLock messageId next) :
    UnderLock messageId (insertOutboxItem messageId item next) := by
  refine .insert rfl fun held hm => .read hm fun taken => ?_
  split_ifs
  · exact .rollback
  · exact .write hm (h held hm)

theorem UnderLock.insertClaim {c : DeliveryCommit} : UnderLock messageId (insertClaim c .commit) := by
  unfold PostgresProgram.insertClaim
  split
  · exact .commit
  · exact .insert rfl .commit

theorem disciplined_insertDelivery {c : DeliveryCommit} :
    Disciplined guard held (insertDelivery c) := by
  refine .insert rfl <| .insert rfl ?_
  exact UnderLock.insertRecipients (.insertOutboxItem .insertClaim) _ List.mem_cons_self

theorem disciplined_writeLeases {input : LeaseDueOutboxInput}
    {found : List (String × OutboxItemRecord)} (hfound : ∀ p ∈ found, outboxItem p.1 ∈ held)
    (h : Disciplined guard held next) : Disciplined guard held (writeLeases input found next) := by
  induction found with
  | nil => exact h
  | cons p found ih =>
    obtain ⟨hp, hrest⟩ := List.forall_mem_cons.mp hfound
    exact .write hp (ih hrest)

theorem disciplined_lockCandidates {now : ℕ} {ids : List String}
    {found : List (String × OutboxItemRecord)}
    {next : List (String × OutboxItemRecord) → PostgresProgram}
    (hfound : ∀ p ∈ found, outboxItem p.1 ∈ held)
    (h : ∀ held found, (∀ p ∈ found, outboxItem p.1 ∈ held) → Disciplined guard held (next found)) :
    Disciplined guard held (lockCandidates now ids found next) := by
  induction ids generalizing held found with
  | nil => exact h held _ fun p hp => hfound p (List.mem_reverse.mp hp)
  | cons id ids ih =>
    refine .lock rfl fun row => ?_
    have hfound' : ∀ p ∈ found, outboxItem p.1 ∈ outboxItem id :: held :=
      fun p hp => List.mem_cons_of_mem _ (hfound p hp)
    split
    · exact ih hfound'
    · exact ih (List.forall_mem_cons.mpr ⟨List.mem_cons_self, hfound'⟩)

theorem disciplined_leaseDueOutbox {input : LeaseDueOutboxInput} {unlocked : List String} :
    Disciplined guard held (leaseDueOutbox input unlocked) := by
  unfold leaseDueOutbox
  split
  · exact .rollback
  · refine disciplined_lockCandidates (fun p hp => absurd hp List.not_mem_nil) ?_
    intro held found hfound
    refine disciplined_writeLeases hfound ?_
    split_ifs
    · exact .commit
    · exact .rollback

theorem wellLocked_getStoredLedgerState {next : DeliveryLedgerState → PostgresProgram}
    (h : ∀ stored held, DeliveryRow.message messageId ∈ held →
      WellLocked guard held (next stored)) :
    WellLocked guard held (getStoredLedgerState messageId next) := by
  refine wellLocked_selectForUpdate rfl fun email => wellLocked_selectForUpdate rfl fun message => ?_
  intro recipientRows attemptRows
  dsimp only
  split
  · trivial
  · trivial
  · exact h _ _ List.mem_cons_self

theorem settles_getStoredLedgerState {rows : DeliveryRows}
    {next : DeliveryLedgerState → PostgresProgram}
    (h : ∀ stored held, DeliveryRow.message messageId ∈ held →
      Settles guard rows held [] (next stored)) :
    Settles guard rows held [] (getStoredLedgerState messageId next) := by
  refine settles_selectForUpdate fun email _ => settles_selectForUpdate fun message _ => ?_
  refine settles_read List.mem_cons_self (settles_read List.mem_cons_self ?_)
  split
  · exact settles_rollback
  · exact settles_commit
  · exact h _ _ List.mem_cons_self

theorem wellLocked_ledgerOperation {req : LedgerRequest} :
    WellLocked guard held (ledgerOperation messageId req) := by
  refine wellLocked_getStoredLedgerState fun stored held hm => ?_
  split
  · trivial
  · trivial
  · exact (UnderLock.writePlan held hm).wellLocked

theorem current_ledgerOperation {req : LedgerRequest} :
    Current guard (ledgerOperation messageId req) := by
  refine fun rows => settles_getStoredLedgerState fun stored held hm => ?_
  split
  · exact settles_rollback
  · exact settles_commit
  · exact settles_of_readsLocked (UnderLock.writePlan held hm).readsLocked

theorem wellLocked_appendProviderEvent {input : ProviderEventRecord} :
    WellLocked guard held (appendProviderEvent input) := by
  unfold appendProviderEvent
  split
  · trivial
  · refine wellLocked_getStoredLedgerState fun stored held hm existing => ?_
    dsimp only
    split
    · split_ifs <;> trivial
    · split
      · trivial
      · exact (UnderLock.writeEvent held hm).wellLocked

theorem needs_applyLedgerPlan {row : DeliveryRow} {P : row.Value → Prop} {plan : DeliveryLedgerState}
    (hemail : ∀ id, row ≠ email id) (hmessage : ∀ id, row ≠ message id)
    (hrecipients : ∀ id, row ≠ recipients id) (h : Needs row P next) :
    Needs row P (applyLedgerPlan messageId plan next) :=
  .update (hemail _) <| .update (hmessage _) <| .read fun _ => .write (hrecipients _) h

theorem needs_writeEvent {plan : DeliveryLedgerState} {event : ProviderEventRecord} :
    Needs (.event event.id) (·.isNone = true) (writeEvent plan event) :=
  needs_applyLedgerPlan (fun _ => DeliveryRow.noConfusion) (fun _ => DeliveryRow.noConfusion)
    (fun _ => DeliveryRow.noConfusion) needs_insert

/-- **An event that another transaction has stored** is not stored again: the key is taken when the
transaction inserts it, though it was free when the transaction looked. -/
theorem current_appendProviderEvent {input : ProviderEventRecord} :
    Current guard (appendProviderEvent input) := by
  intro rows
  unfold appendProviderEvent
  split
  · exact settles_rollback
  · rename_i event hparse
    refine settles_getStoredLedgerState fun stored held hm => ?_
    rintro out ⟨existing, -, hout⟩ hne
    cases existing with
    | some existing =>
      dsimp only at hout
      split_ifs at hout
      · exact absurd hout.symm hne
      · exact hout.elim
    | none =>
      dsimp only at hout
      split at hout
      · exact hout.elim
      · rename_i plan event' hplan
        have hrun := settles_of_readsLocked (UnderLock.writeEvent held hm).readsLocked out hout hne
        rw [run, view_nil]
        have hfree : (rows (.event event.id)).isNone = true := needs_writeEvent rows [] out hrun
        rw [Option.isNone_iff_eq_none.mp hfree]
        exact hrun

theorem wellLocked_commitDelivery {input : DeliveryCommit} {now : ℕ} :
    WellLocked guard held (commitDelivery input now) := by
  unfold commitDelivery
  split
  · trivial
  · split
    · exact disciplined_insertDelivery.wellLocked
    · intro v
      dsimp only
      split_ifs
      · refine ⟨rfl, fun v => ?_⟩
        dsimp only
        split_ifs
        · exact ⟨List.mem_cons_self, disciplined_insertDelivery.wellLocked⟩
        · exact disciplined_insertDelivery.wellLocked
      · exact disciplined_insertDelivery.wellLocked

theorem needs_insertDelivery {c : DeliveryCommit} {claim : IdempotencyClaim}
    (hc : c.idempotency = some claim) :
    Needs (.claim claim.keyHash) (·.isNone = true) (insertDelivery c) := by
  have hclaim : Needs (.claim claim.keyHash) (·.isNone = true) (insertClaim c .commit) := by
    rw [insertClaim, DeliveryCommit.claimEntry, hc]
    exact needs_insert
  have houtbox : Needs (.claim claim.keyHash) (·.isNone = true)
      (insertOutboxItem c.message.id c.outbox (insertClaim c .commit)) := by
    refine .insert DeliveryRow.noConfusion <| .read fun taken => ?_
    split_ifs
    · exact .rollback
    · exact .write DeliveryRow.noConfusion hclaim
  refine .insert DeliveryRow.noConfusion <| .insert DeliveryRow.noConfusion ?_
  unfold insertRecipients
  generalize hwrite : RowProgram.read (DeliveryRow.recipients c.message.id) _ = written
  have hwritten : Needs (.claim claim.keyHash) (·.isNone = true) written := by
    rw [← hwrite]
    exact .read fun _ => .write DeliveryRow.noConfusion houtbox
  clear hwrite
  induction c.recipients with
  | nil => exact hwritten
  | cons r rs ih => exact .insert DeliveryRow.noConfusion ih

/-- **A claim that another transaction has stored** fails the commit, though the key was free or its
claim was live when the transaction deleted what had expired. -/
theorem current_commitDelivery {input : DeliveryCommit} {now : ℕ} :
    Current guard (commitDelivery input now) := by
  intro rows
  unfold commitDelivery
  split
  · exact settles_rollback
  · rename_i c hc
    split
    · exact settles_of_readsLocked disciplined_insertDelivery.readsLocked
    · rename_i claim hclaim
      have hsettles : ∀ {held ws}, Settles guard rows held ws (insertDelivery c) :=
        settles_of_readsLocked disciplined_insertDelivery.readsLocked
      rintro out ⟨old, -, hout⟩ hne
      rw [deleteExpiredClaim, run, view_nil]
      dsimp only at hout ⊢
      split_ifs at hout with hold
      · rw [Commits, view_nil] at hout
        split_ifs at hout ⊢ with hexpired
        · rw [run, view_nil, if_pos hexpired]
          exact hsettles out hout hne
        · exact hsettles out hout hne
      · have hrun := hsettles out hout hne
        have hfree : (rows (.claim claim.keyHash)).isNone = true :=
          needs_insertDelivery hclaim rows [] out hrun
        rw [Option.isNone_iff_eq_none.mp hfree]
        exact hrun

theorem wellLocked_program (op : PostgresOperation) : WellLocked guard [] op.program := by
  cases op with
  | commitDelivery input now => exact wellLocked_commitDelivery
  | beginDeliveryAttempt attempt => exact wellLocked_ledgerOperation
  | completeDeliveryAttempt input => exact wellLocked_ledgerOperation
  | applyLocalDeliveryState messageId status updatedAt => exact wellLocked_ledgerOperation
  | appendProviderEvent event => exact wellLocked_appendProviderEvent
  | claimEmailForSend emailId attempt now =>
    refine wellLocked_selectForUpdate rfl fun record => ?_
    split_ifs
    · exact (Disciplined.update rfl .commit).wellLocked
    · trivial
  | updateEmail emailId updates fromStatuses =>
    refine wellLocked_selectForUpdate rfl fun record => ?_
    split_ifs
    · exact (Disciplined.update rfl .commit).wellLocked
    · trivial
  | rescheduleEmailAndOutbox emailId scheduledAt now =>
    refine wellLocked_selectForUpdate rfl fun email =>
      wellLocked_selectForUpdate rfl fun message outboxId => ?_
    dsimp only
    split
    · trivial
    · refine wellLocked_selectForUpdate rfl fun outbox => ?_
      split_ifs
      · exact (Disciplined.update rfl <| .update rfl <| .update rfl .commit).wellLocked
      · trivial
  | leaseDueOutbox input unlocked => exact disciplined_leaseDueOutbox.wellLocked
  | acknowledgeOutbox outboxId owner now =>
    exact wellLocked_selectForUpdate rfl fun item => ⟨List.mem_cons_self, trivial⟩
  | recordOutboxFailure outboxId owner category now =>
    exact wellLocked_selectForUpdate rfl fun item =>
      ⟨List.mem_cons_self, (Disciplined.update rfl .commit).wellLocked⟩

theorem current_program (op : PostgresOperation) : Current guard op.program := by
  cases op with
  | commitDelivery input now => exact current_commitDelivery
  | beginDeliveryAttempt attempt => exact current_ledgerOperation
  | completeDeliveryAttempt input => exact current_ledgerOperation
  | applyLocalDeliveryState messageId status updatedAt => exact current_ledgerOperation
  | appendProviderEvent event => exact current_appendProviderEvent
  | claimEmailForSend emailId attempt now =>
    refine fun rows => settles_selectForUpdate fun record _ => ?_
    split_ifs
    · exact settles_of_readsLocked (Disciplined.update rfl .commit).readsLocked
    · exact settles_commit
  | updateEmail emailId updates fromStatuses =>
    refine fun rows => settles_selectForUpdate fun record _ => ?_
    split_ifs
    · exact settles_of_readsLocked (Disciplined.update rfl .commit).readsLocked
    · exact settles_commit
  | rescheduleEmailAndOutbox emailId scheduledAt now =>
    refine fun rows => settles_selectForUpdate fun email _ =>
      settles_selectForUpdate fun message _ => settles_read List.mem_cons_self ?_
    split
    · exact settles_commit
    · refine settles_selectForUpdate fun outbox _ => ?_
      split_ifs
      · exact settles_of_readsLocked
          (Disciplined.update rfl <| .update rfl <| .update rfl .commit).readsLocked
      · exact settles_commit
  | leaseDueOutbox input unlocked =>
    exact fun rows => settles_of_readsLocked disciplined_leaseDueOutbox.readsLocked
  | acknowledgeOutbox outboxId owner now =>
    exact fun rows => settles_selectForUpdate fun item _ => settles_of_readsLocked trivial
  | recordOutboxFailure outboxId owner category now =>
    exact fun rows => settles_selectForUpdate fun item _ =>
      settles_of_readsLocked (Disciplined.update rfl .commit).readsLocked

end PostgresProgram

/-! ## Runs -/

abbrev PostgresWorld := RowWorld DeliveryRow DeliveryRow.Value PostgresOperation

namespace PostgresWorld

def system (rows : DeliveryRows) :
    TransitionSystem PostgresWorld (RowLabel PostgresOperation) :=
  RowWorld.system PostgresOperation.program rows

end PostgresWorld

open PostgresWorld

/-- **The operations of the PostgreSQL store are serializable**: on any number of messages, with
crashes and deadlocks anywhere, the rows are those of the transactions that committed a write, each
run alone and once, in the order of their commits. -/
theorem postgres_serializable {rows : DeliveryRows} {w : PostgresWorld}
    (h : (system rows).Reachable w) :
    TransitionSystem.serial (fun rows op => (PostgresOperation.program op).apply rows) rows
        (w.log.map Prod.snd) = some w.rows ∧
      (w.log.map Prod.fst).Nodup ∧
      ∀ i op, (i, op) ∈ w.log ↔ ∃ c, w.calls[i]? = some c ∧ c.op = op ∧ c.committed = true := by
  obtain ⟨hserial, hlog⟩ := row_locks_serializable PostgresProgram.wellLocked_program
    PostgresProgram.current_program h
  exact ⟨hserial, hlog.nodup, fun i op => hlog.mem_iff⟩

namespace PostgresWorld

/-- A delivery is committed; then an update of the email waits for an attempt that begins. -/
def sampleRun : List (RowLabel PostgresOperation) :=
  [.start (.commitDelivery sampleCommit 1)] ++ List.replicate 20 (.go 0) ++
    [.start (.beginDeliveryAttempt sesAttempt), .go 1, .go 1,
      .start (.updateEmail sampleCommit.email.id { error := some (some "late") } none), .go 2] ++
    List.replicate 20 (.go 1) ++ List.replicate 20 (.go 2)

end PostgresWorld

theorem postgres_serializable_sample : ∃ w, (system DeliveryRows.empty).Reachable w ∧
    w.log.map Prod.fst = [0, 1, 2] ∧ TransitionSystem.serial
      (fun rows op => (PostgresOperation.program op).apply rows) DeliveryRows.empty
      (w.log.map Prod.snd) = some w.rows := by
  have hrun : ((system DeliveryRows.empty).run { rows := DeliveryRows.empty } sampleRun).any
      (fun w => decide (w.log.map Prod.fst = [0, 1, 2])) = true := by
    decide +kernel
  obtain ⟨w, hw, hlog⟩ := TransitionSystem.exists_reachable_of_run rfl hrun
  exact ⟨w, hw, of_decide_eq_true hlog, (postgres_serializable hw).1⟩

end HayaSend
