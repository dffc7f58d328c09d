import HayaSend.Adapters.MemoryStore

/-!
# The relational delivery stores

The delivery tables of `PostgresDeliveryStore` and `D1DeliveryStore`, and how the two commit a
delivery into them. A statement that breaks a primary key or a unique constraint fails the whole
transaction, so a group of statements is a function to `Option`. The two stores read a stored
claim alike; only Postgres deletes an expired one before it inserts its own.

The entities are kept whole: what the payload store moves out of an email comes back when it is
read.
-/

namespace HayaSend

/-- The delivery tables, by their primary keys. -/
structure DeliveryTables where
  emails : OrderedMap String EmailRecord := ∅
  deliveryMessages : OrderedMap String MessageRecord := ∅
  deliveryRecipients : OrderedMap String RecipientRecord := ∅
  outboxItems : OrderedMap String OutboxItemRecord := ∅
  idempotencyClaims : OrderedMap String IdempotencyEntry := ∅
  deriving DecidableEq

/-- The claim row of a commit. -/
def DeliveryCommit.claimEntry (c : DeliveryCommit) : Option IdempotencyEntry :=
  c.idempotency.map fun claim => { claim with emailId := c.email.id }

namespace DeliveryTables

/-! ## Statements -/

/-- `INSERT INTO delivery_recipients`. A message has one recipient at an envelope position. -/
def insertRecipient (rows : OrderedMap String RecipientRecord) (r : RecipientRecord) :
    Option (OrderedMap String RecipientRecord) :=
  if rows.values.any fun r' =>
      r'.messageId == r.messageId && r'.role == r.role && r'.ordinal == r.ordinal then none
  else rows.insertRow r.id r

/-- `INSERT INTO outbox_items`. A message has one outbox item. -/
def insertOutboxItem (rows : OrderedMap String OutboxItemRecord) (item : OutboxItemRecord) :
    Option (OrderedMap String OutboxItemRecord) :=
  if rows.values.any (·.messageId == item.messageId) then none else rows.insertRow item.id item

/-- The email, the message, the recipients and the outbox item of a commit. -/
def insertDelivery (t : DeliveryTables) (c : DeliveryCommit) : Option DeliveryTables := do
  let emails ← t.emails.insertRow c.email.id c.email
  let deliveryMessages ← t.deliveryMessages.insertRow c.message.id c.message
  let deliveryRecipients ← c.recipients.foldlM insertRecipient t.deliveryRecipients
  let outboxItems ← insertOutboxItem t.outboxItems c.outbox
  return { t with
    emails := emails
    deliveryMessages := deliveryMessages
    deliveryRecipients := deliveryRecipients
    outboxItems := outboxItems }

/-- The claim of a commit, when it has one. -/
def insertClaim (t : DeliveryTables) (c : DeliveryCommit) : Option DeliveryTables :=
  match c.claimEntry with
  | none => some t
  | some entry => do
    let idempotencyClaims ← t.idempotencyClaims.insertRow entry.keyHash entry
    return { t with idempotencyClaims := idempotencyClaims }

/-- `DELETE FROM idempotency_claims WHERE key_hash = $1 AND expires_at <= $2` -/
def deleteExpiredClaim (t : DeliveryTables) (keyHash : String) (nowEpochSeconds : ℕ) :
    DeliveryTables :=
  if (t.idempotencyClaims.get keyHash).any fun e => e.expiresAt ≤ nowEpochSeconds then
    { t with idempotencyClaims := t.idempotencyClaims.erase keyHash }
  else t

/-- The deletion that precedes the insertion of a claim. -/
def clearClaim (t : DeliveryTables) (c : DeliveryCommit) (nowEpochSeconds : ℕ) : DeliveryTables :=
  match c.idempotency with
  | none => t
  | some claim => t.deleteExpiredClaim claim.keyHash nowEpochSeconds

/-! ## Reads -/

/-- The claim of an email that expires last. -/
def claimOf (t : DeliveryTables) (emailId : String) : Option IdempotencyEntry :=
  ((t.idempotencyClaims.values.filter (·.emailId == emailId)).insertionSort
    fun a b => b.expiresAt ≤ a.expiresAt).head?

/-- `getDelivery` -/
def getDelivery (t : DeliveryTables) (messageId : String) :
    Except Failure (Option DeliveryCommitResult) :=
  match t.emails.get messageId, t.deliveryMessages.get messageId,
      t.outboxItems.values.find? (·.messageId == messageId) with
  | some email, some messageValue, some outboxValue => do
    let message ← messageValue.parse
    let rows ← (t.deliveryRecipients.values.filter (·.messageId == messageId)).mapM
      RecipientRecord.parse
    match message.recipientIds.mapM fun id => rows.find? (·.id == id) with
    | none => return none
    | some recipients => do
      let outbox ← outboxValue.parse
      return some {
        email := email
        message := message
        recipients := recipients
        outbox := outbox
        idempotency := (t.claimOf messageId).map (·.toIdempotencyClaim)
        replayed := false }
  | _, _, _ => .ok none

/-- `replayForIdempotency` -/
def replayForIdempotency (t : DeliveryTables) (idempotency : IdempotencyClaim)
    (nowEpochSeconds : ℕ) : Except Failure (Option DeliveryCommitResult) :=
  match (t.idempotencyClaims.get idempotency.keyHash).filter
      fun e => nowEpochSeconds < e.expiresAt with
  | none => .ok none
  | some claim =>
    if claim.requestHash != idempotency.requestHash then
      .error (.conflict "The Idempotency-Key has already been used with a different request.")
    else do
      match ← t.getDelivery claim.emailId with
      | none => .error (.conflict
          "The idempotent delivery exists but its atomic records are unavailable.")
      | some replay =>
        return some { replay with idempotency := some idempotency, replayed := true }

/-- The replay of a commit, when it has a claim. -/
def replayOf (t : DeliveryTables) (c : DeliveryCommit) (nowEpochSeconds : ℕ) :
    Except Failure (Option DeliveryCommitResult) :=
  match c.idempotency with
  | none => .ok none
  | some idempotency => t.replayForIdempotency idempotency nowEpochSeconds

end DeliveryTables

/-! ## Commits -/

/-- `PostgresDeliveryStore.commitDelivery` -/
def PostgresDeliveryStore.commitDelivery (t : DeliveryTables) (input : DeliveryCommit)
    (nowEpochSeconds : ℕ) : Except Failure (DeliveryTables × DeliveryCommitResult) := do
  let validated ← validateDeliveryCommit input nowEpochSeconds
  match ← t.replayOf validated nowEpochSeconds with
  | some replay => return (t, replay)
  | none =>
    match ((t.clearClaim validated nowEpochSeconds).insertDelivery validated).bind
        (·.insertClaim validated) with
    | some t' => return (t', { validated with replayed := false })
    | none =>
      match ← t.replayOf validated nowEpochSeconds with
      | some replay => return (t, replay)
      | none => .error (.conflict "Delivery identity is already in use.")

/-- The tables of the D1 store: the delivery tables and the revision of each ledger. -/
structure D1Tables extends DeliveryTables where
  ledgerVersions : OrderedMap String ℕ := ∅
  deriving DecidableEq

namespace D1Tables

/-- The batch of a commit. -/
def insertDelivery (t : D1Tables) (c : DeliveryCommit) : Option D1Tables := do
  let tables ← t.toDeliveryTables.insertDelivery c
  let ledgerVersions ← t.ledgerVersions.insertRow c.message.id 0
  let tables ← tables.insertClaim c
  return { tables with ledgerVersions := ledgerVersions }

end D1Tables

/-- `MAX_RECIPIENTS` -/
def D1DeliveryStore.maxRecipients : ℕ := 50

/-- `D1DeliveryStore.commitDelivery` -/
def D1DeliveryStore.commitDelivery (t : D1Tables) (input : DeliveryCommit) (nowEpochSeconds : ℕ) :
    Except Failure (D1Tables × DeliveryCommitResult) := do
  let validated ← validateDeliveryCommit input nowEpochSeconds
  throwIf (decide (maxRecipients < validated.recipients.length))
    (.error "Cloudflare delivery commits cannot exceed 50 recipients.")
  match ← t.replayOf validated nowEpochSeconds with
  | some replay => return (t, replay)
  | none =>
    match t.insertDelivery validated with
    | some t' => return (t', { validated with replayed := false })
    | none =>
      match ← t.replayOf validated nowEpochSeconds with
      | some replay => return (t, replay)
      | none => .error (.conflict "Delivery identity is already in use.")

end HayaSend
