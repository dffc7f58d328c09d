import HayaSend.Adapters.SqlDeliveryStores

/-!
# The DynamoDB store

The items of `DynamoStore` that hold deliveries, and its delivery commit. The key of an item starts
with the kind of its entity, so each kind is a map of its own; the recipients of a message share
its partition. A transaction whose condition fails on any item is canceled as a whole. The item of
an idempotency claim carries its expiry as its time to live: once past, the table may remove the
item at any time, or never.
-/

namespace HayaSend

structure DynamoTable where
  emails : OrderedMap String EmailRecord := ∅
  deliveryMessages : OrderedMap String MessageRecord := ∅
  /-- By message id and recipient id. -/
  recipients : OrderedMap (String × String) RecipientRecord := ∅
  outboxItems : OrderedMap String OutboxItemRecord := ∅
  idempotency : OrderedMap String IdempotencyEntry := ∅
  undispatched : ℕ := 0
  deriving DecidableEq

namespace DynamoTable

/-- The error of a canceled transaction. -/
def transactionCanceled : Failure := .error "TransactionCanceledException"

/-- The transaction of a commit: every item is put under the condition that its key is free. -/
def transactDelivery (t : DynamoTable) (c : DeliveryCommit) : Option DynamoTable := do
  let emails ← t.emails.insertRow c.email.id c.email
  let deliveryMessages ← t.deliveryMessages.insertRow c.message.id c.message
  let recipients ← c.recipients.foldlM (fun rows r => rows.insertRow (c.message.id, r.id) r)
    t.recipients
  let outboxItems ← t.outboxItems.insertRow c.outbox.id c.outbox
  let idempotency ← match c.claimEntry with
    | none => some t.idempotency
    | some entry => t.idempotency.insertRow entry.keyHash entry
  return {
    emails := emails
    deliveryMessages := deliveryMessages
    recipients := recipients
    outboxItems := outboxItems
    idempotency := idempotency
    undispatched := if c.outbox.dispatchedAt.isNone then t.undispatched + 1 else t.undispatched }

/-- `getOutboxItem` -/
def getOutboxItem (t : DynamoTable) (id : String) : Except Failure (Option OutboxItemRecord) :=
  match t.outboxItems.get id with
  | none => .ok none
  | some item => item.parse.map some

/-- `getDelivery` -/
def getDelivery (t : DynamoTable) (messageId : String) :
    Except Failure (Option DeliveryCommitResult) := do
  let outboxId ← createOutboxIdentity messageId .dispatchMessage 0
  let outboxItem ← t.getOutboxItem outboxId
  match t.emails.get messageId, t.deliveryMessages.get messageId, outboxItem with
  | some email, some message, some outbox =>
    if !t.recipients.keys.any (·.1 == messageId) then return none
    else match message.recipientIds.mapM fun id => t.recipients.get (messageId, id) with
      | none => return none
      | some unparsed => do
        let message ← message.parse
        let recipients ← unparsed.mapM RecipientRecord.parse
        return some {
          email := email
          message := message
          recipients := recipients
          outbox := outbox
          replayed := false }
  | _, _, _ => return none

/-- The removal of an item whose time to live is over. -/
def expireClaim (t : DynamoTable) (keyHash : String) (nowEpochSeconds : ℕ) : DynamoTable :=
  if (t.idempotency.get keyHash).any fun e => e.expiresAt ≤ nowEpochSeconds then
    { t with idempotency := t.idempotency.erase keyHash }
  else t

end DynamoTable

/-- `DynamoStore.commitDelivery` -/
def DynamoStore.commitDelivery (t : DynamoTable) (input : DeliveryCommit) (nowEpochSeconds : ℕ) :
    Except Failure (DynamoTable × DeliveryCommitResult) := do
  let validated ← validateDeliveryCommit input nowEpochSeconds
  match t.transactDelivery validated with
  | some t' => return (t', { validated with replayed := false })
  | none =>
    match validated.idempotency with
    | none => .error DynamoTable.transactionCanceled
    | some idempotency =>
      -- the claim is read whatever its expiry
      match t.idempotency.get idempotency.keyHash with
      | none => .error DynamoTable.transactionCanceled
      | some claim =>
        if claim.requestHash != idempotency.requestHash then
          .error (.conflict "The Idempotency-Key has already been used with a different request.")
        else do
          match ← t.getDelivery claim.emailId with
          | none => .error (.conflict
              "The idempotent delivery exists but its atomic records are unavailable.")
          | some replay =>
            return (t, { replay with idempotency := some idempotency, replayed := true })

end HayaSend
