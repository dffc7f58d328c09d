import HayaSend.Adapters.DynamoStore
import HayaSend.Adapters.MemoryStoreOutbox
import HayaSend.Foundations.TransitionSystem
import HayaSend.Services.World

/-!
# The outbox of the DynamoDB store

An outbox item is found by a sweep only through its key in a secondary index, which each write path
sets on its own: an undispatched item stands in the due partition, an item under a lease in the
leased partition, a dispatched item in neither. A sort key is a time and the id of the item; times
are taken with their texts in the same order, and every id is ASCII, so the bound `now#\uffff` of a
query admits the keys whose time is at most `now`. The index is up to date, and a query returns its
items in one page.

`OutboxTableWorld` runs the operations of any number of clients, a lease query by query and update
by update. `DynamoOutbox.Coherent` is the invariant. Under it a lease takes what the in-memory store
would take from the same items, unless the owner passes the check of its own but not the schema of
the item: DynamoDB has then already written the first item when the schema refuses it.
-/

namespace HayaSend

/-! ## The index -/

/-- `OUTBOX_DUE`, `OUTBOX_LEASED` -/
inductive OutboxPartition
  | due
  | leased
  deriving DecidableEq, Repr

/-- The table, with the index keys of the outbox items: `GSI1PK`, and the time of `GSI1SK`. -/
structure DynamoOutbox extends DynamoTable where
  index : OrderedMap String (OutboxPartition × ℕ) := ∅
  publishFailures : ℕ := 0
  deriving DecidableEq

namespace DynamoOutbox

/-- The items of a partition with a sort key up to a time. -/
def inPartition (o : DynamoOutbox) (partition : OutboxPartition) (upper : Option ℕ) :
    List OutboxItemRecord :=
  o.outboxItems.values.filter fun item => (o.index.get item.id).any fun key =>
    key.1 == partition && upper.all fun t => decide (key.2 ≤ t)

/-- The order of the sort keys. -/
def outboxSort (o : DynamoOutbox) (left right : OutboxItemRecord) : Prop :=
  let time := fun item : OutboxItemRecord => ((o.index.get item.id).map Prod.snd).getD 0
  time left < time right ∨ time left = time right ∧ left.id ≤ right.id

instance (o : DynamoOutbox) : DecidableRel o.outboxSort := fun _ _ =>
  inferInstanceAs (Decidable (_ ∨ _))

/-- `queryOutboxPartition` -/
def queryOutboxPartition (o : DynamoOutbox) (partition : OutboxPartition) (upper : Option ℕ)
    (limit : ℕ) : List OutboxItemRecord × Bool :=
  let items := (o.inPartition partition upper).insertionSort o.outboxSort
  (items.take limit, decide (limit < items.length))

/-! ## Leases -/

/-- The checks of `leaseDueOutbox`. -/
def leaseChecks (input : LeaseDueOutboxInput) : Except Failure Unit := do
  throwIf (!isLeaseOwner input.owner)
    (.error "Outbox lease owner must be a privacy-safe opaque ID.")
  throwIf (input.leaseSeconds == 0)
    (.error "Outbox lease duration must be a positive integer.")
  throwIf (input.limit == 0 || decide (1000 < input.limit))
    (.error "Outbox lease limit must be between 1 and 1000.")

/-- The items of both queries, in the order of a sweep and once each. -/
def leaseCandidates (pending expired : List OutboxItemRecord) : List OutboxItemRecord :=
  (OrderedMap.ofList (((pending ++ expired).insertionSort outboxOrder).map
    fun item => (item.id, item))).values

/-- The conditional update of one candidate. -/
def updateLease (o : DynamoOutbox) (input : LeaseDueOutboxInput) (id : String) :
    Option (DynamoOutbox × OutboxItemRecord) := do
  let item ← o.outboxItems.get id
  if MemoryStore.isDue input.now item then
    let leased := MemoryStore.leasedItem input item
    some ({ o with
      outboxItems := o.outboxItems.set id leased
      index := o.index.set id (.leased, input.now + input.leaseSeconds * 1000) }, leased)
  else none

/-- The loop of `leaseDueOutbox`. The item is parsed after it was written. -/
def leaseLoop (input : LeaseDueOutboxInput) :
    List OutboxItemRecord → DynamoOutbox → List OutboxItemRecord →
      DynamoOutbox × Except Failure (List OutboxItemRecord)
  | [], o, leased => (o, .ok leased)
  | candidate :: rest, o, leased =>
    if input.limit ≤ leased.length then (o, .ok leased)
    else
      match o.updateLease input candidate.id with
      | none => leaseLoop input rest o leased
      | some (o', item) =>
        match item.parse with
        | .error e => (o', .error e)
        | .ok item => leaseLoop input rest o' (leased ++ [item])

/-- `leaseDueOutbox`, uninterrupted. -/
def leaseDueOutbox (o : DynamoOutbox) (input : LeaseDueOutboxInput) :
    DynamoOutbox × Except Failure (List OutboxItemRecord) :=
  match leaseChecks input with
  | .error e => (o, .error e)
  | .ok () =>
    leaseLoop input (leaseCandidates (o.queryOutboxPartition .due (some input.now) input.limit).1
      (o.queryOutboxPartition .leased (some input.now) input.limit).1) o []

/-! ## The other operations -/

/-- The index after `storedOutboxItem` is put. -/
def storedOutboxItem (o : DynamoOutbox) (record : OutboxItemRecord) :
    OrderedMap String (OutboxPartition × ℕ) :=
  if record.dispatchedAt.isNone then o.index.set record.id (.due, record.dueAt) else o.index

/-- `commitDelivery` -/
def commitDelivery (o : DynamoOutbox) (input : DeliveryCommit) (nowEpochSeconds : ℕ) :
    Except Failure (DynamoOutbox × DeliveryCommitResult) := do
  let (table, result) ← DynamoStore.commitDelivery o.toDynamoTable input nowEpochSeconds
  return ({ o with
    toDynamoTable := table
    index := if result.replayed then o.index else o.storedOutboxItem result.outbox }, result)

/-- The item of a live lease of `owner`. -/
def heldItem (o : DynamoOutbox) (id owner : String) : Option OutboxItemRecord :=
  (o.outboxItems.get id).filter fun item =>
    item.leaseOwner == some owner && item.dispatchedAt.isNone

/-- `acknowledgeOutbox` -/
def acknowledgeOutbox (o : DynamoOutbox) (id owner : String) (now : ℕ) : DynamoOutbox × Bool :=
  match o.heldItem id owner with
  | none => (o, false)
  | some item => ({ o with
      outboxItems := o.outboxItems.set id (MemoryStore.acknowledgedItem now item)
      index := o.index.erase id
      undispatched := o.undispatched - 1 }, true)

/-- `recordOutboxFailure`. The key does not return to the due time. -/
def recordOutboxFailure (o : DynamoOutbox) (id owner : String) (category : DiagnosticCategory)
    (now : ℕ) : DynamoOutbox × Bool :=
  match o.heldItem id owner with
  | none => (o, false)
  | some item => ({ o with
      outboxItems := o.outboxItems.set id (MemoryStore.failedItem category now item)
      index := o.index.set id (.due, now)
      publishFailures := o.publishFailures + 1 }, true)

/-- `rescheduleEmailAndOutbox` -/
def rescheduleEmailAndOutbox (o : DynamoOutbox) (id : String) (scheduledAt now : ℕ) :
    Except Failure (DynamoOutbox × Option EmailRecord) := do
  let outboxId ← createOutboxIdentity id .dispatchMessage 0
  match o.emails.get id, o.deliveryMessages.get id, o.outboxItems.get outboxId with
  | some email, some message, some outbox =>
    if email.status.isPending && outbox.dispatchedAt.isNone && outbox.leaseOwner.isNone then
      let updatedEmail := email.rescheduled scheduledAt now
      return ({ o with
        emails := o.emails.set id updatedEmail
        deliveryMessages := o.deliveryMessages.set id (message.rescheduled scheduledAt now)
        outboxItems := o.outboxItems.set outboxId
          (MemoryStore.rescheduledItem scheduledAt now outbox)
        index := o.index.set outboxId (.due, scheduledAt) }, some updatedEmail)
    else return (o, none)
  | _, _, _ => return (o, none)

end DynamoOutbox

/-! ## Runs -/

/-- Where a call of `leaseDueOutbox` stands. -/
inductive OutboxLeasePc
  | querying (pending expired : Option (List OutboxItemRecord))
  | leasing (candidates leased : List OutboxItemRecord)
  | ended (result : Except Failure (List OutboxItemRecord))

structure OutboxLeaseCall where
  input : LeaseDueOutboxInput
  pc : OutboxLeasePc

/-- The outbox, the time, and the calls of `leaseDueOutbox` by their number. -/
structure OutboxTableWorld where
  outbox : DynamoOutbox := {}
  clock : ℕ := 0
  leases : OrderedMap ℕ OutboxLeaseCall := ∅

inductive OutboxTableLabel
  /-- Time passes. -/
  | tick (time : ℕ)
  /-- Other operations write rows that are not of the outbox. -/
  | writeRows (emails : OrderedMap String EmailRecord)
      (deliveryMessages : OrderedMap String MessageRecord)
      (recipients : OrderedMap (String × String) RecipientRecord)
      (idempotency : OrderedMap String IdempotencyEntry)
  | commitDelivery (input : DeliveryCommit) (nowEpochSeconds : ℕ)
  /-- A call of `leaseDueOutbox` starts, reads a partition, or tries its next candidate. -/
  | startLease (call : ℕ) (input : LeaseDueOutboxInput)
  | query (call : ℕ) (partition : OutboxPartition)
  | leaseNext (call : ℕ)
  | acknowledgeOutbox (id owner : String) (now : ℕ)
  | recordOutboxFailure (id owner : String) (category : DiagnosticCategory) (now : ℕ)
  | rescheduleEmailAndOutbox (id : String) (scheduledAt now : ℕ)

namespace OutboxLeaseCall

/-- A call of `leaseDueOutbox` that passed its checks, or not. -/
def start (input : LeaseDueOutboxInput) : OutboxLeaseCall :=
  ⟨input, match DynamoOutbox.leaseChecks input with
    | .error e => .ended (.error e)
    | .ok () => .querying none none⟩

/-- The call after the read of a partition. The candidates are known after the second. -/
def query (call : OutboxLeaseCall) (o : DynamoOutbox) (partition : OutboxPartition) :
    Option OutboxLeaseCall :=
  let read := (o.queryOutboxPartition partition (some call.input.now) call.input.limit).1
  match call.pc, partition with
  | .querying none none, .due => some ⟨call.input, .querying (some read) none⟩
  | .querying none none, .leased => some ⟨call.input, .querying none (some read)⟩
  | .querying none (some expired), .due =>
    some ⟨call.input, .leasing (DynamoOutbox.leaseCandidates read expired) []⟩
  | .querying (some pending) none, .leased =>
    some ⟨call.input, .leasing (DynamoOutbox.leaseCandidates pending read) []⟩
  | _, _ => none

/-- One round of the loop. -/
def next (call : OutboxLeaseCall) (o : DynamoOutbox) : Option (DynamoOutbox × OutboxLeaseCall) :=
  match call.pc with
  | .leasing [] leased => some (o, ⟨call.input, .ended (.ok leased)⟩)
  | .leasing (candidate :: rest) leased =>
    if call.input.limit ≤ leased.length then some (o, ⟨call.input, .ended (.ok leased)⟩)
    else
      match o.updateLease call.input candidate.id with
      | none => some (o, ⟨call.input, .leasing rest leased⟩)
      | some (o', item) =>
        match item.parse with
        | .error e => some (o', ⟨call.input, .ended (.error e)⟩)
        | .ok item => some (o', ⟨call.input, .leasing rest (leased ++ [item])⟩)
  | _ => none

end OutboxLeaseCall

namespace OutboxTableWorld

open DynamoOutbox

/-- The clients read their times off the clock; a delivery was created before its commit. -/
def step (w : OutboxTableWorld) : OutboxTableLabel → Option OutboxTableWorld
  | .tick time => if w.clock ≤ time then some { w with clock := time } else none
  | .writeRows emails deliveryMessages recipients idempotency => some { w with
      outbox := { w.outbox with
        emails := emails
        deliveryMessages := deliveryMessages
        recipients := recipients
        idempotency := idempotency } }
  | .commitDelivery input nowEpochSeconds =>
    if input.outbox.createdAt ≤ w.clock then
      match w.outbox.commitDelivery input nowEpochSeconds with
      | .ok (o, _) => some { w with outbox := o }
      | .error _ => some w
    else none
  | .startLease call input =>
    if input.now ≤ w.clock ∧ w.leases.get call = none then
      some { w with leases := w.leases.set call (.start input) }
    else none
  | .query call partition => do
    let lease ← w.leases.get call
    let lease ← lease.query w.outbox partition
    some { w with leases := w.leases.set call lease }
  | .leaseNext call => do
    let lease ← w.leases.get call
    let (o, lease) ← lease.next w.outbox
    some { w with outbox := o, leases := w.leases.set call lease }
  | .acknowledgeOutbox id owner now =>
    if now ≤ w.clock then some { w with outbox := (w.outbox.acknowledgeOutbox id owner now).1 }
    else none
  | .recordOutboxFailure id owner category now =>
    if now ≤ w.clock then
      some { w with outbox := (w.outbox.recordOutboxFailure id owner category now).1 }
    else none
  | .rescheduleEmailAndOutbox id scheduledAt now =>
    if now ≤ w.clock then
      match w.outbox.rescheduleEmailAndOutbox id scheduledAt now with
      | .ok (o, _) => some { w with outbox := o }
      | .error _ => some w
    else none

def system : TransitionSystem OutboxTableWorld OutboxTableLabel where
  init w := w = {}
  step := step

end OutboxTableWorld

namespace DynamoTable

/-- What the transaction of a commit does to the outbox. -/
theorem transactDelivery_outbox {t t' : DynamoTable} {c : DeliveryCommit}
    (h : t.transactDelivery c = some t') :
    t.outboxItems.get c.outbox.id = none ∧
      t'.outboxItems = t.outboxItems.set c.outbox.id c.outbox ∧
      t'.undispatched =
        if c.outbox.dispatchedAt.isNone then t.undispatched + 1 else t.undispatched := by
  simp only [transactDelivery, Option.bind_eq_bind, Option.bind_eq_some_iff] at h
  obtain ⟨_, -, _, -, _, -, items, hitems, h⟩ := h
  obtain ⟨hfree, rfl⟩ := OrderedMap.insertRow_eq_some hitems
  split at h <;> obtain ⟨_, -, h⟩ := Option.bind_eq_some_iff.mp h <;>
    obtain rfl := Option.some.inj h <;> exact ⟨hfree, rfl, rfl⟩

end DynamoTable

/-- A commit that returns wrote its records, or changed nothing. -/
theorem DynamoStore.commitDelivery_cases {t t' : DynamoTable} {input : DeliveryCommit} {now : ℕ}
    {result : DeliveryCommitResult}
    (h : DynamoStore.commitDelivery t input now = .ok (t', result)) :
    (t' = t ∧ result.replayed = true) ∨
      (input.Consistent ∧ t.transactDelivery input = some t' ∧ result.replayed = false ∧
        result.outbox = input.outbox) := by
  obtain ⟨validated, hvalid, h⟩ := bind_eq_ok.mp h
  obtain ⟨rfl, hcons⟩ := validateDeliveryCommit_eq_ok hvalid
  split at h
  · rename_i t₁ ht₁
    rw [pure_eq_ok, Prod.mk.injEq] at h
    obtain ⟨rfl, rfl⟩ := h
    exact .inr ⟨hcons, ht₁, rfl, rfl⟩
  · split at h
    · cases h
    · split at h
      · cases h
      · split_ifs at h
        obtain ⟨replay, -, h⟩ := bind_eq_ok.mp h
        split at h
        · cases h
        · rw [pure_eq_ok, Prod.mk.injEq] at h
          obtain ⟨rfl, rfl⟩ := h
          exact .inl ⟨rfl, rfl⟩

/-! ## The invariant -/

/-- What the index holds of an item, and the fields of it that no operation changes. -/
structure IndexedItem (clock : ℕ) (item : OutboxItemRecord)
    (key : Option (OutboxPartition × ℕ)) : Prop where
  message : messageIdSchema item.messageId = true
  identity : createOutboxIdentity item.messageId item.jobType item.generation = .ok item.id
  created : item.createdAt ≤ clock
  lease : item.leaseOwner.isNone = item.leaseExpiresAt.isNone
  dispatched : item.dispatchedAt ≠ none → key = none ∧ item.leaseOwner = none
  /-- An item that failed stands at the time of the failure. -/
  due : item.dispatchedAt = none → item.leaseOwner = none →
    ∃ t, key = some (.due, t) ∧ (t = item.dueAt ∨ t ≤ clock)
  leased : item.dispatchedAt = none → ∀ t, item.leaseExpiresAt = some t →
    key = some (.leased, t) ∧ item.dueAt ≤ clock

namespace IndexedItem

variable {clock : ℕ} {item : OutboxItemRecord} {key : Option (OutboxPartition × ℕ)}

theorem mono (h : IndexedItem clock item key) {clock' : ℕ} (hle : clock ≤ clock') :
    IndexedItem clock' item key := by
  refine ⟨h.message, h.identity, h.created.trans hle, h.lease, h.dispatched, fun hd ho => ?_,
    fun hd t ht => ⟨(h.leased hd t ht).1, (h.leased hd t ht).2.trans hle⟩⟩
  obtain ⟨t, hkey, ht⟩ := h.due hd ho
  exact ⟨t, hkey, ht.imp_right fun ht => ht.trans hle⟩

theorem of_consistent {c : DeliveryCommit} (h : c.Consistent) (hc : c.outbox.createdAt ≤ clock) :
    IndexedItem clock c.outbox
      (if c.outbox.dispatchedAt.isNone then some (.due, c.outbox.dueAt) else none) := by
  have hv := OutboxItemRecord.valid_iff.mp h.outbox_valid
  have howner := h.outbox_fields.2.2.1
  have hexpiry : c.outbox.leaseExpiresAt = none := by
    have hpair := hv.2.2.2.2.1
    rw [howner] at hpair
    exact Option.isNone_iff_eq_none.mp hpair.symm
  refine ⟨hv.1, h.outbox_valid.identity, hc, hv.2.2.2.2.1, fun hd => ⟨?_, howner⟩,
    fun hd _ => ⟨c.outbox.dueAt, by rw [hd]; rfl, .inl rfl⟩, fun _ t ht => ?_⟩
  · rw [if_neg (by rwa [Option.isNone_iff_eq_none])]
  · rw [hexpiry] at ht
    cases ht

theorem leased_of_isDue (h : IndexedItem clock item key) {input : LeaseDueOutboxInput}
    (hdue : MemoryStore.isDue input.now item = true) (hnow : input.now ≤ clock) :
    IndexedItem clock (MemoryStore.leasedItem input item)
      (some (.leased, input.now + input.leaseSeconds * 1000)) := by
  obtain ⟨hd, hle, -⟩ := MemoryStore.isDue_iff.mp hdue
  refine ⟨h.message, h.identity, h.created, rfl, fun hd' => absurd hd hd', fun _ ho => ?_,
    fun _ t ht => ⟨?_, hle.trans hnow⟩⟩
  · cases ho
  · obtain rfl := Option.some.inj ht
    rfl

theorem acknowledged (h : IndexedItem clock item key) (now : ℕ) :
    IndexedItem clock (MemoryStore.acknowledgedItem now item) none := by
  refine ⟨h.message, h.identity, h.created, rfl, fun _ => ⟨rfl, rfl⟩, fun hd => ?_, fun hd => ?_⟩
  · cases hd
  · cases hd

theorem failed (h : IndexedItem clock item key) (hd : item.dispatchedAt = none)
    (category : DiagnosticCategory) {now : ℕ} (hnow : now ≤ clock) :
    IndexedItem clock (MemoryStore.failedItem category now item) (some (.due, now)) := by
  refine ⟨h.message, h.identity, h.created, rfl, fun hd' => absurd hd hd',
    fun _ _ => ⟨now, rfl, .inr hnow⟩, fun _ t ht => ?_⟩
  cases ht

theorem rescheduled (h : IndexedItem clock item key) (hd : item.dispatchedAt = none)
    (ho : item.leaseOwner = none) (scheduledAt now : ℕ) :
    IndexedItem clock (MemoryStore.rescheduledItem scheduledAt now item)
      (some (.due, scheduledAt)) := by
  have hexpiry : item.leaseExpiresAt = none := by
    have hpair := h.lease
    rw [ho] at hpair
    exact Option.isNone_iff_eq_none.mp hpair.symm
  refine ⟨h.message, h.identity, h.created, h.lease, fun hd' => absurd hd hd',
    fun _ _ => ⟨scheduledAt, rfl, .inl rfl⟩, fun _ t ht => ?_⟩
  rw [MemoryStore.rescheduledItem] at ht
  dsimp only at ht
  rw [hexpiry] at ht
  cases ht

/-- The items of an acceptable owner pass the schema when they are leased, and only these do. -/
theorem leasedItem_valid_iff (h : IndexedItem clock item key) {input : LeaseDueOutboxInput}
    (hdue : MemoryStore.isDue input.now item = true) (hnow : clock ≤ input.now) :
    (MemoryStore.leasedItem input item).Valid ↔ providerOpaqueIdSchema input.owner = true := by
  rw [OutboxItemRecord.valid_iff]
  have hid : createOutboxIdentity (MemoryStore.leasedItem input item).messageId
      (MemoryStore.leasedItem input item).jobType (MemoryStore.leasedItem input item).generation =
        .ok item.id := h.identity
  have hd : (MemoryStore.leasedItem input item).dispatchedAt = none :=
    (MemoryStore.isDue_iff.mp hdue).1
  rw [hid, hd]
  constructor
  · rintro ⟨-, ho, -⟩
    exact ho
  · intro ho
    exact ⟨h.message, ho, h.created.trans hnow, beq_self_eq_true _, rfl, rfl⟩

end IndexedItem

namespace DynamoOutbox

/-- The invariant of the outbox at a time. -/
structure Coherent (o : DynamoOutbox) (clock : ℕ) : Prop where
  item_id : ∀ id item, o.outboxItems.get id = some item → item.id = id
  items : ∀ id item, o.outboxItems.get id = some item → IndexedItem clock item (o.index.get id)
  keys : ∀ id, o.outboxItems.get id = none → o.index.get id = none
  undispatched : o.undispatched = o.outboxItems.values.countP (·.dispatchedAt.isNone)

namespace Coherent

variable {o o' : DynamoOutbox} {clock : ℕ}

theorem empty : Coherent {} clock := by
  refine ⟨fun id item h => ?_, fun id item h => ?_, fun _ _ => rfl, rfl⟩ <;> cases h

theorem mono (h : o.Coherent clock) {clock' : ℕ} (hle : clock ≤ clock') : o.Coherent clock' :=
  ⟨h.item_id, fun id item hi => (h.items id item hi).mono hle, h.keys, h.undispatched⟩

/-- **Writing an item** together with its key and its share of the counter. -/
theorem write (h : o.Coherent clock) {id : String} {item : OutboxItemRecord}
    {key : Option (OutboxPartition × ℕ)} (hitems : o'.outboxItems = o.outboxItems.set id item)
    (hindex : ∀ k, o'.index.get k = if k = id then key else o.index.get k)
    (hid : item.id = id) (hitem : IndexedItem clock item key)
    (hcount : o'.undispatched +
        (if (o.outboxItems.get id).any (·.dispatchedAt.isNone) then 1 else 0) =
      o.undispatched + if item.dispatchedAt.isNone then 1 else 0) : o'.Coherent clock := by
  have hget : ∀ k i, o'.outboxItems.get k = some i →
      (k = id ∧ i = item) ∨ (k ≠ id ∧ o.outboxItems.get k = some i) := by
    intro k i hk
    rw [hitems, OrderedMap.get_set] at hk
    split_ifs at hk with heq
    · exact .inl ⟨heq, (Option.some.inj hk).symm⟩
    · exact .inr ⟨heq, hk⟩
  refine ⟨fun k i hk => ?_, fun k i hk => ?_, fun k hk => ?_, ?_⟩
  · rcases hget k i hk with ⟨rfl, rfl⟩ | ⟨-, hk⟩
    · exact hid
    · exact h.item_id k i hk
  · rw [hindex]
    rcases hget k i hk with ⟨rfl, rfl⟩ | ⟨hne, hk⟩
    · rwa [if_pos rfl]
    · rw [if_neg hne]
      exact h.items k i hk
  · rw [hitems, OrderedMap.get_set] at hk
    rw [hindex]
    split_ifs at hk ⊢ with heq
    exact h.keys k hk
  · have hset := o.outboxItems.countP_values_set id item (·.dispatchedAt.isNone)
    rw [hitems]
    have := h.undispatched
    omega

/-- Rows that are not of the outbox. -/
theorem of_eq (h : o.Coherent clock) (hitems : o'.outboxItems = o.outboxItems)
    (hindex : o'.index = o.index) (hcount : o'.undispatched = o.undispatched) :
    o'.Coherent clock := by
  obtain ⟨hid, hit, hkeys, hund⟩ := h
  refine ⟨?_, ?_, ?_, ?_⟩ <;> rw [hitems]
  · exact hid
  · rwa [hindex]
  · rwa [hindex]
  · rwa [hcount]

theorem commitDelivery (h : o.Coherent clock) {input : DeliveryCommit} {now : ℕ}
    {result : DeliveryCommitResult} (hc : input.outbox.createdAt ≤ clock)
    (hr : o.commitDelivery input now = .ok (o', result)) : o'.Coherent clock := by
  obtain ⟨⟨t, r⟩, ht, hr⟩ := bind_eq_ok.mp hr
  rw [pure_eq_ok, Prod.mk.injEq] at hr
  obtain ⟨rfl, rfl⟩ := hr
  rcases DynamoStore.commitDelivery_cases ht with ⟨rfl, hreplayed⟩ | ⟨hcons, ht, hnew, houtbox⟩
  · exact h.of_eq rfl (by rw [hreplayed]; rfl) rfl
  · obtain ⟨hfree, hitems, hcount⟩ := DynamoTable.transactDelivery_outbox ht
    refine h.write hitems (fun k => ?_) rfl (IndexedItem.of_consistent hcons hc) ?_
    · simp only [hnew, houtbox, storedOutboxItem, Bool.false_eq_true, if_false]
      by_cases hd : input.outbox.dispatchedAt.isNone = true
      · rw [if_pos hd, if_pos hd]
        exact OrderedMap.get_set _ _ _ _
      · rw [if_neg hd, if_neg hd]
        split_ifs with hk
        · rw [hk]
          exact h.keys _ hfree
        · rfl
    · rw [hfree, hcount]
      split_ifs <;> simp_all

theorem updateLease (h : o.Coherent clock) {input : LeaseDueOutboxInput} {id : String}
    {item : OutboxItemRecord} (hnow : input.now ≤ clock)
    (hr : o.updateLease input id = some (o', item)) : o'.Coherent clock := by
  obtain ⟨stored, hget, hr⟩ := Option.bind_eq_some_iff.mp hr
  split_ifs at hr with hdue
  obtain ⟨rfl, rfl⟩ := Prod.mk.inj (Option.some.inj hr)
  have hid : stored.id = id := h.item_id _ _ hget
  refine h.write rfl (OrderedMap.get_set _ _ _) hid
    ((h.items _ _ hget).leased_of_isDue hdue hnow) ?_
  rw [hget]
  rfl

theorem leaseLoop (h : o.Coherent clock) {input : LeaseDueOutboxInput} (hnow : input.now ≤ clock)
    (candidates leased : List OutboxItemRecord) :
    (DynamoOutbox.leaseLoop input candidates o leased).1.Coherent clock := by
  induction candidates generalizing o leased with
  | nil => exact h
  | cons candidate rest ih =>
    unfold DynamoOutbox.leaseLoop
    split_ifs
    · exact h
    · split
      · exact ih h leased
      · rename_i o₁ item hu
        have h₁ := h.updateLease hnow hu
        split
        · exact h₁
        · exact ih h₁ _

theorem heldItem_eq_some {id owner : String} {item : OutboxItemRecord} :
    o.heldItem id owner = some item ↔ o.outboxItems.get id = some item ∧
      item.leaseOwner = some owner ∧ item.dispatchedAt = none := by
  simp [heldItem, Option.filter_eq_some_iff]

theorem acknowledgeOutbox (h : o.Coherent clock) (id owner : String) (now : ℕ) :
    (o.acknowledgeOutbox id owner now).1.Coherent clock := by
  unfold DynamoOutbox.acknowledgeOutbox
  split
  · exact h
  · rename_i item hheld
    obtain ⟨hget, -, hd⟩ := heldItem_eq_some.mp hheld
    have hpos : 0 < o.undispatched := by
      rw [h.undispatched, List.countP_pos_iff]
      exact ⟨item, (OrderedMap.mem_values_iff _ _).mpr ⟨id, hget⟩, by rw [hd]; rfl⟩
    have hid : item.id = id := h.item_id _ _ hget
    refine h.write rfl (OrderedMap.get_erase _ _) hid ((h.items _ _ hget).acknowledged now) ?_
    rw [hget, Option.any_some, hd]
    exact Nat.sub_add_cancel hpos

theorem recordOutboxFailure (h : o.Coherent clock) (id owner : String)
    (category : DiagnosticCategory) {now : ℕ} (hnow : now ≤ clock) :
    (o.recordOutboxFailure id owner category now).1.Coherent clock := by
  unfold DynamoOutbox.recordOutboxFailure
  split
  · exact h
  · rename_i item hheld
    obtain ⟨hget, -, hd⟩ := heldItem_eq_some.mp hheld
    have hid : item.id = id := h.item_id _ _ hget
    refine h.write rfl (OrderedMap.get_set _ _ _) hid
      ((h.items _ _ hget).failed hd category hnow) ?_
    rw [hget]
    rfl

theorem rescheduleEmailAndOutbox (h : o.Coherent clock) {id : String} {scheduledAt now : ℕ}
    {email : Option EmailRecord}
    (hr : o.rescheduleEmailAndOutbox id scheduledAt now = .ok (o', email)) :
    o'.Coherent clock := by
  obtain ⟨outboxId, -, hr⟩ := bind_eq_ok.mp hr
  split at hr
  · rename_i e m item _ _ hget
    split_ifs at hr with hif
    · obtain ⟨rfl, -⟩ := Prod.mk.inj (Except.ok.inj hr)
      simp only [Bool.and_eq_true, Option.isNone_iff_eq_none] at hif
      obtain ⟨⟨-, hd⟩, ho⟩ := hif
      have hid : item.id = outboxId := h.item_id _ _ hget
      refine h.write rfl (OrderedMap.get_set _ _ _) hid
        ((h.items _ _ hget).rescheduled hd ho scheduledAt now) ?_
      rw [hget]
      rfl
    · obtain ⟨rfl, -⟩ := Prod.mk.inj (Except.ok.inj hr)
      exact h
  · obtain ⟨rfl, -⟩ := Prod.mk.inj (Except.ok.inj hr)
    exact h

end Coherent

/-! ## Leases -/

instance : Std.Total outboxOrder := ⟨fun a b => by
  rcases lt_trichotomy a.dueAt b.dueAt with h | h | h
  · exact .inl (.inl h)
  · exact (String.le_total a.id b.id).imp (fun hid => .inr ⟨h, hid⟩) fun hid => .inr ⟨h.symm, hid⟩
  · exact .inr (.inl h)⟩

instance : IsTrans OutboxItemRecord outboxOrder := ⟨fun a b c hab hbc => by
  rcases hab with hab | ⟨hab, hid⟩
  · rcases hbc with hbc | ⟨hbc, -⟩
    · exact .inl (hab.trans hbc)
    · exact .inl (hbc ▸ hab)
  · rcases hbc with hbc | ⟨hbc, hid'⟩
    · exact .inl (hab ▸ hbc)
    · exact .inr ⟨hab.trans hbc, String.le_trans hid hid'⟩⟩

theorem outboxOrder_antisymm {a b : OutboxItemRecord} (hab : outboxOrder a b)
    (hba : outboxOrder b a) : a.id = b.id := by
  rcases hab with hab | ⟨hab, hid⟩ <;> rcases hba with hba | ⟨hba, hid'⟩
  · omega
  · omega
  · omega
  · exact String.le_antisymm hid hid'

theorem leaseCandidates_eq {pending expired : List OutboxItemRecord}
    (hn : ((pending ++ expired).map (·.id)).Nodup) :
    leaseCandidates pending expired = (pending ++ expired).insertionSort outboxOrder :=
  OrderedMap.values_ofList (((List.perm_insertionSort outboxOrder _).map _).nodup_iff.mpr hn)

theorem mem_inPartition {o : DynamoOutbox} {partition : OutboxPartition} {upper : Option ℕ}
    {item : OutboxItemRecord} : item ∈ o.inPartition partition upper ↔
      item ∈ o.outboxItems.values ∧ ∃ t, o.index.get item.id = some (partition, t) ∧
        ∀ u, upper = some u → t ≤ u := by
  rw [inPartition, List.mem_filter]
  refine and_congr_right fun _ => ?_
  cases o.index.get item.id with
  | none => simp
  | some key =>
    obtain ⟨p, t⟩ := key
    cases upper <;> simp

/-- A query that reaches the end of a partition returns its items in some order. -/
theorem query_perm {o : DynamoOutbox} {partition : OutboxPartition} {upper : Option ℕ} {limit : ℕ}
    (hlimit : (o.inPartition partition none).length ≤ limit) :
    (o.queryOutboxPartition partition upper limit).1.Perm (o.inPartition partition upper) := by
  have hle : (o.inPartition partition upper).length ≤ (o.inPartition partition none).length := by
    refine (List.monotone_filter_right _ fun item hitem => ?_).length_le
    cases hkey : o.index.get item.id with
    | none => simp [hkey] at hitem
    | some key =>
      rw [hkey, Option.any_some, Bool.and_eq_true] at hitem
      rw [Option.any_some, hitem.1]
      rfl
  unfold queryOutboxPartition
  dsimp only
  rw [List.take_of_length_le (by rw [List.length_insertionSort]; omega)]
  exact List.perm_insertionSort _ _

namespace Coherent

variable {o : DynamoOutbox} {clock : ℕ} {input : LeaseDueOutboxInput}

theorem get_of_mem (h : o.Coherent clock) {item : OutboxItemRecord}
    (hi : item ∈ o.outboxItems.values) : o.outboxItems.get item.id = some item := by
  obtain ⟨id, hid⟩ := (OrderedMap.mem_values_iff _ _).mp hi
  rwa [h.item_id id item hid]

theorem ids_nodup (h : o.Coherent clock) : (o.outboxItems.values.map (·.id)).Nodup := by
  rw [OrderedMap.map_values_eq_keys h.item_id]
  exact o.outboxItems.nodup

/-- **Every item that may be leased is found**: by its due key, or by the expiry of its lease. -/
theorem isDue_found (h : o.Coherent clock) {now : ℕ} (hnow : clock ≤ now)
    {item : OutboxItemRecord} (hi : item ∈ o.outboxItems.values)
    (hdue : MemoryStore.isDue now item = true) :
    item ∈ o.inPartition .due (some now) ++ o.inPartition .leased (some now) := by
  have hitem := h.items _ _ (h.get_of_mem hi)
  obtain ⟨hd, hle, hexpiry⟩ := MemoryStore.isDue_iff.mp hdue
  rw [List.mem_append]
  cases ho : item.leaseOwner with
  | none =>
    obtain ⟨t, hkey, ht⟩ := hitem.due hd ho
    refine .inl (mem_inPartition.mpr ⟨hi, t, hkey, fun u hu => ?_⟩)
    obtain rfl := Option.some.inj hu
    rcases ht with rfl | ht
    · exact hle
    · exact ht.trans hnow
  | some owner =>
    obtain ⟨t, ht⟩ : ∃ t, item.leaseExpiresAt = some t := by
      have hpair := hitem.lease
      rw [ho] at hpair
      exact Option.ne_none_iff_exists'.mp fun hnone => by simp [hnone] at hpair
    refine .inr (mem_inPartition.mpr ⟨hi, t, (hitem.leased hd t ht).1, fun u hu => ?_⟩)
    obtain rfl := Option.some.inj hu
    exact hexpiry t ht

theorem partitions_nodup (h : o.Coherent clock) (upper : Option ℕ) :
    ((o.inPartition .due upper ++ o.inPartition .leased upper).map (·.id)).Nodup := by
  have hn := h.ids_nodup
  rw [List.map_append, List.nodup_append']
  refine ⟨hn.sublist (List.filter_sublist.map _), hn.sublist (List.filter_sublist.map _), ?_⟩
  rw [List.disjoint_left]
  intro id hdue hleased
  obtain ⟨i, hi, rfl⟩ := List.mem_map.mp hdue
  obtain ⟨j, hj, hij⟩ := List.mem_map.mp hleased
  obtain ⟨-, t, ht, -⟩ := mem_inPartition.mp hi
  obtain ⟨-, u, hu, -⟩ := mem_inPartition.mp hj
  rw [hij, ht] at hu
  cases hu

/-- The candidates of a lease that reads both partitions to their end. -/
theorem candidates (h : o.Coherent clock) (hnow : clock ≤ input.now)
    (hlimit : ∀ partition, (o.inPartition partition none).length ≤ input.limit) :
    ∃ cs, leaseCandidates (o.queryOutboxPartition .due (some input.now) input.limit).1
        (o.queryOutboxPartition .leased (some input.now) input.limit).1 = cs ∧
      (cs.map (·.id)).Nodup ∧ (∀ c ∈ cs, c ∈ o.outboxItems.values) ∧
      cs.filter (MemoryStore.isDue input.now) =
        (o.outboxItems.values.filter (MemoryStore.isDue input.now)).insertionSort outboxOrder := by
  have hquery : ((o.queryOutboxPartition .due (some input.now) input.limit).1 ++
      (o.queryOutboxPartition .leased (some input.now) input.limit).1).Perm
        (o.inPartition .due (some input.now) ++ o.inPartition .leased (some input.now)) :=
    (query_perm (hlimit _)).append (query_perm (hlimit _))
  have hn := (hquery.map (·.id)).nodup_iff.mpr (h.partitions_nodup _)
  have hsort := (List.perm_insertionSort outboxOrder _).trans hquery
  refine ⟨_, leaseCandidates_eq hn, (hsort.map _).nodup_iff.mpr (h.partitions_nodup _),
    fun c hc => ?_, ?_⟩
  · rw [hsort.mem_iff, List.mem_append] at hc
    rcases hc with hc | hc <;> exact (mem_inPartition.mp hc).1
  · have hmem : ∀ c, c ∈ (o.inPartition .due (some input.now) ++
        o.inPartition .leased (some input.now)).filter (MemoryStore.isDue input.now) ↔
          c ∈ o.outboxItems.values.filter (MemoryStore.isDue input.now) := by
      intro c
      rw [List.mem_filter, List.mem_filter]
      refine and_congr_left fun hdue => ⟨fun hc => ?_, fun hc => h.isDue_found hnow hc hdue⟩
      rcases List.mem_append.mp hc with hc | hc <;> exact (mem_inPartition.mp hc).1
    have hperm : ((o.inPartition .due (some input.now) ++
        o.inPartition .leased (some input.now)).filter (MemoryStore.isDue input.now)).Perm
          (o.outboxItems.values.filter (MemoryStore.isDue input.now)) :=
      (List.perm_ext_iff_of_nodup ((h.partitions_nodup _).of_map.filter _)
        (h.ids_nodup.of_map.filter _)).mpr hmem
    refine List.Perm.eq_of_pairwise (fun a b ha hb hab hba => ?_)
      ((List.pairwise_insertionSort outboxOrder _).filter _)
      (List.pairwise_insertionSort outboxOrder _)
      ((hsort.filter _).trans (hperm.trans (List.perm_insertionSort _ _).symm))
    have ha := h.get_of_mem (List.mem_filter.mp ((hmem a).mp ((hsort.filter _).mem_iff.mp ha))).1
    have hb := h.get_of_mem (List.mem_filter.mp ((List.perm_insertionSort _ _).mem_iff.mp hb)).1
    rw [outboxOrder_antisymm hab hba, hb] at ha
    exact (Option.some.inj ha).symm

end Coherent

theorem updateLease_of_isDue {o : DynamoOutbox} {input : LeaseDueOutboxInput}
    {item : OutboxItemRecord} (hget : o.outboxItems.get item.id = some item)
    (hdue : MemoryStore.isDue input.now item = true) :
    ∃ o', o.updateLease input item.id = some (o', MemoryStore.leasedItem input item) ∧
      o'.outboxItems = o.outboxItems.set item.id (MemoryStore.leasedItem input item) := by
  simp only [updateLease, hget, Option.bind_eq_bind, Option.bind_some, hdue, if_true]
  exact ⟨_, rfl, rfl⟩

theorem updateLease_of_not_isDue {o : DynamoOutbox} {input : LeaseDueOutboxInput}
    {item : OutboxItemRecord} (hget : o.outboxItems.get item.id = some item)
    (hdue : MemoryStore.isDue input.now item = false) : o.updateLease input item.id = none := by
  simp [updateLease, hget, hdue]

/-- The loop takes the first candidates that are due, as the in-memory store does. -/
theorem leaseLoop_eq {input : LeaseDueOutboxInput} {candidates : List OutboxItemRecord}
    (leased : List OutboxItemRecord) {o : DynamoOutbox} {s : MemoryStore}
    (hn : (candidates.map (·.id)).Nodup)
    (hget : ∀ c ∈ candidates, o.outboxItems.get c.id = some c)
    (hvalid : ∀ c ∈ candidates, MemoryStore.isDue input.now c = true →
      (MemoryStore.leasedItem input c).Valid) (hs : s.outboxItems = o.outboxItems) :
    let due := (candidates.filter (MemoryStore.isDue input.now)).take (input.limit - leased.length)
    (leaseLoop input candidates o leased).1.outboxItems =
        (MemoryStore.leaseItems input s due).1.outboxItems ∧
      (leaseLoop input candidates o leased).2 =
        .ok (leased ++ due.map (MemoryStore.leasedItem input)) := by
  induction candidates generalizing o leased s with
  | nil => simp [leaseLoop, MemoryStore.leaseItems, hs]
  | cons c rest ih =>
    obtain ⟨hc, hn⟩ := List.nodup_cons.mp hn
    obtain ⟨hgetc, hgetr⟩ := List.forall_mem_cons.mp hget
    obtain ⟨hvalidc, hvalidr⟩ := List.forall_mem_cons.mp hvalid
    unfold leaseLoop
    by_cases hfull : input.limit ≤ leased.length
    · rw [if_pos hfull, Nat.sub_eq_zero_of_le hfull, List.take_zero]
      simp [MemoryStore.leaseItems, hs]
    · rw [if_neg hfull]
      by_cases hdue : MemoryStore.isDue input.now c = true
      · obtain ⟨o', hupdate, hitems⟩ := updateLease_of_isDue hgetc hdue
        have hp : (MemoryStore.leasedItem input c).parse = .ok (MemoryStore.leasedItem input c) :=
          OutboxItemRecord.parse_eq_ok.mpr ⟨hvalidc hdue, rfl⟩
        have hroom : input.limit - leased.length =
            input.limit - (leased ++ [MemoryStore.leasedItem input c]).length + 1 := by
          rw [List.length_append, List.length_singleton]
          omega
        have hrest : ∀ d ∈ rest, o'.outboxItems.get d.id = some d := by
          intro d hd
          have hne : d.id ≠ c.id := fun heq => hc (List.mem_map.mpr ⟨d, hd, heq⟩)
          rw [hitems, OrderedMap.get_set_ne _ _ hne]
          exact hgetr d hd
        obtain ⟨hfst, hsnd⟩ := ih (leased ++ [MemoryStore.leasedItem input c])
          (s := { s with
            outboxItems := s.outboxItems.set c.id (MemoryStore.leasedItem input c) })
          hn hrest hvalidr (by rw [hitems, hs])
        rw [List.filter_cons_of_pos hdue, hroom, List.take_succ_cons, hupdate]
        dsimp only
        rw [hp]
        dsimp only
        refine ⟨?_, ?_⟩
        · rw [hfst]
          simp only [MemoryStore.leaseItems, hp]
        · rw [hsnd, List.map_cons, List.append_assoc, List.singleton_append]
      · rw [Bool.not_eq_true] at hdue
        rw [updateLease_of_not_isDue hgetc hdue, List.filter_cons_of_neg (by simp [hdue])]
        exact ih leased hn hgetr hvalidr hs

/-- **An owner the schema refuses** keeps the first item that is due. -/
theorem leaseLoop_refused {input : LeaseDueOutboxInput} {candidates due : List OutboxItemRecord}
    {item : OutboxItemRecord} {o : DynamoOutbox} (hlimit : 0 < input.limit)
    (hget : ∀ c ∈ candidates, o.outboxItems.get c.id = some c)
    (hdue : candidates.filter (MemoryStore.isDue input.now) = item :: due)
    (hinvalid : ¬(MemoryStore.leasedItem input item).Valid) :
    (leaseLoop input candidates o []).1.outboxItems =
      o.outboxItems.set item.id (MemoryStore.leasedItem input item) := by
  induction candidates with
  | nil => cases hdue
  | cons c rest ih =>
    obtain ⟨hgetc, hgetr⟩ := List.forall_mem_cons.mp hget
    unfold leaseLoop
    rw [if_neg (by simpa using hlimit.ne')]
    by_cases hc : MemoryStore.isDue input.now c = true
    · rw [List.filter_cons_of_pos hc] at hdue
      obtain ⟨rfl, -⟩ := List.cons.inj hdue
      obtain ⟨o', hupdate, hitems⟩ := updateLease_of_isDue hgetc hc
      rw [hupdate]
      dsimp only
      split
      · exact hitems
      · rename_i parsed hp
        exact absurd (OutboxItemRecord.parse_eq_ok.mp hp).1 hinvalid
    · rw [List.filter_cons_of_neg hc] at hdue
      rw [Bool.not_eq_true] at hc
      rw [updateLease_of_not_isDue hgetc hc]
      exact ih hgetr hdue

theorem leaseChecks_eq_ok {input : LeaseDueOutboxInput} : leaseChecks input = .ok () ↔
    isLeaseOwner input.owner = true ∧ 0 < input.leaseSeconds ∧ 0 < input.limit ∧
      input.limit ≤ 1000 := by
  constructor
  · intro h
    obtain ⟨_, howner, h⟩ := bind_eq_ok.mp h
    obtain ⟨_, hseconds, h⟩ := bind_eq_ok.mp h
    rw [throwIf_eq_ok] at howner hseconds h
    simp only [Bool.not_eq_eq_eq_not, Bool.not_false, beq_eq_false_iff_ne, ne_eq,
      Bool.or_eq_false_iff, decide_eq_false_iff_not, not_lt] at howner hseconds h
    exact ⟨howner, by omega, by omega, h.2⟩
  · rintro ⟨howner, hseconds, hlimit, hmax⟩
    have hmax' : (input.limit == 0 || decide (1000 < input.limit)) = false := by
      simp only [Bool.or_eq_false_iff, beq_eq_false_iff_ne, decide_eq_false_iff_not]
      omega
    rw [leaseChecks, howner, beq_eq_false_iff_ne.mpr hseconds.ne', hmax']
    rfl

theorem memory_leaseDueOutbox_of_checks {input : LeaseDueOutboxInput} (h : leaseChecks input = .ok ())
    (s : MemoryStore) : s.leaseDueOutbox input =
      MemoryStore.leaseItems input s (s.dueItems input.now input.limit) := by
  obtain ⟨howner, hseconds, hlimit, hmax⟩ := leaseChecks_eq_ok.mp h
  unfold MemoryStore.leaseDueOutbox
  rw [if_neg (by simp [howner]), if_neg (by omega), if_neg (by omega), if_neg (by omega)]
  rfl

/-- Both stores refuse the same inputs. -/
theorem memory_leaseDueOutbox_refused {input : LeaseDueOutboxInput}
    (h : leaseChecks input ≠ .ok ()) (s : MemoryStore) :
    ∃ e, s.leaseDueOutbox input = (s, .error e) := by
  rw [ne_eq, leaseChecks_eq_ok] at h
  unfold MemoryStore.leaseDueOutbox
  split_ifs with howner hseconds hlimit hmax
  · exact ⟨_, rfl⟩
  · exact ⟨_, rfl⟩
  · exact ⟨_, rfl⟩
  · exact ⟨_, rfl⟩
  · exact absurd ⟨by simpa using howner, by omega, by omega, by omega⟩ h

/-- A lease takes the items it would take from a store in memory, and hands them out. -/
def LeasesAs (o : DynamoOutbox) (input : LeaseDueOutboxInput) (s : MemoryStore) : Prop :=
  (o.leaseDueOutbox input).1.outboxItems = (s.leaseDueOutbox input).1.outboxItems ∧
    (o.leaseDueOutbox input).2.toOption = (s.leaseDueOutbox input).2.toOption

/-- The input is refused, its owner passes the schema of an item, or nothing is due. -/
def OwnerFits (o : DynamoOutbox) (input : LeaseDueOutboxInput) : Prop :=
  leaseChecks input = .ok () → providerOpaqueIdSchema input.owner = true ∨
    ∀ item ∈ o.outboxItems.values, MemoryStore.isDue input.now item = false

/-- The in-memory store parses an item before it writes it. -/
theorem leaseItems_refused {input : LeaseDueOutboxInput} {item : OutboxItemRecord}
    (h : ¬(MemoryStore.leasedItem input item).Valid) (s : MemoryStore)
    (due : List OutboxItemRecord) : (MemoryStore.leaseItems input s (item :: due)).1 = s := by
  unfold MemoryStore.leaseItems
  split
  · rfl
  · rename_i updated hp
    exact absurd (OutboxItemRecord.parse_eq_ok.mp hp).1 h

theorem set_leasedItem_ne {input : LeaseDueOutboxInput} {item : OutboxItemRecord}
    {items : OrderedMap String OutboxItemRecord} (hget : items.get item.id = some item) :
    items.set item.id (MemoryStore.leasedItem input item) ≠ items := by
  intro heq
  have hitem := congrArg (·.get item.id) heq
  rw [OrderedMap.get_set_self, hget, Option.some.injEq] at hitem
  have hattempts := congrArg OutboxItemRecord.attempts hitem
  exact Nat.succ_ne_self _ hattempts

namespace Coherent

variable {o : DynamoOutbox} {clock : ℕ} {input : LeaseDueOutboxInput} {s : MemoryStore}

/-- **A lease of everything due** is that of the in-memory store exactly when the owner fits. -/
theorem leasesAs_iff (h : o.Coherent clock) (hnow : clock ≤ input.now)
    (hlimit : ∀ partition, (o.inPartition partition none).length ≤ input.limit)
    (hs : s.outboxItems = o.outboxItems) : o.LeasesAs input s ↔ o.OwnerFits input := by
  unfold LeasesAs OwnerFits leaseDueOutbox
  by_cases hchecks : leaseChecks input = .ok ()
  · rw [hchecks]
    dsimp only
    obtain ⟨cs, hcs, hn, hmem, hdue⟩ := h.candidates hnow hlimit
    have hget : ∀ c ∈ cs, o.outboxItems.get c.id = some c := fun c hc => h.get_of_mem (hmem c hc)
    have hvalid : ∀ c ∈ cs, MemoryStore.isDue input.now c = true →
        ((MemoryStore.leasedItem input c).Valid ↔ providerOpaqueIdSchema input.owner = true) :=
      fun c hc hc' => (h.items _ _ (hget c hc)).leasedItem_valid_iff hc' hnow
    have hitems : s.dueItems input.now input.limit =
        (cs.filter (MemoryStore.isDue input.now)).take input.limit := by
      rw [MemoryStore.dueItems, hs, hdue]
    rw [memory_leaseDueOutbox_of_checks hchecks, hitems, hcs]
    by_cases hnone : cs.filter (MemoryStore.isDue input.now) = []
    · have hleast : ∀ c ∈ cs, MemoryStore.isDue input.now c ≠ true :=
        List.filter_eq_nil_iff.mp hnone
      obtain ⟨hfst, hsnd⟩ := leaseLoop_eq (o := o) [] hn hget
        (fun c hc hc' => absurd hc' (hleast c hc)) hs
      rw [hnone, List.take_nil] at hfst hsnd ⊢
      refine iff_of_true ⟨hfst, by rw [hsnd]; rfl⟩ fun _ => .inr fun item hitem => ?_
      rw [← Bool.not_eq_true]
      intro hitemdue
      have hsorted := (List.perm_insertionSort outboxOrder _).symm.subset
        (List.mem_filter.mpr ⟨hitem, hitemdue⟩)
      rw [← hdue, hnone] at hsorted
      cases hsorted
    · obtain ⟨first, rest, hfirst⟩ := List.exists_cons_of_ne_nil hnone
      obtain ⟨hin, hfirstdue⟩ : first ∈ cs ∧ MemoryStore.isDue input.now first = true :=
        List.mem_filter.mp (by rw [hfirst]; exact List.mem_cons_self)
      by_cases howner : providerOpaqueIdSchema input.owner = true
      · obtain ⟨hfst, hsnd⟩ := leaseLoop_eq (o := o) [] hn hget
          (fun c hc hc' => (hvalid c hc hc').mpr howner) hs
        refine iff_of_true ⟨hfst, ?_⟩ fun _ => .inl howner
        rw [hsnd, List.nil_append, MemoryStore.leaseItems_succeeds fun item hitem => ?_]
        · rfl
        obtain ⟨hitemin, hitemdue⟩ := List.mem_filter.mp (List.mem_of_mem_take hitem)
        exact (hvalid item hitemin hitemdue).mpr howner
      · -- the first item stays leased in the table, and the in-memory store is unchanged
        have hinvalid : ¬(MemoryStore.leasedItem input first).Valid := by
          rwa [hvalid first hin hfirstdue]
        obtain ⟨-, -, hpos, -⟩ := leaseChecks_eq_ok.mp hchecks
        obtain ⟨n, hlen⟩ := Nat.exists_eq_add_of_lt hpos
        refine iff_of_false (fun hsame => ?_) fun hfits => ?_
        · have hfst := hsame.1
          rw [leaseLoop_refused hpos hget hfirst hinvalid, hfirst, hlen, List.take_succ_cons,
            leaseItems_refused hinvalid, hs] at hfst
          exact set_leasedItem_ne (hget first hin) hfst
        · have hfirstnot := (hfits rfl).resolve_left howner first (hmem first hin)
          rw [hfirstdue] at hfirstnot
          cases hfirstnot
  · obtain ⟨e', hmemory⟩ := memory_leaseDueOutbox_refused hchecks s
    rw [hmemory]
    cases hc : leaseChecks input with
    | error e => exact iff_of_true ⟨hs.symm, rfl⟩ fun hok => nomatch hok
    | ok u => exact absurd hc hchecks

end Coherent

end DynamoOutbox

/-! ## Runs -/

namespace OutboxTableWorld

open DynamoOutbox

/-- The invariant of a run. -/
structure Inv (w : OutboxTableWorld) : Prop where
  coherent : w.outbox.Coherent w.clock
  leases : ∀ call lease, w.leases.get call = some lease → lease.input.now ≤ w.clock

theorem query_input {call call' : OutboxLeaseCall} {o : DynamoOutbox}
    {partition : OutboxPartition} (h : call.query o partition = some call') :
    call'.input = call.input := by
  unfold OutboxLeaseCall.query at h
  split at h <;> cases h <;> rfl

theorem next_coherent {call call' : OutboxLeaseCall} {o o' : DynamoOutbox} {clock : ℕ}
    (h : o.Coherent clock) (hnow : call.input.now ≤ clock) (hr : call.next o = some (o', call')) :
    o'.Coherent clock ∧ call'.input = call.input := by
  unfold OutboxLeaseCall.next at hr
  split at hr
  · obtain ⟨rfl, rfl⟩ := Prod.mk.inj (Option.some.inj hr)
    exact ⟨h, rfl⟩
  · split_ifs at hr
    · obtain ⟨rfl, rfl⟩ := Prod.mk.inj (Option.some.inj hr)
      exact ⟨h, rfl⟩
    · split at hr
      · obtain ⟨rfl, rfl⟩ := Prod.mk.inj (Option.some.inj hr)
        exact ⟨h, rfl⟩
      · rename_i o₁ item hupdate
        have h₁ := h.updateLease hnow hupdate
        split at hr <;> obtain ⟨rfl, rfl⟩ := Prod.mk.inj (Option.some.inj hr) <;>
          exact ⟨h₁, rfl⟩
  · cases hr

/-- **Every step keeps the invariant.** -/
theorem Inv.step {w w' : OutboxTableWorld} (h : w.Inv) {l : OutboxTableLabel}
    (hs : w.step l = some w') : w'.Inv := by
  have hset : ∀ {call : ℕ} {lease : OutboxLeaseCall}, lease.input.now ≤ w.clock →
      ∀ k l, (w.leases.set call lease).get k = some l → l.input.now ≤ w.clock := by
    intro call lease hle k l hk
    rw [OrderedMap.get_set] at hk
    split_ifs at hk
    · exact Option.some.inj hk ▸ hle
    · exact h.leases k l hk
  cases l with
  | tick time =>
    simp only [OutboxTableWorld.step] at hs
    split_ifs at hs with hle
    obtain rfl := Option.some.inj hs
    exact ⟨h.coherent.mono hle, fun k l hk => (h.leases k l hk).trans hle⟩
  | writeRows emails deliveryMessages recipients idempotency =>
    obtain rfl := Option.some.inj hs
    exact ⟨h.coherent.of_eq rfl rfl rfl, h.leases⟩
  | commitDelivery input nowEpochSeconds =>
    simp only [OutboxTableWorld.step] at hs
    split_ifs at hs with hc
    split at hs
    · rename_i o result hcommit
      obtain rfl := Option.some.inj hs
      exact ⟨h.coherent.commitDelivery hc hcommit, h.leases⟩
    · exact Option.some.inj hs ▸ h
  | startLease call input =>
    simp only [OutboxTableWorld.step] at hs
    split_ifs at hs with hif
    obtain rfl := Option.some.inj hs
    exact ⟨h.coherent, hset hif.1⟩
  | query call partition =>
    obtain ⟨lease, hlease, hs⟩ := Option.bind_eq_some_iff.mp hs
    obtain ⟨lease', hquery, hs⟩ := Option.bind_eq_some_iff.mp hs
    obtain rfl := Option.some.inj hs
    refine ⟨h.coherent, hset ?_⟩
    rw [query_input hquery]
    exact h.leases call lease hlease
  | leaseNext call =>
    obtain ⟨lease, hlease, hs⟩ := Option.bind_eq_some_iff.mp hs
    obtain ⟨⟨o, lease'⟩, hnext, hs⟩ := Option.bind_eq_some_iff.mp hs
    obtain rfl := Option.some.inj hs
    obtain ⟨hco, hinput⟩ := next_coherent h.coherent (h.leases call lease hlease) hnext
    refine ⟨hco, hset ?_⟩
    rw [hinput]
    exact h.leases call lease hlease
  | acknowledgeOutbox id owner now =>
    simp only [OutboxTableWorld.step] at hs
    split_ifs at hs
    obtain rfl := Option.some.inj hs
    exact ⟨h.coherent.acknowledgeOutbox id owner now, h.leases⟩
  | recordOutboxFailure id owner category now =>
    simp only [OutboxTableWorld.step] at hs
    split_ifs at hs with hnow
    obtain rfl := Option.some.inj hs
    exact ⟨h.coherent.recordOutboxFailure id owner category hnow, h.leases⟩
  | rescheduleEmailAndOutbox id scheduledAt now =>
    simp only [OutboxTableWorld.step] at hs
    split_ifs at hs
    split at hs
    · rename_i o email hreschedule
      obtain rfl := Option.some.inj hs
      exact ⟨h.coherent.rescheduleEmailAndOutbox hreschedule, h.leases⟩
    · exact Option.some.inj hs ▸ h

theorem inv_of_reachable {w : OutboxTableWorld} (h : system.Reachable w) : w.Inv := by
  refine TransitionSystem.Reachable.invariant ?_ (fun s l s' _ hi hs => hi.step hs) h
  rintro w rfl
  exact ⟨.empty, fun call lease hk => by cases hk⟩

/-- **The outbox index.** Whatever the clients do, an undispatched item without a lease stands in
the due partition, an item under a lease in the leased partition under its expiry and a dispatched
item in neither, and the counter counts the undispatched items. A lease that reads both partitions
takes what the in-memory store would take exactly when its owner fits. -/
theorem dynamo_outbox_index {w : OutboxTableWorld} (h : system.Reachable w) :
    (∀ id item, w.outbox.outboxItems.get id = some item →
      (item.dispatchedAt = none → item.leaseOwner = none →
        ∃ t, w.outbox.index.get id = some (.due, t)) ∧
      (∀ owner, item.leaseOwner = some owner → item.dispatchedAt = none ∧
        ∃ t, item.leaseExpiresAt = some t ∧ w.outbox.index.get id = some (.leased, t)) ∧
      (item.dispatchedAt ≠ none → w.outbox.index.get id = none)) ∧
    w.outbox.undispatched = w.outbox.outboxItems.values.countP (·.dispatchedAt.isNone) ∧
    ∀ (input : LeaseDueOutboxInput) (s : MemoryStore), w.clock ≤ input.now →
      (∀ partition, (w.outbox.inPartition partition none).length ≤ input.limit) →
      s.outboxItems = w.outbox.outboxItems →
      (w.outbox.LeasesAs input s ↔ w.outbox.OwnerFits input) := by
  have hinv := (inv_of_reachable h).coherent
  refine ⟨fun id item hget => ?_, hinv.undispatched,
    fun input s hnow hlimit hs => hinv.leasesAs_iff hnow hlimit hs⟩
  have hitem := hinv.items id item hget
  refine ⟨fun hd ho => ?_, fun owner ho => ?_, fun hd => (hitem.dispatched hd).1⟩
  · obtain ⟨t, hkey, -⟩ := hitem.due hd ho
    exact ⟨t, hkey⟩
  · have hd : item.dispatchedAt = none := by
      by_contra hd
      rw [(hitem.dispatched hd).2] at ho
      cases ho
    have hpair := hitem.lease
    rw [ho] at hpair
    obtain ⟨t, ht⟩ : ∃ t, item.leaseExpiresAt = some t :=
      Option.ne_none_iff_exists'.mp fun hnone => by simp [hnone] at hpair
    exact ⟨hd, t, ht, (hitem.leased hd t ht).1⟩

/-- A delivery is committed. -/
def commitSample : List OutboxTableLabel := [.tick 5000, .commitDelivery sampleCommit 5]

theorem dynamo_outbox_index_sample : ∃ w, system.Reachable w ∧ w.outbox.undispatched = 1 ∧
    w.outbox.LeasesAs ⟨"worker", 5000, 60, 10⟩ { outboxItems := w.outbox.outboxItems } := by
  have hrun : (system.run {} commitSample).any (fun w => decide (w.outbox.undispatched = 1 ∧
      w.clock = 5000 ∧ (w.outbox.inPartition .due none).length = 1 ∧
      (w.outbox.inPartition .leased none).length = 0)) = true := by
    decide +kernel
  obtain ⟨w, hw, hp⟩ := TransitionSystem.exists_reachable_of_run rfl hrun
  obtain ⟨hcount, hclock, hdue, hleased⟩ := of_decide_eq_true hp
  refine ⟨w, hw, hcount, ((dynamo_outbox_index hw).2.2 _ _ (by rw [hclock]) ?_ rfl).mpr
    fun _ => .inl (by decide)⟩
  rintro (_ | _)
  · rw [hdue]
    decide
  · rw [hleased]
    decide

/-- An owner that its own check accepts and the schema of an item does not: one item is leased in
the table, none in memory. -/
theorem leaseDueOutbox_nonAscii_owner : ¬∀ w, system.Reachable w →
    ∀ (input : LeaseDueOutboxInput) (s : MemoryStore), w.clock ≤ input.now →
      (∀ partition, (w.outbox.inPartition partition none).length ≤ input.limit) →
      s.outboxItems = w.outbox.outboxItems → w.outbox.LeasesAs input s := by
  intro hall
  have hrun : (system.run {} commitSample).any (fun w => decide (w.clock = 5000 ∧
      (w.outbox.inPartition .due none).length = 1 ∧
      (w.outbox.inPartition .leased none).length = 0 ∧
      w.outbox.outboxItems.values.any (MemoryStore.isDue 5000) = true)) = true := by
    decide +kernel
  obtain ⟨w, hw, hp⟩ := TransitionSystem.exists_reachable_of_run rfl hrun
  obtain ⟨hclock, hdue, hleased, hany⟩ := of_decide_eq_true hp
  have hlimit : ∀ partition, (w.outbox.inPartition partition none).length ≤ 10 := by
    rintro (_ | _)
    · rw [hdue]
      decide
    · rw [hleased]
      decide
  have hnow : w.clock ≤ 5000 := by rw [hclock]
  have hsame := hall w hw ⟨"é", 5000, 60, 10⟩ { outboxItems := w.outbox.outboxItems } hnow hlimit
    rfl
  have hfits := ((inv_of_reachable hw).coherent.leasesAs_iff hnow hlimit rfl).mp hsame
  obtain ⟨item, hitem, hitemdue⟩ := List.any_eq_true.mp hany
  rcases hfits (by decide) with howner | hnone
  · exact absurd howner (by decide)
  · rw [hnone item hitem] at hitemdue
    cases hitemdue

end OutboxTableWorld

end HayaSend
