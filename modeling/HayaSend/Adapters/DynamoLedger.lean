import HayaSend.Adapters.LedgerRows
import HayaSend.Adapters.MemoryStoreLedger
import HayaSend.Core.LedgerPlans
import HayaSend.Core.SafetyOutcomes

/-!
# The items of one message in the DynamoDB store

The email, the message, its recipients and its attempts stand in one partition, which a query reads
in the order of the sort keys, one page at a time: between two pages any item may change.
`getStoredDeliveryState` makes a ledger of the pages, and `deliveryLedgerTransaction` makes of a plan
the transaction that writes it, conditioned on the items that were read. It does not name the
attempts that the plan leaves alone.

`attempts_prefix`: of the attempts a query misses only the latest. `transact_eq`: a transaction
that goes through finds the email, the message and the recipients as they were read, and leaves the
plan.
-/

namespace HayaSend

/-- The items of a message, and the provider events, which stand under keys of their own. -/
structure DynamoRows where
  ledger : DeliveryLedgerState
  events : OrderedMap String ProviderEventRecord := ∅
  deriving DecidableEq

/-! ## Reading the partition -/

/-- The entity of an item of the partition. -/
inductive LedgerItem
  | attempt (entity : AttemptRecord)
  | message (entity : MessageRecord)
  | email (entity : EmailRecord)
  | recipient (entity : RecipientRecord)
  deriving DecidableEq

/-- `ATTEMPT#…`, `DELIVERY_MESSAGE#…`, `EMAIL#…`, `RECIPIENT#…`. The sequence of an attempt is
padded, so that the keys order as the numbers do. -/
inductive SortKey
  | attempt (sequence : ℕ)
  | message
  | email
  | recipient (id : String)
  deriving DecidableEq

def SortKey.rank : SortKey → ℕ
  | .attempt _ => 0
  | .message => 1
  | .email => 2
  | .recipient _ => 3

def SortKey.precedes : SortKey → SortKey → Bool
  | .attempt m, .attempt n => decide (m < n)
  | .recipient a, .recipient b => decide (a < b)
  | a, b => decide (a.rank < b.rank)

namespace LedgerItem

def key : LedgerItem → SortKey
  | .attempt a => .attempt a.sequence
  | .message _ => .message
  | .email _ => .email
  | .recipient r => .recipient r.id

def attempt? : LedgerItem → Option AttemptRecord
  | .attempt a => some a
  | _ => none

def message? : LedgerItem → Option MessageRecord
  | .message m => some m
  | _ => none

def email? : LedgerItem → Option EmailRecord
  | .email e => some e
  | _ => none

def recipient? : LedgerItem → Option RecipientRecord
  | .recipient r => some r
  | _ => none

end LedgerItem

/-- The partition in the order of its sort keys. -/
def DeliveryLedgerState.items (s : DeliveryLedgerState) : List LedgerItem :=
  (s.attempts.insertionSort attemptOrder).map .attempt ++ .message s.message :: .email s.email ::
    (s.recipients.insertionSort fun a b => a.id ≤ b.id).map .recipient

/-- The pages that have come in. -/
structure PartitionRead where
  items : List LedgerItem := []
  exclusiveStartKey : Option SortKey := none
  finished : Bool := false
  deriving DecidableEq

/-- The next page, of at most `count` items; with `more` it has a `LastEvaluatedKey`. -/
def PartitionRead.query (read : PartitionRead) (s : DeliveryLedgerState) (count : ℕ)
    (more : Bool) : Option PartitionRead :=
  if read.finished then none
  else
    let ahead := s.items.filter fun item => read.exclusiveStartKey.all (·.precedes item.key)
    let page := ahead.take count
    if more then page.getLast?.map fun item =>
      { items := read.items ++ page, exclusiveStartKey := some item.key }
    else if ahead.length ≤ count then some { items := read.items ++ page, finished := true }
    else none

def PartitionRead.attempts (read : PartitionRead) : List AttemptRecord :=
  read.items.filterMap LedgerItem.attempt?

/-- `getStoredDeliveryState`, of the items of all pages; `none` is `undefined`. -/
def PartitionRead.getStoredDeliveryState (read : PartitionRead) :
    Except Failure (Option DeliveryLedgerState) :=
  match read.items.findSome? LedgerItem.email?, read.items.findSome? LedgerItem.message? with
  | some email, some message => do
    let message ← message.parse
    let attempts ← read.attempts.mapM AttemptRecord.parse
    let recipients ← (read.items.filterMap LedgerItem.recipient?).mapM RecipientRecord.parse
    let attemptItems := OrderedMap.ofList (attempts.map fun a => (a.id, a))
    let recipientItems := OrderedMap.ofList (recipients.map fun r => (r.id, r))
    return (message.recipientIds.mapM recipientItems.get).map fun recipients =>
      ⟨email, message, recipients, attemptItems.values.insertionSort attemptOrder⟩
  | _, _ => return none

/-! ## Transactions -/

/-- What a transaction writes beside the plan. -/
structure LedgerAddition where
  putAttempt : Option AttemptRecord := none
  updateAttempt : Option AttemptRecord := none
  putEvent : Option ProviderEventRecord := none
  deriving DecidableEq, Repr

inductive TransactItem
  | updateEmail (expected next : EmailRecord)
  | updateMessage (expected next : MessageRecord)
  | updateRecipient (expected next : RecipientRecord)
  | checkRecipient (expected : RecipientRecord)
  | putAttempt (entity : AttemptRecord)
  | updateAttempt (expected next : AttemptRecord)
  | checkAttempt (expected : AttemptRecord)
  | putEvent (entity : ProviderEventRecord)
  deriving DecidableEq, Repr

/-- The item of a recipient: an update where the plan changes it, else a check. -/
def recipientItem (s : DeliveryLedgerState) (plan : DeliveryLedgerPlan) (id : String) :
    Except Failure TransactItem :=
  match s.recipients.find? (·.id == id), plan.recipients.reverse.find? (·.id == id) with
  | some current, some next =>
    .ok (if plan.changedRecipientIds.contains id then .updateRecipient current next
      else .checkRecipient current)
  | _, _ => .error (.error "Delivery recipient disappeared during mutation.")

/-- The items of the attempt that an addition updates or names. -/
def additionItems (s : DeliveryLedgerState) (addition : LedgerAddition) :
    Except Failure (List TransactItem) := do
  let updated ← match addition.updateAttempt with
    | none => pure []
    | some next => match s.attempts.find? (·.id == next.id) with
      | some current => .ok [.updateAttempt current next]
      | none => .error (.error "Delivery attempt disappeared during mutation.")
  let event ← match addition.putEvent with
    | none => pure []
    | some event => match s.attempts.find? (·.id == event.attemptId.getD "") with
      | some attempt => .ok [.checkAttempt attempt, .putEvent event]
      | none => .error (.error "Provider event attempt disappeared during mutation.")
  return addition.putAttempt.toList.map .putAttempt ++ updated ++ event

/-- `deliveryLedgerTransaction` -/
def deliveryLedgerTransaction (s : DeliveryLedgerState) (plan : DeliveryLedgerPlan)
    (addition : LedgerAddition) : Except Failure (List TransactItem) := do
  let recipients ← s.message.recipientIds.mapM (recipientItem s plan)
  let added ← additionItems s addition
  let items := .updateEmail s.email plan.email :: .updateMessage s.message plan.message ::
    (recipients ++ added)
  throwIf (decide (100 < items.length))
    (.error "Delivery ledger transaction exceeds the DynamoDB action limit.")
  return items

namespace DynamoRows

/-- The condition of an item of a transaction. -/
def holds (rows : DynamoRows) : TransactItem → Bool
  | .updateEmail expected _ => rows.ledger.email == expected
  | .updateMessage expected _ => rows.ledger.message == expected
  | .updateRecipient expected _ | .checkRecipient expected =>
    rows.ledger.recipients.find? (·.id == expected.id) == some expected
  | .putAttempt a => !rows.ledger.attempts.any (·.sequence == a.sequence)
  | .updateAttempt expected _ | .checkAttempt expected =>
    rows.ledger.attempts.find? (·.sequence == expected.sequence) == some expected
  | .putEvent event => !rows.events.has event.id

def put (rows : DynamoRows) : TransactItem → DynamoRows
  | .updateEmail _ next => { rows with ledger.email := next }
  | .updateMessage _ next => { rows with ledger.message := next }
  | .updateRecipient _ next => { rows with
      ledger.recipients := rows.ledger.recipients.map fun r => if r.id = next.id then next else r }
  | .putAttempt a => { rows with ledger.attempts := rows.ledger.attempts ++ [a] }
  | .updateAttempt _ next => { rows with
      ledger.attempts := rows.ledger.attempts.map fun a =>
        if a.sequence = next.sequence then next else a }
  | .putEvent event => { rows with events := rows.events.set event.id event }
  | .checkRecipient _ | .checkAttempt _ => rows

/-- A transaction; `none` where it is canceled. -/
def transact (rows : DynamoRows) (items : List TransactItem) : Option DynamoRows :=
  if items.all rows.holds then some (items.foldl put rows) else none

end DynamoRows

/-- What the rounds of a ledger operation make of the ledger they read; `none` when the operation
was done before. -/
def LedgerRequest.dynamoPlan (s : DeliveryLedgerState) :
    LedgerRequest → Except Failure (Option (DeliveryLedgerPlan × LedgerAddition))
  | .begin input => do
    let attempt ← input.parse
    match s.attempts.find? fun candidate =>
        candidate.id == attempt.id || candidate.sequence == attempt.sequence with
    | some existing => do
      throwIf (existing != attempt)
        (.conflict "Delivery attempt identity or sequence is already in use.")
      return none
    | none => do
      let (plan, _) ← planAttemptStart s attempt
      return some (plan, { putAttempt := some attempt })
  | .complete input =>
    match s.attempts.find? (·.id == input.attemptId) with
    | none => .error (.conflict "Delivery attempt does not exist.")
    | some existing =>
      if existing.status != .submitting then do
        throwIf (!(existing.status == input.status.toAttemptStatus &&
            existing.completedAt == some input.completedAt &&
            existing.providerMessageId == input.providerMessageId &&
            existing.diagnosticCategory == input.diagnosticCategory))
          (.conflict "Delivery attempt has already completed differently.")
        return none
      else do
        let (plan, attempt) ← planAttemptCompletion s input
        return some (plan, { updateAttempt := some attempt })
  | .localState status updatedAt => do
    let plan ← planLocalRecipientState s status updatedAt
    return some (plan, {})

/-! ## What a query sees -/

theorem attempt_key_prefix_sequences {as bs : List AttemptRecord}
    (h : as.map AttemptRecord.key <+: bs.map AttemptRecord.key)
    (hseq : bs.map (·.sequence) = List.range' 1 bs.length) :
    as.map (·.sequence) = List.range' 1 as.length := by
  have hmap : ∀ cs : List AttemptRecord,
      (cs.map AttemptRecord.key).map Prod.snd = cs.map (·.sequence) := by
    intro cs
    rw [List.map_map]
    rfl
  have hprefix := h.map Prod.snd
  rw [hmap, hmap, hseq] at hprefix
  have hlen : as.length ≤ bs.length := by simpa using h.length_le
  rw [List.prefix_iff_eq_take.mp hprefix, List.length_map,
    List.take_range'_of_length_ge hlen]

theorem sequence_getElem {as : List AttemptRecord}
    (hseq : as.map (·.sequence) = List.range' 1 as.length) {i : ℕ} (hi : i < as.length) :
    as[i].sequence = i + 1 := by
  have hget : (as.map (·.sequence))[i]? = (List.range' 1 as.length)[i]? := by rw [hseq]
  rw [List.getElem?_map, List.getElem?_eq_getElem hi, List.getElem?_range' hi] at hget
  simp only [Option.map_some, Option.some.injEq] at hget
  omega

/-- The attempts behind a sort key. -/
theorem filter_sequence_lt {as : List AttemptRecord}
    (hseq : as.map (·.sequence) = List.range' 1 as.length) (n : ℕ) :
    as.filter (fun a => decide (n < a.sequence)) = as.drop n := by
  conv_lhs => rw [← List.take_append_drop n as]
  rw [List.filter_append]
  have htake : (as.take n).filter (fun a => decide (n < a.sequence)) = [] := by
    refine List.filter_eq_nil_iff.mpr fun a ha => ?_
    obtain ⟨i, hi, rfl⟩ := List.mem_iff_getElem.mp ha
    rw [List.getElem_take, decide_eq_true_eq, sequence_getElem hseq]
    rw [List.length_take] at hi
    omega
  have hdrop : (as.drop n).filter (fun a => decide (n < a.sequence)) = as.drop n := by
    refine List.filter_eq_self.mpr fun a ha => ?_
    obtain ⟨i, hi, rfl⟩ := List.mem_iff_getElem.mp ha
    rw [List.getElem_drop, decide_eq_true_eq, sequence_getElem hseq]
    omega
  rw [htake, hdrop, List.nil_append]

/-- The items behind a start key are the attempts behind it and others that are no attempts. -/
theorem DeliveryLedgerState.items_after {s : DeliveryLedgerState}
    (hseq : s.attempts.map (·.sequence) = List.range' 1 s.attempts.length)
    (start : Option SortKey) : ∃ rest : List LedgerItem,
      (∀ item ∈ rest, item.attempt? = none) ∧
      s.items.filter (fun item => start.all (·.precedes item.key)) =
        (match start with
          | none => s.attempts
          | some (.attempt n) => s.attempts.drop n
          | some _ => []).map .attempt ++ rest := by
  let others := .message s.message :: .email s.email ::
    (s.recipients.insertionSort fun a b => a.id ≤ b.id).map LedgerItem.recipient
  have hothers : ∀ item ∈ others, item.attempt? = none := by
    intro item hitem
    rcases List.mem_cons.mp hitem with rfl | hitem
    · rfl
    rcases List.mem_cons.mp hitem with rfl | hitem
    · rfl
    obtain ⟨r, -, rfl⟩ := List.mem_map.mp hitem
    rfl
  have hitems : s.items = s.attempts.map .attempt ++ others := by
    rw [items, MemoryStore.insertionSort_attemptOrder hseq]
  refine ⟨others.filter fun item => start.all (·.precedes item.key),
    fun item hitem => hothers item (List.mem_filter.mp hitem).1, ?_⟩
  rw [hitems, List.filter_append, List.filter_map]
  congr 2
  match start with
  | none => exact List.filter_eq_self.mpr fun _ _ => rfl
  | some (.attempt n) => exact filter_sequence_lt hseq n
  | some .message | some .email | some (.recipient _) =>
    exact List.filter_eq_nil_iff.mpr fun _ _ => Bool.false_ne_true

/-- A page: its attempts, and where it ends when it ends with one. -/
theorem page_attempts (as : List AttemptRecord) {rest : List LedgerItem}
    (hrest : ∀ item ∈ rest, item.attempt? = none) (count : ℕ) :
    ((as.map LedgerItem.attempt ++ rest).take count).filterMap LedgerItem.attempt? =
        as.take count ∧
      ∀ a, ((as.map LedgerItem.attempt ++ rest).take count).getLast? = some (.attempt a) →
        (as.take count).getLast? = some a := by
  have hsome : ∀ bs : List AttemptRecord,
      (bs.map LedgerItem.attempt).filterMap LedgerItem.attempt? = bs := by
    intro bs
    rw [List.filterMap_map]
    exact List.filterMap_some
  rw [List.take_append, ← List.map_take]
  constructor
  · rw [List.filterMap_append, hsome, List.filterMap_eq_nil_iff.mpr, List.append_nil]
    exact fun item hitem => hrest item (List.mem_of_mem_take hitem)
  · intro a hlast
    rw [List.getLast?_append] at hlast
    rcases Option.or_eq_some_iff.mp hlast with hother | ⟨-, hown⟩
    · have hmem := List.mem_of_mem_take (List.mem_of_getLast? hother)
      cases hrest _ hmem
    · rw [List.getLast?_map] at hown
      obtain ⟨b, hb, heq⟩ := Option.map_eq_some_iff.mp hown
      rw [hb, LedgerItem.attempt.inj heq]

/-- What the pages of a query have in common with the attempts as they stand: of those that are
gone past, the ids and the sequences. -/
structure PartitionRead.Seen (read : PartitionRead) (s : DeliveryLedgerState) : Prop where
  attempts_prefix : read.attempts.map AttemptRecord.key <+: s.attempts.map AttemptRecord.key
  start : ∀ n, read.exclusiveStartKey = some (.attempt n) → n = read.attempts.length
  unread : read.exclusiveStartKey = none → read.finished = false → read.attempts = []

theorem PartitionRead.Seen.empty (s : DeliveryLedgerState) : PartitionRead.Seen {} s :=
  ⟨List.nil_prefix, fun _ h => (nomatch h), fun _ _ => rfl⟩

/-- Attempts are only added. -/
theorem PartitionRead.Seen.later {read : PartitionRead} {s s' : DeliveryLedgerState}
    (h : read.Seen s) (hkeys : s.attempts.map AttemptRecord.key <+: s'.attempts.map AttemptRecord.key) :
    read.Seen s' :=
  ⟨h.attempts_prefix.trans hkeys, h.start, h.unread⟩

/-- What is ahead of a query: the attempts that it has not seen, or none. -/
theorem PartitionRead.Seen.ahead {read : PartitionRead} {s : DeliveryLedgerState}
    (h : read.Seen s) (hseq : s.attempts.map (·.sequence) = List.range' 1 s.attempts.length)
    (hfinished : read.finished = false) : ∃ as : List AttemptRecord, ∃ rest : List LedgerItem,
      (as = s.attempts.drop read.attempts.length ∨ as = []) ∧
      (∀ item ∈ rest, item.attempt? = none) ∧
      s.items.filter (fun item => read.exclusiveStartKey.all (·.precedes item.key)) =
        as.map .attempt ++ rest := by
  obtain ⟨rest, hrest, hahead⟩ := DeliveryLedgerState.items_after hseq read.exclusiveStartKey
  refine ⟨_, rest, ?_, hrest, hahead⟩
  match hstart : read.exclusiveStartKey with
  | none =>
    rw [h.unread hstart hfinished]
    exact Or.inl rfl
  | some (.attempt n) =>
    rw [← h.start n hstart]
    exact Or.inl rfl
  | some .message | some .email | some (.recipient _) => exact Or.inr rfl

/-- **A page** goes on where the last one ended. -/
theorem PartitionRead.Seen.query {read read' : PartitionRead} {s : DeliveryLedgerState}
    (h : read.Seen s) (hseq : s.attempts.map (·.sequence) = List.range' 1 s.attempts.length)
    {count : ℕ} {more : Bool} (hq : read.query s count more = some read') : read'.Seen s := by
  unfold PartitionRead.query at hq
  split_ifs at hq with hfinished hmore
  all_goals
    rw [Bool.not_eq_true] at hfinished
    obtain ⟨as, rest, has, hrest, hahead⟩ := h.ahead hseq hfinished
    obtain ⟨hpage, hend⟩ := page_attempts as hrest count
    rw [hahead] at hq
    have hprefix : (read.attempts ++ as.take count).map AttemptRecord.key <+:
        s.attempts.map AttemptRecord.key := by
      rw [List.map_append]
      rcases has with rfl | rfl
      · obtain ⟨tail, htail⟩ := h.attempts_prefix
        have hdrop : (s.attempts.drop read.attempts.length).map AttemptRecord.key = tail := by
          rw [List.map_drop, ← htail, List.drop_left' (List.length_map _)]
        rw [List.map_take, hdrop, ← htail]
        exact (List.prefix_append_right_inj _).mpr (List.take_prefix _ _)
      · simpa using h.attempts_prefix
  · -- a page with a key to go on from
    obtain ⟨item, hlast, rfl⟩ := Option.map_eq_some_iff.mp hq
    have hattempts : PartitionRead.attempts { items := read.items ++
        (as.map LedgerItem.attempt ++ rest).take count, exclusiveStartKey := some item.key } =
          read.attempts ++ as.take count := by
      rw [attempts, List.filterMap_append, hpage, attempts]
    refine ⟨hattempts ▸ hprefix, fun n hn => ?_, fun hnone => (nomatch hnone)⟩
    rw [hattempts]
    cases item with
    | attempt a =>
      cases hn
      have hlast' := hend a hlast
      rcases has with rfl | rfl
      · rw [List.getLast?_eq_getElem?, List.getElem?_take, List.getElem?_drop] at hlast'
        split_ifs at hlast' with hlt
        obtain ⟨hin, rfl⟩ := List.getElem?_eq_some_iff.mp hlast'
        rw [sequence_getElem hseq, List.length_append]
        rw [List.length_take, List.length_drop] at hin hlt ⊢
        omega
      · simp at hlast'
    | message m => cases hn
    | email e => cases hn
    | recipient r => cases hn
  · -- the last page
    dsimp only at hq
    split_ifs at hq
    obtain rfl := Option.some.inj hq
    refine ⟨?_, fun n hn => (nomatch hn), fun _ hnot => (nomatch hnot)⟩
    rw [attempts, List.filterMap_append, hpage]
    exact hprefix

/-- The ledger that was read: the recipients of the message, and the attempts of the pages. -/
theorem PartitionRead.Seen.state {read : PartitionRead} {s r : DeliveryLedgerState}
    (h : read.Seen s) (hseq : s.attempts.map (·.sequence) = List.range' 1 s.attempts.length)
    (hids : (s.attempts.map (·.id)).Nodup) (hr : read.getStoredDeliveryState = .ok (some r)) :
    r.attempts = read.attempts ∧ r.Ordered ∧ r.message.recipientIds.Nodup := by
  unfold getStoredDeliveryState at hr
  split at hr
  · rename_i email message hemail hmessage
    obtain ⟨parsed, hparsed, hr⟩ := bind_eq_ok.mp hr
    obtain ⟨attempts, hattempts, hr⟩ := bind_eq_ok.mp hr
    obtain ⟨recipients, -, hr⟩ := bind_eq_ok.mp hr
    obtain ⟨hvalid, rfl⟩ := MessageRecord.parse_eq_ok.mp hparsed
    obtain ⟨-, rfl⟩ := mapM_attempt_parse_eq_ok.mp hattempts
    obtain ⟨named, hnamed, rfl⟩ := Option.map_eq_some_iff.mp ((pure_eq_ok _ _).mp hr)
    have hfst : (read.attempts.map (·.id)) <+: s.attempts.map (·.id) := by
      have hprefix := h.attempts_prefix.map Prod.fst
      rw [List.map_map, List.map_map] at hprefix
      exact hprefix
    refine ⟨?_, ?_, hvalid.nodup⟩
    · rw [OrderedMap.values_ofList (hids.sublist hfst.sublist)]
      exact MemoryStore.insertionSort_attemptOrder
        (attempt_key_prefix_sequences h.attempts_prefix hseq)
    · have hid : ∀ k v, (OrderedMap.ofList (recipients.map fun r => (r.id, r))).get k = some v →
          v.id = k := by
        intro k v hget
        obtain ⟨v', -, heq⟩ := List.mem_map.mp (OrderedMap.mem_of_get_ofList hget)
        obtain ⟨rfl, rfl⟩ := Prod.mk.inj heq
        rfl
      rw [mapM_eq_some] at hnamed
      refine List.ext_getElem? fun i => ?_
      have hi := congrArg (·[i]?) hnamed
      simp only [List.getElem?_map] at hi ⊢
      cases hk : message.recipientIds[i]? with
      | none =>
        rw [hk] at hi
        simpa using hi.symm
      | some k =>
        rw [hk] at hi
        obtain ⟨v, hv, heq⟩ := Option.map_eq_some_iff.mp hi.symm
        rw [hv, Option.map_some, hid k v heq.symm]
  · cases hr

/-! ## What a transaction leaves -/

/-- A plan gives every recipient the record `f` makes of it, and names those that change. -/
structure DeliveryLedgerPlan.Rewrites (plan : DeliveryLedgerPlan) (s : DeliveryLedgerState)
    (f : RecipientRecord → RecipientRecord) : Prop where
  recipients : plan.recipients = s.recipients.map f
  id : ∀ r ∈ s.recipients, (f r).id = r.id
  same : ∀ r ∈ s.recipients, r.id ∉ plan.changedRecipientIds → f r = r

/-- The item of a recipient in the transaction of such a plan. -/
def rewriteItem (plan : DeliveryLedgerPlan) (f : RecipientRecord → RecipientRecord)
    (r : RecipientRecord) : TransactItem :=
  if plan.changedRecipientIds.contains r.id then .updateRecipient r (f r) else .checkRecipient r

section Transact

variable {s : DeliveryLedgerState} {plan : DeliveryLedgerPlan}
  {f : RecipientRecord → RecipientRecord} {rows rows' : DynamoRows}

theorem mapM_recipientItem (ho : s.Ordered) (hn : s.message.recipientIds.Nodup)
    (hw : plan.Rewrites s f) {items : List TransactItem} :
    s.message.recipientIds.mapM (recipientItem s plan) = .ok items ↔
      s.recipients.map (rewriteItem plan f) = items := by
  have hids : (s.recipients.map (·.id)).Nodup := ho ▸ hn
  have hplan : (plan.recipients.map (·.id)).Nodup := by
    rw [hw.recipients, List.map_map, List.map_congr_left (g := (·.id)) hw.id]
    exact hids
  have hitem : ∀ r ∈ s.recipients, ∀ item, recipientItem s plan r.id = .ok item ↔
      True ∧ rewriteItem plan f r = item := by
    intro r hr item
    have hnext := find?_reverse_id hplan (hw.recipients ▸ List.mem_map_of_mem hr)
    rw [hw.id r hr] at hnext
    rw [recipientItem, (find?_id_eq_some hids).mpr ⟨hr, rfl⟩, hnext]
    simp [rewriteItem]
  rw [← ho, List.mapM_map]
  refine (mapM_eq_ok_map hitem).trans ?_
  simp

/-- Recipients in an order, each found as it was read. -/
theorem recipients_eq_of_find {rs rs' : List RecipientRecord} (hn : (rs'.map (·.id)).Nodup)
    (hids : rs.map (·.id) = rs'.map (·.id))
    (hfind : ∀ r ∈ rs, rs'.find? (·.id == r.id) = some r) : rs' = rs := by
  have hlen : rs.length = rs'.length := by simpa using congrArg List.length hids
  refine List.ext_getElem hlen.symm fun i hi hi' => ?_
  have hget : (rs.map (·.id))[i]? = (rs'.map (·.id))[i]? := by rw [hids]
  simp only [List.getElem?_map, List.getElem?_eq_getElem hi, List.getElem?_eq_getElem hi',
    Option.map_some, Option.some.injEq] at hget
  have hmem := List.mem_of_find?_eq_some (hfind _ (List.getElem_mem hi'))
  exact List.inj_on_of_nodup_map hn (List.getElem_mem hi) hmem hget.symm

/-- The recipients of a transaction, one after the other. -/
theorem foldl_rewriteItem (done : List RecipientRecord) {rest : List RecipientRecord}
    (hrows : rows.ledger.recipients = done.map f ++ rest)
    (hn : ((done ++ rest).map (·.id)).Nodup) (hid : ∀ r ∈ done ++ rest, (f r).id = r.id)
    (hsame : ∀ r ∈ rest, r.id ∉ plan.changedRecipientIds → f r = r) :
    (rest.map (rewriteItem plan f)).foldl DynamoRows.put rows =
      { rows with ledger.recipients := (done ++ rest).map f } := by
  induction rest generalizing done rows with
  | nil =>
    rw [List.append_nil] at hrows ⊢
    rw [← hrows]
    rfl
  | cons r rest ih =>
    have hsplit : done ++ r :: rest = (done ++ [r]) ++ rest := by simp
    rw [hsplit] at hn hid ⊢
    have hput : (rows.put (rewriteItem plan f r)) =
        { rows with ledger.recipients := (done ++ [r]).map f ++ rest } := by
      unfold rewriteItem
      split_ifs with hchanged
      · have hother : ∀ x ∈ done ++ rest, x.id ≠ r.id := by
          intro x hx heq
          have hperm : (done ++ [r] ++ rest).Perm (r :: (done ++ rest)) := by
            rw [List.append_assoc]
            exact List.perm_middle
          have hnodup := (hperm.map (·.id)).nodup_iff.mp hn
          exact (List.nodup_cons.mp hnodup).1 (List.mem_map.mpr ⟨x, hx, heq⟩)
        have hkept : ∀ xs : List RecipientRecord, (∀ x ∈ xs, x.id ≠ r.id) →
            xs.map (fun x => if x.id = r.id then f r else x) = xs := by
          intro xs hxs
          exact (List.map_congr_left fun x hx => if_neg (hxs x hx)).trans (List.map_id xs)
        have hdone : ∀ x ∈ done.map f, x.id ≠ r.id := by
          intro x hx
          obtain ⟨d, hd, rfl⟩ := List.mem_map.mp hx
          rw [hid d (by simp [hd])]
          exact hother d (List.mem_append_left _ hd)
        have hrest : ∀ x ∈ rest, x.id ≠ r.id :=
          fun x hx => hother x (List.mem_append_right _ hx)
        have hmap : (done.map f ++ r :: rest).map (fun x => if x.id = r.id then f r else x) =
            (done ++ [r]).map f ++ rest := by
          rw [List.map_append, List.map_cons, hkept _ hdone, hkept _ hrest, if_pos rfl]
          simp
        simp only [DynamoRows.put, hrows, hid r (by simp), hmap]
      · rw [List.contains_iff_mem] at hchanged
        rw [List.map_append, List.map_singleton, hsame r List.mem_cons_self hchanged,
          List.append_assoc, List.singleton_append, ← hrows]
        rfl
    rw [List.map_cons, List.foldl_cons, hput]
    exact ih (done ++ [r]) rfl hn hid fun x hx => hsame x (List.mem_cons_of_mem _ hx)

/-- **A transaction that goes through** finds the email, the message and the recipients as they were
read, and leaves those of the plan; what it adds is left to its other items. -/
theorem transact_eq (ho : s.Ordered) (hn : s.message.recipientIds.Nodup)
    (hrows : rows.ledger.Ordered) (hw : plan.Rewrites s f) {addition : LedgerAddition}
    {items : List TransactItem} (hitems : deliveryLedgerTransaction s plan addition = .ok items)
    (h : rows.transact items = some rows') :
    rows.ledger = { s with attempts := rows.ledger.attempts } ∧
      ∃ added, additionItems s addition = .ok added ∧ (∀ item ∈ added, rows.holds item = true) ∧
        rows' = added.foldl DynamoRows.put
          { rows with ledger :=
            { plan.toDeliveryLedgerState with attempts := rows.ledger.attempts } } := by
  obtain ⟨recipients, hrecipients, hitems⟩ := bind_eq_ok.mp hitems
  obtain ⟨added, hadded, hitems⟩ := bind_eq_ok.mp hitems
  obtain ⟨_, -, hitems⟩ := bind_eq_ok.mp hitems
  obtain rfl := (pure_eq_ok _ _).mp hitems
  obtain rfl := (mapM_recipientItem ho hn hw).mp hrecipients
  unfold DynamoRows.transact at h
  split_ifs at h with hholds
  simp only [List.all_cons, List.all_append, Bool.and_eq_true, List.all_eq_true,
    DynamoRows.holds, beq_iff_eq] at hholds
  obtain ⟨hemail, hmessage, hrecipients, haddition⟩ := hholds
  have hids : (s.recipients.map (·.id)).Nodup := ho ▸ hn
  have hordered : rows.ledger.recipients.map (·.id) = s.recipients.map (·.id) := by
    rw [hrows, hmessage, ho]
  have hfound : rows.ledger.recipients = s.recipients := by
    refine recipients_eq_of_find (hordered ▸ hids) hordered.symm fun r hr => ?_
    have hitem := hrecipients _ (List.mem_map_of_mem hr)
    unfold rewriteItem at hitem
    split_ifs at hitem <;> exact beq_iff_eq.mp hitem
  have hledger : rows.ledger = { s with attempts := rows.ledger.attempts } := by
    rw [← hemail, ← hmessage, ← hfound]
  refine ⟨hledger, added, hadded, haddition, ?_⟩
  obtain rfl := Option.some.inj h
  have hput : ((rows.put (.updateEmail s.email plan.email)).put
      (.updateMessage s.message plan.message)).ledger.recipients =
        ([] : List RecipientRecord).map f ++ s.recipients := hfound
  have hfold := foldl_rewriteItem [] hput hids hw.id hw.same
  rw [List.foldl_cons, List.foldl_cons, List.foldl_append, hfold, List.nil_append, ← hw.recipients]
  rfl

end Transact

end HayaSend
