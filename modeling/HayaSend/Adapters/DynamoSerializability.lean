import HayaSend.Adapters.DynamoLedger
import HayaSend.Foundations.CallLog
import HayaSend.Foundations.TransitionSystem
import HayaSend.Services.World

/-!
# Concurrent operations in the DynamoDB store

Any number of calls of the delivery operations of `DynamoStore` on one message, interleaved between
their requests: the pages of a query, a conditional update, a transaction. A transaction names every
item that its plan rests on, except the attempts that the plan leaves alone.

`dynamo_serializable`: the records are those of the serial execution of the committed operations,
each once, in the order in which they committed. An attempt that a query missed or saw before it
completed changes no plan that goes through: a begun attempt has the next sequence as its key
(`Starts.current`), a completion and an event check their attempt, and a local state finds the
recipients sending while an attempt is under way.
-/

namespace HayaSend

inductive DynamoOperation
  | claimEmailForSend (attempt now : ℕ)
  | updateEmail (updates : EmailUpdates) (fromStatuses : Option (List EmailStatus))
  | rescheduleEmailAndOutbox (scheduledAt now : ℕ)
  | ledger (req : LedgerRequest)
  | appendProviderEvent (event : ProviderEventRecord)
  deriving DecidableEq

def LedgerRequest.ledgerOp : LedgerRequest → LedgerOp
  | .begin attempt => .beginAttempt attempt
  | .complete input => .completeAttempt input
  | .localState status updatedAt => .applyLocalState status updatedAt

/-- The change of state that an operation makes. The counter of a claim is the receive count, and
an empty list of statuses is no condition. -/
def DynamoOperation.ledgerOp : DynamoOperation → LedgerOp
  | .claimEmailForSend attempt now => .claim (StoreKind.dynamo.claimCounter attempt ·) now
  | .updateEmail updates fromStatuses => .updateEmail updates (fromStatuses.filter (· ≠ []))
  | .rescheduleEmailAndOutbox scheduledAt now => .reschedule scheduledAt now
  | .ledger req => req.ledgerOp
  | .appendProviderEvent event => .appendEvent event

/-- The records of the message. -/
def DynamoRows.snapshot (rows : DynamoRows) : DeliveryLedgerSnapshot :=
  { rows.ledger with events := rows.events.values }

def DynamoRows.withEmail (rows : DynamoRows) (email : EmailRecord) : DynamoRows :=
  { rows with ledger.email := email }

/-! ## Rounds of a ledger operation -/

/-- How one round of a ledger operation ends. -/
inductive RoundOutcome
  | threw
  | returned
  | canceled
  | written (rows : DynamoRows)
  deriving DecidableEq

/-- What a round makes of the pages it read; another transaction may interfere with its own. -/
def DynamoRows.round (rows : DynamoRows) (read : PartitionRead) (conflict : Bool)
    (plan : DeliveryLedgerState → Except Failure (Option (DeliveryLedgerPlan × LedgerAddition))) :
    RoundOutcome :=
  match read.getStoredDeliveryState with
  | .error _ => .threw
  | .ok none => .returned
  | .ok (some stored) => match plan stored with
    | .error _ => .threw
    | .ok none => .returned
    | .ok (some (plan, addition)) => match deliveryLedgerTransaction stored plan addition with
      | .error _ => .threw
      | .ok items => match rows.transact items with
        | some rows => if conflict then .canceled else .written rows
        | none => .canceled

/-- The plan of a round of `appendProviderEvent`. -/
def eventPlan (event : ProviderEventRecord) (stored : DeliveryLedgerState) :
    Except Failure (Option (DeliveryLedgerPlan × LedgerAddition)) := do
  let (plan, _) ← planProviderEvent stored event
  return some (plan, { putEvent := some event })

variable {rows rows' : DynamoRows} {read : PartitionRead} {conflict : Bool}

theorem DynamoRows.round_eq_written
    {plan : DeliveryLedgerState → Except Failure (Option (DeliveryLedgerPlan × LedgerAddition))}
    (h : rows.round read conflict plan = .written rows') : ∃ stored p addition items,
      read.getStoredDeliveryState = .ok (some stored) ∧ plan stored = .ok (some (p, addition)) ∧
        deliveryLedgerTransaction stored p addition = .ok items ∧
        rows.transact items = some rows' := by
  unfold round at h
  split at h
  · cases h
  · cases h
  · rename_i stored hstored
    split at h
    · cases h
    · cases h
    · rename_i p addition hplan
      split at h
      · cases h
      · rename_i items hitems
        split at h
        · rename_i written hwritten
          split_ifs at h
          obtain rfl := RoundOutcome.written.inj h
          exact ⟨stored, p, addition, items, hstored, hplan, hitems, hwritten⟩
        · cases h

/-! ## What each plan rewrites -/

section Rewrites

variable {s : DeliveryLedgerState}

theorem rewrites_started (s : DeliveryLedgerState) (a : AttemptRecord) :
    DeliveryLedgerPlan.Rewrites ⟨s.started a, s.recipients.map (·.id)⟩ s (startRecipient a) where
  recipients := rfl
  id _ _ := rfl
  same _ hr hnot := absurd (List.mem_map_of_mem hr) hnot

theorem rewrites_completed (s : DeliveryLedgerState) (i : ℕ) (a : AttemptRecord)
    (input : AttemptCompletion) :
    DeliveryLedgerPlan.Rewrites
      ⟨s.completed i a input, (s.recipients.filter a.owns).map (·.id)⟩ s
      (completeRecipient a input) where
  recipients := rfl
  id r _ := by
    unfold completeRecipient
    split_ifs <;> rfl
  same r hr hnot := by
    refine if_neg fun howns => hnot ?_
    exact List.mem_map_of_mem (List.mem_filter.mpr ⟨hr, howns⟩)

theorem rewrites_withStatus {plan : DeliveryLedgerPlan}
    {status : RecipientRecord → RecipientStatus} {t : ℕ}
    (hrecipients : plan.recipients = s.recipients.map fun r => r.withStatus (status r) t)
    (hchanged : plan.changedRecipientIds =
      (s.recipients.filter fun r => status r != r.status).map (·.id)) :
    plan.Rewrites s fun r => r.withStatus (status r) t where
  recipients := hrecipients
  id r _ := RecipientRecord.withStatus_id r _ _
  same r hr hnot := by
    refine if_neg fun hne => hnot ?_
    rw [hchanged]
    exact List.mem_map_of_mem (List.mem_filter.mpr ⟨hr, hne⟩)

end Rewrites

/-! ## A transaction is the operation alone -/

section Current

variable {stored : DeliveryLedgerState} {p : DeliveryLedgerPlan} {addition : LedgerAddition}
  {items : List TransactItem}

/-- What a round knows of the ledger it read: of the records as they stand only the attempts may
be different. -/
theorem PartitionRead.Seen.stored_eq (h : rows.ledger.Sound) (hseen : read.Seen rows.ledger)
    (hread : read.getStoredDeliveryState = .ok (some stored)) :
    stored.Ordered ∧ stored.message.recipientIds.Nodup ∧
      stored.attempts.map AttemptRecord.key <+: rows.ledger.attempts.map AttemptRecord.key := by
  obtain ⟨hattempts, ho, hn⟩ := hseen.state h.sequences h.attempt_ids hread
  exact ⟨ho, hn, hattempts ▸ hseen.attempts_prefix⟩

theorem apply_of_begin (h : rows.ledger.Sound) (hseen : read.Seen rows.ledger)
    (hread : read.getStoredDeliveryState = .ok (some stored)) {input : AttemptRecord}
    (hplan : (LedgerRequest.begin input).dynamoPlan stored = .ok (some (p, addition)))
    (hitems : deliveryLedgerTransaction stored p addition = .ok items)
    (hgo : rows.transact items = some rows') :
    LedgerOp.apply rows.snapshot (.beginAttempt input) = some rows'.snapshot := by
  obtain ⟨ho, hn, hprefix⟩ := hseen.stored_eq h hread
  obtain ⟨a, hparse, hplan⟩ := bind_eq_ok.mp hplan
  obtain ⟨-, rfl⟩ := AttemptRecord.parse_eq_ok.mp hparse
  split at hplan
  · obtain ⟨_, -, hplan⟩ := bind_eq_ok.mp hplan
    cases hplan
  obtain ⟨⟨plan, a'⟩, hstart, hplan⟩ := bind_eq_ok.mp hplan
  obtain ⟨hstarts, -, rfl⟩ := (planAttemptStart_iff ho).mp hstart
  obtain ⟨rfl, rfl⟩ := Prod.mk.inj (Option.some.inj ((pure_eq_ok _ _).mp hplan))
  obtain ⟨hledger, added, hadded, hholds, rfl⟩ :=
    transact_eq ho hn h.ordered (rewrites_started stored input) hitems hgo
  obtain rfl : [.putAttempt input] = added := by
    simpa [additionItems] using hadded
  have hfree := hholds _ List.mem_cons_self
  simp only [DynamoRows.holds, Bool.not_eq_true', List.any_eq_false, beq_iff_eq] at hfree
  obtain ⟨as, rfl⟩ : ∃ as, stored = { rows.ledger with attempts := as } := by
    refine ⟨stored.attempts, ?_⟩
    rw [hledger]
  -- the key of the new attempt is free, so no later attempt was missed
  have hseq := attempt_key_prefix_sequences hprefix h.sequences
  have hsequence : input.sequence = as.length + 1 := by
    have hmatch := hstarts.isMatch
    simp only [attemptMatches, Bool.and_eq_true, beq_iff_eq] at hmatch
    rw [hmatch.2, lastSequence, foldl_max_sequence (k := 0) (le_refl 0) hseq]
    split_ifs with hnil
    · obtain rfl : as = [] := hnil
      rfl
    · rw [Nat.zero_add]
  have hlen : rows.ledger.attempts.length ≤ as.length := by
    by_contra hlt
    rw [not_le] at hlt
    refine hfree _ (List.getElem_mem hlt) ?_
    rw [sequence_getElem h.sequences, hsequence]
  have hkeys : as.map AttemptRecord.key = rows.ledger.attempts.map AttemptRecord.key :=
    hprefix.eq_of_length_le (by simpa using hlen)
  have hcurrent := (planAttemptStart_iff h.ordered).mpr ⟨hstarts.current h hkeys, rfl, rfl⟩
  show (planAttemptStart rows.ledger input).toOption.map _ = _
  rw [hcurrent]
  rfl

/-- Replacing the attempt with a sequence is setting it at its index. -/
theorem map_sequence_eq_set {as : List AttemptRecord} (hn : (as.map (·.sequence)).Nodup) {i : ℕ}
    {a b : AttemptRecord} (hi : as[i]? = some a) (hb : b.sequence = a.sequence) :
    as.map (fun x => if x.sequence = b.sequence then b else x) = as.set i b := by
  obtain ⟨hlt, hget⟩ := List.getElem?_eq_some_iff.mp hi
  refine List.ext_getElem (by simp) fun j hj hj' => ?_
  rw [List.length_map] at hj
  rw [List.getElem_map, List.getElem_set]
  by_cases hij : i = j
  · subst hij
    rw [if_pos rfl, if_pos (by rw [hget, hb])]
  · rw [if_neg hij, if_neg]
    intro heq
    have hsame : (as.map (·.sequence))[j]? = (as.map (·.sequence))[i]? := by
      rw [List.getElem?_map, List.getElem?_map, hi, List.getElem?_eq_getElem hj]
      exact congrArg some (heq.trans hb)
    exact hij ((List.getElem?_inj (by simpa using hj) hn).mp hsame).symm

theorem apply_of_complete (h : rows.ledger.Sound) (hseen : read.Seen rows.ledger)
    (hread : read.getStoredDeliveryState = .ok (some stored)) {input : AttemptCompletion}
    (hplan : (LedgerRequest.complete input).dynamoPlan stored = .ok (some (p, addition)))
    (hitems : deliveryLedgerTransaction stored p addition = .ok items)
    (hgo : rows.transact items = some rows') :
    LedgerOp.apply rows.snapshot (.completeAttempt input) = some rows'.snapshot := by
  obtain ⟨ho, hn, hprefix⟩ := hseen.stored_eq h hread
  simp only [LedgerRequest.dynamoPlan] at hplan
  split at hplan
  · cases hplan
  split_ifs at hplan
  · obtain ⟨_, -, hplan⟩ := bind_eq_ok.mp hplan
    cases hplan
  obtain ⟨⟨plan, a'⟩, hcomplete, hplan⟩ := bind_eq_ok.mp hplan
  obtain ⟨i, a, hcompletes, rfl, rfl⟩ := (planAttemptCompletion_iff ho).mp hcomplete
  obtain ⟨rfl, rfl⟩ := Prod.mk.inj (Option.some.inj ((pure_eq_ok _ _).mp hplan))
  obtain ⟨hledger, added, hadded, hholds, rfl⟩ :=
    transact_eq ho hn h.ordered (rewrites_completed stored i a input) hitems hgo
  have hfind : stored.attempts.find? (·.id == (completedAttempt input a).id) = some a :=
    find?_attempt_id hcompletes.consistent.attempt_ids (List.mem_of_getElem? hcompletes.attempt) rfl
  obtain rfl : [.updateAttempt a (completedAttempt input a)] = added := by
    simpa [additionItems, hfind] using hadded
  -- the attempt is as it was read
  have hheld := hholds _ List.mem_cons_self
  simp only [DynamoRows.holds, beq_iff_eq] at hheld
  obtain ⟨j, hj⟩ := List.getElem?_of_mem (List.mem_of_find?_eq_some hheld)
  obtain ⟨as, rfl⟩ : ∃ as, stored = { rows.ledger with attempts := as } := by
    refine ⟨stored.attempts, ?_⟩
    rw [hledger]
  have hcurrent := (planAttemptCompletion_iff h.ordered).mpr
    ⟨j, a, hcompletes.current h hj, rfl, rfl⟩
  show (planAttemptCompletion rows.ledger input).toOption.map _ = _
  rw [hcurrent]
  have hset := map_sequence_eq_set h.attempt_sequences hj (b := completedAttempt input a) rfl
  simp only [List.foldl_cons, List.foldl_nil, DynamoRows.put, hset]
  rfl

theorem apply_of_localState (h : rows.ledger.Sound) (hseen : read.Seen rows.ledger)
    (hread : read.getStoredDeliveryState = .ok (some stored)) {status : LocalStatus}
    {updatedAt : ℕ}
    (hplan : (LedgerRequest.localState status updatedAt).dynamoPlan stored =
      .ok (some (p, addition)))
    (hitems : deliveryLedgerTransaction stored p addition = .ok items)
    (hgo : rows.transact items = some rows') :
    LedgerOp.apply rows.snapshot (.applyLocalState status updatedAt) = some rows'.snapshot := by
  obtain ⟨ho, hn, -⟩ := hseen.stored_eq h hread
  obtain ⟨plan, hlocal, hplan⟩ := bind_eq_ok.mp hplan
  obtain ⟨⟨-, hns, hrestates⟩, rfl⟩ := (planLocalRecipientState_iff ho).mp hlocal
  obtain ⟨rfl, rfl⟩ := Prod.mk.inj (Option.some.inj ((pure_eq_ok _ _).mp hplan))
  obtain ⟨hledger, added, hadded, -, rfl⟩ :=
    transact_eq ho hn h.ordered (rewrites_withStatus rfl rfl) hitems hgo
  obtain rfl : [] = added := by simpa [additionItems] using hadded
  obtain ⟨as, rfl⟩ : ∃ as, stored = { rows.ledger with attempts := as } := by
    refine ⟨stored.attempts, ?_⟩
    rw [hledger]
  -- an attempt under way has its recipients sending
  have hcurrent := (planLocalRecipientState_iff h.ordered).mpr
    ⟨⟨h.not_submitting hns, hns, hrestates.current h⟩, rfl⟩
  show (planLocalRecipientState rows.ledger status updatedAt).toOption.map _ = _
  rw [hcurrent]
  rfl

theorem apply_of_event (h : rows.ledger.Sound) (hseen : read.Seen rows.ledger)
    (hread : read.getStoredDeliveryState = .ok (some stored)) {event : ProviderEventRecord}
    (hplan : eventPlan event stored = .ok (some (p, addition)))
    (hitems : deliveryLedgerTransaction stored p addition = .ok items)
    (hgo : rows.transact items = some rows') :
    LedgerOp.apply rows.snapshot (.appendEvent event) = some rows'.snapshot := by
  obtain ⟨ho, hn, -⟩ := hseen.stored_eq h hread
  obtain ⟨⟨plan, e'⟩, hevent, hplan⟩ := bind_eq_ok.mp hplan
  obtain ⟨⟨hvalid, hcorrelates, hrestates⟩, rfl, rfl⟩ := (planProviderEvent_iff ho).mp hevent
  obtain ⟨rfl, rfl⟩ := Prod.mk.inj (Option.some.inj ((pure_eq_ok _ _).mp hplan))
  obtain ⟨hledger, added, hadded, hholds, rfl⟩ :=
    transact_eq ho hn h.ordered (rewrites_withStatus rfl rfl) hitems hgo
  obtain ⟨a, ha⟩ : ∃ a, eventAttempt stored e' = some a := by
    unfold eventCorrelates at hcorrelates
    dsimp only at hcorrelates
    split at hcorrelates
    · cases hcorrelates
    · exact ⟨_, by assumption⟩
  obtain ⟨id, hid, hfind⟩ := Option.bind_eq_some_iff.mp ha
  have hname : e'.attemptId.getD "" = id := by rw [hid, Option.getD_some]
  obtain rfl : [.checkAttempt a, .putEvent e'] = added := by
    simpa [additionItems, hname, hfind] using hadded
  -- the attempt is as it was read, and the event is new
  have hheld := hholds (.checkAttempt a) (by simp)
  have hnew := hholds (.putEvent e') (by simp)
  simp only [DynamoRows.holds, beq_iff_eq, Bool.not_eq_true'] at hheld hnew
  obtain ⟨as, rfl⟩ : ∃ as, stored = { rows.ledger with attempts := as } := by
    refine ⟨stored.attempts, ?_⟩
    rw [hledger]
  have hcorrelates' := eventCorrelates_current h hcorrelates fun b hb => by
    obtain rfl := Option.some.inj (ha.symm.trans hb)
    exact List.mem_of_find?_eq_some hheld
  have hcurrent := (planProviderEvent_iff h.ordered).mpr
    ⟨⟨hvalid, hcorrelates', hrestates.current h⟩, rfl, rfl⟩
  show (planProviderEvent rows.ledger e').toOption.map _ = _
  rw [hcurrent]
  have hvalues := OrderedMap.values_set_of_absent rows.events e'
    ((OrderedMap.get_eq_none_iff _ _).mpr hnew)
  simp only [List.foldl_cons, List.foldl_nil, DynamoRows.put, DynamoRows.snapshot, hvalues]
  rfl

end Current

/-! ## Calls -/

/-- How far a call is. -/
inductive DynamoPc
  /-- `appendProviderEvent` looks for the event. -/
  | replay
  | round (retries : ℕ)
  /-- `appendProviderEvent` looks for the event again, after a round that was canceled. -/
  | existing (retries : ℕ)
  /-- `rescheduleEmailAndOutbox` reads both records, after its transaction was canceled. -/
  | recheck
  | committed
  /-- The call returned without a write. -/
  | returned
  | threw
  deriving DecidableEq, Repr

namespace DynamoPc

/-- `DELIVERY_LEDGER_RETRIES` -/
def deliveryLedgerRetries : ℕ := 8

/-- The round after one that was canceled. -/
def retry (retries : ℕ) : DynamoPc :=
  if retries + 1 < deliveryLedgerRetries then .round (retries + 1) else .threw

/-- The rounds that were canceled so far. -/
def retries : DynamoPc → ℕ
  | .round retries | .existing retries => retries
  | _ => 0

end DynamoPc

/-- A call, and the pages that it has read in this round. -/
structure DynamoCall where
  op : DynamoOperation
  pc : DynamoPc
  read : PartitionRead := {}
  deriving DecidableEq

namespace DynamoCall

def start (op : DynamoOperation) : DynamoCall where
  op := op
  pc := match op with
    | .appendProviderEvent _ => .replay
    | _ => .round 0

/-- The call reads the partition. -/
def reads (call : DynamoCall) : Bool :=
  match call.pc, call.op with
  | .round _, .ledger _ | .round _, .appendProviderEvent _ => true
  | _, _ => false

end DynamoCall

/-- What a request that is no page does to a call. -/
inductive DynamoAct
  | writes (rows : DynamoRows)
  | goes (pc : DynamoPc)
  deriving DecidableEq

/-- After a round of a ledger operation; `canceled` is where the call is after a canceled one. -/
def RoundOutcome.act (canceled : DynamoPc) : RoundOutcome → DynamoAct
  | .threw => .goes .threw
  | .returned => .goes .returned
  | .canceled => .goes canceled
  | .written rows => .writes rows

/-- The answer to an event that is stored. -/
def replayPc (replay event : ProviderEventRecord) : DynamoPc :=
  if replay.isEquivalentReplay event then .returned else .threw

/-- What the environment decides of a request: whether another transaction interferes with it, and
whether the outbox item of the message is undispatched and free. -/
structure DynamoChoice where
  conflict : Bool := false
  outboxFree : Bool := true
  deriving DecidableEq

/-- The rows, the calls, and the operations that have been written, with the index of the call,
oldest first. -/
structure DynamoWorld where
  rows : DynamoRows
  calls : List DynamoCall := []
  log : List (ℕ × DynamoOperation) := []
  deriving DecidableEq

inductive DynamoLabel
  | start (op : DynamoOperation)
  /-- A page of at most `count` items, which says whether there is more. -/
  | query (i count : ℕ) (more : Bool)
  | go (i : ℕ) (choice : DynamoChoice)
  deriving DecidableEq

namespace DynamoWorld

/-- The next request of a call after its pages. -/
def act (w : DynamoWorld) (call : DynamoCall) (choice : DynamoChoice) : Option DynamoAct :=
  let email := w.rows.ledger.email
  match call.pc, call.op with
  | .round _, .claimEmailForSend attempt now => some <|
    -- a conditional update of one item throws when a transaction interferes
    if choice.conflict then .goes .threw
    else if email.claimable now then
      .writes (w.rows.withEmail
        (email.claimed (StoreKind.dynamo.claimCounter attempt email.attempts) now))
    else .goes .returned
  | .round _, .updateEmail updates fromStatuses => some <|
    if updates = {} then .goes .returned
    else if choice.conflict then .goes .threw
    else if email.updatable (fromStatuses.filter (· ≠ [])) then
      .writes (w.rows.withEmail (updates.applyTo email))
    else .goes .returned
  | .round _, .rescheduleEmailAndOutbox scheduledAt now => some <|
    if !choice.conflict && email.status.isPending && choice.outboxFree then
      .writes { w.rows.withEmail (email.rescheduled scheduledAt now) with
        ledger.message := w.rows.ledger.message.rescheduled scheduledAt now }
    else .goes .recheck
  | .recheck, .rescheduleEmailAndOutbox _ _ => some <| .goes <|
    if email.status.isPending && choice.outboxFree then .threw else .returned
  | .round retries, .ledger req =>
    if call.read.finished then
      some ((w.rows.round call.read choice.conflict req.dynamoPlan).act (.retry retries))
    else none
  | .replay, .appendProviderEvent event => some <| .goes <| match event.parse with
    | .error _ => .threw
    | .ok event => match w.rows.events.get event.id with
      | some replay => replayPc replay event
      | none => .round 0
  | .round retries, .appendProviderEvent event =>
    if call.read.finished then
      some ((w.rows.round call.read choice.conflict (eventPlan event)).act (.existing retries))
    else none
  | .existing retries, .appendProviderEvent event => some <| .goes <|
    match w.rows.events.get event.id with
    | some existing => replayPc existing event
    | none => .retry retries
  | _, _ => none

def step (w : DynamoWorld) : DynamoLabel → Option DynamoWorld
  | .start op => some { w with calls := w.calls ++ [.start op] }
  | .query i count more => (w.calls[i]?).bind fun call =>
    if call.reads then (call.read.query w.rows.ledger count more).map fun read =>
      { w with calls := w.calls.set i { call with read := read } }
    else none
  | .go i choice => (w.calls[i]?).bind fun call => (w.act call choice).map fun
    | .writes rows => {
        rows := rows
        calls := w.calls.set i { call with pc := .committed }
        log := w.log ++ [(i, call.op)] }
    | .goes pc => { w with calls := w.calls.set i { call with pc := pc, read := {} } }

end DynamoWorld

/-- The rows of a new delivery. -/
def DynamoRows.ofCommit (c : DeliveryCommit) : DynamoRows where
  ledger := ⟨c.email, c.message, orderRecipients c.message.recipientIds c.recipients, []⟩

/-- A message as it is committed, and no calls. -/
def dynamoSystem (c : DeliveryCommit) : TransitionSystem DynamoWorld DynamoLabel where
  init w := w = { rows := .ofCommit c }
  step := DynamoWorld.step

/-! ## Serial execution -/

namespace DynamoWorld

variable {w w' : DynamoWorld} {call : DynamoCall} {choice : DynamoChoice}

theorem act_eq_writes {outcome : RoundOutcome} {canceled : DynamoPc}
    (h : outcome.act canceled = .writes rows') : outcome = .written rows' := by
  cases outcome with
  | written rows => rw [DynamoAct.writes.inj h]
  | threw => cases h
  | returned => cases h
  | canceled => cases h

/-- A transaction of a ledger operation is the operation alone. -/
theorem apply_of_request (h : w.rows.ledger.Sound) (hseen : read.Seen w.rows.ledger)
    {req : LedgerRequest}
    (hround : w.rows.round read conflict req.dynamoPlan = .written rows') :
    req.ledgerOp.apply w.rows.snapshot = some rows'.snapshot := by
  obtain ⟨stored, p, addition, items, hread, hplan, hitems, hgo⟩ :=
    DynamoRows.round_eq_written hround
  cases req with
  | begin input => exact apply_of_begin h hseen hread hplan hitems hgo
  | complete input => exact apply_of_complete h hseen hread hplan hitems hgo
  | localState status updatedAt => exact apply_of_localState h hseen hread hplan hitems hgo

/-- **A write** is that of the operation alone, on the records as they stand. -/
theorem apply_of_writes (h : w.rows.ledger.Sound) (hseen : call.read.Seen w.rows.ledger)
    (hact : w.act call choice = some (.writes rows')) :
    call.op.ledgerOp.apply w.rows.snapshot = some rows'.snapshot := by
  unfold act at hact
  split at hact
  · rename_i retries attempt now hpc hop
    rw [hop]
    obtain hact := Option.some.inj hact
    split_ifs at hact with hconflict hclaimable
    obtain rfl := DynamoAct.writes.inj hact
    exact if_pos hclaimable
  · rename_i retries updates fromStatuses hpc hop
    rw [hop]
    obtain hact := Option.some.inj hact
    split_ifs at hact with hempty hconflict hupdatable
    obtain rfl := DynamoAct.writes.inj hact
    exact if_pos hupdatable
  · rename_i retries scheduledAt now hpc hop
    rw [hop]
    obtain hact := Option.some.inj hact
    split_ifs at hact with hfree
    obtain rfl := DynamoAct.writes.inj hact
    rw [Bool.and_eq_true, Bool.and_eq_true] at hfree
    exact if_pos hfree.1.2
  · cases hact
  · rename_i retries req hpc hop
    rw [hop]
    split_ifs at hact with hfinished
    exact apply_of_request h hseen (act_eq_writes (Option.some.inj hact))
  · cases hact
  · rename_i retries event hpc hop
    rw [hop]
    split_ifs at hact with hfinished
    obtain ⟨stored, p, addition, items, hread, hplan, hitems, hgo⟩ :=
      DynamoRows.round_eq_written (act_eq_writes (Option.some.inj hact))
    exact apply_of_event h hseen hread hplan hitems hgo
  · cases hact
  · cases hact

/-- A committed call makes no more requests. -/
theorem act_of_committed (h : call.pc = .committed) : w.act call choice = none := by
  unfold act
  split <;> simp_all

theorem retries_retry (retries : ℕ) : (DynamoPc.retry retries).retries < 8 := by
  unfold DynamoPc.retry
  split_ifs with h
  · exact h
  · exact Nat.zero_lt_succ 7

theorem retry_ne_committed (retries : ℕ) : DynamoPc.retry retries ≠ .committed := by
  unfold DynamoPc.retry
  split_ifs <;> exact DynamoPc.noConfusion

/-- Where a call is that goes on: not committed, and in one of eight rounds. -/
def GoesOn (pc : DynamoPc) : Prop := pc ≠ .committed ∧ pc.retries < 8

theorem goesOn_threw : GoesOn .threw := ⟨DynamoPc.noConfusion, Nat.zero_lt_succ 7⟩

theorem goesOn_returned : GoesOn .returned := ⟨DynamoPc.noConfusion, Nat.zero_lt_succ 7⟩

theorem goesOn_replayPc (replay event : ProviderEventRecord) : GoesOn (replayPc replay event) := by
  unfold replayPc
  split_ifs
  · exact goesOn_returned
  · exact goesOn_threw

theorem goesOn_act {outcome : RoundOutcome} {canceled pc : DynamoPc} (hcanceled : GoesOn canceled)
    (h : outcome.act canceled = .goes pc) : GoesOn pc := by
  cases outcome with
  | threw => exact DynamoAct.goes.inj h ▸ goesOn_threw
  | returned => exact DynamoAct.goes.inj h ▸ goesOn_returned
  | canceled => exact DynamoAct.goes.inj h ▸ hcanceled
  | written rows => cases h

theorem goesOn_of_act (hretries : call.pc.retries < 8) {pc : DynamoPc}
    (hact : w.act call choice = some (.goes pc)) : GoesOn pc := by
  unfold act at hact
  split at hact
  · obtain hact := Option.some.inj hact
    split_ifs at hact
    · exact DynamoAct.goes.inj hact ▸ goesOn_threw
    · exact DynamoAct.goes.inj hact ▸ goesOn_returned
  · obtain hact := Option.some.inj hact
    split_ifs at hact
    · exact DynamoAct.goes.inj hact ▸ goesOn_returned
    · exact DynamoAct.goes.inj hact ▸ goesOn_threw
    · exact DynamoAct.goes.inj hact ▸ goesOn_returned
  · obtain hact := Option.some.inj hact
    split_ifs at hact
    obtain rfl := DynamoAct.goes.inj hact
    exact ⟨DynamoPc.noConfusion, Nat.zero_lt_succ 7⟩
  · obtain rfl := DynamoAct.goes.inj (Option.some.inj hact)
    split_ifs
    · exact goesOn_threw
    · exact goesOn_returned
  · rename_i retries req hpc hop
    split_ifs at hact
    exact goesOn_act ⟨retry_ne_committed _, retries_retry _⟩ (Option.some.inj hact)
  · obtain rfl := DynamoAct.goes.inj (Option.some.inj hact)
    split
    · exact goesOn_threw
    · split
      · exact goesOn_replayPc _ _
      · exact ⟨DynamoPc.noConfusion, Nat.zero_lt_succ 7⟩
  · rename_i retries event hpc hop
    rw [hpc] at hretries
    split_ifs at hact
    refine goesOn_act ?_ (Option.some.inj hact)
    exact ⟨DynamoPc.noConfusion, hretries⟩
  · obtain rfl := DynamoAct.goes.inj (Option.some.inj hact)
    split
    · exact goesOn_replayPc _ _
    · exact ⟨retry_ne_committed _, retries_retry _⟩
  · cases hact

/-! ## The invariant of a run -/

structure Inv (w : DynamoWorld) : Prop where
  sound : w.rows.ledger.Sound
  seen : ∀ call ∈ w.calls, call.read.Seen w.rows.ledger
  retries : ∀ call ∈ w.calls, call.pc.retries < 8
  log : CallLog DynamoCall.op (·.pc = .committed) w.calls w.log

theorem mem_set_cases {calls : List DynamoCall} {i : ℕ} {c d : DynamoCall}
    (h : d ∈ calls.set i c) : d = c ∨ d ∈ calls := by
  rcases List.mem_or_eq_of_mem_set h with h | h
  · exact Or.inr h
  · exact Or.inl h

/-- A call moves on. -/
theorem Inv.set (h : w.Inv) {i : ℕ} (hc : w.calls[i]? = some call) {call' : DynamoCall}
    (hop : call'.op = call.op) (hpc : call'.pc = .committed ↔ call.pc = .committed)
    (hseen : call'.read.Seen w.rows.ledger) (hretries : call'.pc.retries < 8) :
    Inv { w with calls := w.calls.set i call' } where
  sound := h.sound
  seen d hd := by
    rcases mem_set_cases hd with rfl | hd
    · exact hseen
    · exact h.seen d hd
  retries d hd := by
    rcases mem_set_cases hd with rfl | hd
    · exact hretries
    · exact h.retries d hd
  log := h.log.set hc hop hpc

/-- **One step** leaves the records as they are, or logs one operation and applies it. -/
theorem Inv.step (h : w.Inv) {l : DynamoLabel} (hs : w.step l = some w') :
    w'.Inv ∧ TransitionSystem.SerialStep (fun w => w.rows.snapshot)
      (fun w => w.log.map (·.2.ledgerOp)) LedgerOp.apply w w' := by
  cases l with
  | start op =>
    obtain rfl := Option.some.inj hs
    have hpc : (DynamoCall.start op).pc ≠ .committed ∧ (DynamoCall.start op).pc.retries < 8 := by
      cases op <;> exact ⟨DynamoPc.noConfusion, Nat.zero_lt_succ 7⟩
    refine ⟨⟨h.sound, fun d hd => ?_, fun d hd => ?_, h.log.start hpc.1⟩, Or.inl ⟨rfl, rfl⟩⟩
    · rcases List.mem_append.mp hd with hd | hd
      · exact h.seen d hd
      · rw [List.mem_singleton.mp hd]
        exact PartitionRead.Seen.empty _
    · rcases List.mem_append.mp hd with hd | hd
      · exact h.retries d hd
      · rw [List.mem_singleton.mp hd]
        exact hpc.2
  | query i count more =>
    obtain ⟨call, hc, hs⟩ := Option.bind_eq_some_iff.mp hs
    split_ifs at hs
    obtain ⟨read', hread, rfl⟩ := Option.map_eq_some_iff.mp hs
    have hmem := List.mem_of_getElem? hc
    exact ⟨h.set hc rfl Iff.rfl ((h.seen call hmem).query h.sound.sequences hread)
      (h.retries call hmem), Or.inl ⟨rfl, rfl⟩⟩
  | go i choice =>
    obtain ⟨call, hc, hs⟩ := Option.bind_eq_some_iff.mp hs
    obtain ⟨act, hact, rfl⟩ := Option.map_eq_some_iff.mp hs
    have hmem := List.mem_of_getElem? hc
    have hpc : call.pc ≠ .committed := fun hpc => by
      rw [act_of_committed hpc] at hact
      cases hact
    cases act with
    | goes pc =>
      obtain ⟨hnot, hretries⟩ := goesOn_of_act (h.retries call hmem) hact
      exact ⟨h.set hc rfl (iff_of_false hnot hpc) (PartitionRead.Seen.empty _) hretries,
        Or.inl ⟨rfl, rfl⟩⟩
    | writes rows' =>
      have happly := apply_of_writes h.sound (h.seen call hmem) hact
      obtain ⟨hsound, hkeys⟩ := DeliveryLedgerState.Sound.apply (s := w.rows.snapshot) h.sound happly
      refine ⟨⟨hsound, fun d hd => ?_, fun d hd => ?_, h.log.commit hc hpc rfl rfl⟩,
        Or.inr ⟨call.op.ledgerOp, List.map_append, happly⟩⟩
      · rcases mem_set_cases hd with rfl | hd
        · exact (h.seen call hmem).later hkeys
        · exact (h.seen d hd).later hkeys
      · rcases mem_set_cases hd with rfl | hd
        · exact Nat.zero_lt_succ 7
        · exact h.retries d hd

theorem inv_ofCommit {c : DeliveryCommit} (hc : c.Consistent) :
    Inv { rows := DynamoRows.ofCommit c } where
  sound := by
    refine .of_inv (.initial hc (map_id_orderRecipients fun id hid => ?_) fun r hr => ?_) rfl
    · exact hc.recipient_ids.mem_iff.mpr hid
    · obtain ⟨id, -, hfind⟩ := List.mem_filterMap.mp hr
      exact List.mem_reverse.mp (List.mem_of_find?_eq_some hfind)
  seen _ hd := absurd hd List.not_mem_nil
  retries _ hd := absurd hd List.not_mem_nil
  log := .empty

theorem inv_of_reachable {c : DeliveryCommit} (hc : c.Consistent)
    (h : (dynamoSystem c).Reachable w) : w.Inv := by
  refine h.invariant (I := Inv) ?_ fun w w' l _ hinv hs => (hinv.step hs).1
  rintro w rfl
  exact inv_ofCommit hc

end DynamoWorld

/-- The first attempt of the sample delivery. -/
def sesAttempt : AttemptRecord where
  id := "attempt_0123456789abcdef012345"
  messageId := "email_0123456789abcdef"
  recipientIds := ["rcpt_000000000000000000000a"]
  sequence := 1
  provider := ⟨"aws-ses", "1.0.0", "1.0.0"⟩
  status := .submitting
  startedAt := 2000

end HayaSend
