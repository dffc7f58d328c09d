import HayaSend.Adapters.PostgresTransactions

/-!
# The ledgers in the PostgreSQL store

What a transaction of `PostgresDeliveryStore` makes of the ledger of each message. `applied`: alone,
it is the operation of the planners on the ledger of its message, and it leaves the other ledgers as
they are. By the order of the commits this carries over to any run: `postgres_ledgers`.
-/

namespace HayaSend

open RowProgram

/-! ## The ledger of a message -/

/-- The ledger in the rows of a message; the events in the order in which they were stored. -/
def DeliveryRows.ledger (rows : DeliveryRows) (messageId : String) :
    Option DeliveryLedgerSnapshot :=
  match rows (.email messageId), rows (.message messageId) with
  | some email, some message =>
    (message.recipientIds.mapM (rows (.recipients messageId)).get).map fun recipients => {
      email := email
      message := message
      recipients := recipients
      attempts := (rows (.attempts messageId)).insertionSort attemptOrder
      events := rows (.events messageId) }
  | _, _ => none

/-- The ledger of a new delivery: the recipients in the order of the message. -/
def DeliveryCommit.ledger (c : DeliveryCommit) : Option DeliveryLedgerSnapshot :=
  (c.message.recipientIds.mapM (OrderedMap.setAll (·.id) ∅ c.recipients).get).map fun recipients => {
    email := c.email
    message := c.message
    recipients := recipients
    attempts := []
    events := [] }

namespace PostgresOperation

/-- The change of a ledger that an operation makes, and the message. -/
def ledgerOp : PostgresOperation → Option (String × LedgerOp)
  | beginDeliveryAttempt attempt => some (attempt.messageId, .beginAttempt attempt)
  | completeDeliveryAttempt input => some (input.messageId, .completeAttempt input)
  | applyLocalDeliveryState messageId status updatedAt =>
    some (messageId, .applyLocalState status updatedAt)
  | appendProviderEvent event => some (event.messageId, .appendEvent event)
  | claimEmailForSend emailId attempt now =>
    some (emailId, .claim (StoreKind.postgres.claimCounter attempt ·) now)
  | updateEmail emailId updates fromStatuses => some (emailId, .updateEmail updates fromStatuses)
  | rescheduleEmailAndOutbox emailId scheduledAt now =>
    some (emailId, .reschedule scheduledAt now)
  | commitDelivery _ _ | leaseDueOutbox _ _ | acknowledgeOutbox _ _ _
  | recordOutboxFailure _ _ _ _ => none

/-- The ledger of a message after an operation that committed. -/
def ledgerAfter (messageId : String) (s : Option DeliveryLedgerSnapshot) (op : PostgresOperation) :
    Option DeliveryLedgerSnapshot :=
  match op, op.ledgerOp with
  | commitDelivery c _, _ => if c.message.id = messageId then c.ledger else s
  | _, some (id, change) => if id = messageId then s.bind change.apply else s
  | _, none => s

end PostgresOperation

namespace DeliveryRows

variable {rows rows' : DeliveryRows} {messageId : String} {s : DeliveryLedgerSnapshot}

theorem ledger_eq_some : rows.ledger messageId = some s ↔
    rows (.email messageId) = some s.email ∧ rows (.message messageId) = some s.message ∧
      s.message.recipientIds.mapM (rows (.recipients messageId)).get = some s.recipients ∧
      (rows (.attempts messageId)).insertionSort attemptOrder = s.attempts ∧
      rows (.events messageId) = s.events := by
  unfold ledger
  constructor
  · intro h
    split at h
    · rename_i email message hemail hmessage
      obtain ⟨recipients, hrecipients, rfl⟩ := Option.map_eq_some_iff.mp h
      exact ⟨hemail, hmessage, hrecipients, rfl, rfl⟩
    · cases h
  · rintro ⟨hemail, hmessage, hrecipients, hattempts, hevents⟩
    rw [hemail, hmessage]
    dsimp only
    rw [hrecipients, Option.map_some, hattempts, hevents]

/-- The rows of the other messages are as before. -/
structure SameElsewhere (messageId : String) (rows rows' : DeliveryRows) : Prop where
  email : ∀ id, id ≠ messageId → rows' (.email id) = rows (.email id)
  message : ∀ id, id ≠ messageId → rows' (.message id) = rows (.message id)
  recipients : ∀ id, id ≠ messageId → rows' (.recipients id) = rows (.recipients id)
  attempts : ∀ id, id ≠ messageId → rows' (.attempts id) = rows (.attempts id)
  events : ∀ id, id ≠ messageId → rows' (.events id) = rows (.events id)

theorem SameElsewhere.ledger (h : SameElsewhere messageId rows rows') {id : String}
    (hid : id ≠ messageId) : rows'.ledger id = rows.ledger id := by
  unfold DeliveryRows.ledger
  rw [h.email id hid, h.message id hid, h.recipients id hid, h.attempts id hid, h.events id hid]

/-- The invariant: every row is under its id, a message has a ledger in order, with the attempts in
the order of their sequence, and attempts and events belong to a message. -/
structure Kept (rows : DeliveryRows) : Prop where
  email_id : ∀ id e, rows (.email id) = some e → e.id = id
  message_id : ∀ id m, rows (.message id) = some m → m.id = id
  recipient_id : ∀ id k r, (rows (.recipients id)).get k = some r → r.id = k
  sound : ∀ id m, rows (.message id) = some m →
    ∃ s : DeliveryLedgerSnapshot, rows.ledger id = some s ∧ rows (.attempts id) = s.attempts ∧ s.Sound
  absent : ∀ id, rows (.message id) = none → rows (.attempts id) = [] ∧ rows (.events id) = []

theorem kept_empty : Kept DeliveryRows.empty where
  email_id _ _ h := by cases h
  message_id _ _ h := by cases h
  recipient_id _ _ _ h := by cases h
  sound _ _ h := by cases h
  absent _ _ := ⟨rfl, rfl⟩

/-- A transaction on one message. -/
theorem Kept.of_sameElsewhere (h : rows.Kept) (hsame : SameElsewhere messageId rows rows')
    (hemail : ∀ e, rows' (.email messageId) = some e → e.id = messageId)
    (hrecipient : ∀ k r, (rows' (.recipients messageId)).get k = some r → r.id = k)
    (hmessage : ∀ m, rows' (.message messageId) = some m → m.id = messageId ∧
      ∃ s : DeliveryLedgerSnapshot, rows'.ledger messageId = some s ∧
        rows' (.attempts messageId) = s.attempts ∧ s.Sound)
    (habsent : rows' (.message messageId) = none →
      rows' (.attempts messageId) = [] ∧ rows' (.events messageId) = []) : rows'.Kept where
  email_id id e he := by
    by_cases hid : id = messageId
    · subst hid
      exact hemail e he
    · exact h.email_id id e (hsame.email id hid ▸ he)
  message_id id m hm := by
    by_cases hid : id = messageId
    · subst hid
      exact (hmessage m hm).1
    · exact h.message_id id m (hsame.message id hid ▸ hm)
  recipient_id id k r hr := by
    by_cases hid : id = messageId
    · subst hid
      exact hrecipient k r hr
    · exact h.recipient_id id k r (hsame.recipients id hid ▸ hr)
  sound id m hm := by
    by_cases hid : id = messageId
    · subst hid
      exact (hmessage m hm).2
    · rw [hsame.ledger hid, hsame.attempts id hid]
      exact h.sound id m (hsame.message id hid ▸ hm)
  absent id hm := by
    by_cases hid : id = messageId
    · subst hid
      exact habsent hm
    · rw [hsame.attempts id hid, hsame.events id hid]
      exact h.absent id (hsame.message id hid ▸ hm)

/-! ## Recipients -/

theorem get_updateRecipients_of_notMem {recipientRows : OrderedMap String RecipientRecord}
    {recipients : List RecipientRecord} {k : String} (h : k ∉ recipients.map (·.id)) :
    (PostgresProgram.updateRecipients messageId recipientRows recipients).get k =
      recipientRows.get k := by
  unfold PostgresProgram.updateRecipients
  induction recipients generalizing recipientRows with
  | nil => rfl
  | cons r rs ih =>
    simp only [List.map_cons, List.mem_cons, not_or] at h
    rw [List.foldl_cons, ih h.2, OrderedMap.get_updateWhere]
    simp [h.1]

theorem get_updateRecipients_of_mem {recipientRows : OrderedMap String RecipientRecord}
    {recipients : List RecipientRecord} (hn : (recipients.map (·.id)).Nodup) {r : RecipientRecord}
    (hr : r ∈ recipients) (hmessage : r.messageId = messageId)
    (hrow : ∃ row, recipientRows.get r.id = some row) :
    (PostgresProgram.updateRecipients messageId recipientRows recipients).get r.id = some r := by
  induction recipients generalizing recipientRows with
  | nil => cases hr
  | cons r' rs ih =>
    obtain ⟨hr', hn⟩ := List.nodup_cons.mp hn
    obtain ⟨row, hrow⟩ := hrow
    rcases List.mem_cons.mp hr with rfl | hr
    · refine (get_updateRecipients_of_notMem hr').trans ?_
      rw [OrderedMap.get_updateWhere, hrow]
      simp [hmessage]
    · refine ih hn hr ?_
      rw [OrderedMap.get_updateWhere, hrow]
      exact ⟨_, rfl⟩

/-- The recipients of a plan are those that are read after it was written. -/
theorem mapM_updateRecipients {recipientRows : OrderedMap String RecipientRecord}
    {recipients old : List RecipientRecord} {ids : List String} (hn : ids.Nodup)
    (hids : recipients.map (·.id) = ids) (hmessage : ∀ r ∈ recipients, r.messageId = messageId)
    (hrows : ids.mapM recipientRows.get = some old) :
    ids.mapM (PostgresProgram.updateRecipients messageId recipientRows recipients).get =
      some recipients := by
  subst hids
  rw [mapM_eq_some, List.map_map]
  refine List.map_congr_left fun r hr => ?_
  refine get_updateRecipients_of_mem hn hr (hmessage r hr) ?_
  have hmem : recipientRows.get r.id ∈ old.map some := by
    rw [← mapM_eq_some.mp hrows]
    exact List.mem_map_of_mem (List.mem_map_of_mem hr)
  obtain ⟨row, -, hrow⟩ := List.mem_map.mp hmem
  exact ⟨row, hrow.symm⟩

theorem id_of_get_updateRecipients {recipientRows : OrderedMap String RecipientRecord}
    {recipients : List RecipientRecord}
    (h : ∀ k r, recipientRows.get k = some r → r.id = k) {k : String} {r : RecipientRecord}
    (hr : (PostgresProgram.updateRecipients messageId recipientRows recipients).get k = some r) :
    r.id = k := by
  induction recipients generalizing recipientRows with
  | nil => exact h k r hr
  | cons r' rs ih =>
    refine ih (fun k' row hrow => ?_) hr
    rw [OrderedMap.get_updateWhere] at hrow
    obtain ⟨row', hrow', rfl⟩ := Option.map_eq_some_iff.mp hrow
    split_ifs with hwhere
    · rw [Bool.and_eq_true, beq_iff_eq] at hwhere
      exact hwhere.1.symm
    · exact h k' row' hrow'

/-- The map by id of rows that are under their ids. -/
theorem get_ofList_values {recipientRows : OrderedMap String RecipientRecord}
    (h : ∀ k r, recipientRows.get k = some r → r.id = k) :
    (OrderedMap.ofList (recipientRows.values.map fun r => (r.id, r))) = recipientRows := by
  have hkeys := OrderedMap.map_values_eq_keys h
  refine OrderedMap.ext_entries ?_
  rw [OrderedMap.entries_ofList]
  · rw [OrderedMap.values, List.map_map]
    refine (List.map_congr_left fun e he => ?_).trans (List.map_id _)
    exact Prod.ext (h e.1 e.2 ((OrderedMap.get_eq_some_iff _ _ _).mpr he)) rfl
  · rw [List.map_map]
    show (recipientRows.values.map (·.id)).Nodup
    rw [hkeys]
    exact recipientRows.nodup

/-- What a ledger operation reads is the ledger of the message. -/
theorem Kept.ledger_of_stored (h : rows.Kept) {email : EmailRecord} {message : MessageRecord}
    {stored : DeliveryLedgerState} (hemail : rows (.email messageId) = some email)
    (hmessage : rows (.message messageId) = some message)
    (hstored : PostgresProgram.storedLedgerState email message (rows (.recipients messageId))
      (rows (.attempts messageId)) = .ok (some stored)) :
    rows.ledger messageId = some { stored with events := rows (.events messageId) } := by
  obtain ⟨parsed, hparsed, hstored⟩ := bind_eq_ok.mp hstored
  obtain ⟨-, rfl⟩ := MessageRecord.parse_eq_ok.mp hparsed
  obtain ⟨recipients, hrecipients, hstored⟩ := bind_eq_ok.mp hstored
  obtain ⟨-, rfl⟩ := mapM_parse_eq_ok.mp hrecipients
  dsimp only at hstored
  rw [get_ofList_values (h.recipient_id messageId)] at hstored
  split at hstored
  · cases hstored
  · rename_i ordered hordered
    obtain ⟨attempts, hattempts, hstored⟩ := bind_eq_ok.mp hstored
    obtain ⟨-, rfl⟩ := mapM_attempt_parse_eq_ok.mp hattempts
    obtain rfl := Option.some.inj ((pure_eq_ok _ _).mp hstored)
    exact ledger_eq_some.mpr ⟨hemail, hmessage, hordered, rfl, rfl⟩

end DeliveryRows

/-! ## Operations on a ledger -/

/-- No operation changes the identities of a message. -/
theorem LedgerOp.message_of_apply {s s' : DeliveryLedgerSnapshot} (h : s.Sound) {op : LedgerOp}
    (ha : op.apply s = some s') :
    s'.message.id = s.message.id ∧ s'.message.recipientIds = s.message.recipientIds := by
  cases op with
  | beginAttempt a =>
    obtain ⟨⟨p, a'⟩, hplan, rfl⟩ := Option.map_eq_some_iff.mp ha
    obtain ⟨-, -, rfl⟩ := (planAttemptStart_iff h.ordered).mp (toOption_eq_some.mp hplan)
    exact ⟨rfl, rfl⟩
  | completeAttempt input =>
    obtain ⟨⟨p, a'⟩, hplan, rfl⟩ := Option.map_eq_some_iff.mp ha
    obtain ⟨i, a, -, -, rfl⟩ :=
      (planAttemptCompletion_iff h.ordered).mp (toOption_eq_some.mp hplan)
    exact ⟨rfl, rfl⟩
  | appendEvent e =>
    obtain ⟨⟨p, e'⟩, hplan, rfl⟩ := Option.map_eq_some_iff.mp ha
    obtain ⟨-, -, rfl⟩ := (planProviderEvent_iff h.ordered).mp (toOption_eq_some.mp hplan)
    exact ⟨rfl, rfl⟩
  | applyLocalState status t =>
    obtain ⟨p, hplan, rfl⟩ := Option.map_eq_some_iff.mp ha
    obtain ⟨-, rfl⟩ := (planLocalRecipientState_iff h.ordered).mp (toOption_eq_some.mp hplan)
    exact ⟨rfl, rfl⟩
  | claim attempts now =>
    simp only [LedgerOp.apply, Option.ite_none_right_eq_some, Option.some.injEq] at ha
    obtain ⟨-, rfl⟩ := ha
    exact ⟨rfl, rfl⟩
  | updateEmail updates fromStatuses =>
    simp only [LedgerOp.apply, Option.ite_none_right_eq_some, Option.some.injEq] at ha
    obtain ⟨-, rfl⟩ := ha
    exact ⟨rfl, rfl⟩
  | reschedule t now =>
    simp only [LedgerOp.apply, Option.ite_none_right_eq_some, Option.some.injEq] at ha
    obtain ⟨-, rfl⟩ := ha
    exact ⟨rfl, rfl⟩

/-- A planned request is the operation of the planner: the ledger after it is the plan, with the
events as they were. -/
theorem LedgerRequest.apply_of_plan {s : DeliveryLedgerState} {events : List ProviderEventRecord}
    {req : LedgerRequest} {planned : PlannedWrite} (h : req.plan s = .ok (some planned)) :
    req.ledgerOp.apply { s with events := events } =
      some { planned.plan with events := events } := by
  cases req with
  | begin input =>
    obtain ⟨attempt, hparse, h⟩ := bind_eq_ok.mp h
    obtain ⟨-, rfl⟩ := AttemptRecord.parse_eq_ok.mp hparse
    split at h
    · obtain ⟨_, -, h⟩ := bind_eq_ok.mp h
      cases h
    · obtain ⟨⟨plan, a'⟩, hplan, h⟩ := bind_eq_ok.mp h
      obtain rfl := Option.some.inj ((pure_eq_ok _ _).mp h)
      exact congrArg (Option.map _) (toOption_eq_some.mpr hplan)
  | complete input =>
    simp only [plan] at h
    split at h
    · cases h
    · split_ifs at h
      · obtain ⟨_, -, h⟩ := bind_eq_ok.mp h
        cases h
      · obtain ⟨⟨plan, a'⟩, hplan, h⟩ := bind_eq_ok.mp h
        obtain rfl := Option.some.inj ((pure_eq_ok _ _).mp h)
        exact congrArg (Option.map _) (toOption_eq_some.mpr hplan)
  | localState status updatedAt =>
    obtain ⟨plan, hplan, h⟩ := bind_eq_ok.mp h
    obtain rfl := Option.some.inj ((pure_eq_ok _ _).mp h)
    exact congrArg (Option.map _) (toOption_eq_some.mpr hplan)

/-- The attempts of the message after a planned request. -/
def PlannedWrite.writeAttempts (planned : PlannedWrite) (messageId : String)
    (rows : List AttemptRecord) : List AttemptRecord :=
  match planned.putAttempt, planned.updateAttempt with
  | some attempt, _ => rows ++ [attempt]
  | none, some attempt => rows.map fun b =>
    if b.id = attempt.id ∧ attempt.messageId = messageId then attempt else b
  | none, none => rows

theorem LedgerRequest.attempts_of_plan {s : DeliveryLedgerState} (h : s.Sound)
    {req : LedgerRequest} {planned : PlannedWrite} (hplan : req.plan s = .ok (some planned)) :
    planned.writeAttempts s.message.id s.attempts = planned.plan.attempts := by
  have hplanned := LedgerRequest.planned h.ordered hplan
  cases hplanned with
  | begin a hm hq => rfl
  | complete i a input hi hid hst =>
    have hmessage : (completedAttempt input a).messageId = s.message.id :=
      h.inv.attempt_message a (List.mem_of_getElem? hi)
    simp only [PlannedWrite.writeAttempts, hmessage, and_true]
    show (s.attempts.map fun b => if b.id = a.id then completedAttempt input a else b) =
      s.attempts.set i (completedAttempt input a)
    exact map_replace_eq_set h.attempt_ids hi
  | localState status updatedAt hno hns => rfl

namespace DeliveryRows

variable {rows rows' : DeliveryRows} {messageId : String} {s s' : DeliveryLedgerSnapshot}

/-- **A transaction that is an operation on the ledger of its message**, and leaves the rest. -/
theorem Kept.ledgerOp (h : rows.Kept) (hs : rows.ledger messageId = some s) {change : LedgerOp}
    (hchange : change.apply s = some s') (hsame : SameElsewhere messageId rows rows')
    (hs' : rows'.ledger messageId = some s') (hattempts : rows' (.attempts messageId) = s'.attempts)
    (hrecipient : ∀ k r, (rows' (.recipients messageId)).get k = some r → r.id = k) :
    rows'.Kept ∧ ∀ id, rows'.ledger id =
      if messageId = id then (rows.ledger id).bind change.apply else rows.ledger id := by
  obtain ⟨hemail, hmessage, -⟩ := ledger_eq_some.mp hs
  obtain ⟨hemail', hmessage', -⟩ := ledger_eq_some.mp hs'
  obtain ⟨s₀, hs₀, -, hsound⟩ := h.sound messageId _ hmessage
  obtain rfl := Option.some.inj (hs.symm.trans hs₀)
  obtain ⟨hid, hids⟩ := LedgerOp.message_of_apply hsound hchange
  have hsound' := (hsound.apply hchange).1
  have hid' : s'.message.id = messageId := hid.trans (h.message_id _ _ hmessage)
  refine ⟨h.of_sameElsewhere hsame ?_ hrecipient ?_ ?_, fun id => ?_⟩
  · intro e he
    obtain rfl := Option.some.inj (hemail'.symm.trans he)
    exact hsound'.inv.email_id.trans hid'
  · intro m hm
    obtain rfl := Option.some.inj (hmessage'.symm.trans hm)
    exact ⟨hid', s', hs', hattempts, hsound'⟩
  · intro hm
    rw [hmessage'] at hm
    cases hm
  · split_ifs with hid
    · subst hid
      rw [hs', hs, Option.bind_some, hchange]
    · exact hsame.ledger (Ne.symm hid)

/-! ## Ledger transactions -/

theorem run_getStoredLedgerState {next : DeliveryLedgerState → PostgresProgram}
    {ws : List ((row : DeliveryRow) × row.Value)} (hne : ws ≠ [])
    (hrun : (PostgresProgram.getStoredLedgerState messageId next).run rows [] = some ws) :
    ∃ email message stored, rows (.email messageId) = some email ∧
      rows (.message messageId) = some message ∧
      PostgresProgram.storedLedgerState email message (rows (.recipients messageId))
        (rows (.attempts messageId)) = .ok (some stored) ∧ (next stored).run rows [] = some ws := by
  rw [PostgresProgram.getStoredLedgerState, run_selectForUpdate] at hrun
  split at hrun
  · exact absurd (Option.some.inj hrun).symm hne
  · rename_i email hemail
    rw [run_selectForUpdate] at hrun
    split at hrun
    · exact absurd (Option.some.inj hrun).symm hne
    · rename_i message hmessage
      rw [run, run] at hrun
      simp only [view_nil] at hrun
      split at hrun
      · cases hrun
      · exact absurd (Option.some.inj hrun).symm hne
      · rename_i stored hstored
        exact ⟨email, message, stored, hemail, hmessage, hstored, hrun⟩

/-- The rows of a message after a plan and its attempts and events. -/
theorem Kept.ledger_of_plan (h : rows.Kept) (hs : rows.ledger messageId = some s)
    {plan : DeliveryLedgerState} {change : LedgerOp} {events : List ProviderEventRecord}
    (hchange : change.apply s = some { plan with events := events })
    (hemail : rows' (.email messageId) = some plan.email)
    (hmessage : rows' (.message messageId) = some plan.message)
    (hrecipients : rows' (.recipients messageId) =
      PostgresProgram.updateRecipients messageId (rows (.recipients messageId)) plan.recipients)
    (hattempts : rows' (.attempts messageId) = plan.attempts)
    (hevents : rows' (.events messageId) = events) (hsame : SameElsewhere messageId rows rows') :
    rows'.Kept ∧ ∀ id, rows'.ledger id =
      if messageId = id then (rows.ledger id).bind change.apply else rows.ledger id := by
  obtain ⟨-, hm, hrows, -⟩ := ledger_eq_some.mp hs
  obtain ⟨s₀, hs₀, -, hsound⟩ := h.sound messageId _ hm
  obtain rfl := Option.some.inj (hs.symm.trans hs₀)
  obtain ⟨hid, hids⟩ := LedgerOp.message_of_apply hsound hchange
  have hsound' : plan.Sound := (hsound.apply hchange).1
  have hid' : plan.message.id = messageId := hid.trans (h.message_id _ _ hm)
  refine h.ledgerOp hs hchange hsame (ledger_eq_some.mpr ⟨hemail, hmessage, ?_, ?_, hevents⟩)
    hattempts ?_
  · rw [hrecipients]
    rw [← hids] at hrows
    exact mapM_updateRecipients hsound'.inv.recipient_ids_nodup hsound'.ordered
      (fun r hr => (hsound'.inv.recipient_message r hr).trans hid') hrows
  · rw [hattempts]
    exact MemoryStore.insertionSort_attemptOrder hsound'.sequences
  · intro k r hr
    rw [hrecipients] at hr
    exact id_of_get_updateRecipients (h.recipient_id messageId) hr

end DeliveryRows

/-- A row of a ledger; the others are entries of indexes and the rows of the outbox. -/
def DeliveryRow.IsLedger : DeliveryRow → Prop
  | .email _ | .message _ | .recipients _ | .attempts _ | .events _ => True
  | _ => False

namespace PostgresProgram

variable {rows : DeliveryRows} {messageId : String} {next : PostgresProgram}
  {ws out : List ((row : DeliveryRow) × row.Value)}

/-- The rows that `applyLedgerPlan` writes. -/
def planWrites (rows : DeliveryRows) (messageId : String) (plan : DeliveryLedgerState) :
    List ((row : DeliveryRow) × row.Value) :=
  [⟨.recipients messageId, updateRecipients messageId (rows (.recipients messageId)) plan.recipients⟩,
    ⟨.message plan.message.id, (rows (.message plan.message.id)).map fun _ => plan.message⟩,
    ⟨.email plan.email.id, (rows (.email plan.email.id)).map fun _ => plan.email⟩]

theorem run_applyLedgerPlan {rows : DeliveryRows} {plan : DeliveryLedgerState} :
    (applyLedgerPlan messageId plan next).run rows [] =
      next.run rows (planWrites rows messageId plan) := by
  simp only [applyLedgerPlan, writeEmail, writeMessage, run_update, run, view_cons, view_nil,
    planWrites, ne_eq, reduceCtorEq, not_false_eq_true, Function.update_of_ne]

/-- Further writes, none of which is of a ledger. -/
def Beside (ws out : List ((row : DeliveryRow) × row.Value)) : Prop :=
  ∃ more, out = more ++ ws ∧ ∀ w ∈ more, ¬w.1.IsLedger

theorem Beside.refl : Beside ws ws := ⟨[], rfl, fun _ hmem => absurd hmem List.not_mem_nil⟩

theorem Beside.cons {w : (row : DeliveryRow) × row.Value} (h : Beside ws out)
    (hw : ¬w.1.IsLedger) : Beside ws (w :: out) := by
  obtain ⟨more, rfl, hmore⟩ := h
  exact ⟨w :: more, rfl, List.forall_mem_cons.mpr ⟨hw, hmore⟩⟩

theorem Beside.view (h : Beside ws out) (row : DeliveryRow) (hrow : row.IsLedger) :
    view rows out row = view rows ws row := by
  obtain ⟨more, rfl, hmore⟩ := h
  induction more with
  | nil => rfl
  | cons w more ih =>
    obtain ⟨hw, hmore⟩ := List.forall_mem_cons.mp hmore
    have hne : row ≠ w.1 := fun heq => hw (heq ▸ hrow)
    rw [List.cons_append, view_cons, Function.update_of_ne hne, ih hmore]

theorem run_indexProviderMessage {attempt : AttemptRecord}
    (h : (indexProviderMessage attempt next).run rows ws = some out) :
    ∃ ws', Beside ws ws' ∧ next.run rows ws' = some out := by
  unfold indexProviderMessage at h
  split at h
  · exact ⟨ws, .refl, h⟩
  · rw [run_insert] at h
    split_ifs at h
    exact ⟨_, Beside.refl.cons id, h⟩

theorem run_insertAttempt {attempt : AttemptRecord}
    (h : (insertAttempt messageId attempt .commit).run rows ws = some out) :
    ∃ ws', Beside ws ws' ∧ out = ⟨.attempts messageId,
      view rows ws (.attempts messageId) ++ [attempt]⟩ :: ws' := by
  rw [insertAttempt, run_insert] at h
  split_ifs at h
  obtain ⟨ws', ⟨more, rfl, hmore⟩, h⟩ := run_indexProviderMessage h
  have hbeside : Beside ws (more ++ (⟨.attemptId attempt.id, some messageId⟩ :: ws)) := by
    refine ⟨more ++ [⟨.attemptId attempt.id, some messageId⟩], by simp, fun w hw => ?_⟩
    rcases List.mem_append.mp hw with hw | hw
    · exact hmore w hw
    · rw [List.mem_singleton.mp hw]
      exact id
  have hview : view rows (more ++ (⟨.attemptId attempt.id, some messageId⟩ :: ws))
      (.attempts messageId) = view rows ws (.attempts messageId) := hbeside.view _ trivial
  rw [run, hview] at h
  split_ifs at h
  · cases h
  · exact ⟨_, hbeside, (Option.some.inj h).symm⟩

theorem run_releaseProviderMessage {old : AttemptRecord}
    (h : (releaseProviderMessage old next).run rows ws = some out) :
    ∃ ws', Beside ws ws' ∧ next.run rows ws' = some out := by
  unfold releaseProviderMessage at h
  split at h
  · exact ⟨ws, .refl, h⟩
  · rw [run_update] at h
    exact ⟨_, Beside.refl.cons id, h⟩

/-- The update of an attempt that is not stored writes nothing. -/
theorem view_updateAttempt {attempt : AttemptRecord}
    (h : (updateAttempt messageId attempt .commit).run rows ws = some out) :
    view rows out (.attempts messageId) = (view rows ws (.attempts messageId)).map (fun b =>
        if b.id = attempt.id ∧ attempt.messageId = messageId then attempt else b) ∧
      ∀ row : DeliveryRow, row.IsLedger → row ≠ .attempts messageId →
        view rows out row = view rows ws row := by
  rw [updateAttempt, run] at h
  split at h
  · rename_i hnone
    obtain rfl := Option.some.inj h
    have hother (b) (hb : b ∈ view rows ws (.attempts messageId)) :
        ¬(b.id = attempt.id ∧ attempt.messageId = messageId) := fun htarget =>
      List.find?_eq_none.mp hnone b hb (decide_eq_true htarget)
    refine ⟨?_, fun _ _ _ => rfl⟩
    rw [List.map_congr_left fun b hb => if_neg (hother b hb), List.map_id']
  · rename_i old hold
    obtain ⟨ws₁, hreleased, h⟩ := run_releaseProviderMessage h
    obtain ⟨ws₂, hindexed, h⟩ := run_indexProviderMessage h
    obtain rfl := Option.some.inj h
    refine ⟨Function.update_self _ _ _, fun row hrow hne => ?_⟩
    rw [view_cons, Function.update_of_ne hne, hindexed.view row hrow, hreleased.view row hrow]

/-- The email and the message that a plan writes. -/
theorem view_planWrites_email {plan : DeliveryLedgerState} {id : String} (hid : plan.email.id = id) :
    view rows (planWrites rows messageId plan) (.email id) =
      (rows (.email id)).map fun _ => plan.email := by
  subst hid
  simp [planWrites]

theorem view_planWrites_message {plan : DeliveryLedgerState} {id : String}
    (hid : plan.message.id = id) : view rows (planWrites rows messageId plan) (.message id) =
      (rows (.message id)).map fun _ => plan.message := by
  subst hid
  simp [planWrites]

/-- The rows that a plan leaves alone. -/
theorem view_planWrites {plan : DeliveryLedgerState} (hemail : plan.email.id = messageId)
    (hmessage : plan.message.id = messageId) {row : DeliveryRow} (h₁ : row ≠ .email messageId)
    (h₂ : row ≠ .message messageId) (h₃ : row ≠ .recipients messageId) :
    view rows (planWrites rows messageId plan) row = rows row := by
  refine view_of_notMem fun w hw => ?_
  simp only [planWrites, List.mem_cons, List.not_mem_nil, or_false] at hw
  rcases hw with rfl | rfl | rfl
  · exact Ne.symm h₃
  · rw [hmessage]
    exact Ne.symm h₂
  · rw [hemail]
    exact Ne.symm h₁

/-- What a planned request leaves beside the plan: its attempts. -/
theorem view_writePlan {planned : PlannedWrite}
    (h : (writePlan messageId planned).run rows [] = some out) :
    view rows out (.attempts messageId) = planned.writeAttempts messageId
        (view rows (planWrites rows messageId planned.plan) (.attempts messageId)) ∧
      ∀ row : DeliveryRow, row.IsLedger → row ≠ .attempts messageId →
        view rows out row = view rows (planWrites rows messageId planned.plan) row := by
  rw [writePlan, run_applyLedgerPlan] at h
  unfold PlannedWrite.writeAttempts
  cases hput : planned.putAttempt with
  | some attempt =>
    rw [hput] at h
    obtain ⟨ws', hbeside, rfl⟩ := run_insertAttempt h
    refine ⟨Function.update_self _ _ _, fun row hrow hne => ?_⟩
    rw [view_cons, Function.update_of_ne hne, hbeside.view row hrow]
  | none =>
    rw [hput] at h
    cases hupdate : planned.updateAttempt with
    | some attempt =>
      rw [hupdate] at h
      exact view_updateAttempt h
    | none =>
      rw [hupdate] at h
      obtain rfl := Option.some.inj h
      exact ⟨rfl, fun _ _ _ => rfl⟩

theorem sameElsewhere_of_view {rows' : DeliveryRows}
    (h : ∀ row : DeliveryRow, row.IsLedger → row ≠ .email messageId → row ≠ .message messageId →
      row ≠ .recipients messageId → row ≠ .attempts messageId → row ≠ .events messageId →
      rows' row = rows row) : DeliveryRows.SameElsewhere messageId rows rows' := by
  constructor <;> intro id hid <;> exact h _ trivial (by simp [hid]) (by simp [hid]) (by simp [hid])
    (by simp [hid]) (by simp [hid])

/-- The rows that a plan leaves. -/
theorem applied_of_plan (h : rows.Kept) {s : DeliveryLedgerSnapshot}
    (hs : rows.ledger messageId = some s) {plan : DeliveryLedgerState} {change : LedgerOp}
    {events : List ProviderEventRecord}
    (hchange : change.apply s = some { plan with events := events }) {rows' : DeliveryRows}
    (hattempts : rows' (.attempts messageId) = plan.attempts)
    (hevents : rows' (.events messageId) = events)
    (hother : ∀ row : DeliveryRow, row.IsLedger → row ≠ .attempts messageId →
      row ≠ .events messageId → rows' row = view rows (planWrites rows messageId plan) row) :
    rows'.Kept ∧ ∀ id, rows'.ledger id =
      if messageId = id then (rows.ledger id).bind change.apply else rows.ledger id := by
  obtain ⟨hemail, hmessage, -⟩ := DeliveryRows.ledger_eq_some.mp hs
  obtain ⟨s₀, hs₀, -, hsound⟩ := h.sound messageId _ hmessage
  obtain rfl := Option.some.inj (hs.symm.trans hs₀)
  have hid : plan.message.id = messageId :=
    (LedgerOp.message_of_apply hsound hchange).1.trans (h.message_id _ _ hmessage)
  have hid' : plan.email.id = messageId := ((hsound.apply hchange).1.inv.email_id).trans hid
  refine h.ledger_of_plan hs hchange ?_ ?_ ?_ hattempts hevents ?_
  · rw [hother (.email messageId) trivial (by simp) (by simp)]
    rw [view_planWrites_email hid', hemail, Option.map_some]
  · rw [hother (.message messageId) trivial (by simp) (by simp)]
    rw [view_planWrites_message hid, hmessage, Option.map_some]
  · rw [hother (.recipients messageId) trivial (by simp) (by simp)]
    simp [planWrites]
  · refine sameElsewhere_of_view fun row hrow h₁ h₂ h₃ h₄ h₅ => ?_
    rw [hother row hrow h₄ h₅, view_planWrites hid' hid h₁ h₂ h₃]

/-- **A ledger request alone** is the operation of its planner. -/
theorem ledgerOperation_applied (h : rows.Kept) {req : LedgerRequest} {rows' : DeliveryRows}
    (happly : (ledgerOperation messageId req).apply rows = some rows') :
    rows'.Kept ∧ ∀ id, rows'.ledger id =
      if messageId = id then (rows.ledger id).bind req.ledgerOp.apply else rows.ledger id := by
  obtain ⟨out, hrun, hne, rfl⟩ := apply_eq_some happly
  obtain ⟨email, message, stored, hemail, hmessage, hstored, hrun⟩ :=
    DeliveryRows.run_getStoredLedgerState hne hrun
  have hledger := h.ledger_of_stored hemail hmessage hstored
  obtain ⟨s, hs, hattempts, hsound⟩ := h.sound messageId message hmessage
  obtain rfl := Option.some.inj (hledger.symm.trans hs)
  split at hrun
  · cases hrun
  · exact absurd (Option.some.inj hrun).symm hne
  · rename_i planned hplan
    have hchange : req.ledgerOp.apply { stored with events := rows (.events messageId) } =
        some { planned.plan with events := rows (.events messageId) } :=
      LedgerRequest.apply_of_plan hplan
    have hwritten := LedgerRequest.attempts_of_plan hsound hplan
    obtain ⟨hput, hother⟩ := view_writePlan hrun
    have hid : stored.message.id = messageId :=
      h.message_id _ _ (DeliveryRows.ledger_eq_some.mp hs).2.1
    have hid' : planned.plan.message.id = messageId :=
      (LedgerOp.message_of_apply hsound hchange).1.trans hid
    have hemail' : planned.plan.email.id = messageId :=
      ((hsound.apply hchange).1.inv.email_id).trans hid'
    refine applied_of_plan h hs hchange ?_ ?_ fun row hrow hne _ => hother row hrow hne
    · rw [hput, view_planWrites hemail' hid' (by simp) (by simp) (by simp), hattempts, ← hwritten, hid]
    · rw [hother (.events messageId) trivial (by simp),
        view_planWrites hemail' hid' (by simp) (by simp) (by simp)]

theorem run_writeEvent {plan : DeliveryLedgerState} {event : ProviderEventRecord}
    (h : (writeEvent plan event).run rows [] = some out) :
    view rows out (.events event.messageId) =
        view rows (planWrites rows event.messageId plan) (.events event.messageId) ++ [event] ∧
      ∀ row : DeliveryRow, row.IsLedger → row ≠ .events event.messageId →
        view rows out row = view rows (planWrites rows event.messageId plan) row := by
  rw [writeEvent, run_applyLedgerPlan, run_insert] at h
  split_ifs at h
  obtain rfl := Option.some.inj h
  refine ⟨?_, fun row hrow hne => ?_⟩
  · simp
  · have h₁ : row ≠ .providerEventMetrics := fun heq => by
      rw [heq] at hrow
      exact hrow
    have h₂ : row ≠ .event event.id := fun heq => by
      rw [heq] at hrow
      exact hrow
    rw [view_cons, Function.update_of_ne h₁, view_cons, Function.update_of_ne hne, view_cons,
      Function.update_of_ne h₂]

/-- **A provider event alone** is the operation of its planner. -/
theorem appendProviderEvent_applied (h : rows.Kept) {input : ProviderEventRecord}
    {rows' : DeliveryRows} (happly : (appendProviderEvent input).apply rows = some rows') :
    rows'.Kept ∧ ∀ id, rows'.ledger id = if input.messageId = id then
      (rows.ledger id).bind (LedgerOp.appendEvent input).apply else rows.ledger id := by
  obtain ⟨out, hrun, hne, rfl⟩ := apply_eq_some happly
  unfold appendProviderEvent at hrun
  split at hrun
  · cases hrun
  rename_i event hparse
  obtain ⟨-, rfl⟩ := ProviderEventRecord.parse_eq_ok.mp hparse
  obtain ⟨email, message, stored, hemail, hmessage, hstored, hrun⟩ :=
    DeliveryRows.run_getStoredLedgerState hne hrun
  have hledger := h.ledger_of_stored hemail hmessage hstored
  obtain ⟨s, hs, hattempts, hsound⟩ := h.sound input.messageId message hmessage
  obtain rfl := Option.some.inj (hledger.symm.trans hs)
  rw [run] at hrun
  split at hrun
  · split_ifs at hrun
    · exact absurd (Option.some.inj hrun).symm hne
    · cases hrun
  split at hrun
  · cases hrun
  rename_i plan event' hplan
  obtain ⟨-, rfl, hp⟩ := (planProviderEvent_iff hsound.ordered).mp hplan
  have hchange : (LedgerOp.appendEvent event').apply
      { stored with events := rows (.events event'.messageId) } =
        some { plan with events := rows (.events event'.messageId) ++ [event'] } :=
    congrArg (Option.map _) (toOption_eq_some.mpr hplan)
  have hid : plan.message.id = event'.messageId :=
    (LedgerOp.message_of_apply hsound hchange).1.trans
      (h.message_id _ _ (DeliveryRows.ledger_eq_some.mp hs).2.1)
  have hid' : plan.email.id = event'.messageId :=
    ((hsound.apply hchange).1.inv.email_id).trans hid
  obtain ⟨hevents, hother⟩ := run_writeEvent hrun
  refine applied_of_plan h hs hchange ?_ ?_ fun row hrow _ hne => hother row hrow hne
  · rw [hother (.attempts event'.messageId) trivial (by simp),
      view_planWrites hid' hid (by simp) (by simp) (by simp), hattempts, hp]
    rfl
  · rw [hevents, view_planWrites hid' hid (by simp) (by simp) (by simp)]

/-! ## Emails and the outbox -/

/-- Rows that differ in no ledger. -/
theorem applied_of_beside (h : rows.Kept) {rows' : DeliveryRows}
    (hview : ∀ row : DeliveryRow, row.IsLedger → rows' row = rows row) :
    rows'.Kept ∧ ∀ id, rows'.ledger id = rows.ledger id := by
  have hledger : ∀ id, rows'.ledger id = rows.ledger id := by
    intro id
    unfold DeliveryRows.ledger
    rw [hview (.email id) trivial, hview (.message id) trivial, hview (.recipients id) trivial,
      hview (.attempts id) trivial, hview (.events id) trivial]
  refine ⟨⟨fun id e he => ?_, fun id m hm => ?_, fun id k r hr => ?_, fun id m hm => ?_,
    fun id hm => ?_⟩, hledger⟩
  · exact h.email_id id e ((hview (.email id) trivial).symm.trans he)
  · exact h.message_id id m ((hview (.message id) trivial).symm.trans hm)
  · rw [hview (.recipients id) trivial] at hr
    exact h.recipient_id id k r hr
  · rw [hledger, hview (.attempts id) trivial]
    exact h.sound id m ((hview (.message id) trivial).symm.trans hm)
  · rw [hview (.attempts id) trivial, hview (.events id) trivial]
    exact h.absent id ((hview (.message id) trivial).symm.trans hm)

/-- A change of the email and the message of a ledger. -/
theorem applied_of_records (h : rows.Kept) {rows' : DeliveryRows} {email : EmailRecord}
    {change : LedgerOp} (hemail : rows (.email messageId) = some email) {email' : EmailRecord}
    (hemail' : rows' (.email messageId) = some email') (hid : email'.id = email.id)
    (hmessage : rows (.message messageId) = none → rows' (.message messageId) = none)
    (hchange : ∀ s, rows.ledger messageId = some s → ∃ message',
      rows' (.message messageId) = some message' ∧
        message'.recipientIds = s.message.recipientIds ∧
        change.apply s = some { s with email := email', message := message' })
    (hother : ∀ row : DeliveryRow, row.IsLedger → row ≠ .email messageId →
      row ≠ .message messageId → rows' row = rows row) :
    rows'.Kept ∧ ∀ id, rows'.ledger id =
      if messageId = id then (rows.ledger id).bind change.apply else rows.ledger id := by
  have hsame : DeliveryRows.SameElsewhere messageId rows rows' :=
    sameElsewhere_of_view fun row hrow h₁ h₂ _ _ _ => hother row hrow h₁ h₂
  have hrecipients := hother (.recipients messageId) trivial (by simp) (by simp)
  have hattempts := hother (.attempts messageId) trivial (by simp) (by simp)
  have hevents := hother (.events messageId) trivial (by simp) (by simp)
  cases hm : rows (.message messageId) with
  | none =>
    have hm' := hmessage hm
    have hnone : ∀ {rows : DeliveryRows}, rows (.message messageId) = none →
        rows.ledger messageId = none := by
      intro rows hm
      unfold DeliveryRows.ledger
      rw [hm]
      cases rows (.email messageId) <;> rfl
    refine ⟨h.of_sameElsewhere hsame ?_ ?_ ?_ ?_, fun id => ?_⟩
    · intro e he
      obtain rfl := Option.some.inj (hemail'.symm.trans he)
      exact hid.trans (h.email_id _ _ hemail)
    · rw [hrecipients]
      exact h.recipient_id messageId
    · intro m hm''
      rw [hm'] at hm''
      cases hm''
    · intro _
      rw [hattempts, hevents]
      exact h.absent messageId hm
    · split_ifs with hid'
      · subst hid'
        rw [hnone hm', hnone hm, Option.bind_none]
      · exact hsame.ledger (Ne.symm hid')
  | some message =>
    obtain ⟨s, hs, hsorted, -⟩ := h.sound messageId message hm
    obtain ⟨message', hmessage', hids, happly⟩ := hchange s hs
    obtain ⟨-, -, hread, hsort, hev⟩ := DeliveryRows.ledger_eq_some.mp hs
    refine h.ledgerOp hs happly hsame (DeliveryRows.ledger_eq_some.mpr ⟨hemail', hmessage', ?_, ?_,
      ?_⟩) ?_ ?_
    · rw [hrecipients]
      exact hids ▸ hread
    · rw [hattempts, hsort]
    · rw [hevents, hev]
    · rw [hattempts, hsorted]
    · rw [hrecipients]
      exact h.recipient_id messageId

/-- **A change of an email alone.** -/
theorem writeEmail_applied (h : rows.Kept) {p : EmailRecord → Bool} {f : EmailRecord → EmailRecord}
    (hf : ∀ e, (f e).id = e.id) {change : LedgerOp}
    (hchange : ∀ s, p s.email = true → change.apply s = some { s with email := f s.email })
    {rows' : DeliveryRows}
    (happly : (selectForUpdate (.email messageId) id fun record : EmailRecord =>
      if p record then writeEmail (f record) .commit else .commit : PostgresProgram).apply rows =
        some rows') :
    rows'.Kept ∧ ∀ id, rows'.ledger id =
      if messageId = id then (rows.ledger id).bind change.apply else rows.ledger id := by
  obtain ⟨out, hrun, hne, rfl⟩ := apply_eq_some happly
  rw [run_selectForUpdate] at hrun
  split at hrun
  · exact absurd (Option.some.inj hrun).symm hne
  rename_i email hemail
  rw [view_nil, id_eq] at hemail
  split_ifs at hrun with hp
  · have hid : (f email).id = messageId := (hf email).trans (h.email_id _ _ hemail)
    obtain rfl := Option.some.inj hrun
    have hother : ∀ row : DeliveryRow, row ≠ .email messageId →
        view rows [⟨.email (f email).id, (rows (.email (f email).id)).map fun _ => f email⟩] row =
          rows row := by
      intro row hrow
      refine view_of_notMem fun w hw => ?_
      rw [List.mem_singleton.mp hw]
      show DeliveryRow.email (f email).id ≠ row
      rw [hid]
      exact Ne.symm hrow
    have hself : view rows [⟨.email (f email).id,
        (rows (.email (f email).id)).map fun _ => f email⟩] (.email messageId) =
          some (f email) := by
      rw [← hid] at hemail ⊢
      rw [view_cons, Function.update_self, hemail, Option.map_some]
    refine applied_of_records h hemail hself (hf email) (fun hm => ?_) (fun s hs => ?_)
      fun row _ hrow _ => hother row hrow
    · exact (hother (.message messageId) (by simp)).trans hm
    · obtain ⟨hemail', hmessage, -⟩ := DeliveryRows.ledger_eq_some.mp hs
      obtain rfl := Option.some.inj (hemail.symm.trans hemail')
      exact ⟨s.message, (hother (.message messageId) (by simp)).trans hmessage, rfl, hchange s hp⟩
  · exact absurd (Option.some.inj hrun).symm hne

/-- **A reschedule** of the email, the message and the outbox item. -/
theorem rescheduleEmailAndOutbox_applied (h : rows.Kept) {scheduledAt now : ℕ}
    {rows' : DeliveryRows}
    (happly : (rescheduleEmailAndOutbox messageId scheduledAt now).apply rows = some rows') :
    rows'.Kept ∧ ∀ id, rows'.ledger id = if messageId = id then
      (rows.ledger id).bind (LedgerOp.reschedule scheduledAt now).apply else rows.ledger id := by
  obtain ⟨out, hrun, hne, rfl⟩ := apply_eq_some happly
  rw [rescheduleEmailAndOutbox, run_selectForUpdate] at hrun
  split at hrun
  · exact absurd (Option.some.inj hrun).symm hne
  rename_i email hemail
  rw [run_selectForUpdate] at hrun
  split at hrun
  · exact absurd (Option.some.inj hrun).symm hne
  rename_i message hmessage
  rw [view_nil, id_eq] at hemail hmessage
  rw [run] at hrun
  split at hrun
  · exact absurd (Option.some.inj hrun).symm hne
  rename_i outboxId houtboxId
  rw [run_selectForUpdate] at hrun
  split at hrun
  · exact absurd (Option.some.inj hrun).symm hne
  rename_i outbox houtbox
  split_ifs at hrun with hp
  · rw [Bool.and_eq_true, Bool.and_eq_true] at hp
    have hid : (email.rescheduled scheduledAt now).id = messageId :=
      (h.email_id messageId email hemail : email.id = messageId)
    rw [writeEmail, run_update, run_update, run_update, run] at hrun
    obtain rfl := Option.some.inj hrun
    refine applied_of_records h hemail (?_ : _ = some (email.rescheduled scheduledAt now)) rfl
      (fun hnone => ?_) (fun s hs => ?_) fun row hrow h₁ h₂ => ?_
    · rw [view_cons, Function.update_of_ne (by simp), view_cons, Function.update_of_ne (by simp)]
      rw [← hid] at hemail ⊢
      rw [view_cons, Function.update_self, view_nil, hemail, Option.map_some]
    · rw [hnone] at hmessage
      cases hmessage
    · obtain ⟨hemail', hmessage', -⟩ := DeliveryRows.ledger_eq_some.mp hs
      obtain rfl := Option.some.inj (hemail.symm.trans hemail')
      obtain rfl := Option.some.inj (hmessage.symm.trans hmessage')
      refine ⟨s.message.rescheduled scheduledAt now, ?_, rfl, ?_⟩
      · rw [view_cons, Function.update_of_ne (by simp), view_cons, Function.update_self, view_cons,
          Function.update_of_ne (by simp), view_nil, hmessage, Option.map_some]
      · exact if_pos hp.1.1
    · have h₃ : row ≠ .outboxItem outboxId := fun heq => by
        rw [heq] at hrow
        exact hrow
      have h₄ : row ≠ .email (email.rescheduled scheduledAt now).id := hid ▸ h₁
      rw [view_cons, Function.update_of_ne h₃, view_cons, Function.update_of_ne h₂, view_cons,
        Function.update_of_ne h₄, view_nil]
  · exact absurd (Option.some.inj hrun).symm hne

theorem run_writeLeases {input : LeaseDueOutboxInput} {found : List (String × OutboxItemRecord)}
    (h : (writeLeases input found next).run rows ws = some out) (hws : Beside [] ws)
    (hnext : ∀ ws', Beside [] ws' → next.run rows ws' = some out → Beside [] out) :
    Beside [] out := by
  induction found generalizing ws with
  | nil => exact hnext ws hws h
  | cons p found ih => exact ih h (hws.cons id)

theorem run_lockCandidates {now : ℕ} {ids : List String}
    {found : List (String × OutboxItemRecord)}
    {next : List (String × OutboxItemRecord) → PostgresProgram}
    (h : (lockCandidates now ids found next).run rows ws = some out) :
    ∃ found, (next found).run rows ws = some out := by
  induction ids generalizing found with
  | nil => exact ⟨_, h⟩
  | cons id ids ih =>
    rw [lockCandidates, run] at h
    split at h
    · exact ih h
    · exact ih h

/-- **No ledger changes in the outbox.** -/
theorem run_leaseDueOutbox {input : LeaseDueOutboxInput} {unlocked : List String}
    (h : (leaseDueOutbox input unlocked).run rows [] = some out) : Beside [] out := by
  unfold leaseDueOutbox at h
  split at h
  · cases h
  · obtain ⟨found, h⟩ := run_lockCandidates h
    refine run_writeLeases h .refl fun ws' hws' hend => ?_
    split_ifs at hend
    · exact Option.some.inj hend ▸ hws'
    · cases hend

/-! ## New deliveries -/

theorem Beside.trans {ws' : List ((row : DeliveryRow) × row.Value)} (h : Beside ws ws')
    (h' : Beside ws' out) : Beside ws out := by
  obtain ⟨more, rfl, hmore⟩ := h
  obtain ⟨more', rfl, hmore'⟩ := h'
  refine ⟨more' ++ more, by rw [List.append_assoc], fun w hw => ?_⟩
  exact (List.mem_append.mp hw).elim (hmore' w) (hmore w)

theorem run_insertRecipients {recipients : List RecipientRecord}
    (h : (insertRecipients messageId recipients next).run rows ws = some out) :
    ∃ ws', Beside ws ws' ∧ next.run rows (⟨.recipients messageId,
      (view rows ws (.recipients messageId)).setAll (·.id) recipients⟩ :: ws') = some out := by
  unfold insertRecipients at h
  generalize hwrite : RowProgram.read (DeliveryRow.recipients messageId) _ = written at h
  obtain ⟨ws', hbeside, h⟩ : ∃ ws', Beside ws ws' ∧ written.run rows ws' = some out := by
    clear hwrite
    induction recipients generalizing ws with
    | nil => exact ⟨ws, .refl, h⟩
    | cons r rs ih =>
      rw [List.foldr_cons, run_insert] at h
      split_ifs at h
      obtain ⟨ws', hbeside, h⟩ := ih h
      exact ⟨ws', (Beside.refl.cons id).trans hbeside, h⟩
  have hview : view rows ws' (.recipients messageId) = view rows ws (.recipients messageId) :=
    hbeside.view _ trivial
  rw [← hwrite, run, hview, run] at h
  exact ⟨ws', hbeside, h⟩

theorem run_insertOutboxItem {item : OutboxItemRecord}
    (h : (insertOutboxItem messageId item next).run rows ws = some out) :
    ∃ ws', Beside ws ws' ∧ next.run rows ws' = some out := by
  rw [insertOutboxItem, run_insert] at h
  split_ifs at h
  rw [run] at h
  split_ifs at h
  · cases h
  · exact ⟨_, (Beside.refl.cons id).cons id, h⟩

theorem run_insertClaim {c : DeliveryCommit}
    (h : (insertClaim c .commit).run rows ws = some out) : Beside ws out := by
  unfold insertClaim at h
  split at h
  · exact Option.some.inj h ▸ .refl
  · rw [run_insert] at h
    split_ifs at h
    exact Option.some.inj h ▸ Beside.refl.cons id

/-- The rows of a new delivery. -/
theorem run_insertDelivery {c : DeliveryCommit} (hws : Beside [] ws)
    (h : (insertDelivery c).run rows ws = some out) :
    rows (.message c.message.id) = none ∧ view rows out (.email c.email.id) = some c.email ∧
      view rows out (.message c.message.id) = some c.message ∧
      view rows out (.recipients c.message.id) =
        (rows (.recipients c.message.id)).setAll (·.id) c.recipients ∧
      ∀ row : DeliveryRow, row.IsLedger → row ≠ .email c.email.id → row ≠ .message c.message.id →
        row ≠ .recipients c.message.id → view rows out row = rows row := by
  have hfree : ∀ row : DeliveryRow, row.IsLedger → view rows ws row = rows row :=
    fun row hrow => hws.view row hrow
  rw [insertDelivery, run_insert] at h
  split_ifs at h with hemail
  rw [run_insert] at h
  split_ifs at h with hmessage
  obtain ⟨ws₁, hws₁, h⟩ := run_insertRecipients h
  obtain ⟨ws₂, hws₂, h⟩ := run_insertOutboxItem h
  have hout := hws₂.trans (run_insertClaim h)
  rw [view_cons, Function.update_of_ne (by simp), hfree (.message c.message.id) trivial] at hmessage
  refine ⟨Option.isNone_iff_eq_none.mp hmessage, ?_, ?_, ?_, fun row hrow h₁ h₂ h₃ => ?_⟩
  · rw [hout.view (.email c.email.id) trivial, view_cons, Function.update_of_ne (by simp),
      hws₁.view (.email c.email.id) trivial]
    simp
  · rw [hout.view (.message c.message.id) trivial, view_cons,
      Function.update_of_ne (by simp), hws₁.view (.message c.message.id) trivial]
    simp
  · rw [hout.view (.recipients c.message.id) trivial, view_cons, Function.update_self,
      view_cons, Function.update_of_ne (by simp), view_cons, Function.update_of_ne (by simp),
      hfree (.recipients c.message.id) trivial]
  · rw [hout.view row hrow, view_cons, Function.update_of_ne h₃, hws₁.view row hrow, view_cons,
      Function.update_of_ne h₂, view_cons, Function.update_of_ne h₁, hfree row hrow]

/-- The ledger of a new delivery exists, and is in order. -/
theorem exists_ledger {c : DeliveryCommit} (hc : c.Consistent)
    (recipientRows : OrderedMap String RecipientRecord) : ∃ s : DeliveryLedgerSnapshot,
      c.ledger = some s ∧ s.email = c.email ∧ s.message = c.message ∧ s.attempts = [] ∧
        s.events = [] ∧ s.Sound ∧ c.message.recipientIds.mapM
          (recipientRows.setAll (·.id) c.recipients).get = some s.recipients := by
  have hn : (c.recipients.map (·.id)).Nodup :=
    hc.recipient_ids.nodup_iff.mpr hc.message_valid.nodup
  have hget : ∀ id ∈ c.message.recipientIds, ∃ r ∈ c.recipients, r.id = id ∧
      ∀ rows : OrderedMap String RecipientRecord,
        (rows.setAll (·.id) c.recipients).get id = some r := by
    intro id hid
    obtain ⟨r, hr, rfl⟩ := List.mem_map.mp (hc.recipient_ids.mem_iff.mpr hid)
    exact ⟨r, hr, rfl, fun rows => OrderedMap.get_setAll_of_mem hn hr rows⟩
  obtain ⟨rs, hids, hmem, hread⟩ : ∃ rs : List RecipientRecord,
      rs.map (·.id) = c.message.recipientIds ∧ (∀ r ∈ rs, r ∈ c.recipients) ∧
      ∀ rows : OrderedMap String RecipientRecord, c.message.recipientIds.mapM
        (rows.setAll (·.id) c.recipients).get = some rs := by
    revert hget
    simp only [mapM_eq_some]
    generalize c.message.recipientIds = ids
    intro hget
    induction ids with
    | nil => exact ⟨[], rfl, fun r hr => absurd hr List.not_mem_nil, fun _ => rfl⟩
    | cons id ids ih =>
      obtain ⟨hfirst, hrest⟩ := List.forall_mem_cons.mp hget
      obtain ⟨r, hr, rfl, hread⟩ := hfirst
      obtain ⟨rs, rfl, hmem, hreads⟩ := ih hrest
      refine ⟨r :: rs, rfl, List.forall_mem_cons.mpr ⟨hr, hmem⟩, fun rows => ?_⟩
      rw [List.map_cons, List.map_cons, hread rows, hreads rows]
  refine ⟨{ email := c.email, message := c.message, recipients := rs, attempts := [], events := [] },
    ?_, rfl, rfl, rfl, rfl, ?_, hread recipientRows⟩
  · rw [DeliveryCommit.ledger, hread ∅, Option.map_some]
  · exact .of_inv (LedgerInv.initial hc hids hmem) rfl

theorem run_commitDelivery {input : DeliveryCommit} {now : ℕ}
    (h : (commitDelivery input now).run rows [] = some out) : input.Consistent ∧
      ∃ ws, Beside [] ws ∧ (insertDelivery input).run rows ws = some out := by
  unfold commitDelivery at h
  split at h
  · cases h
  rename_i c hc
  obtain ⟨rfl, hconsistent⟩ := validateDeliveryCommit_eq_ok hc
  refine ⟨hconsistent, ?_⟩
  split at h
  · exact ⟨[], .refl, h⟩
  · rw [deleteExpiredClaim, run, view_nil] at h
    dsimp only at h
    split_ifs at h with hexpired
    · rw [run, view_nil, if_pos hexpired, run] at h
      exact ⟨_, Beside.refl.cons id, h⟩
    · exact ⟨[], .refl, h⟩

/-- **A commit** makes a ledger where there was none. -/
theorem commitDelivery_applied (h : rows.Kept) {c : DeliveryCommit} {now : ℕ} {rows' : DeliveryRows}
    (happly : (commitDelivery c now).apply rows = some rows') :
    rows'.Kept ∧ ∀ id, rows'.ledger id = if c.message.id = id then c.ledger else rows.ledger id := by
  obtain ⟨out, hrun, -, rfl⟩ := apply_eq_some happly
  obtain ⟨hc, ws, hws, hrun⟩ := run_commitDelivery hrun
  obtain ⟨habsent, hemail, hmessage, hrecipients, hother⟩ := run_insertDelivery hws hrun
  rw [hc.email_id] at hemail hother
  have hsame : DeliveryRows.SameElsewhere c.message.id rows (view rows out) :=
    sameElsewhere_of_view fun row hrow h₁ h₂ h₃ _ _ => hother row hrow h₁ h₂ h₃
  have hattempts := hother (.attempts c.message.id) trivial (by simp) (by simp) (by simp)
  have hevents := hother (.events c.message.id) trivial (by simp) (by simp) (by simp)
  obtain ⟨hnoAttempts, hnoEvents⟩ := h.absent _ habsent
  obtain ⟨s, hs, hse, hsm, hsa, hsv, hsound, hread⟩ :=
    exists_ledger hc (rows (.recipients c.message.id))
  have hledger : DeliveryRows.ledger (view rows out) c.message.id = some s := by
    refine DeliveryRows.ledger_eq_some.mpr ⟨hse ▸ hemail, hsm ▸ hmessage, ?_, ?_, ?_⟩
    · rw [hrecipients, hsm]
      exact hread
    · rw [hattempts, hnoAttempts, hsa]
      rfl
    · rw [hevents, hnoEvents, hsv]
  refine ⟨h.of_sameElsewhere hsame (fun e he => ?_) (fun k r hr => ?_) (fun m hm => ?_)
    (fun hnone => ?_), fun id => ?_⟩
  · obtain rfl := Option.some.inj (hemail.symm.trans he)
    exact hc.email_id
  · rw [hrecipients] at hr
    exact (OrderedMap.get_setAll_cases _ _ hr).elim (h.recipient_id _ k r) id
  · obtain rfl := Option.some.inj (hmessage.symm.trans hm)
    refine ⟨rfl, s, hledger, ?_, hsound⟩
    rw [hattempts, hnoAttempts, hsa]
  · rw [hmessage] at hnone
    cases hnone
  · split_ifs with hid
    · rw [← hid, hledger, hs]
    · exact hsame.ledger (Ne.symm hid)

end PostgresProgram

/-! ## Runs -/

/-- **Each operation alone** changes the ledger of its message as `ledgerAfter` says. -/
theorem PostgresOperation.applied {rows rows' : DeliveryRows} (h : rows.Kept)
    {op : PostgresOperation} (happly : op.program.apply rows = some rows') :
    rows'.Kept ∧ ∀ id, rows'.ledger id = op.ledgerAfter id (rows.ledger id) := by
  cases op with
  | commitDelivery c now => exact PostgresProgram.commitDelivery_applied h happly
  | beginDeliveryAttempt attempt => exact PostgresProgram.ledgerOperation_applied h happly
  | completeDeliveryAttempt input => exact PostgresProgram.ledgerOperation_applied h happly
  | applyLocalDeliveryState messageId status updatedAt =>
    exact PostgresProgram.ledgerOperation_applied h happly
  | appendProviderEvent event => exact PostgresProgram.appendProviderEvent_applied h happly
  | claimEmailForSend emailId attempt now =>
    refine PostgresProgram.writeEmail_applied h (p := (·.claimable now))
      (f := fun e => e.claimed (StoreKind.postgres.claimCounter attempt e.attempts) now)
      (fun _ => rfl) (fun s hs => ?_) happly
    exact if_pos hs
  | updateEmail emailId updates fromStatuses =>
    refine PostgresProgram.writeEmail_applied h (p := (·.updatable fromStatuses))
      (f := updates.applyTo) (fun _ => rfl) (fun s hs => ?_) happly
    exact if_pos hs
  | rescheduleEmailAndOutbox emailId scheduledAt now =>
    exact PostgresProgram.rescheduleEmailAndOutbox_applied h happly
  | leaseDueOutbox input unlocked =>
    obtain ⟨out, hrun, -, rfl⟩ := apply_eq_some happly
    exact PostgresProgram.applied_of_beside h
      (PostgresProgram.run_leaseDueOutbox hrun).view
  | acknowledgeOutbox outboxId owner now =>
    obtain ⟨out, hrun, hne, rfl⟩ := apply_eq_some happly
    rw [program, PostgresProgram.acknowledgeOutbox, run_selectForUpdate] at hrun
    split at hrun
    · exact absurd (Option.some.inj hrun).symm hne
    · obtain rfl := Option.some.inj hrun
      exact PostgresProgram.applied_of_beside h
        (PostgresProgram.Beside.refl.cons id).view
  | recordOutboxFailure outboxId owner category now =>
    obtain ⟨out, hrun, hne, rfl⟩ := apply_eq_some happly
    rw [program, PostgresProgram.recordOutboxFailure, run_selectForUpdate] at hrun
    split at hrun
    · exact absurd (Option.some.inj hrun).symm hne
    · obtain rfl := Option.some.inj hrun
      exact PostgresProgram.applied_of_beside h
        ((PostgresProgram.Beside.refl.cons id).cons id).view

open PostgresWorld

/-- **The ledgers in PostgreSQL**: after any run, with any number of messages, a ledger is what the
operations that committed make of it, one after the other in the order of their commits, and it is in
order: at most one attempt is under way or accepted, and only the last one. -/
theorem postgres_ledgers {w : PostgresWorld} (h : (system DeliveryRows.empty).Reachable w)
    (messageId : String) :
    DeliveryRows.ledger w.rows messageId =
        (w.log.map Prod.snd).foldl (PostgresOperation.ledgerAfter messageId) none ∧
      ∀ s : DeliveryLedgerSnapshot, DeliveryRows.ledger w.rows messageId = some s → s.Sound := by
  have hserial := (postgres_serializable h).1
  revert hserial
  generalize w.log.map Prod.snd = ops
  generalize w.rows = rows
  intro hserial
  have hkept : DeliveryRows.Kept rows ∧ DeliveryRows.ledger rows messageId =
      ops.foldl (PostgresOperation.ledgerAfter messageId) none := by
    induction ops using List.reverseRecOn generalizing rows with
    | nil =>
      obtain rfl := Option.some.inj hserial
      exact ⟨DeliveryRows.kept_empty, rfl⟩
    | append_singleton ops op ih =>
      rw [TransitionSystem.serial_concat] at hserial
      obtain ⟨before, hbefore, happly⟩ := Option.bind_eq_some_iff.mp hserial
      obtain ⟨hkept, hledger⟩ := ih before hbefore
      obtain ⟨hkept', hledger'⟩ := PostgresOperation.applied hkept happly
      refine ⟨hkept', ?_⟩
      rw [List.foldl_append, List.foldl_cons, List.foldl_nil, ← hledger]
      exact hledger' messageId
  refine ⟨hkept.2, fun s hs => ?_⟩
  obtain ⟨-, hmessage, -⟩ := DeliveryRows.ledger_eq_some.mp hs
  obtain ⟨s₀, hs₀, -, hsound⟩ := hkept.1.sound messageId _ hmessage
  exact Option.some.inj (hs.symm.trans hs₀) ▸ hsound

theorem postgres_ledgers_sample : ∃ w, (system DeliveryRows.empty).Reachable w ∧
    (DeliveryRows.ledger w.rows "email_0123456789abcdef").isSome = true ∧
    DeliveryRows.ledger w.rows "email_0123456789abcdef" = (w.log.map Prod.snd).foldl
      (PostgresOperation.ledgerAfter "email_0123456789abcdef") none := by
  have hrun : ((system DeliveryRows.empty).run { rows := DeliveryRows.empty } sampleRun).any
      (fun w => (DeliveryRows.ledger w.rows "email_0123456789abcdef").isSome) = true := by
    decide +kernel
  obtain ⟨w, hw, hsome⟩ := TransitionSystem.exists_reachable_of_run rfl hrun
  exact ⟨w, hw, hsome, (postgres_ledgers hw _).1⟩

end HayaSend
