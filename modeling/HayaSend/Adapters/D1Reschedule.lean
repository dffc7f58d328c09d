import HayaSend.Adapters.LedgerRows
import HayaSend.Adapters.MemoryStoreOutbox
import HayaSend.Services.World

/-!
# Rescheduling in the D1 store

`D1DeliveryStore.rescheduleEmailAndOutbox` reads the email with its message, the recipients, the
attempts and the outbox item in four queries, and then replaces the email, the message and the item
in one batch of three updates, each conditioned on the row that was read. An update that matches no
row does not fail the batch, and the record it planned is returned whether or not it was written;
the payload of the email is read after the batch. The other writers of the rows run in between.

* `reschedule_all_or_nothing_iff`: the call is all or nothing just where it is undisturbed
  (`RescheduleCall.Undisturbed`);
* `memory_reschedule_all_or_nothing`: the in-memory store always is.
-/

namespace HayaSend

/-! ## Rows -/

/-- A row of `outbox_items`: the columns beside the item that its `entity` holds. -/
structure OutboxRow where
  entity : OutboxItemRecord
  dueAt : ℕ
  leaseOwner : Option String := none
  leaseExpiresAt : Option ℕ := none
  dispatchedAt : Option ℕ := none
  attempts : ℕ
  lastDiagnosticCategory : Option DiagnosticCategory := none
  deriving DecidableEq, Repr

/-- The rows of one message. -/
structure D1MessageRows where
  email : Option EmailRecord := none
  message : Option MessageRecord := none
  /-- `delivery_ledger_versions` -/
  revision : Option ℕ := none
  recipients : List RecipientRecord := []
  attempts : List AttemptRecord := []
  outbox : Option OutboxRow := none
  deriving DecidableEq, Repr

/-- A statement or a batch of another call, with what that call read before. -/
inductive D1Write
  | claimEmailForSend (current : EmailRecord) (attempt now : ℕ)
  | commitLedgerPlan (write : PlannedWrite) (expectedRevision : ℕ)
  | leaseDueOutbox (current : OutboxItemRecord) (owner : String) (leaseSeconds now : ℕ)
  | acknowledgeOutbox (current : OutboxItemRecord) (owner : String) (now : ℕ)
  deriving DecidableEq, Repr

namespace D1MessageRows

/-- `claimEmailForSend`, on the email row that it read. -/
def claimEmailForSend (rows : D1MessageRows) (current : EmailRecord) (attempt now : ℕ) :
    D1MessageRows :=
  if current.claimable now && rows.email == some current then
    { rows with email := some (current.claimed (max (current.attempts + 1) attempt) now) }
  else rows

/-- `commitLedgerPlan`: the guard lets the batch through at the revision that was read. -/
def commitLedgerPlan (rows : D1MessageRows) (w : PlannedWrite) (expectedRevision : ℕ) :
    D1MessageRows :=
  if rows.revision == some expectedRevision && !(w.putAttempt.any fun a =>
      rows.attempts.any fun b => b.id == a.id || b.sequence == a.sequence) then
    { rows with
      email := rows.email.map fun _ => w.plan.email
      message := rows.message.map fun _ => w.plan.message
      revision := some (expectedRevision + 1)
      recipients := rows.recipients.map fun r =>
        (w.plan.recipients.find? (·.id == r.id)).getD r
      attempts := (rows.attempts.map fun b =>
        (w.updateAttempt.filter fun a => b.id = a.id).getD b) ++ w.putAttempt.toList }
  else rows

/-- The update of one candidate of `leaseDueOutbox`. -/
def leaseDueOutbox (rows : D1MessageRows) (current : OutboxItemRecord) (owner : String)
    (leaseSeconds now : ℕ) : D1MessageRows :=
  let leaseExpiresAt := now + 1000 * leaseSeconds
  { rows with
    outbox := rows.outbox.map fun row =>
      if row.entity.id == current.id && row.dispatchedAt.isNone && decide (row.dueAt ≤ now) &&
          row.leaseExpiresAt.all (decide <| · ≤ now) then
        { row with
          leaseOwner := some owner
          leaseExpiresAt := some leaseExpiresAt
          attempts := current.attempts + 1
          entity := { current with
            attempts := current.attempts + 1
            leaseOwner := some owner
            leaseExpiresAt := some leaseExpiresAt
            updatedAt := now } }
      else row }

/-- `acknowledgeOutbox`: the guard lets the batch through for the owner of the lease. -/
def acknowledgeOutbox (rows : D1MessageRows) (current : OutboxItemRecord) (owner : String)
    (now : ℕ) : D1MessageRows :=
  if current.dispatchedAt.isNone && current.leaseOwner == some owner then
    { rows with
      outbox := rows.outbox.map fun row =>
        if row.entity.id == current.id && row.dispatchedAt.isNone &&
            row.leaseOwner == some owner then
          { row with
            leaseOwner := none
            leaseExpiresAt := none
            dispatchedAt := some now
            lastDiagnosticCategory := current.lastDiagnosticCategory
            entity := { current with
              leaseOwner := none
              leaseExpiresAt := none
              dispatchedAt := some now
              updatedAt := now } }
        else row }
  else rows

def write (rows : D1MessageRows) : D1Write → D1MessageRows
  | .claimEmailForSend current attempt now => rows.claimEmailForSend current attempt now
  | .commitLedgerPlan w expectedRevision => rows.commitLedgerPlan w expectedRevision
  | .leaseDueOutbox current owner leaseSeconds now =>
    rows.leaseDueOutbox current owner leaseSeconds now
  | .acknowledgeOutbox current owner now => rows.acknowledgeOutbox current owner now

end D1MessageRows

/-! ## The call -/

/-- The answers that have come in, or the error of a query. -/
structure RescheduleRead where
  header : Option (Option (EmailRecord × MessageRecord × ℕ)) := none
  recipients : Option (List RecipientRecord) := none
  attempts : Option (List AttemptRecord) := none
  outbox : Option (Option OutboxItemRecord) := none
  fault : Option Failure := none
  deriving DecidableEq

inductive RescheduleQuery
  | header
  | recipients
  | attempts
  | outbox
  deriving DecidableEq, Repr

/-- The answer of a query, at the time it is run. -/
def D1MessageRows.query (rows : D1MessageRows) (read : RescheduleRead) :
    RescheduleQuery → RescheduleRead
  | .header => { read with
      header := some do
        let email ← rows.email
        let message ← rows.message
        let revision ← rows.revision
        return (email, message, revision) }
  | .recipients => { read with recipients := some rows.recipients }
  | .attempts => { read with attempts := some rows.attempts }
  | .outbox => { read with outbox := some (rows.outbox.map (·.entity)) }

/-- `getStoredDeliveryState`, on the answers of its queries. -/
def D1DeliveryStore.getStoredDeliveryState (header : Option (EmailRecord × MessageRecord × ℕ))
    (recipientRows : List RecipientRecord) (attemptRows : List AttemptRecord) :
    Except Failure (Option (DeliveryLedgerState × ℕ)) := do
  match header with
  | none => return none
  | some (email, message, revision) =>
    let message ← message.parse
    let parsed ← recipientRows.mapM (·.parse)
    let recipientById := OrderedMap.ofList (parsed.map fun r => (r.id, r))
    let recipients := message.recipientIds.filterMap recipientById.get
    if recipients.length ≠ message.recipientIds.length then return none
    let attempts ← attemptRows.mapM (·.parse)
    return some (⟨email, message, recipients, attempts⟩, revision)

/-- The arguments of a call, the error of its batch, which then changes nothing, and what reading a
payload answers. -/
structure RescheduleCall where
  scheduledAt : ℕ
  now : ℕ
  batchFault : Option Failure := none
  payload : String → Except Failure Unit := fun _ => .ok ()

/-- The records that were read, which the batch is to replace. -/
structure ReschedulePlan where
  email : EmailRecord
  message : MessageRecord
  outbox : OutboxItemRecord
  deriving DecidableEq, Repr

open MemoryStore (rescheduledItem)

namespace RescheduleCall

/-- `hydrateEmail` of the payload storage; the content of the payload is not part of the record. -/
def hydrateEmail (call : RescheduleCall) (record : EmailRecord) : Except Failure EmailRecord :=
  match record.payloadRef with
  | none | some "" => .ok record
  | some key => do
    call.payload key
    return record

/-- `rescheduleEmailAndOutbox` up to its batch, `none` while a query has not answered: the records
to replace, where they may be rescheduled. -/
def plan (call : RescheduleCall) (read : RescheduleRead) :
    Option (Except Failure (Option ReschedulePlan)) :=
  match read.fault with
  | some e => some (.error e)
  | none => do
    let header ← read.header
    let recipients ← read.recipients
    let attempts ← read.attempts
    let outbox ← read.outbox
    return do
      match ← D1DeliveryStore.getStoredDeliveryState header recipients attempts, outbox with
      | some (stored, _), some currentOutbox =>
        if stored.email.status.isPending && currentOutbox.dispatchedAt.isNone &&
            currentOutbox.leaseOwner.isNone then
          let _ ← (stored.message.rescheduled call.scheduledAt call.now).parse
          let _ ← (rescheduledItem call.scheduledAt call.now currentOutbox).parse
          return some ⟨stored.email, stored.message, currentOutbox⟩
        else return none
      | _, _ => return none

/-- The outbox row with its item rescheduled. -/
def updatedOutbox (call : RescheduleCall) (row : OutboxRow) : OutboxRow :=
  { row with
    dueAt := call.scheduledAt
    entity := rescheduledItem call.scheduledAt call.now row.entity }

/-- The batch: each row is replaced if it still is the row that was read. -/
def batch (call : RescheduleCall) (plan : ReschedulePlan) (rows : D1MessageRows) : D1MessageRows :=
  { rows with
    email := rows.email.map fun email =>
      if email = plan.email then email.rescheduled call.scheduledAt call.now else email
    message := rows.message.map fun message =>
      if message = plan.message then message.rescheduled call.scheduledAt call.now else message
    outbox := rows.outbox.map fun row =>
      if row.entity = plan.outbox then call.updatedOutbox row else row }

/-- The rest of `rescheduleEmailAndOutbox`: the rows after it, and its outcome. -/
def finish (call : RescheduleCall) (rows : D1MessageRows) :
    Except Failure (Option ReschedulePlan) → D1MessageRows × Except Failure (Option EmailRecord)
  | .error e => (rows, .error e)
  | .ok none => (rows, .ok none)
  | .ok (some plan) =>
    match call.batchFault with
    | some e => (rows, .error e)
    | none => (call.batch plan rows,
        some <$> call.hydrateEmail (plan.email.rescheduled call.scheduledAt call.now))

end RescheduleCall

/-- How a call ended: the rows right before and right after what it wrote, and its outcome. -/
structure RescheduleEnd where
  before : D1MessageRows
  after : D1MessageRows
  outcome : Except Failure (Option EmailRecord)
  deriving DecidableEq

/-- The rows of a message, and one call of `rescheduleEmailAndOutbox` for it. -/
structure RescheduleWorld where
  rows : D1MessageRows
  read : RescheduleRead := {}
  ended : Option RescheduleEnd := none
  deriving DecidableEq

inductive RescheduleLabel
  | query (q : RescheduleQuery)
  | queryFails (e : Failure)
  | write (w : D1Write)
  | finish
  deriving DecidableEq

namespace RescheduleWorld

/-- A query of the call, or its batch with what comes before and after, or another writer. -/
def step (call : RescheduleCall) (w : RescheduleWorld) : RescheduleLabel → Option RescheduleWorld
  | .query q => if w.ended.isNone then some { w with read := w.rows.query w.read q } else none
  | .queryFails e =>
    if w.ended.isNone then some { w with read := { w.read with fault := some e } } else none
  | .write write => some { w with rows := w.rows.write write }
  | .finish =>
    if w.ended.isNone then
      (call.plan w.read).map fun plan =>
        let (after, outcome) := call.finish w.rows plan
        { w with rows := after, ended := some ⟨w.rows, after, outcome⟩ }
    else none

/-- Any rows, and nothing read. -/
def system (call : RescheduleCall) : TransitionSystem RescheduleWorld RescheduleLabel where
  init w := w.read = {} ∧ w.ended = none
  step := step call

end RescheduleWorld

/-! ## All or nothing -/

/-- The item is due at `t`, in its column and in its `entity`, and neither dispatched nor leased. -/
structure OutboxRow.IsRescheduled (t : ℕ) (row : OutboxRow) : Prop where
  dueAt : row.dueAt = t ∧ row.entity.dueAt = t
  undispatched : row.dispatchedAt = none ∧ row.entity.dispatchedAt = none
  unleased : row.leaseOwner = none ∧ row.entity.leaseOwner = none

/-- The email, the message and the outbox item are there and carry the time `t`. -/
structure D1MessageRows.Rescheduled (t : ℕ) (rows : D1MessageRows) : Prop where
  email : ∃ email, rows.email = some email ∧ email.scheduledAt = some t
  message : ∃ message, rows.message = some message ∧ message.scheduledAt = some t
  outbox : ∃ row, rows.outbox = some row ∧ row.IsRescheduled t

/-- A call that returns a record has rescheduled all three rows, and any other has changed none. -/
def RescheduleEnd.AllOrNothing (t : ℕ) (done : RescheduleEnd) : Prop :=
  match done.outcome with
  | .ok (some _) => done.after.Rescheduled t
  | _ => done.after.email = done.before.email ∧ done.after.message = done.before.message ∧
      done.after.outbox = done.before.outbox

namespace RescheduleCall

/-- The payload of the email can be read. -/
def isReadable (call : RescheduleCall) (email : EmailRecord) : Bool :=
  match email.payloadRef with
  | none | some "" => true
  | some key => (call.payload key).isOk

/-- The rows are those that were read, or carry the new time already. -/
structure TakesAll (call : RescheduleCall) (plan : ReschedulePlan) (rows : D1MessageRows) :
    Prop where
  email : ∃ email, rows.email = some email ∧
    (email = plan.email ∨ email.scheduledAt = some call.scheduledAt)
  message : ∃ message, rows.message = some message ∧
    (message = plan.message ∨ message.scheduledAt = some call.scheduledAt)
  outbox : ∃ row, rows.outbox = some row ∧ row.dispatchedAt = none ∧ row.leaseOwner = none ∧
    (row.entity = plan.outbox ∨ row.IsRescheduled call.scheduledAt)

/-- No row is as it was read, unless the update would leave it so. -/
structure TakesNone (call : RescheduleCall) (plan : ReschedulePlan) (rows : D1MessageRows) :
    Prop where
  email : rows.email = some plan.email →
    plan.email.rescheduled call.scheduledAt call.now = plan.email
  message : rows.message = some plan.message →
    plan.message.rescheduled call.scheduledAt call.now = plan.message
  outbox : ∀ row, rows.outbox = some row → row.entity = plan.outbox → call.updatedOutbox row = row

/-- The call ends before its batch; or its batch fails; or no other write came between the queries
and the batch to a row that does not carry the new time, and the payload can be read; or the payload
cannot be read, and the batch changes nothing. -/
def Undisturbed (call : RescheduleCall) (read : RescheduleRead) (rows : D1MessageRows) : Prop :=
  match call.plan read with
  | some (.ok (some plan)) => call.batchFault.isSome = true ∨
      (call.isReadable plan.email = true ∧ call.TakesAll plan rows) ∨
      (call.isReadable plan.email = false ∧ call.TakesNone plan rows)
  | _ => True

variable {call : RescheduleCall} {plan : ReschedulePlan} {rows : D1MessageRows}
  {read : RescheduleRead}

theorem of_getStoredDeliveryState {header : Option (EmailRecord × MessageRecord × ℕ)}
    {recipients : List RecipientRecord} {attempts : List AttemptRecord}
    {stored : DeliveryLedgerState} {revision : ℕ}
    (h : D1DeliveryStore.getStoredDeliveryState header recipients attempts =
      .ok (some (stored, revision))) : header = some (stored.email, stored.message, revision) := by
  unfold D1DeliveryStore.getStoredDeliveryState at h
  match header with
  | none => cases h
  | some (email, message, revision') =>
    obtain ⟨message', hmessage, h⟩ := bind_eq_ok.mp h
    obtain ⟨-, rfl⟩ := MessageRecord.parse_eq_ok.mp hmessage
    obtain ⟨parsed, _, h⟩ := bind_eq_ok.mp h
    simp only at h
    split at h
    · cases h
    · obtain ⟨attempts', _, h⟩ := bind_eq_ok.mp h
      cases h
      rfl

/-- A call is to replace the records that it read; the item is neither dispatched nor leased. -/
theorem of_plan (h : call.plan read = some (.ok (some plan))) :
    (∃ revision, read.header = some (some (plan.email, plan.message, revision))) ∧
      read.outbox = some (some plan.outbox) ∧
      plan.outbox.dispatchedAt = none ∧ plan.outbox.leaseOwner = none := by
  unfold RescheduleCall.plan at h
  split at h
  · cases h
  · obtain ⟨header, hheader, h⟩ := Option.bind_eq_some_iff.mp h
    obtain ⟨recipients, _, h⟩ := Option.bind_eq_some_iff.mp h
    obtain ⟨attempts, _, h⟩ := Option.bind_eq_some_iff.mp h
    obtain ⟨outbox, houtbox, h⟩ := Option.bind_eq_some_iff.mp h
    obtain ⟨stored?, hstored, h⟩ := bind_eq_ok.mp (Option.some.inj h)
    split at h
    · rename_i stored revision currentOutbox _
      split_ifs at h with hpending
      · obtain ⟨_, -, h⟩ := bind_eq_ok.mp h
        obtain ⟨_, -, h⟩ := bind_eq_ok.mp h
        cases h
        simp only [Bool.and_eq_true, Option.isNone_iff_eq_none] at hpending
        refine ⟨⟨revision, ?_⟩, houtbox, hpending.1.2, hpending.2⟩
        rw [hheader, of_getStoredDeliveryState hstored]
      · cases h
    · cases h

theorem hydrateEmail_rescheduled (email : EmailRecord) :
    (∃ record, call.hydrateEmail (email.rescheduled call.scheduledAt call.now) = .ok record) ↔
      call.isReadable email = true := by
  have hkey : (email.rescheduled call.scheduledAt call.now).payloadRef = email.payloadRef := rfl
  rw [hydrateEmail, isReadable, hkey]
  rcases email.payloadRef with _ | key
  · simp
  · by_cases hempty : key = ""
    · subst hempty
      simp
    · cases hpayload : call.payload key <;> simp [hpayload, Except.isOk, Except.toBool]

theorem rescheduled_batch_iff (hplan : plan.outbox.dispatchedAt = none ∧
    plan.outbox.leaseOwner = none) :
    (call.batch plan rows).Rescheduled call.scheduledAt ↔ call.TakesAll plan rows := by
  constructor
  · rintro ⟨⟨email, hemail, hte⟩, ⟨message, hmessage, htm⟩, row, hrow, htr⟩
    obtain ⟨email₀, hemail₀, rfl⟩ := Option.map_eq_some_iff.mp hemail
    obtain ⟨message₀, hmessage₀, rfl⟩ := Option.map_eq_some_iff.mp hmessage
    obtain ⟨row₀, hrow₀, rfl⟩ := Option.map_eq_some_iff.mp hrow
    refine ⟨⟨email₀, hemail₀, ?_⟩, ⟨message₀, hmessage₀, ?_⟩, row₀, hrow₀, ?_⟩
    · by_cases h : email₀ = plan.email
      · exact Or.inl h
      · rw [if_neg h] at hte
        exact Or.inr hte
    · by_cases h : message₀ = plan.message
      · exact Or.inl h
      · rw [if_neg h] at htm
        exact Or.inr htm
    · by_cases h : row₀.entity = plan.outbox
      · rw [if_pos h] at htr
        exact ⟨htr.undispatched.1, htr.unleased.1, Or.inl h⟩
      · rw [if_neg h] at htr
        exact ⟨htr.undispatched.1, htr.unleased.1, Or.inr htr⟩
  · rintro ⟨⟨email, hemail, hte⟩, ⟨message, hmessage, htm⟩, row, hrow, hd, hl, htr⟩
    refine ⟨⟨_, Option.map_eq_some_iff.mpr ⟨email, hemail, rfl⟩, ?_⟩,
      ⟨_, Option.map_eq_some_iff.mpr ⟨message, hmessage, rfl⟩, ?_⟩,
      _, Option.map_eq_some_iff.mpr ⟨row, hrow, rfl⟩, ?_⟩
    · split_ifs with h
      · rfl
      · exact hte.resolve_left h
    · split_ifs with h
      · rfl
      · exact htm.resolve_left h
    · split_ifs with h
      · exact ⟨⟨rfl, rfl⟩, ⟨hd, (congrArg OutboxItemRecord.dispatchedAt h).trans hplan.1⟩, hl,
          (congrArg OutboxItemRecord.leaseOwner h).trans hplan.2⟩
      · exact htr.resolve_left h

theorem batch_eq_iff : ((call.batch plan rows).email = rows.email ∧
    (call.batch plan rows).message = rows.message ∧
    (call.batch plan rows).outbox = rows.outbox) ↔ call.TakesNone plan rows := by
  have hemail : (call.batch plan rows).email = rows.email ↔ (rows.email = some plan.email →
      plan.email.rescheduled call.scheduledAt call.now = plan.email) := by
    rw [batch]
    cases rows.email with
    | none => simp
    | some email => by_cases h : email = plan.email <;> simp [h]
  have hmessage : (call.batch plan rows).message = rows.message ↔
      (rows.message = some plan.message →
        plan.message.rescheduled call.scheduledAt call.now = plan.message) := by
    rw [batch]
    cases rows.message with
    | none => simp
    | some message => by_cases h : message = plan.message <;> simp [h]
  have houtbox : (call.batch plan rows).outbox = rows.outbox ↔
      ∀ row, rows.outbox = some row → row.entity = plan.outbox → call.updatedOutbox row = row := by
    rw [batch]
    cases rows.outbox with
    | none => simp
    | some row => by_cases h : row.entity = plan.outbox <;> simp [h]
  rw [hemail, hmessage, houtbox]
  exact ⟨fun h => ⟨h.1, h.2.1, h.2.2⟩, fun h => ⟨h.email, h.message, h.outbox⟩⟩

/-- **Without other writes** between its queries and its batch, and with its payload at hand, a call
is undisturbed. -/
theorem undisturbed_of_unchanged
    (hheader : read.header = (rows.query {} .header).header)
    (houtbox : read.outbox = (rows.query {} .outbox).outbox)
    (hcolumns : ∀ row, rows.outbox = some row →
      row.dispatchedAt = row.entity.dispatchedAt ∧ row.leaseOwner = row.entity.leaseOwner)
    (hpayload : ∀ email, rows.email = some email → call.isReadable email = true) :
    call.Undisturbed read rows := by
  unfold Undisturbed
  split
  · rename_i plan hplan
    obtain ⟨⟨revision, hread⟩, hitem, hdispatched, hlease⟩ := of_plan hplan
    rw [hheader] at hread
    rw [houtbox] at hitem
    obtain ⟨email, hemail, hrest⟩ := Option.bind_eq_some_iff.mp (Option.some.inj hread)
    obtain ⟨message, hmessage, hrest⟩ := Option.bind_eq_some_iff.mp hrest
    obtain ⟨revision', -, hrest⟩ := Option.bind_eq_some_iff.mp hrest
    cases hrest
    obtain ⟨row, hrow, hentity⟩ := Option.map_eq_some_iff.mp (Option.some.inj hitem)
    obtain ⟨hd, hl⟩ := hcolumns row hrow
    refine Or.inr (Or.inl ⟨hpayload _ hemail, ⟨_, hemail, Or.inl rfl⟩, ⟨_, hmessage, Or.inl rfl⟩,
      row, hrow, ?_, ?_, Or.inl hentity⟩)
    · rw [hd, hentity, hdispatched]
    · rw [hl, hentity, hlease]
  · trivial

/-- **One call**, on the rows it finds at its batch. -/
theorem finish_allOrNothing_iff {result : Except Failure (Option ReschedulePlan)}
    (hplan : call.plan read = some result) {after : D1MessageRows}
    {outcome : Except Failure (Option EmailRecord)}
    (hfinish : call.finish rows result = (after, outcome)) :
    RescheduleEnd.AllOrNothing call.scheduledAt ⟨rows, after, outcome⟩ ↔
      call.Undisturbed read rows := by
  rw [Undisturbed, hplan]
  match result with
  | .error e =>
    obtain ⟨rfl, rfl⟩ := Prod.mk.inj hfinish
    exact iff_of_true ⟨rfl, rfl, rfl⟩ trivial
  | .ok none =>
    obtain ⟨rfl, rfl⟩ := Prod.mk.inj hfinish
    exact iff_of_true ⟨rfl, rfl, rfl⟩ trivial
  | .ok (some plan) =>
    simp only [finish] at hfinish
    cases hfault : call.batchFault with
    | some e =>
      rw [hfault] at hfinish
      obtain ⟨rfl, rfl⟩ := Prod.mk.inj hfinish
      exact iff_of_true ⟨rfl, rfl, rfl⟩ (Or.inl rfl)
    | none =>
      rw [hfault] at hfinish
      obtain ⟨rfl, rfl⟩ := Prod.mk.inj hfinish
      have hiff :
          (∃ record, call.hydrateEmail (plan.email.rescheduled call.scheduledAt call.now) =
            .ok record) ↔ call.isReadable plan.email = true :=
        hydrateEmail_rescheduled plan.email
      cases hydrated : call.hydrateEmail (plan.email.rescheduled call.scheduledAt call.now) with
      | ok record =>
        have hreadable : call.isReadable plan.email = true := hiff.mp ⟨record, hydrated⟩
        simp only [hreadable]
        refine (rescheduled_batch_iff (of_plan hplan).2.2).trans ?_
        simp
      | error e =>
        have hreadable : call.isReadable plan.email = false := by
          rw [Bool.eq_false_iff, ne_eq, ← hiff, hydrated]
          simp
        simp only [hreadable]
        refine batch_eq_iff.trans ?_
        simp

end RescheduleCall

namespace RescheduleWorld

variable {call : RescheduleCall} {w w' : RescheduleWorld} {l : RescheduleLabel}

/-- A call that has ended, ended as what it had read and the rows then say. -/
theorem ended_of_step (h : ∀ done, w.ended = some done → ∃ result,
      call.plan w.read = some result ∧ call.finish done.before result = (done.after, done.outcome))
    (hs : w.step call l = some w') {done : RescheduleEnd} (hdone : w'.ended = some done) :
    ∃ result, call.plan w'.read = some result ∧
      call.finish done.before result = (done.after, done.outcome) := by
  have hpending {x : RescheduleWorld} (hnone : w.ended.isNone = true) (hx : x.ended = w.ended)
      (hx' : x.ended = some done) : False := by
    rw [← hx, hx'] at hnone
    cases hnone
  cases l with
  | query q =>
    simp only [step] at hs
    split_ifs at hs with hnone
    obtain rfl := Option.some.inj hs
    exact (hpending hnone rfl hdone).elim
  | queryFails e =>
    simp only [step] at hs
    split_ifs at hs with hnone
    obtain rfl := Option.some.inj hs
    exact (hpending hnone rfl hdone).elim
  | write write =>
    obtain rfl := Option.some.inj hs
    exact h done hdone
  | finish =>
    simp only [step] at hs
    split_ifs at hs
    obtain ⟨result, hresult, rfl⟩ := Option.map_eq_some_iff.mp hs
    obtain rfl := Option.some.inj hdone
    exact ⟨result, hresult, rfl⟩

theorem ended_of_reachable (h : (system call).Reachable w) {done : RescheduleEnd}
    (hdone : w.ended = some done) : ∃ result, call.plan w.read = some result ∧
      call.finish done.before result = (done.after, done.outcome) := by
  refine h.invariant (I := fun w => ∀ done, w.ended = some done → ∃ result,
    call.plan w.read = some result ∧ call.finish done.before result = (done.after, done.outcome))
    ?_ ?_ done hdone
  · rintro w ⟨-, hnone⟩ done hdone
    rw [hnone] at hdone
    cases hdone
  · exact fun w w' l _ hinv hs done hdone => ended_of_step hinv hs hdone

end RescheduleWorld

open RescheduleWorld

/-- **A reschedule in the D1 store is all or nothing** just where it is undisturbed, in every run of
the call among other claims, ledger commits, leases and acknowledgements of the message. -/
theorem reschedule_all_or_nothing_iff {call : RescheduleCall} {w : RescheduleWorld}
    (h : (system call).Reachable w) {done : RescheduleEnd} (hdone : w.ended = some done) :
    done.AllOrNothing call.scheduledAt ↔ call.Undisturbed w.read done.before := by
  obtain ⟨result, hplan, hfinish⟩ := ended_of_reachable h hdone
  exact RescheduleCall.finish_allOrNothing_iff hplan hfinish

/-- The in-memory store replaces all three records, or none. -/
theorem memory_reschedule_all_or_nothing {s s' : MemoryStore} {id : String} {t now : ℕ}
    {email : EmailRecord} (h : s.rescheduleEmailAndOutbox id t now = some (s', email)) :
    s'.emails.get id = some email ∧ email.scheduledAt = some t ∧
      (∃ message, s'.deliveryMessages.get id = some message ∧ message.scheduledAt = some t) ∧
      ∃ item, s'.outboxItems.get item.id = some item ∧ item.dueAt = t ∧
        item.dispatchedAt = none ∧ item.leaseOwner = none := by
  obtain ⟨email₀, message, item, -, -, -, -, hd, hl, rfl, rfl⟩ :=
    MemoryStore.rescheduleEmailAndOutbox_eq_some.mp h
  refine ⟨OrderedMap.get_set_self _ _ _, rfl, ⟨_, OrderedMap.get_set_self _ _ _, rfl⟩, ?_⟩
  exact ⟨{ item with dueAt := t, updatedAt := now }, OrderedMap.get_set_self _ _ _, rfl, hd, hl⟩

/-! ## Sample runs -/

/-- A queued message, and its outbox item. -/
def queuedRows : D1MessageRows where
  email := some sampleCommit.email
  message := some sampleCommit.message
  revision := some 0
  recipients := sampleCommit.recipients
  outbox := some { entity := sampleCommit.outbox, dueAt := 1000, attempts := 0 }

/-- Its reschedule to a later time. -/
def laterCall : RescheduleCall where
  scheduledAt := 90000
  now := 5000

/-- The same, of an email whose payload is gone. -/
def missingPayloadCall : RescheduleCall where
  scheduledAt := 90000
  now := 5000
  payload key := .error (.error ("Email payload " ++ key ++ " was not found."))

def rescheduleQueries : List RescheduleLabel :=
  [.query .header, .query .recipients, .query .attempts, .query .outbox]

/-- The item is leased between the queries and the batch. -/
def leasedMeanwhile : List RescheduleLabel :=
  rescheduleQueries ++ [.write (.leaseDueOutbox sampleCommit.outbox "worker" 60 4000), .finish]

theorem init_unread (call : RescheduleCall) (rows : D1MessageRows) :
    (system call).init ⟨rows, {}, none⟩ := ⟨rfl, rfl⟩

/-- Nobody else writes: the call reschedules all three rows. -/
theorem reschedule_all_or_nothing_iff_sample : ∃ w done, (system laterCall).Reachable w ∧
    w.ended = some done ∧ done.after.email ≠ done.before.email ∧ done.AllOrNothing 90000 := by
  have hrun : ((system laterCall).run ⟨queuedRows, {}, none⟩ (rescheduleQueries ++ [.finish])).any
      (fun w => w.ended.any fun done => decide (done.after.email ≠ done.before.email ∧
        done.before = queuedRows ∧ w.read.header = (queuedRows.query {} .header).header ∧
          w.read.outbox = (queuedRows.query {} .outbox).outbox)) = true := by
    decide +kernel
  obtain ⟨w, hw, hended⟩ := TransitionSystem.exists_reachable_of_run (init_unread _ _) hrun
  obtain ⟨done, hdone, hend⟩ := (Option.any_eq_true _ _).mp hended
  obtain ⟨hchanged, hbefore, hheader, houtbox⟩ := of_decide_eq_true hend
  refine ⟨w, done, hw, hdone, hchanged, (reschedule_all_or_nothing_iff hw hdone).mpr ?_⟩
  rw [hbefore]
  refine RescheduleCall.undisturbed_of_unchanged hheader houtbox (fun row hrow => ?_)
    fun email hemail => ?_
  · obtain rfl := Option.some.inj hrow
    exact ⟨rfl, rfl⟩
  · obtain rfl := Option.some.inj hemail
    rfl

/-- The outbox item is leased between the queries and the batch: the email and the message are
rescheduled, the item is not and is about to be dispatched, and the rescheduled record is returned.
And the payload of an email is gone: the three rows are rescheduled, and the call throws. -/
theorem reschedule_partial :
    (∃ w done, (system laterCall).Reachable w ∧ w.ended = some done ∧
      ¬ done.AllOrNothing laterCall.scheduledAt) ∧
    ∃ w done, (system missingPayloadCall).Reachable w ∧ w.ended = some done ∧
      ¬ done.AllOrNothing missingPayloadCall.scheduledAt := by
  have hleased : ((system laterCall).run ⟨queuedRows, {}, none⟩ leasedMeanwhile).any
      (fun w => w.ended.any fun done => (done.outcome.toOption.bind id).isSome &&
        done.after.outbox.all fun row => decide (row.dueAt ≠ laterCall.scheduledAt)) = true := by
    decide +kernel
  have hgone : ((system missingPayloadCall).run
      ⟨{ queuedRows with email := some { sampleCommit.email with payloadRef := some "key" } },
        {}, none⟩ (rescheduleQueries ++ [.finish])).any
      (fun w => w.ended.any fun done => done.outcome.toOption.isNone &&
        decide (done.after.email ≠ done.before.email)) = true := by
    decide +kernel
  constructor
  · obtain ⟨w, hw, hended⟩ := TransitionSystem.exists_reachable_of_run (init_unread _ _) hleased
    obtain ⟨⟨before, after, outcome⟩, hdone, hpartial⟩ := (Option.any_eq_true _ _).mp hended
    obtain ⟨hreturned, houtbox⟩ := Bool.and_eq_true_iff.mp hpartial
    refine ⟨w, _, hw, hdone, fun h => ?_⟩
    match outcome with
    | .error e => cases hreturned
    | .ok none => cases hreturned
    | .ok (some record) =>
      obtain ⟨row, hget, hrow⟩ := h.outbox
      have hdue := (Option.all_eq_true _ _).mp houtbox row hget
      exact of_decide_eq_true hdue hrow.dueAt.1
  · obtain ⟨w, hw, hended⟩ := TransitionSystem.exists_reachable_of_run (init_unread _ _) hgone
    obtain ⟨⟨before, after, outcome⟩, hdone, hpartial⟩ := (Option.any_eq_true _ _).mp hended
    obtain ⟨hthrown, hemail⟩ := Bool.and_eq_true_iff.mp hpartial
    refine ⟨w, _, hw, hdone, fun h => ?_⟩
    match outcome with
    | .error e => exact of_decide_eq_true hemail h.1
    | .ok record => cases hthrown

end HayaSend
