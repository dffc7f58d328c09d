import HayaSend.Core.RecipientLedger

/-!
# The ledger of one message as a serial machine

A store keeps, for every message, its email, the message, its recipients, its attempts and its
provider events. Seven operations change them. `LedgerOp.apply` says what each does when it runs
alone: the four ledger operations write back a plan, the other three write fields of the email,
and of the message when a schedule moves. `none` means the operation changes nothing, because a
check of it fails.

This is the reference of the stores: each of them is compared with this machine.
-/

namespace HayaSend

/-- `DeliveryLedgerSnapshot` -/
structure DeliveryLedgerSnapshot extends DeliveryLedgerState where
  events : List ProviderEventRecord
  deriving DecidableEq, Repr

/-! ## Changes of the email alone -/

/-- The condition of `claimEmailForSend`: pending, or sending under an expired lease. -/
def EmailRecord.claimable (e : EmailRecord) (now : ℕ) : Bool :=
  e.status.isPending || (e.status == .sending && e.sendLeaseUntil.any (· < epochSeconds now))

/-- The record `claimEmailForSend` writes. -/
def EmailRecord.claimed (e : EmailRecord) (attempts now : ℕ) : EmailRecord :=
  { e with
    status := .sending
    lastEvent := .status .sending
    attempts := attempts
    updatedAt := now
    sendLeaseUntil := some (epochSeconds now + 120)
    error := none }

/-- A `Partial<EmailRecord>`: the outer `none` is an absent key, which leaves the field alone. -/
structure EmailUpdates where
  scheduledAt : Option ℕ := none
  status : Option EmailStatus := none
  lastEvent : Option LastEvent := none
  updatedAt : Option ℕ := none
  providerId : Option String := none
  error : Option (Option String) := none
  sendLeaseUntil : Option (Option ℕ) := none
  deriving DecidableEq, Repr

def EmailUpdates.applyTo (u : EmailUpdates) (e : EmailRecord) : EmailRecord :=
  { e with
    scheduledAt := u.scheduledAt.or e.scheduledAt
    status := u.status.getD e.status
    lastEvent := u.lastEvent.getD e.lastEvent
    updatedAt := u.updatedAt.getD e.updatedAt
    providerId := u.providerId.or e.providerId
    error := u.error.getD e.error
    sendLeaseUntil := u.sendLeaseUntil.getD e.sendLeaseUntil }

/-- The condition of `updateEmail`. -/
def EmailRecord.updatable (e : EmailRecord) (fromStatuses : Option (List EmailStatus)) : Bool :=
  fromStatuses.all (·.contains e.status)

/-- The email a reschedule writes. -/
def EmailRecord.rescheduled (e : EmailRecord) (scheduledAt now : ℕ) : EmailRecord :=
  { e with
    scheduledAt := some scheduledAt
    status := .scheduled
    lastEvent := .status .scheduled
    updatedAt := now }

/-- The message a reschedule writes. -/
def MessageRecord.rescheduled (m : MessageRecord) (scheduledAt now : ℕ) : MessageRecord :=
  { m with
    scheduledAt := some scheduledAt
    status := .scheduled
    updatedAt := now }

/-- The updates `EmailService.reschedule` asks for when the outbox item is gone. -/
def rescheduleUpdates (scheduledAt now : ℕ) : EmailUpdates where
  scheduledAt := some scheduledAt
  status := some .scheduled
  lastEvent := some (.status .scheduled)
  updatedAt := some now

/-- The statuses a cancel or a reschedule may start from. -/
def pendingStatuses : List EmailStatus := [.queued, .scheduled]

/-! ## The operations -/

inductive LedgerOp
  | beginAttempt (attempt : AttemptRecord)
  | completeAttempt (input : AttemptCompletion)
  | appendEvent (event : ProviderEventRecord)
  | applyLocalState (status : LocalStatus) (updatedAt : ℕ)
  /-- The argument computes the new attempts counter from the stored one. -/
  | claim (attempts : ℕ → ℕ) (now : ℕ)
  | updateEmail (updates : EmailUpdates) (fromStatuses : Option (List EmailStatus))
  | reschedule (scheduledAt now : ℕ)

/-- The snapshot an operation leaves, `none` when a check of it fails. -/
def LedgerOp.apply (s : DeliveryLedgerSnapshot) : LedgerOp → Option DeliveryLedgerSnapshot
  | .beginAttempt attempt =>
    (planAttemptStart s.toDeliveryLedgerState attempt).toOption.map fun p =>
      { p.1.toDeliveryLedgerState with events := s.events }
  | .completeAttempt input =>
    (planAttemptCompletion s.toDeliveryLedgerState input).toOption.map fun p =>
      { p.1.toDeliveryLedgerState with events := s.events }
  | .appendEvent event =>
    (planProviderEvent s.toDeliveryLedgerState event).toOption.map fun p =>
      { p.1.toDeliveryLedgerState with events := s.events ++ [p.2] }
  | .applyLocalState status updatedAt =>
    (planLocalRecipientState s.toDeliveryLedgerState status updatedAt).toOption.map fun p =>
      { p.toDeliveryLedgerState with events := s.events }
  | .claim attempts now =>
    if s.email.claimable now then
      some { s with email := s.email.claimed (attempts s.email.attempts) now }
    else none
  | .updateEmail updates fromStatuses =>
    if s.email.updatable fromStatuses then some { s with email := updates.applyTo s.email }
    else none
  | .reschedule scheduledAt now =>
    if s.email.status.isPending then
      some { s with
        email := s.email.rescheduled scheduledAt now
        message := s.message.rescheduled scheduledAt now }
    else none

/-- Of the updates of an email, only the reschedule reaches one that has a ledger; the others are
made where the service found none. -/
def LedgerOp.Permitted : LedgerOp → Prop
  | .updateEmail updates fromStatuses =>
    ∃ scheduledAt now, updates = rescheduleUpdates scheduledAt now ∧
      fromStatuses = some pendingStatuses
  | _ => True

end HayaSend
