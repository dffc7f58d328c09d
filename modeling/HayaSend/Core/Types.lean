import Mathlib.Algebra.Ring.Nat
import Mathlib.Data.List.Basic

/-!
# Records of the delivery service

The email record, its statuses, the jobs of the queue and the failures the services throw. Of the
email record the fields kept are those some delivery operation reads or writes; the message
content (sender, subject, bodies, headers, tags, attachments) passes through every one of them
unread.

Timestamps are natural numbers, milliseconds since the epoch. The source stores them as ISO 8601
text and compares them with `Date.parse`; every stored one comes out of `toISOString`, which keeps
milliseconds and orders text as time.
-/

namespace HayaSend

/-- `Math.floor(t / 1_000)`. -/
def epochSeconds (t : ℕ) : ℕ := t / 1000

/-- The `length` of a string, in UTF-16 code units. -/
def utf16Length (s : String) : ℕ := (s.toList.map fun c => if c.toNat < 0x10000 then 1 else 2).sum

/-! ## Failures -/

/-- What a schema reports about one field. `custom` carries the text of a refinement; the texts of
the other codes are those of the schema library. -/
inductive IssueCode
  | invalidFormat
  | tooSmall
  | tooBig
  | custom (message : String)
  deriving DecidableEq, Repr

/-- A schema issue at a field path. -/
structure Issue where
  path : List String
  code : IssueCode
  deriving DecidableEq, Repr

/-- A thrown error: the class, with what it carries. -/
inductive Failure
  /-- `Error` -/
  | error (message : String)
  /-- A failed schema parse. -/
  | schema (issues : List Issue)
  /-- `ValidationError` -/
  | validation (message : String)
  /-- `ConflictError` -/
  | conflict (message : String)
  /-- `InvalidStateError` -/
  | invalidState (message : String)
  /-- `NotFoundError` -/
  | notFound (entity : String)
  /-- `PreconditionFailedError` -/
  | preconditionFailed (message : String)
  /-- `UnauthorizedError` -/
  | unauthorized (message : String)
  /-- `ForbiddenError` -/
  | forbidden (message : String)
  deriving DecidableEq, Repr

/-! ## Emails -/

inductive EmailStatus
  | queued
  | scheduled
  | sending
  | sent
  | delivered
  | deliveryDelayed
  | opened
  | clicked
  | bounced
  | complained
  | failed
  | canceled
  | suppressed
  deriving DecidableEq, Repr

/-- `last_event`: the name of a status, or `retrying`. -/
inductive LastEvent
  | status (s : EmailStatus)
  | retrying
  deriving DecidableEq, Repr

structure EmailRecord where
  id : String
  to_ : List String
  cc : Option (List String) := none
  bcc : Option (List String) := none
  scheduledAt : Option ℕ := none
  status : EmailStatus
  lastEvent : LastEvent
  createdAt : ℕ
  updatedAt : ℕ
  providerId : Option String := none
  requestHash : String
  attempts : ℕ
  error : Option String := none
  /-- Epoch seconds. -/
  sendLeaseUntil : Option ℕ := none
  payloadRef : Option String := none
  deriving DecidableEq, Repr

/-- The statuses from which an email may be sent, canceled or rescheduled. -/
def EmailStatus.isPending (s : EmailStatus) : Bool := s == .queued || s == .scheduled

/-- `FINAL_STATUSES` -/
def EmailStatus.isFinal : EmailStatus → Bool
  | .queued | .scheduled | .sending => false
  | _ => true

@[simp] theorem EmailStatus.isPending_iff (s : EmailStatus) :
    s.isPending = true ↔ s = .queued ∨ s = .scheduled := by
  cases s <;> decide

theorem EmailStatus.isFinal_eq_false_iff (s : EmailStatus) :
    s.isFinal = false ↔ s = .queued ∨ s = .scheduled ∨ s = .sending := by
  cases s <;> decide

/-- A stored idempotency claim; the expiry is in epoch seconds. -/
structure IdempotencyClaim where
  keyHash : String
  requestHash : String
  expiresAt : ℕ
  deriving DecidableEq, Repr

/-! ## Jobs -/

/-- The jobs of the delivery path. -/
inductive Job
  | sendEmail (emailId : String) (jobId : Option String)
  | reconcileOutbox (outboxId : Option String)
  deriving DecidableEq, Repr

end HayaSend
