import HayaSend.Core.DeliveryModel
import HayaSend.Foundations.Fallible
import Mathlib.Data.List.Perm.Subperm

/-!
# The atomic delivery commit

An email enters the store together with its message, its recipients, its outbox item and, when the
caller gave a key, its idempotency claim. `validateDeliveryCommit` checks that the records describe
one delivery; `DeliveryCommit.Consistent` is what the rest of the development uses of it.
-/

namespace HayaSend

structure DeliveryCommit where
  email : EmailRecord
  message : MessageRecord
  recipients : List RecipientRecord
  outbox : OutboxItemRecord
  idempotency : Option IdempotencyClaim := none
  deriving DecidableEq, Repr

/-- The message status with the same name, for the statuses a commit may have. -/
def EmailStatus.initialMessageStatus : EmailStatus → Option MessageStatus
  | .queued => some .queued
  | .scheduled => some .scheduled
  | .suppressed => some .suppressed
  | _ => none

/-- The status of every recipient of a new delivery. -/
def EmailStatus.initialRecipientStatus (s : EmailStatus) : RecipientStatus :=
  if s = .suppressed then .suppressed else .queued

/-- The email and the message agree on what both store. -/
def DeliveryCommit.recordsMatch (c : DeliveryCommit) : Bool :=
  c.email.id == c.message.id && c.email.requestHash == c.message.intentDigest &&
    c.email.createdAt == c.message.createdAt && c.email.updatedAt == c.message.updatedAt &&
    c.email.status.initialMessageStatus == some c.message.status &&
    c.email.scheduledAt == c.message.scheduledAt

/-- The recipients are those the message lists, each in its initial state. -/
def DeliveryCommit.recipientsMatch (c : DeliveryCommit) : Bool :=
  let recipientIds := c.recipients.map (·.id)
  !c.recipients.isEmpty && recipientIds.Nodup &&
    c.message.recipientIds.length == c.recipients.length &&
    c.message.recipientIds.all (recipientIds.contains ·) &&
    c.recipients.all fun r =>
      r.messageId == c.message.id && r.status == c.email.status.initialRecipientStatus &&
        r.latestAttemptId == none && r.createdAt == c.message.createdAt &&
        r.updatedAt == c.message.updatedAt

/-- The outbox item is the first of the message, due when the email is. -/
def DeliveryCommit.outboxMatches (c : DeliveryCommit) : Bool :=
  let expectedDueAt := c.email.scheduledAt.getD c.email.createdAt
  let expectedDispatchedAt := if c.email.status = .suppressed then some c.email.updatedAt else none
  c.outbox.messageId == c.message.id && c.outbox.jobType == .dispatchMessage &&
    c.outbox.generation == 0 && c.outbox.dueAt == expectedDueAt && c.outbox.attempts == 0 &&
    c.outbox.leaseOwner == none && c.outbox.leaseExpiresAt == none &&
    c.outbox.dispatchedAt == expectedDispatchedAt && c.outbox.lastDiagnosticCategory == none &&
    c.outbox.createdAt == c.message.createdAt && c.outbox.updatedAt == c.message.updatedAt

/-- `validateDeliveryCommit`. The current time is a natural number by its type, so the check of it
has no counterpart. -/
def validateDeliveryCommit (input : DeliveryCommit) (nowEpochSeconds : ℕ) :
    Except Failure DeliveryCommit := do
  let message ← input.message.parse
  let recipients ← input.recipients.mapM RecipientRecord.parse
  let outbox ← input.outbox.parse
  let c := { input with message := message, recipients := recipients, outbox := outbox }
  throwIf (c.email.status.initialMessageStatus == none)
    (.error "Atomic delivery commit requires a dispatchable or suppressed email.")
  throwIf (!c.recordsMatch)
    (.error "Legacy email and provider-neutral message records do not match.")
  throwIf (c.idempotency.any fun claim =>
      claim.requestHash != c.email.requestHash || decide (claim.expiresAt ≤ nowEpochSeconds))
    (.error "Idempotency claim does not match the delivery intent.")
  throwIf (!c.recipientsMatch) (.error "Recipient records do not match the delivery message.")
  throwIf (!decide (c.recipients.map (·.address.toLower)).Nodup ||
      !decide (c.recipients.map fun r => (r.role, r.ordinal)).Nodup)
    (.error "Delivery recipients must have unique addresses and envelope positions.")
  throwIf (!c.outboxMatches) (.error "Outbox item does not match the delivery intent.")
  return c

/-- What the validation establishes. -/
structure DeliveryCommit.Consistent (c : DeliveryCommit) : Prop where
  message_valid : c.message.Valid
  recipients_valid : ∀ r ∈ c.recipients, r.Valid
  outbox_valid : c.outbox.Valid
  records : c.recordsMatch = true
  recipients : c.recipientsMatch = true
  outbox : c.outboxMatches = true

theorem mapM_parse_eq_ok {rs rs' : List RecipientRecord} :
    rs.mapM RecipientRecord.parse = .ok rs' ↔ (∀ r ∈ rs, r.Valid) ∧ rs = rs' := by
  rw [mapM_eq_ok_map fun _ _ _ => RecipientRecord.parse_eq_ok, List.map_id']

theorem validateDeliveryCommit_eq_ok {input c : DeliveryCommit} {now : ℕ}
    (h : validateDeliveryCommit input now = .ok c) : input = c ∧ c.Consistent := by
  obtain ⟨message, hm, h⟩ := bind_eq_ok.mp h
  obtain ⟨recipients, hr, h⟩ := bind_eq_ok.mp h
  obtain ⟨outbox, ho, h⟩ := bind_eq_ok.mp h
  obtain ⟨hmv, rfl⟩ := MessageRecord.parse_eq_ok.mp hm
  obtain ⟨hrv, rfl⟩ := mapM_parse_eq_ok.mp hr
  obtain ⟨hov, rfl⟩ := OutboxItemRecord.parse_eq_ok.mp ho
  obtain ⟨_, _, h⟩ := bind_eq_ok.mp h
  obtain ⟨_, hmatch, h⟩ := bind_eq_ok.mp h
  obtain ⟨_, _, h⟩ := bind_eq_ok.mp h
  obtain ⟨_, hrecipients, h⟩ := bind_eq_ok.mp h
  obtain ⟨_, _, h⟩ := bind_eq_ok.mp h
  obtain ⟨_, houtbox, h⟩ := bind_eq_ok.mp h
  rw [pure_eq_ok] at h
  subst h
  refine ⟨rfl, hmv, hrv, hov, ?_, ?_, ?_⟩
  · simpa using hmatch
  · simpa using hrecipients
  · simpa using houtbox

/-- A consistent commit is accepted when its status is one to start with, its claim matches and no
two recipients share an address or an envelope position. -/
theorem DeliveryCommit.Consistent.validate {c : DeliveryCommit} {now : ℕ} (h : c.Consistent)
    (hstatus : c.email.status.initialMessageStatus ≠ none)
    (hclaim : ∀ claim, c.idempotency = some claim →
      claim.requestHash = c.email.requestHash ∧ now < claim.expiresAt)
    (haddresses : (c.recipients.map (·.address.toLower)).Nodup)
    (hpositions : (c.recipients.map fun r => (r.role, r.ordinal)).Nodup) :
    validateDeliveryCommit c now = .ok c := by
  have hany : (c.idempotency.any fun claim =>
      claim.requestHash != c.email.requestHash || decide (claim.expiresAt ≤ now)) = false := by
    cases hi : c.idempotency with
    | none => rfl
    | some claim =>
      obtain ⟨hhash, hlive⟩ := hclaim claim hi
      simp [hhash, hlive]
  rw [validateDeliveryCommit, MessageRecord.parse_eq_ok.mpr ⟨h.message_valid, rfl⟩, ok_bind,
    mapM_parse_eq_ok.mpr ⟨h.recipients_valid, rfl⟩, ok_bind,
    OutboxItemRecord.parse_eq_ok.mpr ⟨h.outbox_valid, rfl⟩, ok_bind]
  simp only [h.records, h.recipients, h.outbox, hany, haddresses, hpositions, beq_eq_false_iff_ne.mpr
    hstatus, throwIf, decide_true, Bool.not_true, Bool.or_self, Bool.false_eq_true, if_false, ok_bind]
  rfl

/-- No two recipients of an accepted commit share an address or an envelope position. -/
theorem validateDeliveryCommit_unique {input c : DeliveryCommit} {now : ℕ}
    (h : validateDeliveryCommit input now = .ok c) :
    (c.recipients.map (·.address.toLower)).Nodup ∧
      (c.recipients.map fun r => (r.role, r.ordinal)).Nodup := by
  obtain ⟨message, _, h⟩ := bind_eq_ok.mp h
  obtain ⟨recipients, _, h⟩ := bind_eq_ok.mp h
  obtain ⟨outbox, _, h⟩ := bind_eq_ok.mp h
  obtain ⟨_, _, h⟩ := bind_eq_ok.mp h
  obtain ⟨_, _, h⟩ := bind_eq_ok.mp h
  obtain ⟨_, _, h⟩ := bind_eq_ok.mp h
  obtain ⟨_, _, h⟩ := bind_eq_ok.mp h
  obtain ⟨_, hunique, h⟩ := bind_eq_ok.mp h
  obtain ⟨_, _, h⟩ := bind_eq_ok.mp h
  rw [pure_eq_ok] at h
  subst h
  rw [throwIf_eq_ok, Bool.or_eq_false_iff, Bool.not_eq_false', Bool.not_eq_false',
    decide_eq_true_eq, decide_eq_true_eq] at hunique
  exact hunique

namespace DeliveryCommit.Consistent

variable {c : DeliveryCommit}

theorem email_id (h : c.Consistent) : c.email.id = c.message.id := by
  have := h.records
  simp only [recordsMatch, Bool.and_eq_true, beq_iff_eq] at this
  exact this.1.1.1.1.1

theorem message_status (h : c.Consistent) :
    c.email.status.initialMessageStatus = some c.message.status := by
  have := h.records
  simp only [recordsMatch, Bool.and_eq_true, beq_iff_eq] at this
  exact this.1.2

theorem created_eq (h : c.Consistent) : c.email.createdAt = c.message.createdAt := by
  have := h.records
  simp only [recordsMatch, Bool.and_eq_true, beq_iff_eq] at this
  exact this.1.1.1.2

theorem schedule_eq (h : c.Consistent) : c.email.scheduledAt = c.message.scheduledAt := by
  have := h.records
  simp only [recordsMatch, Bool.and_eq_true, beq_iff_eq] at this
  exact this.2

theorem recipient (h : c.Consistent) {r : RecipientRecord} (hr : r ∈ c.recipients) :
    r.messageId = c.message.id ∧ r.status = c.email.status.initialRecipientStatus ∧
      r.latestAttemptId = none ∧ r.createdAt = c.message.createdAt := by
  have := h.recipients
  simp only [recipientsMatch, Bool.and_eq_true, List.all_eq_true, beq_iff_eq] at this
  have := this.2 r hr
  exact ⟨this.1.1.1.1, this.1.1.1.2, this.1.1.2, this.1.2⟩

/-- The recipients are those listed, possibly in another order. -/
theorem recipient_ids (h : c.Consistent) : (c.recipients.map (·.id)).Perm c.message.recipientIds := by
  have := h.recipients
  simp only [recipientsMatch, Bool.and_eq_true, List.all_eq_true, beq_iff_eq,
    List.contains_iff_mem, decide_eq_true_eq] at this
  obtain ⟨⟨⟨⟨-, hnd⟩, hlen⟩, hall⟩, -⟩ := this
  have hsub : c.message.recipientIds.Subperm (c.recipients.map (·.id)) :=
    List.subperm_of_subset h.message_valid.nodup hall
  exact (hsub.perm_of_length_le (by simp [hlen])).symm

theorem outbox_fields (h : c.Consistent) : c.outbox.messageId = c.message.id ∧
    c.outbox.dueAt = c.email.scheduledAt.getD c.email.createdAt ∧ c.outbox.leaseOwner = none ∧
    c.outbox.dispatchedAt = if c.email.status = .suppressed then some c.email.updatedAt
      else none := by
  have := h.outbox
  simp only [outboxMatches, Bool.and_eq_true, beq_iff_eq] at this
  exact ⟨this.1.1.1.1.1.1.1.1.1.1, this.1.1.1.1.1.1.1.2, this.1.1.1.1.1.2, this.1.1.1.2⟩

/-- The identity of the outbox item is that of the first dispatch of the message. -/
theorem outbox_kind (h : c.Consistent) :
    c.outbox.jobType = .dispatchMessage ∧ c.outbox.generation = 0 := by
  have := h.outbox
  simp only [outboxMatches, Bool.and_eq_true, beq_iff_eq] at this
  exact ⟨this.1.1.1.1.1.1.1.1.1.2, this.1.1.1.1.1.1.1.1.2⟩

end DeliveryCommit.Consistent

end HayaSend
