import HayaSend.Core.LedgerPlans
import HayaSend.Core.ProviderEventOrder

/-!
# Plans keep the records in order

A planner checks the whole ledger before it looks at what it is asked (`assertLedgerState`), so a
ledger with one record out of order takes no further attempt and no event. No plan leaves such a
ledger: from a ledger that passes the check every planner returns one that passes it, with the
identities, the provider and the times of creation it found (`DeliveryLedgerState.Keeps`).
-/

namespace HayaSend

namespace DeliveryLedgerState

/-- What a plan leaves of the ledger it was made on; `a` is the attempt written with it. -/
structure Keeps (s s' : DeliveryLedgerState) (a : Option AttemptRecord) : Prop where
  consistent : s'.Consistent
  frame : s.Frame s'
  provider : s'.message.provider = s.message.provider
  created : (∀ r ∈ s.recipients, r.createdAt = s.message.createdAt) →
    ∀ r ∈ s'.recipients, r.createdAt = s'.message.createdAt
  attempt : ∀ b, a = some b → b ∈ s'.attempts
  attempts : ∀ b ∈ s.attempts, (∀ c, a = some c → c.id ≠ b.id) → b ∈ s'.attempts

/-- The attempt that is written belongs to the ledger. -/
theorem Keeps.written {s s' : DeliveryLedgerState} {a : Option AttemptRecord} (h : s.Keeps s' a)
    {b : AttemptRecord} (hb : a = some b) : b.Valid ∧ b.messageId = s'.message.id ∧
      b.provider = s'.message.provider ∧ b.recipientIds ⊆ s'.message.recipientIds := by
  have hmem := h.attempt b hb
  obtain ⟨hmessage, hprovider⟩ := h.consistent.attempt_message b hmem
  refine ⟨h.consistent.attempts_valid b hmem, hmessage, hprovider, fun id hid => ?_⟩
  exact h.consistent.recipient_ids.mem_iff.mp (h.consistent.attempt_recipients b hmem id hid)

namespace Consistent

variable {s : DeliveryLedgerState}

/-- Other statuses and times, on recipients that are valid. -/
theorem restated (h : s.Consistent) {s' : DeliveryLedgerState} (hf : s.Frame s')
    (hp : s'.message.provider = s.message.provider) (hm : s'.message.Valid)
    (hr : ∀ r ∈ s'.recipients, r.Valid) (ha : s'.attempts = s.attempts) : s'.Consistent := by
  have hids : s'.recipients.map (·.id) = s.recipients.map (·.id) := by
    simpa [Function.comp_def] using congrArg (List.map Prod.fst) hf.recipients
  refine ⟨hm, hr, ha ▸ h.attempts_valid, ?_, ?_, ?_, ha ▸ h.attempt_ids, ha ▸ h.attempt_sequences,
    ?_, ?_⟩
  · rw [hf.email_id, hf.message_id, h.email_id]
  · rw [hids, hf.recipient_ids]
    exact h.recipient_ids
  · intro r hr
    have hmem : (r.id, r.messageId) ∈ s.recipients.map fun r => (r.id, r.messageId) :=
      hf.recipients ▸ List.mem_map_of_mem hr
    obtain ⟨r', hr', heq⟩ := List.mem_map.mp hmem
    rw [hf.message_id, ← h.recipient_message r' hr']
    exact (congrArg Prod.snd heq).symm
  · rw [ha, hf.message_id, hp]
    exact h.attempt_message
  · rw [ha, hids]
    exact h.attempt_recipients

/-- One more attempt. -/
theorem addAttempt (h : s.Consistent) {a : AttemptRecord} (hv : a.Valid)
    (hm : a.messageId = s.message.id) (hp : a.provider = s.message.provider)
    (hr : ∀ id ∈ a.recipientIds, id ∈ s.recipients.map (·.id))
    (hnew : ∀ b ∈ s.attempts, b.id ≠ a.id ∧ b.sequence ≠ a.sequence) :
    Consistent { s with attempts := s.attempts ++ [a] } := by
  have hnodup : ∀ {α : Type} (f : AttemptRecord → α), (s.attempts.map f).Nodup →
      (∀ b ∈ s.attempts, f b ≠ f a) → ((s.attempts ++ [a]).map f).Nodup := by
    intro α f hn hf
    rw [List.map_append, List.map_singleton, List.nodup_append]
    refine ⟨hn, List.nodup_singleton _, fun x hx y hy => ?_⟩
    obtain ⟨b, hb, rfl⟩ := List.mem_map.mp hx
    rw [List.mem_singleton.mp hy]
    exact hf b hb
  exact ⟨h.message_valid, h.recipients_valid,
    List.forall_mem_append.mpr ⟨h.attempts_valid, List.forall_mem_singleton.mpr hv⟩, h.email_id,
    h.recipient_ids, h.recipient_message, hnodup _ h.attempt_ids fun b hb => (hnew b hb).1,
    hnodup _ h.attempt_sequences fun b hb => (hnew b hb).2,
    List.forall_mem_append.mpr ⟨h.attempt_message, List.forall_mem_singleton.mpr ⟨hm, hp⟩⟩,
    List.forall_mem_append.mpr ⟨h.attempt_recipients, List.forall_mem_singleton.mpr hr⟩⟩

/-- Another outcome of an attempt. -/
theorem setAttempt (h : s.Consistent) {i : ℕ} {a b : AttemptRecord} (hi : s.attempts[i]? = some a)
    (hv : b.Valid) (hid : b.id = a.id) (hm : b.messageId = a.messageId)
    (hp : b.provider = a.provider) (hseq : b.sequence = a.sequence)
    (hr : b.recipientIds = a.recipientIds) :
    Consistent { s with attempts := s.attempts.set i b } := by
  have hmem := List.mem_of_getElem? hi
  refine ⟨h.message_valid, h.recipients_valid, forall_mem_set h.attempts_valid hv, h.email_id,
    h.recipient_ids, h.recipient_message, ?_, ?_, forall_mem_set h.attempt_message ?_,
    forall_mem_set h.attempt_recipients ?_⟩
  · exact (map_set_eq (·.id) hi hid).symm ▸ h.attempt_ids
  · exact (map_set_eq (·.sequence) hi hseq).symm ▸ h.attempt_sequences
  · rw [hm, hp]
    exact h.attempt_message a hmem
  · rw [hr]
    exact h.attempt_recipients a hmem

end Consistent

/-- A start. -/
theorem Starts.keeps {s : DeliveryLedgerState} {a : AttemptRecord} (h : s.Starts a) :
    s.Keeps (s.started a) (some a) := by
  have hmatch := h.isMatch
  simp only [attemptMatches, Bool.and_eq_true, beq_iff_eq, Bool.not_eq_true', List.any_eq_false,
    Bool.or_eq_true, not_or] at hmatch
  obtain ⟨⟨-, hnew⟩, -⟩ := hmatch
  obtain ⟨hmid, hprovider, hnames⟩ := h.names
  have hids : (s.recipients.map (startRecipient a)).map (·.id) = s.recipients.map (·.id) := by
    rw [List.map_map]
    rfl
  have hrecipients : ∀ id ∈ a.recipientIds,
      id ∈ (s.recipients.map (startRecipient a)).map (·.id) := by
    rw [hids]
    exact hnames
  have hframe := (LedgerMove.started a h.isMatch h.queued).frame
  have hbase : Consistent { s.started a with attempts := s.attempts } := by
    refine h.consistent.restated ⟨hframe.1, hframe.2, hframe.3, hframe.4⟩ rfl h.message_valid ?_ rfl
    intro r hr
    obtain ⟨r', hr', rfl⟩ := List.mem_map.mp hr
    exact h.recipients_valid r' hr'
  refine ⟨hbase.addAttempt h.attempt_valid hmid hprovider hrecipients hnew, hframe, rfl, ?_, ?_,
    fun b hb _ => List.mem_append_left _ hb⟩
  · intro hcreated r hr
    obtain ⟨r', hr', rfl⟩ := List.mem_map.mp hr
    exact hcreated r' hr'
  · intro b hb
    rw [← Option.some.inj hb]
    exact List.mem_append_right _ (List.mem_singleton_self _)

/-- A completion. -/
theorem Completes.keeps {s : DeliveryLedgerState} {i : ℕ} {a : AttemptRecord}
    {input : AttemptCompletion} (h : s.Completes i a input) :
    s.Keeps (s.completed i a input) (some (completedAttempt input a)) := by
  have hcases : ∀ r ∈ s.recipients, (completeRecipient a input r).Valid := by
    intro r hr
    cases howns : a.owns r with
    | true => exact h.recipients_valid r hr howns
    | false =>
      rw [completeRecipient, howns, if_neg Bool.false_ne_true]
      exact h.consistent.recipients_valid r hr
  have hframe := (LedgerMove.completed i a input h.attempt h.attempt_id h.submitting).frame
  have hbase : Consistent { s.completed i a input with attempts := s.attempts } := by
    refine h.consistent.restated ⟨hframe.1, hframe.2, hframe.3, hframe.4⟩ rfl h.message_valid ?_ rfl
    intro r hr
    obtain ⟨r', hr', rfl⟩ := List.mem_map.mp hr
    exact hcases r' hr'
  have hlt : i < s.attempts.length := (List.getElem?_eq_some_iff.mp h.attempt).1
  refine ⟨hbase.setAttempt h.attempt h.attempt_valid rfl rfl rfl rfl rfl, hframe, rfl, ?_, ?_, ?_⟩
  · intro hcreated r hr
    obtain ⟨r', hr', rfl⟩ := List.mem_map.mp hr
    have hkept : (completeRecipient a input r').createdAt = r'.createdAt := by
      unfold completeRecipient
      split_ifs <;> rfl
    rw [hkept]
    exact hcreated r' hr'
  · intro b hb
    rw [← Option.some.inj hb]
    exact List.mem_set hlt _
  · intro b hb hne
    obtain ⟨j, hj⟩ := List.mem_iff_getElem?.mp hb
    refine List.mem_iff_getElem?.mpr ⟨j, ?_⟩
    show (s.attempts.set i (completedAttempt input a))[j]? = some b
    rw [List.getElem?_set_ne, hj]
    rintro rfl
    rw [h.attempt, Option.some.injEq] at hj
    exact hne _ rfl (congrArg (·.id) hj)

/-- Statuses that an event or a local state writes. -/
theorem Restates.keeps {s : DeliveryLedgerState} {status : RecipientRecord → RecipientStatus}
    {t : ℕ} (h : s.Restates status t) (publicError : Option String) :
    s.Keeps (s.restate (s.recipients.map fun r => r.withStatus (status r) t) t publicError)
      none := by
  have hvalid : ∀ r ∈ s.recipients, (r.withStatus (status r) t).Valid := by
    intro r hr
    cases hchanged : status r != r.status with
    | true => exact h.recipients_valid r hr hchanged
    | false =>
      rw [RecipientRecord.withStatus, hchanged, if_neg Bool.false_ne_true]
      exact h.consistent.recipients_valid r hr
  have hframe : s.Frame (s.restate (s.recipients.map fun r => r.withStatus (status r) t) t
      publicError) := by
    refine ⟨rfl, rfl, rfl, ?_⟩
    show (s.recipients.map _).map _ = _
    rw [List.map_map]
    exact List.map_congr_left fun r _ => by simp
  refine ⟨h.consistent.restated hframe rfl h.message_valid ?_ rfl, hframe, rfl, ?_,
    fun b hb => absurd hb (Option.some_ne_none b).symm, fun b hb _ => hb⟩
  · intro r hr
    obtain ⟨r', hr', rfl⟩ := List.mem_map.mp hr
    exact hvalid r' hr'
  · intro hcreated r hr
    obtain ⟨r', hr', rfl⟩ := List.mem_map.mp hr
    rw [withStatus_createdAt]
    exact hcreated r' hr'

end DeliveryLedgerState

end HayaSend
