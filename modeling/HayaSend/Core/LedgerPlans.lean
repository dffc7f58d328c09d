import HayaSend.Core.LedgerInvariant

/-!
# Plans and the attempts they were made on

When exactly a planner answers with a plan, and with which one: `planAttemptStart_iff` and its
siblings. A store may plan on attempts that have changed since they were read. Over records that
are otherwise as they were read, the plan is still the one the present ledger gives
(`DeliveryLedgerState.Starts.current` and its siblings), where the ledger is `Sound`: an invariant
that says nothing of the two statuses, so that an update of the email keeps it.
-/

namespace HayaSend

/-! ## The plans -/

/-- The start that a ledger in order lets through. -/
structure DeliveryLedgerState.Starts (s : DeliveryLedgerState) (a : AttemptRecord) : Prop where
  consistent : s.Consistent
  attempt_valid : a.Valid
  isMatch : attemptMatches s a = true
  queued : s.AllQueued
  recipients_ne_nil : s.recipients ≠ []
  recipients_valid : ∀ r ∈ s.recipients, (startRecipient a r).Valid
  message_valid : (s.started a).message.Valid

/-- The attempt of a start is one of the message, and for its recipients. -/
theorem DeliveryLedgerState.Starts.names {s : DeliveryLedgerState} {a : AttemptRecord}
    (h : s.Starts a) : a.messageId = s.message.id ∧ a.provider = s.message.provider ∧
      ∀ id ∈ a.recipientIds, id ∈ s.recipients.map (·.id) := by
  have hmatch := h.isMatch
  simp only [attemptMatches, Bool.and_eq_true, beq_iff_eq, List.all_eq_true,
    List.contains_iff_mem] at hmatch
  obtain ⟨⟨⟨⟨⟨⟨⟨hmessage, hprovider⟩, -⟩, -⟩, hlength⟩, hcovers⟩, -⟩, -⟩ := hmatch
  refine ⟨hmessage, hprovider, fun id hid => ?_⟩
  -- an attempt that covers the recipients and names as many names no other
  have hsub : s.message.recipientIds.Subperm a.recipientIds :=
    List.subperm_of_subset h.consistent.message_valid.nodup hcovers
  rw [h.consistent.recipient_ids.mem_iff]
  exact (hsub.perm_of_length_le (by rw [hlength])).mem_iff.mpr hid

theorem planAttemptStart_iff {s : DeliveryLedgerState} (ho : s.Ordered) {a a' : AttemptRecord}
    {p : DeliveryLedgerPlan} : planAttemptStart s a = .ok (p, a') ↔
      s.Starts a ∧ a' = a ∧ p = ⟨s.started a, s.recipients.map (·.id)⟩ := by
  constructor
  · intro h
    obtain ⟨s', hs, h⟩ := bind_eq_ok.mp h
    obtain ⟨hc, rfl⟩ := (assertLedgerState_of_ordered ho).mp hs
    obtain ⟨b, hb, h⟩ := bind_eq_ok.mp h
    obtain ⟨hav, rfl⟩ := AttemptRecord.parse_eq_ok.mp hb
    obtain ⟨_, hm, h⟩ := bind_eq_ok.mp h
    obtain ⟨_, hq, h⟩ := bind_eq_ok.mp h
    obtain ⟨rs, hrs, h⟩ := bind_eq_ok.mp h
    obtain ⟨m, hm', h⟩ := bind_eq_ok.mp h
    rw [mapM_eq_ok_map fun _ _ _ => RecipientRecord.parse_eq_ok] at hrs
    obtain ⟨hrv, rfl⟩ := hrs
    obtain ⟨hne, hmv, rfl⟩ := updateMessage_eq_ok.mp hm'
    rw [pure_eq_ok, Prod.mk.injEq] at h
    obtain ⟨rfl, rfl⟩ := h
    refine ⟨⟨hc, hav, by simpa using hm, ?_, by simpa using hne, hrv, hmv⟩, rfl, ?_⟩
    · simpa [DeliveryLedgerState.AllQueued] using hq
    · rw [List.map_map]
      rfl
  · rintro ⟨h, rfl, rfl⟩
    refine bind_eq_ok.mpr ⟨s, (assertLedgerState_of_ordered ho).mpr ⟨h.consistent, rfl⟩, ?_⟩
    refine bind_eq_ok.mpr ⟨a', AttemptRecord.parse_eq_ok.mpr ⟨h.attempt_valid, rfl⟩, ?_⟩
    refine bind_eq_ok.mpr ⟨(), by simp [h.isMatch], ?_⟩
    refine bind_eq_ok.mpr ⟨(), by simpa [DeliveryLedgerState.AllQueued] using h.queued, ?_⟩
    refine bind_eq_ok.mpr ⟨s.recipients.map (startRecipient a'), ?_, ?_⟩
    · rw [mapM_eq_ok_map fun _ _ _ => RecipientRecord.parse_eq_ok]
      exact ⟨h.recipients_valid, rfl⟩
    refine bind_eq_ok.mpr ⟨_, updateMessage_eq_ok.mpr ⟨?_, h.message_valid, rfl⟩, ?_⟩
    · simpa using h.recipients_ne_nil
    rw [pure_eq_ok, List.map_map]
    rfl

/-- The completion that a ledger in order lets through. -/
structure DeliveryLedgerState.Completes (s : DeliveryLedgerState) (i : ℕ) (a : AttemptRecord)
    (input : AttemptCompletion) : Prop where
  consistent : s.Consistent
  attempt : s.attempts[i]? = some a
  attempt_id : a.id = input.attemptId
  message_id : a.messageId = input.messageId
  submitting : a.status = .submitting
  owns : ∀ r ∈ s.recipients, r.id ∈ a.recipientIds →
    r.status = .sending ∧ r.latestAttemptId = some a.id
  attempt_valid : (completedAttempt input a).Valid
  recipients_ne_nil : s.recipients ≠ []
  recipients_valid : ∀ r ∈ s.recipients, a.owns r = true → (completeRecipient a input r).Valid
  message_valid : (s.completed i a input).message.Valid

theorem findIdx_of_attempt {s : DeliveryLedgerState} (hn : (s.attempts.map (·.id)).Nodup) {i : ℕ}
    {a : AttemptRecord} (hi : s.attempts[i]? = some a) {id messageId : String} (hid : a.id = id)
    (hm : a.messageId = messageId) :
    s.attempts.findIdx (fun b => b.id == id && b.messageId == messageId) = i := by
  obtain ⟨hlt, hget⟩ := List.getElem?_eq_some_iff.mp hi
  refine (List.findIdx_eq hlt).mpr ⟨by simp [hget, hid, hm], fun j hji => ?_⟩
  have hne : s.attempts[j].id ≠ id := by
    intro heq
    have hjlt : j < (s.attempts.map (·.id)).length := by simpa using hji.trans hlt
    have hilt : i < (s.attempts.map (·.id)).length := by simpa using hlt
    have hij : (⟨j, hjlt⟩ : Fin _) = ⟨i, hilt⟩ := hn.get_inj_iff.mp (by simp [hget, heq, hid])
    exact absurd (Fin.mk.inj hij) hji.ne
  simp [hne]

theorem planAttemptCompletion_iff {s : DeliveryLedgerState} (ho : s.Ordered)
    {input : AttemptCompletion} {a' : AttemptRecord} {p : DeliveryLedgerPlan} :
    planAttemptCompletion s input = .ok (p, a') ↔ ∃ i a, s.Completes i a input ∧
      a' = completedAttempt input a ∧
        p = ⟨s.completed i a input, (s.recipients.filter a.owns).map (·.id)⟩ := by
  constructor
  · intro h
    obtain ⟨s', hs, h⟩ := bind_eq_ok.mp h
    obtain ⟨hc, rfl⟩ := (assertLedgerState_of_ordered ho).mp hs
    simp only at h
    split at h
    · cases h
    · rename_i a ha
      obtain ⟨_, hsub, h⟩ := bind_eq_ok.mp h
      obtain ⟨_, hown, h⟩ := bind_eq_ok.mp h
      obtain ⟨b, hb, h⟩ := bind_eq_ok.mp h
      obtain ⟨hav, rfl⟩ := AttemptRecord.parse_eq_ok.mp hb
      obtain ⟨rs, hrs, h⟩ := bind_eq_ok.mp h
      obtain ⟨hrv, rfl⟩ := mapM_parseIf_eq_ok.mp hrs
      obtain ⟨m, hm, h⟩ := bind_eq_ok.mp h
      obtain ⟨hne, hmv, rfl⟩ := updateMessage_eq_ok.mp hm
      rw [pure_eq_ok, Prod.mk.injEq] at h
      obtain ⟨rfl, rfl⟩ := h
      obtain ⟨hlt, hget⟩ := List.getElem?_eq_some_iff.mp ha
      have hfound := List.findIdx_getElem (w := hlt)
      rw [hget] at hfound
      simp only [Bool.and_eq_true, beq_iff_eq] at hfound
      refine ⟨_, a, ⟨hc, ha, hfound.1, hfound.2, by simpa using hsub, ?_, hav, by simpa using hne,
        fun r hr howns => ?_, hmv⟩, rfl, rfl⟩
      · intro r hr hid
        simp only [throwIf_eq_ok, List.any_eq_false, Bool.and_eq_true, List.contains_iff_mem,
          Bool.or_eq_true, bne_iff_ne, not_and, not_or, not_not] at hown
        exact hown r hr hid
      · rw [completeRecipient, if_pos howns]
        exact hrv r hr howns
  · rintro ⟨i, a, h, rfl, rfl⟩
    refine bind_eq_ok.mpr ⟨s, (assertLedgerState_of_ordered ho).mpr ⟨h.consistent, rfl⟩, ?_⟩
    simp only [findIdx_of_attempt h.consistent.attempt_ids h.attempt h.attempt_id h.message_id,
      h.attempt]
    refine bind_eq_ok.mpr ⟨(), by simp [h.submitting], ?_⟩
    refine bind_eq_ok.mpr ⟨(), ?_, ?_⟩
    · simp only [throwIf_eq_ok, List.any_eq_false, Bool.and_eq_true, List.contains_iff_mem,
        Bool.or_eq_true, bne_iff_ne, not_and, not_or, not_not]
      exact h.owns
    refine bind_eq_ok.mpr ⟨_, AttemptRecord.parse_eq_ok.mpr ⟨h.attempt_valid, rfl⟩, ?_⟩
    refine bind_eq_ok.mpr ⟨s.recipients.map (completeRecipient a input), ?_, ?_⟩
    · refine mapM_parseIf_eq_ok.mpr ⟨fun r hr howns => ?_, rfl⟩
      have hvalid := h.recipients_valid r hr howns
      rwa [completeRecipient, if_pos howns] at hvalid
    refine bind_eq_ok.mpr ⟨_, updateMessage_eq_ok.mpr ⟨?_, h.message_valid, rfl⟩, ?_⟩
    · simpa using h.recipients_ne_nil
    rw [pure_eq_ok]
    rfl

/-- The statuses that an event or a local state writes. -/
structure DeliveryLedgerState.Restates (s : DeliveryLedgerState)
    (status : RecipientRecord → RecipientStatus) (t : ℕ) : Prop where
  consistent : s.Consistent
  recipients_ne_nil : s.recipients ≠ []
  recipients_valid : ∀ r ∈ s.recipients, (status r != r.status) = true →
    (r.withStatus (status r) t).Valid
  message_valid : (deriveMessage s.message (s.recipients.map fun r => r.withStatus (status r) t)
    t).Valid

theorem mapM_withStatus_eq_ok {rs rs' : List RecipientRecord}
    {status : RecipientRecord → RecipientStatus} {t : ℕ} :
    (rs.mapM fun r => if status r != r.status then
        ({ r with status := status r, updatedAt := t } : RecipientRecord).parse
      else .ok r) = .ok rs' ↔
      (∀ r ∈ rs, (status r != r.status) = true → (r.withStatus (status r) t).Valid) ∧
        rs.map (fun r => r.withStatus (status r) t) = rs' := by
  rw [mapM_parseIf_eq_ok]
  refine and_congr (forall₂_congr fun r _ => ?_) Iff.rfl
  refine imp_congr_right fun hchanged => ?_
  rw [RecipientRecord.withStatus, if_pos hchanged]

/-- The time of a restatement, which is not before the last update of the records. -/
def DeliveryLedgerState.eventTime (s : DeliveryLedgerState) (given : ℕ) : ℕ :=
  latestTimestamp s.email.updatedAt s.message.updatedAt given

theorem planProviderEvent_iff {s : DeliveryLedgerState} (ho : s.Ordered)
    {e e' : ProviderEventRecord} {p : DeliveryLedgerPlan} :
    planProviderEvent s e = .ok (p, e') ↔
      (e.Valid ∧ eventCorrelates s e = true ∧ s.Restates (eventStatus e) (s.eventTime e.receivedAt)) ∧
        e' = e ∧ p = ⟨s.observed e,
          (s.recipients.filter fun r => eventStatus e r != r.status).map (·.id)⟩ := by
  constructor
  · intro h
    obtain ⟨s', hs, h⟩ := bind_eq_ok.mp h
    obtain ⟨hc, rfl⟩ := (assertLedgerState_of_ordered ho).mp hs
    obtain ⟨f, hf, h⟩ := bind_eq_ok.mp h
    obtain ⟨hev, rfl⟩ := ProviderEventRecord.parse_eq_ok.mp hf
    obtain ⟨_, hcorr, h⟩ := bind_eq_ok.mp h
    obtain ⟨rs, hrs, h⟩ := bind_eq_ok.mp h
    obtain ⟨hrv, rfl⟩ := mapM_withStatus_eq_ok.mp hrs
    obtain ⟨m, hm, h⟩ := bind_eq_ok.mp h
    obtain ⟨hne, hmv, rfl⟩ := updateMessage_eq_ok.mp hm
    rw [pure_eq_ok, Prod.mk.injEq] at h
    obtain ⟨rfl, rfl⟩ := h
    exact ⟨⟨hev, by simpa using hcorr, ⟨hc, by simpa using hne, hrv, hmv⟩⟩, rfl, rfl⟩
  · rintro ⟨⟨hev, hcorr, h⟩, rfl, rfl⟩
    refine bind_eq_ok.mpr ⟨s, (assertLedgerState_of_ordered ho).mpr ⟨h.consistent, rfl⟩, ?_⟩
    refine bind_eq_ok.mpr ⟨e', ProviderEventRecord.parse_eq_ok.mpr ⟨hev, rfl⟩, ?_⟩
    refine bind_eq_ok.mpr ⟨(), by simp [hcorr], ?_⟩
    refine bind_eq_ok.mpr ⟨_, mapM_withStatus_eq_ok.mpr ⟨h.recipients_valid, rfl⟩, ?_⟩
    refine bind_eq_ok.mpr ⟨_, updateMessage_eq_ok.mpr ⟨?_, h.message_valid, rfl⟩, ?_⟩
    · simpa using h.recipients_ne_nil
    rw [pure_eq_ok]
    rfl

theorem planLocalRecipientState_iff {s : DeliveryLedgerState} (ho : s.Ordered)
    {status : LocalStatus} {updatedAt : ℕ} {p : DeliveryLedgerPlan} :
    planLocalRecipientState s status updatedAt = .ok p ↔
      ((∀ a ∈ s.attempts, a.status ≠ .submitting) ∧ (∀ r ∈ s.recipients, r.status ≠ .sending) ∧
        s.Restates (localStatus status) (s.eventTime updatedAt)) ∧
        p = ⟨s.localized status updatedAt,
          (s.recipients.filter fun r => localStatus status r != r.status).map (·.id)⟩ := by
  constructor
  · intro h
    obtain ⟨s', hs, h⟩ := bind_eq_ok.mp h
    obtain ⟨hc, rfl⟩ := (assertLedgerState_of_ordered ho).mp hs
    obtain ⟨_, hidle, h⟩ := bind_eq_ok.mp h
    obtain ⟨rs, hrs, h⟩ := bind_eq_ok.mp h
    obtain ⟨hrv, rfl⟩ := mapM_withStatus_eq_ok.mp hrs
    obtain ⟨m, hm, h⟩ := bind_eq_ok.mp h
    obtain ⟨hne, hmv, rfl⟩ := updateMessage_eq_ok.mp hm
    rw [pure_eq_ok] at h
    subst h
    simp only [throwIf_eq_ok, Bool.or_eq_false_iff, List.any_eq_false, beq_iff_eq] at hidle
    exact ⟨⟨hidle.1, hidle.2, ⟨hc, by simpa using hne, hrv, hmv⟩⟩, rfl⟩
  · rintro ⟨⟨hno, hns, h⟩, rfl⟩
    refine bind_eq_ok.mpr ⟨s, (assertLedgerState_of_ordered ho).mpr ⟨h.consistent, rfl⟩, ?_⟩
    refine bind_eq_ok.mpr ⟨(), ?_, ?_⟩
    · simp only [throwIf_eq_ok, Bool.or_eq_false_iff, List.any_eq_false, beq_iff_eq]
      exact ⟨hno, hns⟩
    refine bind_eq_ok.mpr ⟨_, mapM_withStatus_eq_ok.mpr ⟨h.recipients_valid, rfl⟩, ?_⟩
    refine bind_eq_ok.mpr ⟨_, updateMessage_eq_ok.mpr ⟨?_, h.message_valid, rfl⟩, ?_⟩
    · simpa using h.recipients_ne_nil
    rw [pure_eq_ok]
    rfl

/-! ## Ledgers whose statuses may be anything -/

namespace DeliveryLedgerState

/-- The ledger with both statuses derived from the recipients. -/
def derived (s : DeliveryLedgerState) : DeliveryLedgerState :=
  { s with
    message := deriveMessage s.message s.recipients s.message.updatedAt
    email := { s.email with
      status := derivePublicEmailStatus (aggregateStatus (s.recipients.map (·.status)))
        s.recipients } }

/-- What holds of a ledger whose email anyone may update: the recipients and the attempts are in
one of the phases, and every attempt is one the planners accept. -/
structure Sound (s : DeliveryLedgerState) : Prop where
  inv : LedgerInv s.derived
  attempts_valid : ∀ a ∈ s.attempts, a.Valid
  attempt_provider : ∀ a ∈ s.attempts, a.provider = s.message.provider
  attempt_recipients : ∀ a ∈ s.attempts, ∀ id ∈ a.recipientIds, id ∈ s.recipients.map (·.id)

end DeliveryLedgerState

theorem AttemptRecord.Valid.nodup {a : AttemptRecord} (h : a.Valid) :
    a.recipientIds.Nodup := by
  simp only [AttemptRecord.Valid, AttemptRecord.issues, refineIssues_eq_nil, uniqueRecipientIds,
    List.append_eq_nil_iff, issueUnless_eq_nil, decide_eq_true_eq] at h
  exact h.2.1.1.1

/-- The statuses of the email and of the message can be changed. -/
theorem LedgerInv.derived_of {s s' : DeliveryLedgerState} (h : LedgerInv s)
    (hemail : s'.email.id = s.email.id) (hmessage : s'.message.id = s.message.id)
    (hids : s'.message.recipientIds = s.message.recipientIds)
    (hrecipients : s'.recipients = s.recipients) (hattempts : s'.attempts = s.attempts) :
    LedgerInv s'.derived where
  email_id := hemail.trans (h.email_id.trans hmessage.symm)
  ordered := by
    show s'.recipients.map (·.id) = s'.message.recipientIds
    rw [hrecipients, hids]
    exact h.ordered
  recipient_ids_nodup := hids ▸ h.recipient_ids_nodup
  recipient_message := by
    show ∀ r ∈ s'.recipients, r.messageId = s'.message.id
    rw [hrecipients, hmessage]
    exact h.recipient_message
  recipients_ne_nil := hrecipients ▸ h.recipients_ne_nil
  covers := by
    show ∀ a ∈ s'.attempts, ∀ id ∈ s'.message.recipientIds, id ∈ a.recipientIds
    rw [hattempts, hids]
    exact h.covers
  sequences := hattempts ▸ h.sequences
  attempt_ids := hattempts ▸ h.attempt_ids
  attempt_message := by
    show ∀ a ∈ s'.attempts, a.messageId = s'.message.id
    rw [hattempts, hmessage]
    exact h.attempt_message
  earlier := hattempts ▸ h.earlier
  phase := by
    rcases h.phase with ⟨hq, ha⟩ | ⟨a, hl, hs, hr⟩ | ⟨hs, hn⟩
    · refine .waiting ?_ (hattempts ▸ ha)
      show ∀ r ∈ s'.recipients, r.status = .queued
      rw [hrecipients]
      exact hq
    · exact .submitting a (hattempts ▸ hl) hs (hrecipients ▸ hr)
    · refine .settled ?_ (hattempts ▸ hn)
      show ∀ r ∈ s'.recipients, r.status.isSettled = true
      rw [hrecipients]
      exact hs
  message_status := Or.inl rfl
  email_status := Or.inl rfl

/-! ## An attempt that is replaced -/

theorem forall_mem_set {as : List AttemptRecord} {P : AttemptRecord → Prop} (h : ∀ a ∈ as, P a)
    {i : ℕ} {b : AttemptRecord} (hb : P b) : ∀ a ∈ as.set i b, P a := by
  intro a ha
  rcases List.mem_or_eq_of_mem_set ha with ha | rfl
  · exact h a ha
  · exact hb

/-- What the replacement keeps. -/
theorem map_set_eq {α : Type} (f : AttemptRecord → α) {as : List AttemptRecord} {i : ℕ}
    {a b : AttemptRecord} (hi : as[i]? = some a) (hf : f b = f a) :
    (as.set i b).map f = as.map f := by
  obtain ⟨hlt, rfl⟩ := List.getElem?_eq_some_iff.mp hi
  rw [List.map_set, hf]
  refine List.ext_getElem (by simp) fun j hj hj' => ?_
  rw [List.getElem_set]
  split_ifs with hij
  · subst hij
    rw [List.getElem_map]
  · rfl

namespace DeliveryLedgerState.Sound

variable {s : DeliveryLedgerState}

theorem ordered (h : s.Sound) : s.Ordered := h.inv.ordered

theorem sequences (h : s.Sound) :
    s.attempts.map (·.sequence) = List.range' 1 s.attempts.length := h.inv.sequences

theorem attempt_ids (h : s.Sound) : (s.attempts.map (·.id)).Nodup := h.inv.attempt_ids

theorem attempt_sequences (h : s.Sound) : (s.attempts.map (·.sequence)).Nodup := by
  rw [h.sequences]
  exact List.nodup_range'

/-- The attempts pass the checks of a planner when the other records do. -/
theorem consistent (h : s.Sound) {as : List AttemptRecord}
    (hc : ({ s with attempts := as } : DeliveryLedgerState).Consistent) : s.Consistent where
  message_valid := hc.message_valid
  recipients_valid := hc.recipients_valid
  attempts_valid := h.attempts_valid
  email_id := hc.email_id
  recipient_ids := hc.recipient_ids
  recipient_message := hc.recipient_message
  attempt_ids := h.attempt_ids
  attempt_sequences := h.attempt_sequences
  attempt_message a ha := ⟨h.inv.attempt_message a ha, h.attempt_provider a ha⟩
  attempt_recipients := h.attempt_recipients

/-! Every operation keeps it. -/

theorem started (h : s.Sound) {a : AttemptRecord} (hs : s.Starts a) : (s.started a).Sound := by
  obtain ⟨-, hprovider, hrecipients⟩ := hs.names
  have hids : (s.recipients.map (startRecipient a)).map (·.id) = s.recipients.map (·.id) := by
    rw [List.map_map]
    rfl
  refine ⟨(h.inv.started hs.isMatch hs.queued).derived_of rfl rfl rfl rfl rfl,
    List.forall_mem_append.mpr ⟨h.attempts_valid, List.forall_mem_singleton.mpr hs.attempt_valid⟩,
    List.forall_mem_append.mpr ⟨h.attempt_provider, List.forall_mem_singleton.mpr hprovider⟩, ?_⟩
  show ∀ b ∈ s.attempts ++ [a], ∀ id ∈ b.recipientIds,
    id ∈ (s.recipients.map (startRecipient a)).map (·.id)
  rw [hids]
  exact List.forall_mem_append.mpr
    ⟨h.attempt_recipients, List.forall_mem_singleton.mpr hrecipients⟩

theorem completed (h : s.Sound) {i : ℕ} {a : AttemptRecord} {input : AttemptCompletion}
    (hc : s.Completes i a input) : (s.completed i a input).Sound := by
  have hmem := List.mem_of_getElem? hc.attempt
  have hids : (s.recipients.map (completeRecipient a input)).map (·.id) =
      s.recipients.map (·.id) := by
    rw [List.map_map]
    refine List.map_congr_left fun r _ => ?_
    simp only [Function.comp_apply, completeRecipient]
    split_ifs <;> rfl
  refine ⟨(h.inv.completed hc.attempt hc.submitting input).derived_of ?_ rfl rfl rfl rfl,
    forall_mem_set h.attempts_valid hc.attempt_valid,
    forall_mem_set h.attempt_provider (h.attempt_provider a hmem), ?_⟩
  · show (completeEmail _ input).id = (completeEmail _ input).id
    rw [completeEmail_id, completeEmail_id]
    rfl
  · show ∀ b ∈ s.attempts.set i _, ∀ id ∈ b.recipientIds,
      id ∈ (s.recipients.map (completeRecipient a input)).map (·.id)
    rw [hids]
    exact forall_mem_set h.attempt_recipients (h.attempt_recipients a hmem)

theorem map_id_withStatus (rs : List RecipientRecord) (g : RecipientRecord → RecipientStatus)
    (t : ℕ) : (rs.map fun r => r.withStatus (g r) t).map (·.id) = rs.map (·.id) := by
  rw [List.map_map]
  exact List.map_congr_left fun r _ => RecipientRecord.withStatus_id r _ _

theorem observed (h : s.Sound) {e : ProviderEventRecord} (hc : eventCorrelates s e = true) :
    (s.observed e).Sound := by
  refine ⟨(h.inv.observed (e := e) hc).derived_of rfl rfl rfl rfl rfl, h.attempts_valid,
    h.attempt_provider, ?_⟩
  intro a ha id hid
  exact map_id_withStatus s.recipients _ _ ▸ h.attempt_recipients a ha id hid

theorem localized (h : s.Sound) (status : LocalStatus) (updatedAt : ℕ)
    (hno : ∀ a ∈ s.attempts, a.status ≠ .submitting) : (s.localized status updatedAt).Sound := by
  refine ⟨(h.inv.localized status updatedAt hno).derived_of rfl rfl rfl rfl rfl, h.attempts_valid,
    h.attempt_provider, ?_⟩
  intro a ha id hid
  exact map_id_withStatus s.recipients _ _ ▸ h.attempt_recipients a ha id hid

/-- Writes of the email and of the message that leave the identities alone. -/
theorem withRecords (h : s.Sound) {email : EmailRecord} {message : MessageRecord}
    (hemail : email.id = s.email.id) (hmessage : message.id = s.message.id)
    (hids : message.recipientIds = s.message.recipientIds)
    (hprovider : message.provider = s.message.provider) :
    ({ s with email := email, message := message } : DeliveryLedgerState).Sound :=
  ⟨h.inv.derived_of hemail hmessage hids rfl rfl, h.attempts_valid,
    fun a ha => (h.attempt_provider a ha).trans hprovider.symm, h.attempt_recipients⟩

end DeliveryLedgerState.Sound

/-! ## Plans on attempts that were read before -/

/-- What an attempt keeps. -/
def AttemptRecord.key (a : AttemptRecord) : String × ℕ := (a.id, a.sequence)

section Congruence

variable {s : DeliveryLedgerState} {as : List AttemptRecord}

theorem attemptMatches_congr {a : AttemptRecord}
    (hkeys : as.map AttemptRecord.key = s.attempts.map AttemptRecord.key) :
    attemptMatches { s with attempts := as } a = attemptMatches s a := by
  have hany : ∀ bs : List AttemptRecord, (bs.any fun b => b.id == a.id || b.sequence == a.sequence) =
      (bs.map AttemptRecord.key).any fun k => k.1 == a.id || k.2 == a.sequence := by
    intro bs
    rw [List.any_map]
    rfl
  have hlast : ∀ bs : List AttemptRecord, lastSequence bs =
      (bs.map AttemptRecord.key).foldl (fun n k => max n k.2) 0 := by
    intro bs
    rw [List.foldl_map]
    rfl
  simp only [attemptMatches, hany, hlast, hkeys]

/-- **A start** that was planned on older attempts of the same ids and sequences. -/
theorem DeliveryLedgerState.Starts.current {a : AttemptRecord} (h : s.Sound)
    (hs : ({ s with attempts := as } : DeliveryLedgerState).Starts a)
    (hkeys : as.map AttemptRecord.key = s.attempts.map AttemptRecord.key) : s.Starts a where
  consistent := h.consistent hs.consistent
  attempt_valid := hs.attempt_valid
  isMatch := attemptMatches_congr hkeys ▸ hs.isMatch
  queued := hs.queued
  recipients_ne_nil := hs.recipients_ne_nil
  recipients_valid := hs.recipients_valid
  message_valid := hs.message_valid

/-- **A completion** of an attempt that has not changed since it was read. -/
theorem DeliveryLedgerState.Completes.current {i j : ℕ} {a : AttemptRecord}
    {input : AttemptCompletion} (h : s.Sound)
    (hc : ({ s with attempts := as } : DeliveryLedgerState).Completes j a input)
    (hi : s.attempts[i]? = some a) : s.Completes i a input where
  consistent := h.consistent hc.consistent
  attempt := hi
  attempt_id := hc.attempt_id
  message_id := hc.message_id
  submitting := hc.submitting
  owns := hc.owns
  attempt_valid := hc.attempt_valid
  recipients_ne_nil := hc.recipients_ne_nil
  recipients_valid := hc.recipients_valid
  message_valid := hc.message_valid

theorem DeliveryLedgerState.Restates.current {status : RecipientRecord → RecipientStatus} {t : ℕ}
    (h : s.Sound) (hr : ({ s with attempts := as } : DeliveryLedgerState).Restates status t) :
    s.Restates status t :=
  ⟨h.consistent hr.consistent, hr.recipients_ne_nil, hr.recipients_valid, hr.message_valid⟩

/-- The attempt with an id among attempts of different ids. -/
theorem find?_attempt_id {as : List AttemptRecord} (hn : (as.map (·.id)).Nodup) {a : AttemptRecord}
    (ha : a ∈ as) {id : String} (hid : a.id = id) : as.find? (·.id == id) = some a := by
  have hex : ∃ b ∈ as, (b.id == id) = true := ⟨a, ha, by simpa using hid⟩
  obtain ⟨b, hb⟩ := Option.isSome_iff_exists.mp (List.find?_isSome.mpr hex)
  have hbid : b.id = id := by simpa using List.find?_some hb
  rw [hb, List.inj_on_of_nodup_map hn (List.mem_of_find?_eq_some hb) ha (hbid.trans hid.symm)]

/-- **An event** of an attempt that has not changed since it was read: no other attempt has been
accepted. -/
theorem eventCorrelates_current {e : ProviderEventRecord} (h : s.Sound)
    (hc : eventCorrelates { s with attempts := as } e = true)
    (hcurrent : ∀ a, eventAttempt { s with attempts := as } e = some a → a ∈ s.attempts) :
    eventCorrelates s e = true := by
  unfold eventCorrelates at hc ⊢
  dsimp only at hc ⊢
  split at hc
  · cases hc
  · rename_i a ha
    have hmem := hcurrent a ha
    obtain ⟨id, hid, hfind⟩ := Option.bind_eq_some_iff.mp ha
    have haid : a.id = id := by simpa using List.find?_some hfind
    have hattempt : eventAttempt s e = some a := by
      rw [eventAttempt, hid, Option.bind_some, find?_attempt_id h.attempt_ids hmem haid]
    rw [hattempt]
    simp only [Bool.and_eq_true, beq_iff_eq] at hc ⊢
    obtain ⟨⟨⟨⟨hmessage, haccepted⟩, hprovider⟩, hpid⟩, hrecipients⟩ := hc
    refine ⟨⟨⟨⟨hmessage, haccepted⟩, hprovider⟩, ?_⟩, hrecipients⟩
    cases hp : e.providerMessageId with
    | none => rfl
    | some pid =>
      rw [hp, Option.all_some, Bool.and_eq_true, beq_iff_eq] at hpid
      have hself : (a.status == .accepted && a.providerMessageId == some pid) = true := by
        simp [haccepted, hpid.2]
      have hone := h.inv.filter_le_one
        (fun b => b.status == .accepted && b.providerMessageId == some pid) (fun b hb => by
          simp only [Bool.and_eq_true, beq_iff_eq] at hb
          simp [hb.1])
      have hin : a ∈ s.attempts.filter fun b =>
          b.status == .accepted && b.providerMessageId == some pid :=
        List.mem_filter.mpr ⟨hmem, hself⟩
      obtain ⟨b, hb⟩ := List.length_eq_one_iff.mp
        (le_antisymm hone (List.length_pos_iff.mpr (List.ne_nil_of_mem hin)))
      have hba : a = b := by
        change s.attempts.filter _ = _ at hb
        rw [hb] at hin
        exact List.mem_singleton.mp hin
      subst hba
      change s.attempts.filter _ = _ at hb
      rw [Option.all_some, hb]
      simp [hpid.2]

/-- **A local state**: while an attempt is submitting, the recipients are sending. -/
theorem DeliveryLedgerState.Sound.not_submitting (h : s.Sound)
    (hns : ∀ r ∈ s.recipients, r.status ≠ .sending) : ∀ a ∈ s.attempts, a.status ≠ .submitting := by
  intro a ha hst
  obtain ⟨r, hr⟩ := List.exists_mem_of_ne_nil _ h.inv.recipients_ne_nil
  exact hns r hr ((h.inv.submitting_last ha hst).2 r hr).1

end Congruence

/-! ## The serial machine -/

/-- **Every operation keeps a ledger sound**, an arbitrary update of the email included, and keeps
the attempts in their places. -/
theorem DeliveryLedgerState.Sound.apply {s s' : DeliveryLedgerSnapshot} (h : s.Sound)
    {op : LedgerOp} (ha : op.apply s = some s') :
    s'.Sound ∧ s.attempts.map AttemptRecord.key <+: s'.attempts.map AttemptRecord.key := by
  cases op with
  | beginAttempt a =>
    obtain ⟨⟨p, a'⟩, hplan, rfl⟩ := Option.map_eq_some_iff.mp ha
    obtain ⟨hs, -, rfl⟩ := (planAttemptStart_iff h.ordered).mp (toOption_eq_some.mp hplan)
    refine ⟨h.started hs, ?_⟩
    show _ <+: (s.attempts ++ [a]).map AttemptRecord.key
    rw [List.map_append]
    exact List.prefix_append _ _
  | completeAttempt input =>
    obtain ⟨⟨p, a'⟩, hplan, rfl⟩ := Option.map_eq_some_iff.mp ha
    obtain ⟨i, a, hc, -, rfl⟩ :=
      (planAttemptCompletion_iff h.ordered).mp (toOption_eq_some.mp hplan)
    refine ⟨h.completed hc, ?_⟩
    have hkeys : (s.attempts.set i (completedAttempt input a)).map AttemptRecord.key =
        s.attempts.map AttemptRecord.key := map_set_eq AttemptRecord.key hc.attempt rfl
    show _ <+: (s.attempts.set i (completedAttempt input a)).map AttemptRecord.key
    exact hkeys.symm ▸ List.prefix_refl _
  | appendEvent e =>
    obtain ⟨⟨p, e'⟩, hplan, rfl⟩ := Option.map_eq_some_iff.mp ha
    obtain ⟨⟨-, hcorr, -⟩, -, rfl⟩ :=
      (planProviderEvent_iff h.ordered).mp (toOption_eq_some.mp hplan)
    exact ⟨h.observed hcorr, List.prefix_refl _⟩
  | applyLocalState status t =>
    obtain ⟨p, hplan, rfl⟩ := Option.map_eq_some_iff.mp ha
    obtain ⟨⟨hno, -, -⟩, rfl⟩ :=
      (planLocalRecipientState_iff h.ordered).mp (toOption_eq_some.mp hplan)
    exact ⟨h.localized status t hno, List.prefix_refl _⟩
  | claim attempts now =>
    simp only [LedgerOp.apply, Option.ite_none_right_eq_some, Option.some.injEq] at ha
    obtain ⟨-, rfl⟩ := ha
    exact ⟨h.withRecords rfl rfl rfl rfl, List.prefix_refl _⟩
  | updateEmail updates fromStatuses =>
    simp only [LedgerOp.apply, Option.ite_none_right_eq_some, Option.some.injEq] at ha
    obtain ⟨-, rfl⟩ := ha
    exact ⟨h.withRecords rfl rfl rfl rfl, List.prefix_refl _⟩
  | reschedule t now =>
    simp only [LedgerOp.apply, Option.ite_none_right_eq_some, Option.some.injEq] at ha
    obtain ⟨-, rfl⟩ := ha
    exact ⟨h.withRecords rfl rfl rfl rfl, List.prefix_refl _⟩

/-- A ledger in the full invariant whose attempts are those of a new delivery. -/
theorem DeliveryLedgerState.Sound.of_inv {s : DeliveryLedgerState} (h : LedgerInv s)
    (hattempts : s.attempts = []) : s.Sound := by
  refine ⟨h.derived_of rfl rfl rfl rfl rfl, ?_, ?_, ?_⟩ <;> rw [hattempts] <;>
    exact fun _ ha => absurd ha List.not_mem_nil

end HayaSend
