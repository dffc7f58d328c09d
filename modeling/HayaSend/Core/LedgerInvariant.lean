import HayaSend.Core.LedgerMachine

/-!
# The invariant of a delivery ledger

A ledger is in one of three phases. While it is *waiting*, every recipient is queued and every
attempt so far failed retryably. While it is *submitting*, its last attempt is under way and owns
every recipient. Once it has *settled* no recipient is queued or sending any more, and nothing
brings it back.

`LedgerInv` adds what is redundant in the records: the numbering of the attempts and the two
derived statuses. A `LedgerMove` is what one operation can do to a ledger, and `LedgerInv.move` is
the step lemma; `LedgerOp.apply_move` says that the serial machine makes no other moves.
-/

namespace HayaSend

/-! ## The derived statuses -/

/-- A status from which a recipient cannot be submitted any more, or again. -/
def RecipientStatus.isSettled (s : RecipientStatus) : Bool := s != .queued && s != .sending

@[simp] theorem RecipientStatus.isSettled_iff (s : RecipientStatus) :
    s.isSettled = true ↔ s ≠ .queued ∧ s ≠ .sending := by
  simp [isSettled]

theorem transitionRecipientStatus_settled {s : RecipientStatus} (h : s.isSettled = true)
    (e : ProviderEventType) : (transitionRecipientStatus s e).isSettled = true := by
  revert h
  cases s <;> cases e <;> decide

/-- A message status that says nothing about an outcome yet. -/
def MessageStatus.isActive : MessageStatus → Bool
  | .queued | .scheduled | .sending => true
  | _ => false

theorem aggregateStatus_settled {l : List RecipientStatus}
    (h : ∀ s ∈ l, s.isSettled = true) : (aggregateStatus l).isActive = false := by
  have hs : RecipientStatus.sending ∉ l := fun hm => by simpa using h _ hm
  unfold aggregateStatus
  dsimp only
  split_ifs with h₁ h₂ h₃ h₄ h₅ h₆ h₇ h₈ h₉ h₁₀ <;> try rfl
  · exact absurd (by simpa using h₁₀) hs
  · -- nothing but canceled recipients is left, and not all are canceled
    refine absurd (List.all_eq_true.mpr fun s hm => ?_) h₇
    have hpos : ∀ a ∈ l, a.isPositive ≠ true := by simpa [List.countP_eq_zero] using h₃
    have hneg : ∀ a ∈ l, a.isNegative = false := by simpa using h₆
    have hset := h s hm
    have hp := hpos s hm
    have hn := hneg s hm
    simp only [List.contains_iff_mem] at h₁ h₂ h₈ h₉
    cases s <;> simp_all [RecipientStatus.isPositive, RecipientStatus.isNegative]

theorem aggregateStatus_of_all {l : List RecipientStatus} {s : RecipientStatus} (hne : l ≠ [])
    (h : ∀ a ∈ l, a = s) : aggregateStatus l = aggregateStatus [s] := by
  obtain ⟨n, hn⟩ : ∃ n, l = List.replicate (n + 1) s := by
    refine ⟨l.length - 1, ?_⟩
    have hlen := List.length_pos_iff.mpr hne
    rw [Nat.sub_add_cancel hlen]
    exact List.eq_replicate_iff.mpr ⟨rfl, h⟩
  subst hn
  cases s <;> simp [aggregateStatus, RecipientStatus.isPositive, RecipientStatus.isNegative,
    List.countP_replicate]

theorem derivePublicEmailStatus_settled {m : MessageStatus} (h : m.isActive = false)
    (rs : List RecipientRecord) : (derivePublicEmailStatus m rs).isFinal = true := by
  cases m <;> simp only [derivePublicEmailStatus, MessageStatus.isActive, Bool.true_eq_false] at h ⊢
    <;> first | rfl | (split_ifs <;> rfl)

/-! ## The invariant -/

namespace DeliveryLedgerState

def AllQueued (s : DeliveryLedgerState) : Prop := ∀ r ∈ s.recipients, r.status = .queued

def AllSettled (s : DeliveryLedgerState) : Prop := ∀ r ∈ s.recipients, r.status.isSettled = true

instance : DecidablePred AllQueued := fun s =>
  inferInstanceAs (Decidable (∀ r ∈ s.recipients, r.status = .queued))

instance : DecidablePred AllSettled := fun s =>
  inferInstanceAs (Decidable (∀ r ∈ s.recipients, r.status.isSettled = true))

/-- The phases of a delivery. -/
inductive Phase (s : DeliveryLedgerState) : Prop
  | waiting : s.AllQueued → (∀ a ∈ s.attempts, a.status = .retryableFailed) → Phase s
  | submitting (a : AttemptRecord) : s.attempts.getLast? = some a → a.status = .submitting →
      (∀ r ∈ s.recipients, r.status = .sending ∧ r.latestAttemptId = some a.id) → Phase s
  | settled : s.AllSettled → (∀ a ∈ s.attempts, a.status ≠ .submitting) → Phase s

end DeliveryLedgerState

/-- The invariant of a delivery ledger. -/
structure LedgerInv (s : DeliveryLedgerState) : Prop where
  email_id : s.email.id = s.message.id
  ordered : s.Ordered
  recipient_ids_nodup : s.message.recipientIds.Nodup
  recipient_message : ∀ r ∈ s.recipients, r.messageId = s.message.id
  recipients_ne_nil : s.recipients ≠ []
  covers : ∀ a ∈ s.attempts, ∀ id ∈ s.message.recipientIds, id ∈ a.recipientIds
  sequences : s.attempts.map (·.sequence) = List.range' 1 s.attempts.length
  attempt_ids : (s.attempts.map (·.id)).Nodup
  attempt_message : ∀ a ∈ s.attempts, a.messageId = s.message.id
  earlier : ∀ a ∈ s.attempts.dropLast, a.status = .retryableFailed
  phase : s.Phase
  message_status : s.message.status = aggregateStatus (s.recipients.map (·.status)) ∨
    (s.message.status = .scheduled ∧ s.AllQueued)
  email_status : s.email.status = derivePublicEmailStatus s.message.status s.recipients ∨
    (s.AllQueued ∧ (s.email.status = .queued ∨ s.email.status = .scheduled ∨
      s.email.status = .sending))

theorem foldl_max_sequence {l : List AttemptRecord} {m k : ℕ} (hmk : m ≤ k)
    (hl : l.map (·.sequence) = List.range' (k + 1) l.length) :
    l.foldl (fun n a => max n a.sequence) m = if l = [] then m else k + l.length := by
  induction l generalizing m k with
  | nil => rfl
  | cons a l ih =>
    simp only [List.map_cons, List.length_cons, List.range'_succ, List.cons.injEq] at hl
    rw [List.foldl_cons, hl.1, ih (k := k + 1) (by omega) hl.2]
    by_cases hnil : l = []
    · simp only [hnil, if_true, reduceCtorEq, if_false, List.length_cons, List.length_nil]
      omega
    · simp only [hnil, if_false, reduceCtorEq, List.length_cons]
      omega

/-- Replacing the attempt with an id is setting it at its index. -/
theorem map_replace_eq_set {l : List AttemptRecord} (hn : (l.map (·.id)).Nodup) {i : ℕ}
    {a b : AttemptRecord} (hi : l[i]? = some a) :
    l.map (fun w => if w.id = a.id then b else w) = l.set i b := by
  refine List.ext_getElem? fun j => ?_
  rw [List.getElem?_map, List.getElem?_set]
  by_cases hij : i = j
  · subst hij
    have hlt := (List.getElem?_eq_some_iff.mp hi).1
    rw [if_pos rfl, if_pos hlt, hi, Option.map_some, if_pos rfl]
  · rw [if_neg hij]
    cases hj : l[j]? with
    | none => rfl
    | some w =>
      have hne : w.id ≠ a.id := by
        intro heq
        have hlt := (List.getElem?_eq_some_iff.mp hi).1
        refine hij ((List.getElem?_inj (by simpa using hlt) hn).mp ?_)
        rw [List.getElem?_map, List.getElem?_map, hi, hj, Option.map_some, Option.map_some, heq]
      simp [hne]

theorem withStatus_map_identity (rs : List RecipientRecord) (g : RecipientRecord → RecipientStatus)
    (t : ℕ) : (rs.map fun r => r.withStatus (g r) t).map (fun r => (r.id, r.messageId)) =
      rs.map fun r => (r.id, r.messageId) := by
  rw [List.map_map]
  refine List.map_congr_left fun r _ => ?_
  simp only [Function.comp_apply, RecipientRecord.withStatus]
  split_ifs <;> rfl

namespace LedgerInv

variable {s : DeliveryLedgerState}

theorem not_settled_of_queued (h : LedgerInv s) (hq : s.AllQueued) : ¬ s.AllSettled := by
  obtain ⟨r, hr⟩ := List.exists_mem_of_ne_nil _ h.recipients_ne_nil
  intro hs
  simpa [hq r hr] using hs r hr

/-- In a settled ledger the public status is final. -/
theorem email_final (h : LedgerInv s) (hs : s.AllSettled) : s.email.status.isFinal = true := by
  have hagg : (aggregateStatus (s.recipients.map (·.status))).isActive = false := by
    refine aggregateStatus_settled fun st hst => ?_
    obtain ⟨r, hr, rfl⟩ := List.mem_map.mp hst
    exact hs r hr
  have hm : s.message.status = aggregateStatus (s.recipients.map (·.status)) := by
    rcases h.message_status with hm | ⟨-, hq⟩
    · exact hm
    · exact absurd hs (h.not_settled_of_queued hq)
  rcases h.email_status with he | ⟨hq, -⟩
  · rw [he]
    exact derivePublicEmailStatus_settled (hm ▸ hagg) _
  · exact absurd hs (h.not_settled_of_queued hq)

theorem message_sending (h : LedgerInv s) (hs : ∀ r ∈ s.recipients, r.status = .sending) :
    s.message.status = .sending := by
  obtain ⟨r, hr⟩ := List.exists_mem_of_ne_nil _ h.recipients_ne_nil
  rcases h.message_status with hm | ⟨-, hq⟩
  · rw [hm, aggregateStatus_of_all (s := .sending) (by simpa using h.recipients_ne_nil)
      (by simpa using hs)]
    rfl
  · have := (hs r hr).symm.trans (hq r hr)
    cases this

/-- While a submission is under way the email is sending. -/
theorem email_sending (h : LedgerInv s) (hs : ∀ r ∈ s.recipients, r.status = .sending) :
    s.email.status = .sending := by
  obtain ⟨r, hr⟩ := List.exists_mem_of_ne_nil _ h.recipients_ne_nil
  rcases h.email_status with he | ⟨hq, -⟩
  · rw [he, h.message_sending hs]
    rfl
  · have := (hs r hr).symm.trans (hq r hr)
    cases this

/-- While every recipient is queued the email is not final. -/
theorem email_not_final (h : LedgerInv s) (hq : s.AllQueued) :
    s.email.status.isFinal = false := by
  rw [EmailStatus.isFinal_eq_false_iff]
  rcases h.email_status with he | ⟨-, he⟩
  · rcases h.message_status with hm | ⟨hm, -⟩
    · rw [aggregateStatus_of_all (s := .queued) (by simpa using h.recipients_ne_nil)
        (by simpa [DeliveryLedgerState.AllQueued] using hq)] at hm
      exact Or.inl (by rw [he, hm]; rfl)
    · exact Or.inr (Or.inl (by rw [he, hm]; rfl))
  · exact he

/-- A pending email belongs to a waiting ledger. -/
theorem queued_of_pending (h : LedgerInv s) (hp : s.email.status.isPending = true) :
    s.AllQueued := by
  rw [EmailStatus.isPending_iff] at hp
  rcases h.phase with ⟨hq, -⟩ | ⟨a, -, -, hr⟩ | ⟨hs, -⟩
  · exact hq
  · have := h.email_sending fun r hm => (hr r hm).1
    rcases hp with hp | hp <;> rw [hp] at this <;> cases this
  · have := h.email_final hs
    rcases hp with hp | hp <;> rw [hp] at this <;> cases this

/-- The attempts of a waiting ledger all failed retryably. -/
theorem attempts_of_queued (h : LedgerInv s) (hq : s.AllQueued) :
    ∀ a ∈ s.attempts, a.status = .retryableFailed := by
  obtain ⟨r, hr⟩ := List.exists_mem_of_ne_nil _ h.recipients_ne_nil
  rcases h.phase with ⟨-, ha⟩ | ⟨a, -, -, hr'⟩ | ⟨hs, -⟩
  · exact ha
  · have := (hr' r hr).1.symm.trans (hq r hr)
    cases this
  · exact absurd hs (h.not_settled_of_queued hq)

/-- An attempt that did not fail retryably is the last one. -/
theorem eq_last (h : LedgerInv s) {a : AttemptRecord} (ha : a ∈ s.attempts)
    (hst : a.status ≠ .retryableFailed) : s.attempts.getLast? = some a := by
  obtain ⟨b, hb⟩ := Option.isSome_iff_exists.mp
    (List.getLast?_isSome.mpr (List.ne_nil_of_mem ha))
  obtain ⟨l, hl⟩ := List.getLast?_eq_some_iff.mp hb
  rw [hl, List.mem_append, List.mem_singleton] at ha
  rcases ha with ha | rfl
  · exact absurd (h.earlier a (by rwa [hl, List.dropLast_concat])) hst
  · exact hb

/-- An attempt that is submitting is the last one, and owns every recipient. -/
theorem submitting_last (h : LedgerInv s) {a : AttemptRecord} (ha : a ∈ s.attempts)
    (hst : a.status = .submitting) : s.attempts.getLast? = some a ∧
      ∀ r ∈ s.recipients, r.status = .sending ∧ r.latestAttemptId = some a.id := by
  have hlast := h.eq_last ha (by simp [hst])
  rcases h.phase with ⟨-, hall⟩ | ⟨b, hb, -, hr⟩ | ⟨-, hno⟩
  · have := (hall a ha).symm.trans hst
    cases this
  · rw [hlast, Option.some.injEq] at hb
    exact ⟨hlast, hb ▸ hr⟩
  · exact absurd hst (hno a ha)

/-- An accepted attempt is the last one, and the ledger has settled. -/
theorem accepted_last (h : LedgerInv s) {a : AttemptRecord} (ha : a ∈ s.attempts)
    (hst : a.status = .accepted) : s.attempts.getLast? = some a ∧ s.AllSettled := by
  have hlast := h.eq_last ha (by simp [hst])
  refine ⟨hlast, ?_⟩
  rcases h.phase with ⟨-, hall⟩ | ⟨b, hb, hbs, -⟩ | ⟨hs, -⟩
  · have := (hall a ha).symm.trans hst
    cases this
  · rw [hlast, Option.some.injEq] at hb
    subst hb
    rw [hst] at hbs
    cases hbs
  · exact hs

/-- The last attempt has the largest sequence. -/
theorem sequence_last (h : LedgerInv s) {a : AttemptRecord} (ha : s.attempts.getLast? = some a) :
    a.sequence = s.attempts.length := by
  obtain ⟨l, hl⟩ := List.getLast?_eq_some_iff.mp ha
  have hseq := h.sequences
  rw [hl, List.map_append, List.length_append, List.length_singleton, List.range'_concat,
    List.map_singleton] at hseq
  have := (List.append_inj hseq (by simp)).2
  rw [hl, List.length_append, List.length_singleton]
  simp only [List.cons.injEq, and_true] at this
  omega

/-- At most one attempt did not fail retryably. -/
theorem filter_le_one (h : LedgerInv s) (p : AttemptRecord → Bool)
    (hp : ∀ a, p a = true → a.status ≠ .retryableFailed) : (s.attempts.filter p).length ≤ 1 := by
  rcases List.eq_nil_or_concat s.attempts with hnil | ⟨l, b, hl⟩
  · simp [hnil]
  · rw [List.concat_eq_append] at hl
    have hnone : l.filter p = [] := by
      refine List.filter_eq_nil_iff.mpr fun a ha hpa => hp a hpa ?_
      exact h.earlier a (by rwa [hl, List.dropLast_concat])
    rw [hl, List.filter_append, hnone, List.nil_append]
    exact List.length_filter_le _ _

theorem lastSequence_eq (h : LedgerInv s) : lastSequence s.attempts = s.attempts.length := by
  rw [lastSequence, foldl_max_sequence (k := 0) (le_refl 0) h.sequences]
  split_ifs with hnil
  · simp [hnil]
  · omega

/-! ## Every operation keeps the invariant -/

/-- The start of an attempt. -/
theorem started (h : LedgerInv s) {a : AttemptRecord} (hm : attemptMatches s a = true)
    (hq : s.AllQueued) : LedgerInv (s.started a) := by
  have hfail := h.attempts_of_queued hq
  simp only [attemptMatches, Bool.and_eq_true, beq_iff_eq, Bool.not_eq_true', List.any_eq_false,
    List.all_eq_true, List.contains_iff_mem, Bool.or_eq_true, not_or] at hm
  obtain ⟨⟨⟨⟨⟨⟨⟨hmid, -⟩, hst⟩, -⟩, -⟩, hcov⟩, hnew⟩, hseq⟩ := hm
  rw [h.lastSequence_eq] at hseq
  have hsending : ∀ st ∈ (s.recipients.map (startRecipient a)).map (·.status), st = .sending := by
    simp [startRecipient]
  have hne : (s.recipients.map (startRecipient a)).map (·.status) ≠ [] := by
    simpa using h.recipients_ne_nil
  have hmsg : aggregateStatus ((s.recipients.map (startRecipient a)).map (·.status)) = .sending :=
    (aggregateStatus_of_all hne hsending).trans rfl
  exact {
    email_id := h.email_id
    ordered := by
      have := h.ordered
      simpa [DeliveryLedgerState.Ordered, DeliveryLedgerState.started, deriveMessage,
        startRecipient, Function.comp_def] using this
    recipient_ids_nodup := h.recipient_ids_nodup
    recipient_message := by
      intro r hr
      obtain ⟨r', hr', rfl⟩ := List.mem_map.mp hr
      exact h.recipient_message r' hr'
    recipients_ne_nil := by simpa [DeliveryLedgerState.started] using h.recipients_ne_nil
    covers := by
      intro b hb
      rcases List.mem_append.mp hb with hb | hb
      · exact h.covers b hb
      · rw [List.mem_singleton.mp hb]
        exact hcov
    sequences := by
      simp only [DeliveryLedgerState.started, List.map_append, h.sequences, List.map_cons,
        List.map_nil, hseq, List.length_append, List.length_cons, List.length_nil, Nat.zero_add]
      rw [List.range'_concat, Nat.one_mul, Nat.add_comm 1]
    attempt_ids := by
      simp only [DeliveryLedgerState.started, List.map_append, List.map_cons, List.map_nil]
      refine List.nodup_append'.mpr ⟨h.attempt_ids, List.nodup_singleton _, ?_⟩
      simpa using fun b hb => (hnew b hb).1
    attempt_message := by
      intro b hb
      rcases List.mem_append.mp hb with hb | hb
      · exact h.attempt_message b hb
      · rw [List.mem_singleton.mp hb]
        exact hmid
    earlier := by
      intro b hb
      exact hfail b (by simpa [DeliveryLedgerState.started] using hb)
    phase := by
      refine .submitting a (by simp [DeliveryLedgerState.started]) hst fun r hr => ?_
      obtain ⟨r', -, rfl⟩ := List.mem_map.mp hr
      exact ⟨rfl, rfl⟩
    message_status := Or.inl rfl
    email_status := by
      refine Or.inl ?_
      show EmailStatus.sending = derivePublicEmailStatus (aggregateStatus _) _
      rw [hmsg]
      rfl }

/-- Writing derived statuses over recipients that keep their ids, in a ledger whose attempts stay
in order: the part of the invariant that is left is the phase. -/
theorem restate (h : LedgerInv s) {rs : List RecipientRecord} (t : ℕ) (err : Option String)
    {as : List AttemptRecord} (hids : rs.map (fun r => (r.id, r.messageId)) =
      s.recipients.map fun r => (r.id, r.messageId))
    (hai : as.map (·.id) = s.attempts.map (·.id))
    (has : as.map (·.sequence) = s.attempts.map (·.sequence))
    (ham : ∀ a ∈ as, a.messageId = s.message.id)
    (hcov : ∀ a ∈ as, ∀ id ∈ s.message.recipientIds, id ∈ a.recipientIds)
    (hearlier : ∀ a ∈ as.dropLast, a.status = .retryableFailed) {e : EmailRecord}
    (heid : e.id = s.email.id) (hest : e.status = (s.restate rs t err).email.status)
    (hphase : ({ s.restate rs t err with email := e, attempts := as } :
      DeliveryLedgerState).Phase) :
    LedgerInv { s.restate rs t err with email := e, attempts := as } where
  email_id := heid.trans h.email_id
  ordered := by
    have := congrArg (List.map Prod.fst) hids
    simp only [List.map_map, Function.comp_def] at this
    exact this.trans h.ordered
  recipient_ids_nodup := h.recipient_ids_nodup
  recipient_message := by
    intro r hr
    have hmem : (r.id, r.messageId) ∈ s.recipients.map fun r => (r.id, r.messageId) :=
      hids ▸ List.mem_map_of_mem hr
    obtain ⟨r', hr', heq⟩ := List.mem_map.mp hmem
    rw [Prod.mk.injEq] at heq
    exact heq.2.symm.trans (h.recipient_message r' hr')
  recipients_ne_nil := by
    intro hnil
    have hlen := congrArg List.length hids
    simp only [List.length_map] at hlen
    have : rs.length = 0 := congrArg List.length hnil
    exact h.recipients_ne_nil (List.length_eq_zero_iff.mp (hlen.symm.trans this))
  covers := hcov
  sequences := by
    have hlen : as.length = s.attempts.length := by simpa using congrArg List.length has
    rw [show as.map (·.sequence) = _ from has, hlen]
    exact h.sequences
  attempt_ids := hai ▸ h.attempt_ids
  attempt_message := ham
  earlier := hearlier
  phase := hphase
  message_status := Or.inl rfl
  email_status := Or.inl hest

/-- The submitting attempt completes every recipient. -/
theorem completeRecipient_eq (h : LedgerInv s) {a : AttemptRecord} (ha : a ∈ s.attempts)
    (hst : a.status = .submitting) (input : AttemptCompletion) {r : RecipientRecord}
    (hr : r ∈ s.recipients) : completeRecipient a input r =
      { r with status := completedRecipientStatus input, updatedAt := input.completedAt } := by
  have hid : r.id ∈ s.message.recipientIds := h.ordered ▸ List.mem_map_of_mem hr
  have hcov := h.covers a ha r.id hid
  rw [completeRecipient, if_pos]
  simp [AttemptRecord.owns, hcov, ((h.submitting_last ha hst).2 r hr).2]

/-- The phase after the completion of the only submitting attempt. -/
theorem completed (h : LedgerInv s) {i : ℕ} {a : AttemptRecord} (hi : s.attempts[i]? = some a)
    (hst : a.status = .submitting) (input : AttemptCompletion) :
    LedgerInv (s.completed i a input) := by
  have hmem : a ∈ s.attempts := List.mem_of_getElem? hi
  obtain ⟨hlast, -⟩ := h.submitting_last hmem hst
  obtain ⟨l, hl⟩ := List.getLast?_eq_some_iff.mp hlast
  -- the submitting attempt stands at the end, so completing it replaces the end
  have hil : i = l.length := by
    have hlt := (List.getElem?_eq_some_iff.mp hi).1
    refine (List.getElem?_inj (by simpa using hlt) h.attempt_ids).mp ?_
    rw [List.getElem?_map, List.getElem?_map, hi, hl]
    simp
  have hset : s.attempts.set i (completedAttempt input a) = l ++ [completedAttempt input a] := by
    rw [hl, hil, List.set_append_right _ _ (le_refl _)]
    simp
  have hearlier : ∀ b ∈ l, b.status = .retryableFailed := by
    intro b hb
    exact h.earlier b (by rwa [hl, List.dropLast_concat])
  have hcompleted : ∀ {p : AttemptRecord → Prop}, (∀ b ∈ s.attempts, p b) →
      (p a → p (completedAttempt input a)) → ∀ b ∈ l ++ [completedAttempt input a], p b := by
    intro p hp hpa b hb
    rcases List.mem_append.mp hb with hb | hb
    · exact hp b (by simp [hl, hb])
    · rw [List.mem_singleton.mp hb]
      exact hpa (hp a hmem)
  refine h.restate input.completedAt _ ?_ ?_ ?_ ?_ ?_ ?_ ?_ ?_ ?_
  · rw [List.map_map]
    refine List.map_congr_left fun r hr => ?_
    rw [Function.comp_apply, h.completeRecipient_eq hmem hst input hr]
  · rw [hset, hl]
    simp [completedAttempt]
  · rw [hset, hl]
    simp [completedAttempt]
  · rw [hset]
    exact hcompleted h.attempt_message id
  · rw [hset]
    exact hcompleted h.covers id
  · rw [hset, List.dropLast_concat]
    exact hearlier
  · rw [completeEmail_id]
    rfl
  · rw [completeEmail_status]
  · have hall : ∀ r ∈ s.recipients.map (completeRecipient a input),
        r.status = completedRecipientStatus input := by
      intro r hr
      obtain ⟨r', hr', rfl⟩ := List.mem_map.mp hr
      rw [h.completeRecipient_eq hmem hst input hr']
    by_cases hretry : input.status = .retryableFailed
    · refine .waiting (fun r hr => ?_) ?_
      · rw [hall r hr, completedRecipientStatus, hretry]
      · show ∀ b ∈ s.attempts.set i _, _
        rw [hset]
        intro b hb
        rcases List.mem_append.mp hb with hb | hb
        · exact hearlier b hb
        · rw [List.mem_singleton.mp hb, completedAttempt, hretry]
          rfl
    · refine .settled (fun r hr => ?_) ?_
      · rw [hall r hr, completedRecipientStatus]
        cases hs : input.status with
        | accepted => rfl
        | retryableFailed => exact absurd hs hretry
        | permanentFailed =>
          dsimp only
          split_ifs <;> rfl
      · show ∀ b ∈ s.attempts.set i _, _
        rw [hset]
        intro b hb
        rcases List.mem_append.mp hb with hb | hb
        · simp [hearlier b hb]
        · rw [List.mem_singleton.mp hb, completedAttempt]
          cases input.status <;> simp [CompletionStatus.toAttemptStatus]

/-- New recipient statuses that are all settled. -/
theorem withStatus (h : LedgerInv s) (t : ℕ) {g : RecipientRecord → RecipientStatus}
    (hg : ∀ r ∈ s.recipients, (g r).isSettled = true)
    (hno : ∀ a ∈ s.attempts, a.status ≠ .submitting) :
    LedgerInv (s.restate (s.recipients.map fun r => r.withStatus (g r) t) t none) := by
  refine h.restate t none (withStatus_map_identity _ _ _) rfl rfl h.attempt_message h.covers
    h.earlier rfl rfl ?_
  · refine .settled (fun r hr => ?_) hno
    obtain ⟨r', hr', rfl⟩ := List.mem_map.mp hr
    rw [RecipientRecord.withStatus_status]
    exact hg r' hr'

theorem exists_accepted_of_correlates {e : ProviderEventRecord}
    (hc : eventCorrelates s e = true) : ∃ a ∈ s.attempts, a.status = .accepted := by
  unfold eventCorrelates at hc
  dsimp only at hc
  split at hc
  · cases hc
  · rename_i a ha
    simp only [Bool.and_eq_true, beq_iff_eq] at hc
    obtain ⟨id, -, hfind⟩ := Option.bind_eq_some_iff.mp ha
    exact ⟨a, List.mem_of_find?_eq_some hfind, hc.1.1.1.2⟩

/-- A provider event, which is about an accepted attempt. -/
theorem observed (h : LedgerInv s) {e : ProviderEventRecord} (hc : eventCorrelates s e = true) :
    LedgerInv (s.observed e) := by
  obtain ⟨a, ha, hst⟩ := exists_accepted_of_correlates hc
  obtain ⟨hlast, hs⟩ := h.accepted_last ha hst
  refine h.withStatus _ (fun r hr => ?_) fun b hb hsub => ?_
  · unfold eventStatus
    split_ifs
    · exact transitionRecipientStatus_settled (hs r hr) _
    · exact hs r hr
  · obtain ⟨hlast', -⟩ := h.submitting_last hb hsub
    rw [hlast, Option.some.injEq] at hlast'
    subst hlast'
    rw [hst] at hsub
    cases hsub

theorem localStatus_settled (status : LocalStatus) (r : RecipientRecord) :
    (localStatus status r).isSettled = true := by
  unfold localStatus
  split_ifs with hr
  · rcases hr with hr | hr <;> rw [hr] <;> rfl
  · cases status <;> rfl

/-- A local state settles the ledger. -/
theorem localized_settled (s : DeliveryLedgerState) (status : LocalStatus) (updatedAt : ℕ) :
    (s.localized status updatedAt).AllSettled := by
  intro r hr
  obtain ⟨r', -, rfl⟩ := List.mem_map.mp hr
  rw [RecipientRecord.withStatus_status]
  exact localStatus_settled status r'

/-- A local state. -/
theorem localized (h : LedgerInv s) (status : LocalStatus) (updatedAt : ℕ)
    (hno : ∀ a ∈ s.attempts, a.status ≠ .submitting) : LedgerInv (s.localized status updatedAt) :=
  h.withStatus _ (fun r _ => localStatus_settled status r) hno

/-- Writes to the email that leave its id alone, while it is queued, scheduled or sending. -/
theorem withEmail (h : LedgerInv s) {e : EmailRecord} (hid : e.id = s.email.id)
    (hst : (s.AllQueued ∧ (e.status = .queued ∨ e.status = .scheduled ∨ e.status = .sending)) ∨
      e.status = s.email.status) : LedgerInv { s with email := e } where
  email_id := hid.trans h.email_id
  ordered := h.ordered
  recipient_ids_nodup := h.recipient_ids_nodup
  recipient_message := h.recipient_message
  recipients_ne_nil := h.recipients_ne_nil
  covers := h.covers
  sequences := h.sequences
  attempt_ids := h.attempt_ids
  attempt_message := h.attempt_message
  earlier := h.earlier
  phase := by
    rcases h.phase with ⟨hq, ha⟩ | ⟨a, hl, hs, hr⟩ | ⟨hs, hn⟩
    · exact .waiting hq ha
    · exact .submitting a hl hs hr
    · exact .settled hs hn
  message_status := h.message_status
  email_status := by
    rcases hst with ⟨hq, he⟩ | he
    · exact Or.inr ⟨hq, he⟩
    · rcases h.email_status with h' | ⟨hq, h'⟩
      · exact Or.inl (he.trans h')
      · refine Or.inr ⟨hq, ?_⟩
        show e.status = _ ∨ e.status = _ ∨ e.status = _
        rwa [he]

theorem claimed (h : LedgerInv s) {now : ℕ} (hc : s.email.claimable now = true) (attempts : ℕ) :
    LedgerInv { s with email := s.email.claimed attempts now } := by
  refine h.withEmail rfl ?_
  simp only [EmailRecord.claimable, Bool.or_eq_true, Bool.and_eq_true, beq_iff_eq] at hc
  rcases hc with hp | ⟨hs, -⟩
  · exact Or.inl ⟨h.queued_of_pending hp, by simp [EmailRecord.claimed]⟩
  · exact Or.inr (by rw [hs]; rfl)

theorem rescheduleEmail (h : LedgerInv s) (hp : s.email.status.isPending = true) (t now : ℕ) :
    LedgerInv { s with email := s.email.rescheduled t now } :=
  h.withEmail rfl (Or.inl ⟨h.queued_of_pending hp, by simp [EmailRecord.rescheduled]⟩)

theorem rescheduled (h : LedgerInv s) (hp : s.email.status.isPending = true) (t now : ℕ) :
    LedgerInv { s with
      email := s.email.rescheduled t now
      message := s.message.rescheduled t now } where
  email_id := h.email_id
  ordered := h.ordered
  recipient_ids_nodup := h.recipient_ids_nodup
  recipient_message := h.recipient_message
  recipients_ne_nil := h.recipients_ne_nil
  covers := h.covers
  sequences := h.sequences
  attempt_ids := h.attempt_ids
  attempt_message := h.attempt_message
  earlier := h.earlier
  phase := .waiting (h.queued_of_pending hp) (h.attempts_of_queued (h.queued_of_pending hp))
  message_status := Or.inr ⟨rfl, h.queued_of_pending hp⟩
  email_status := Or.inr ⟨h.queued_of_pending hp, by simp [EmailRecord.rescheduled]⟩

end LedgerInv

/-- The ledger of a new delivery. -/
theorem LedgerInv.initial {c : DeliveryCommit} (h : c.Consistent) {rs : List RecipientRecord}
    (hids : rs.map (·.id) = c.message.recipientIds) (hmem : ∀ r ∈ rs, r ∈ c.recipients) :
    LedgerInv ⟨c.email, c.message, rs, []⟩ := by
  have hne : rs ≠ [] := by
    intro hnil
    rw [hnil, List.map_nil] at hids
    exact h.message_valid.ne_nil hids.symm
  have hstatus : ∀ r ∈ rs, r.status = c.email.status.initialRecipientStatus :=
    fun r hr => (h.recipient (hmem r hr)).2.1
  have hms := h.message_status
  have hagg : ∀ st, (∀ r ∈ rs, r.status = st) →
      aggregateStatus (rs.map (·.status)) = aggregateStatus [st] := by
    intro st hst
    exact aggregateStatus_of_all (by simpa using hne) (by simpa using hst)
  have hcases : (c.email.status = .suppressed ∧ c.message.status = .suppressed) ∨
      (c.email.status = .queued ∧ c.message.status = .queued) ∨
      (c.email.status = .scheduled ∧ c.message.status = .scheduled) := by
    cases he : c.email.status <;> rw [he] at hms <;>
      simp [EmailStatus.initialMessageStatus] at hms ⊢ <;> exact hms.symm
  have hbase : ∀ (hphase : (⟨c.email, c.message, rs, []⟩ : DeliveryLedgerState).Phase)
      (hmessage : c.message.status = aggregateStatus (rs.map (·.status)) ∨
        (c.message.status = .scheduled ∧ ∀ r ∈ rs, r.status = .queued))
      (hemail : c.email.status = derivePublicEmailStatus c.message.status rs),
      LedgerInv ⟨c.email, c.message, rs, []⟩ := fun hphase hmessage hemail =>
    { email_id := h.email_id
      ordered := hids
      recipient_ids_nodup := h.message_valid.nodup
      recipient_message := fun r hr => (h.recipient (hmem r hr)).1
      recipients_ne_nil := hne
      covers := fun a ha => by cases ha
      sequences := rfl
      attempt_ids := List.nodup_nil
      attempt_message := fun a ha => by cases ha
      earlier := fun a ha => by cases ha
      phase := hphase
      message_status := hmessage
      email_status := Or.inl hemail }
  rcases hcases with ⟨he, hm⟩ | ⟨he, hm⟩ | ⟨he, hm⟩ <;> rw [he] at hstatus
  · refine hbase (.settled (fun r hr => ?_) fun a ha => by cases ha) (Or.inl ?_) ?_
    · rw [hstatus r hr]
      rfl
    · rw [hm, hagg _ hstatus]
      rfl
    · rw [he, hm]
      rfl
  · refine hbase (.waiting hstatus fun a ha => by cases ha) (Or.inl ?_) ?_
    · rw [hm, hagg _ hstatus]
      rfl
    · rw [he, hm]
      rfl
  · refine hbase (.waiting hstatus fun a ha => by cases ha) (Or.inr ⟨hm, hstatus⟩) ?_
    rw [he, hm]
    rfl

/-! ## Moves -/

/-- How a ledger changes in one operation: nothing, or one of the records the planners and the
writes to the email return, with what they checked. -/
inductive LedgerMove (s : DeliveryLedgerState) : DeliveryLedgerState → Prop
  | same : LedgerMove s s
  | started (a : AttemptRecord) : attemptMatches s a = true → s.AllQueued →
      LedgerMove s (s.started a)
  | completed (i : ℕ) (a : AttemptRecord) (input : AttemptCompletion) :
      s.attempts[i]? = some a → a.id = input.attemptId → a.status = .submitting →
      LedgerMove s (s.completed i a input)
  | observed (e : ProviderEventRecord) : eventCorrelates s e = true → LedgerMove s (s.observed e)
  | localized (status : LocalStatus) (updatedAt : ℕ) :
      (∀ a ∈ s.attempts, a.status ≠ .submitting) → (∀ r ∈ s.recipients, r.status ≠ .sending) →
      LedgerMove s (s.localized status updatedAt)
  | claimed (attempts now : ℕ) : s.email.claimable now = true →
      LedgerMove s { s with email := s.email.claimed attempts now }
  | rescheduledEmail (t now : ℕ) : s.email.status.isPending = true →
      LedgerMove s { s with email := s.email.rescheduled t now }
  | rescheduled (t now : ℕ) : s.email.status.isPending = true →
      LedgerMove s { s with
        email := s.email.rescheduled t now
        message := s.message.rescheduled t now }

/-- **Every move keeps the invariant.** -/
theorem LedgerInv.move {s s' : DeliveryLedgerState} (h : LedgerInv s) (hm : LedgerMove s s') :
    LedgerInv s' := by
  cases hm with
  | same => exact h
  | started a hm hq => exact h.started hm hq
  | completed i a input hi _ hst => exact h.completed hi hst input
  | observed e hc => exact h.observed hc
  | localized status t hno _ => exact h.localized status t hno
  | claimed attempts now hc => exact h.claimed hc attempts
  | rescheduledEmail t now hp => exact h.rescheduleEmail hp t now
  | rescheduled t now hp => exact h.rescheduled hp t now

/-- A completion that leaves the recipients queued is a retryable failure. -/
theorem LedgerInv.retryable_of_queued {s : DeliveryLedgerState} (h : LedgerInv s) {i : ℕ}
    {a : AttemptRecord} (hi : s.attempts[i]? = some a) (hst : a.status = .submitting)
    {input : AttemptCompletion} (hq : (s.completed i a input).AllQueued) :
    input.status = .retryableFailed := by
  obtain ⟨r, hr⟩ := List.exists_mem_of_ne_nil _ h.recipients_ne_nil
  have hqueued := hq _ (List.mem_map_of_mem hr)
  rw [h.completeRecipient_eq (List.mem_of_getElem? hi) hst input hr] at hqueued
  cases hs : input.status with
  | retryableFailed => rfl
  | accepted => simp [completedRecipientStatus, hs] at hqueued
  | permanentFailed =>
    simp only [completedRecipientStatus, hs] at hqueued
    split_ifs at hqueued

/-- **Only a completion makes recipients queued again.** -/
theorem LedgerMove.queued_or_completed {s s' : DeliveryLedgerState} (hm : LedgerMove s s')
    (h : LedgerInv s) (hq : s'.AllQueued) : s.AllQueued ∨ ∃ a ∈ s.attempts,
      a.status = .submitting ∧ a ∉ s'.attempts := by
  have hinv := h.move hm
  cases hm with
  | same => exact Or.inl hq
  | started a _ hqueued => exact Or.inl hqueued
  | completed i a input hi _ hst =>
    refine Or.inr ⟨a, List.mem_of_getElem? hi, hst, fun hmem => ?_⟩
    have := hinv.attempts_of_queued hq a hmem
    rw [hst] at this
    cases this
  | observed e hc =>
    obtain ⟨a, ha, hst⟩ := LedgerInv.exists_accepted_of_correlates hc
    exact absurd (hinv.accepted_last ha hst).2 (hinv.not_settled_of_queued hq)
  | localized status t _ _ =>
    exact absurd (LedgerInv.localized_settled s status t) (hinv.not_settled_of_queued hq)
  | claimed => exact Or.inl hq
  | rescheduledEmail => exact Or.inl hq
  | rescheduled => exact Or.inl hq

/-- What no move touches: the identities of the records. -/
structure DeliveryLedgerState.Frame (s s' : DeliveryLedgerState) : Prop where
  email_id : s'.email.id = s.email.id
  message_id : s'.message.id = s.message.id
  recipient_ids : s'.message.recipientIds = s.message.recipientIds
  recipients : s'.recipients.map (fun r => (r.id, r.messageId)) =
    s.recipients.map fun r => (r.id, r.messageId)

theorem LedgerMove.frame {s s' : DeliveryLedgerState} (hm : LedgerMove s s') : s.Frame s' := by
  cases hm with
  | same => exact ⟨rfl, rfl, rfl, rfl⟩
  | started a => exact ⟨rfl, rfl, rfl, by
      simp [DeliveryLedgerState.started, startRecipient, Function.comp_def]⟩
  | completed i a input =>
    refine ⟨completeEmail_id _ _, rfl, rfl, ?_⟩
    show (s.recipients.map (completeRecipient a input)).map _ = _
    rw [List.map_map]
    refine List.map_congr_left fun r _ => ?_
    simp only [Function.comp_apply, completeRecipient]
    split_ifs <;> rfl
  | observed e => exact ⟨rfl, rfl, rfl, withStatus_map_identity _ _ _⟩
  | localized status t => exact ⟨rfl, rfl, rfl, withStatus_map_identity _ _ _⟩
  | claimed => exact ⟨rfl, rfl, rfl, rfl⟩
  | rescheduledEmail => exact ⟨rfl, rfl, rfl, rfl⟩
  | rescheduled => exact ⟨rfl, rfl, rfl, rfl⟩

theorem rescheduleUpdates_applyTo (e : EmailRecord) (t now : ℕ) :
    (rescheduleUpdates t now).applyTo e = e.rescheduled t now := rfl

theorem updatable_pending (e : EmailRecord) :
    e.updatable (some pendingStatuses) = e.status.isPending := by
  rw [Bool.eq_iff_iff]
  simp [EmailRecord.updatable, pendingStatuses]

/-- An operation of the serial machine is a move. -/
theorem LedgerOp.apply_move {s s' : DeliveryLedgerSnapshot} (ho : s.Ordered) {op : LedgerOp}
    (hp : op.Permitted) (ha : op.apply s = some s') :
    LedgerMove s.toDeliveryLedgerState s'.toDeliveryLedgerState := by
  cases op with
  | beginAttempt a =>
    obtain ⟨⟨p, a'⟩, hplan, rfl⟩ := Option.map_eq_some_iff.mp ha
    obtain ⟨-, -, hm, hq, -, hs⟩ := planAttemptStart_eq_ok ho (toOption_eq_some.mp hplan)
    exact hs ▸ .started a hm hq
  | completeAttempt input =>
    obtain ⟨⟨p, a'⟩, hplan, rfl⟩ := Option.map_eq_some_iff.mp ha
    obtain ⟨i, a, -, hi, hid, -, hst, -, -, hs⟩ :=
      planAttemptCompletion_eq_ok ho (toOption_eq_some.mp hplan)
    exact hs ▸ .completed i a input hi hid hst
  | appendEvent e =>
    obtain ⟨⟨p, e'⟩, hplan, rfl⟩ := Option.map_eq_some_iff.mp ha
    obtain ⟨-, -, hc, -, hs⟩ := planProviderEvent_eq_ok ho (toOption_eq_some.mp hplan)
    exact hs ▸ .observed e hc
  | applyLocalState status t =>
    obtain ⟨p, hplan, rfl⟩ := Option.map_eq_some_iff.mp ha
    obtain ⟨-, hno, hns, hs⟩ := planLocalRecipientState_eq_ok ho (toOption_eq_some.mp hplan)
    exact hs ▸ .localized status t hno hns
  | claim attempts now =>
    simp only [LedgerOp.apply, Option.ite_none_right_eq_some, Option.some.injEq] at ha
    obtain ⟨hc, rfl⟩ := ha
    exact .claimed _ now hc
  | updateEmail updates fromStatuses =>
    obtain ⟨t, now, rfl, rfl⟩ := hp
    simp only [LedgerOp.apply, updatable_pending, Option.ite_none_right_eq_some,
      Option.some.injEq] at ha
    obtain ⟨hc, rfl⟩ := ha
    exact .rescheduledEmail t now hc
  | reschedule t now =>
    simp only [LedgerOp.apply, Option.ite_none_right_eq_some, Option.some.injEq] at ha
    obtain ⟨hc, rfl⟩ := ha
    exact .rescheduled t now hc

/-- **Every operation of the serial machine keeps the invariant.** -/
theorem LedgerInv.apply {s s' : DeliveryLedgerSnapshot} (h : LedgerInv s.toDeliveryLedgerState)
    {op : LedgerOp} (hp : op.Permitted) (ha : op.apply s = some s') :
    LedgerInv s'.toDeliveryLedgerState :=
  h.move (LedgerOp.apply_move h.ordered hp ha)

end HayaSend
