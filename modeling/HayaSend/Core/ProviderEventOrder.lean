import HayaSend.Core.RecipientLedger
import HayaSend.Foundations.OrderIndependence

/-!
# Provider events in any order

Providers deliver events late, twice and out of order. `planProviderEvent` is applied to them as
they come; this module shows when the outcome does not depend on the order.

A recipient's status is a fold of the event types addressed to it. A complaint dominates every
other event and a bounce dominates all but a complaint; without either, the events commute unless
they mix a rejection or failure with a delivery. The two derived statuses and the update times
follow from the recipients and from the latest time of receipt.
-/

namespace HayaSend

/-! ## Event types -/

def ProviderEventType.isRefusal (e : ProviderEventType) : Bool := e == .rejected || e == .failed

def ProviderEventType.isDelivery (e : ProviderEventType) : Bool :=
  e == .delivered || e == .opened || e == .clicked

def ProviderEventType.isDecisive (e : ProviderEventType) : Bool :=
  e == .bounced || e == .complained

/-- The events mix a refusal with a delivery only together with a bounce or a complaint. -/
def Decided (types : List ProviderEventType) : Prop :=
  (∃ e ∈ types, e.isRefusal = true) → (∃ e ∈ types, e.isDelivery = true) →
    ∃ e ∈ types, e.isDecisive = true

instance : DecidablePred Decided := fun types => inferInstanceAs (Decidable
  ((∃ e ∈ types, e.isRefusal = true) → (∃ e ∈ types, e.isDelivery = true) →
    ∃ e ∈ types, e.isDecisive = true))

theorem complained_dominates (e : ProviderEventType) :
    Dominates transitionRecipientStatus .complained e := by
  intro s
  cases s <;> cases e <;> decide

theorem bounced_dominates {e : ProviderEventType} (h : e ≠ .complained) :
    Dominates transitionRecipientStatus .bounced e := by
  intro s
  revert h
  cases s <;> cases e <;> decide

theorem transition_commutes {e e' : ProviderEventType} (h : e.isDecisive = false)
    (h' : e'.isDecisive = false) (hm : ¬ (e.isRefusal = true ∧ e'.isDelivery = true))
    (hm' : ¬ (e.isDelivery = true ∧ e'.isRefusal = true)) :
    CommutesWith transitionRecipientStatus e e' := by
  intro s
  revert h h' hm hm'
  cases s <;> cases e <;> cases e' <;> decide

/-- The status after a list of events does not depend on their order. -/
theorem foldl_transition_perm {types types' : List ProviderEventType} (hp : types.Perm types')
    (hd : Decided types) (s : RecipientStatus) :
    types.foldl transitionRecipientStatus s = types'.foldl transitionRecipientStatus s := by
  refine foldl_perm hp ?_ s
  by_cases hc : ProviderEventType.complained ∈ types
  · exact Or.inr ⟨_, hc, fun e _ => complained_dominates e⟩
  · by_cases hb : ProviderEventType.bounced ∈ types
    · exact Or.inr ⟨_, hb, fun e he => bounced_dominates fun h => hc (h ▸ he)⟩
    · left
      have hnone : ∀ e ∈ types, e.isDecisive = false := by
        intro e he
        cases e <;> first | rfl | exact absurd he hb | exact absurd he hc
      have hmix : ∀ e ∈ types, ∀ e' ∈ types, ¬ (e.isRefusal = true ∧ e'.isDelivery = true) := by
        rintro e he e' he' ⟨hr, hdel⟩
        obtain ⟨d, hd, hdec⟩ := hd ⟨e, he, hr⟩ ⟨e', he', hdel⟩
        rw [hnone d hd] at hdec
        cases hdec
      exact fun e he e' he' => transition_commutes (hnone e he) (hnone e' he') (hmix e he e' he')
        fun ⟨h, h'⟩ => hmix e' he' e he ⟨h', h⟩

/-! ## One event -/

/-- The ledger as the assertion returns it. -/
def DeliveryLedgerState.normalized (s : DeliveryLedgerState) : DeliveryLedgerState :=
  { s with recipients := orderRecipients s.message.recipientIds s.recipients }

namespace DeliveryLedgerState.Consistent

variable {s : DeliveryLedgerState}

theorem normalized_ids (h : s.Consistent) :
    s.normalized.recipients.map (·.id) = s.message.recipientIds :=
  map_id_orderRecipients fun _ hid => h.recipient_ids.mem_iff.mpr hid

theorem mem_of_mem_normalized {r : RecipientRecord} (hr : r ∈ s.normalized.recipients) :
    r ∈ s.recipients := by
  obtain ⟨id, -, hfind⟩ := List.mem_filterMap.mp hr
  simpa using List.mem_of_find?_eq_some hfind

theorem normalized (h : s.Consistent) : s.normalized.Consistent where
  message_valid := h.message_valid
  recipients_valid r hr := h.recipients_valid r (mem_of_mem_normalized hr)
  attempts_valid := h.attempts_valid
  email_id := h.email_id
  recipient_ids := by rw [h.normalized_ids]; rfl
  recipient_message r hr := h.recipient_message r (mem_of_mem_normalized hr)
  attempt_ids := h.attempt_ids
  attempt_sequences := h.attempt_sequences
  attempt_message := h.attempt_message
  attempt_recipients := by
    intro a ha id hid
    rw [h.normalized_ids]
    exact h.recipient_ids.mem_iff.mp (h.attempt_recipients a ha id hid)

theorem recipients_ne_nil (h : s.Consistent) : s.recipients ≠ [] := by
  intro hnil
  have := h.recipient_ids.length_eq
  rw [hnil, List.map_nil, List.length_nil] at this
  exact h.message_valid.ne_nil (List.length_eq_zero_iff.mp this.symm)

end DeliveryLedgerState.Consistent

/-- The planner reads its input only through the assertion. -/
theorem planProviderEvent_normalized {s : DeliveryLedgerState} (h : s.Consistent)
    (e : ProviderEventRecord) : planProviderEvent s.normalized e = planProviderEvent s e := by
  have hs := assertLedgerState_eq_ok.mpr ⟨h, rfl⟩
  have hn := (assertLedgerState_of_ordered (s := s.normalized) h.normalized_ids).mpr
    ⟨h.normalized, rfl⟩
  unfold planProviderEvent
  rw [hs, hn]
  rfl

/-- A ledger whose recipients stand in the order of the message and were created no later than its
last change. -/
structure Ready (s : DeliveryLedgerState) : Prop where
  consistent : s.Consistent
  ordered : s.Ordered
  created : ∀ r ∈ s.recipients, r.createdAt ≤ s.message.updatedAt

theorem le_latestTimestamp (email message given : ℕ) :
    message ≤ latestTimestamp email message given := by
  unfold latestTimestamp
  omega

theorem withStatus_valid {r : RecipientRecord} (h : r.Valid) (st : RecipientStatus) {t : ℕ}
    (ht : r.createdAt ≤ t) : (r.withStatus st t).Valid := by
  unfold RecipientRecord.withStatus
  split_ifs
  · exact h.update st h.latestAttemptId ht
  · exact h

@[simp] theorem withStatus_createdAt (r : RecipientRecord) (st : RecipientStatus) (t : ℕ) :
    (r.withStatus st t).createdAt = r.createdAt := by
  unfold RecipientRecord.withStatus
  split_ifs <;> rfl

@[simp] theorem withStatus_messageId (r : RecipientRecord) (st : RecipientStatus) (t : ℕ) :
    (r.withStatus st t).messageId = r.messageId := by
  unfold RecipientRecord.withStatus
  split_ifs <;> rfl

namespace Ready

variable {s : DeliveryLedgerState}

/-- A correlated event is applied. -/
theorem plan (h : Ready s) {e : ProviderEventRecord} (hv : e.Valid)
    (hc : eventCorrelates s e = true) :
    ∃ p, planProviderEvent s e = .ok (p, e) ∧ p.toDeliveryLedgerState = s.observed e := by
  have ht := le_latestTimestamp s.email.updatedAt s.message.updatedAt e.receivedAt
  unfold planProviderEvent
  rw [(assertLedgerState_of_ordered h.ordered).mpr ⟨h.consistent, rfl⟩, ok_bind,
    ProviderEventRecord.parse_eq_ok.mpr ⟨hv, rfl⟩, ok_bind, hc]
  simp only [throwIf, Bool.not_true, Bool.false_eq_true, if_false, ok_bind]
  rw [mapM_parseIf_eq_ok.mpr ⟨fun r hr _ => ?_, rfl⟩, ok_bind,
    updateMessage_eq_ok.mpr ⟨?_, ?_, rfl⟩, ok_bind]
  · exact ⟨_, rfl, rfl⟩
  · simpa using h.consistent.recipients_ne_nil
  · exact h.consistent.message_valid.update rfl rfl rfl rfl
      (h.consistent.message_valid.created_le.trans ht)
  · have hr' := h.consistent.recipients_valid r hr
    exact hr'.update _ hr'.latestAttemptId ((h.created r hr).trans ht)

theorem observed (h : Ready s) (e : ProviderEventRecord) : Ready (s.observed e) := by
  have ht := le_latestTimestamp s.email.updatedAt s.message.updatedAt e.receivedAt
  have hids : (s.observed e).recipients.map (·.id) = s.recipients.map (·.id) := by
    simp [DeliveryLedgerState.observed, DeliveryLedgerState.restate, Function.comp_def]
  have hmem : ∀ r ∈ (s.observed e).recipients, ∃ r' ∈ s.recipients, r = r'.withStatus
      (eventStatus e r') (latestTimestamp s.email.updatedAt s.message.updatedAt e.receivedAt) := by
    intro r hr
    obtain ⟨r', hr', rfl⟩ := List.mem_map.mp hr
    exact ⟨r', hr', rfl⟩
  refine ⟨⟨?_, ?_, h.consistent.attempts_valid, h.consistent.email_id, ?_, ?_,
    h.consistent.attempt_ids, h.consistent.attempt_sequences, h.consistent.attempt_message, ?_⟩,
    hids.trans h.ordered, ?_⟩
  · exact h.consistent.message_valid.update rfl rfl rfl rfl
      (h.consistent.message_valid.created_le.trans ht)
  · intro r hr
    obtain ⟨r', hr', rfl⟩ := hmem r hr
    exact withStatus_valid (h.consistent.recipients_valid r' hr') _ ((h.created r' hr').trans ht)
  · rw [hids]
    exact h.consistent.recipient_ids
  · intro r hr
    obtain ⟨r', hr', rfl⟩ := hmem r hr
    rw [withStatus_messageId]
    exact h.consistent.recipient_message r' hr'
  · intro a ha id hid
    rw [hids]
    exact h.consistent.attempt_recipients a ha id hid
  · intro r hr
    obtain ⟨r', hr', rfl⟩ := hmem r hr
    rw [withStatus_createdAt]
    exact (h.created r' hr').trans ht

/-- Correlation reads nothing an event changes. -/
theorem correlates_observed (e e' : ProviderEventRecord) :
    eventCorrelates (s.observed e) e' = eventCorrelates s e' := by
  have hids : (s.observed e).recipients.map (·.id) = s.recipients.map (·.id) := by
    simp [DeliveryLedgerState.observed, DeliveryLedgerState.restate, Function.comp_def]
  unfold eventCorrelates
  rw [hids]
  rfl

end Ready

theorem eventCorrelates_normalized {s : DeliveryLedgerState} (h : s.Consistent)
    (e : ProviderEventRecord) : eventCorrelates s.normalized e = eventCorrelates s e := by
  have hmem : ∀ id, (s.normalized.recipients.map (·.id)).contains id =
      (s.recipients.map (·.id)).contains id := by
    intro id
    rw [Bool.eq_iff_iff, List.contains_iff_mem, List.contains_iff_mem, h.normalized_ids]
    exact h.recipient_ids.mem_iff.symm
  unfold eventCorrelates
  simp only [hmem]
  rfl

/-! ## Lists of events -/

/-- Apply the events of a list, one after the other. -/
def applyEvents (s : DeliveryLedgerState) : List ProviderEventRecord →
    Except Failure DeliveryLedgerState
  | [] => .ok s
  | e :: es => do
    let plan ← planProviderEvent s e
    applyEvents plan.1.toDeliveryLedgerState es

/-- The events are well formed and correlate to an accepted attempt. -/
def Correlated (s : DeliveryLedgerState) (es : List ProviderEventRecord) : Prop :=
  ∀ e ∈ es, e.Valid ∧ eventCorrelates s e = true

theorem Ready.applyEvents {s : DeliveryLedgerState} (h : Ready s) {es : List ProviderEventRecord}
    (hc : Correlated s es) : applyEvents s es = .ok (es.foldl DeliveryLedgerState.observed s) := by
  induction es generalizing s with
  | nil => rfl
  | cons e es ih =>
    obtain ⟨hv, hcorr⟩ := hc e List.mem_cons_self
    obtain ⟨p, hp, hobs⟩ := h.plan hv hcorr
    have hc' : Correlated (s.observed e) es := by
      intro e' he'
      rw [Ready.correlates_observed]
      exact hc e' (List.mem_cons_of_mem _ he')
    unfold HayaSend.applyEvents
    rw [hp, ok_bind, hobs]
    exact ih (h.observed e) hc'

/-- The types of the events addressed to a recipient, in order. -/
def typesFor (id : String) (es : List ProviderEventRecord) : List ProviderEventType :=
  (es.filter (·.recipientIds.contains id)).map (·.type)

theorem eventStatus_foldl (id : String) (es : List ProviderEventRecord) (st : RecipientStatus) :
    (typesFor id es).foldl transitionRecipientStatus st =
      es.foldl (fun st e =>
        if e.recipientIds.contains id then transitionRecipientStatus st e.type else st) st := by
  rw [typesFor, List.foldl_map, List.foldl_filter]

/-- The recipients' statuses after a list of events. -/
theorem foldl_observed_recipients (s : DeliveryLedgerState) (es : List ProviderEventRecord) :
    (es.foldl DeliveryLedgerState.observed s).recipients.map (fun r => (r.id, r.status)) =
      s.recipients.map fun r =>
        (r.id, (typesFor r.id es).foldl transitionRecipientStatus r.status) := by
  induction es generalizing s with
  | nil => rfl
  | cons e es ih =>
    rw [List.foldl_cons, ih]
    simp only [DeliveryLedgerState.observed, DeliveryLedgerState.restate, List.map_map]
    refine List.map_congr_left fun r _ => ?_
    simp only [Function.comp_apply, RecipientRecord.withStatus_id, eventStatus_foldl,
      RecipientRecord.withStatus_status, List.foldl_cons, eventStatus]

/-- Both update times after a list of events are the latest of the two and of the receipts. -/
theorem foldl_observed_times (s : DeliveryLedgerState) (e : ProviderEventRecord)
    (es : List ProviderEventRecord) :
    let t := (e :: es).foldl (fun t e => max t e.receivedAt)
      (max s.email.updatedAt s.message.updatedAt)
    ((e :: es).foldl DeliveryLedgerState.observed s).email.updatedAt = t ∧
      ((e :: es).foldl DeliveryLedgerState.observed s).message.updatedAt = t := by
  induction es generalizing s e with
  | nil => exact ⟨rfl, rfl⟩
  | cons e' es ih =>
    have := ih (s.observed e) e'
    rw [List.foldl_cons]
    refine ⟨this.1.trans ?_, this.2.trans ?_⟩
    all_goals
      show List.foldl _ (max (latestTimestamp _ _ _) (latestTimestamp _ _ _)) _ = _
      rw [max_self]
      rfl

/-- After at least one event both statuses are derived from the recipients. -/
theorem foldl_observed_derived (s : DeliveryLedgerState) (e : ProviderEventRecord)
    (es : List ProviderEventRecord) :
    let s' := (e :: es).foldl DeliveryLedgerState.observed s
    s'.message.status = aggregateStatus (s'.recipients.map (·.status)) ∧
      s'.email.status = derivePublicEmailStatus s'.message.status s'.recipients := by
  induction es generalizing s e with
  | nil => exact ⟨rfl, rfl⟩
  | cons e' es ih => exact ih (s.observed e) e'

/-- The public status depends on the statuses of the recipients only. -/
theorem derivePublicEmailStatus_congr (m : MessageStatus) {rs rs' : List RecipientRecord}
    (h : rs.map (·.status) = rs'.map (·.status)) :
    derivePublicEmailStatus m rs = derivePublicEmailStatus m rs' := by
  have hany : ∀ st, rs.any (·.status == st) = rs'.any (·.status == st) := by
    intro st
    have := congrArg (fun l => List.any l (· == st)) h
    simpa [List.any_map, Function.comp_def] using this
  unfold derivePublicEmailStatus
  simp only [hany]

/-- What the order of events might change. -/
structure SameOutcome (s s' : DeliveryLedgerState) : Prop where
  recipients : s.recipients.map (fun r => (r.id, r.status)) =
    s'.recipients.map (fun r => (r.id, r.status))
  message_status : s.message.status = s'.message.status
  email_status : s.email.status = s'.email.status
  message_updatedAt : s.message.updatedAt = s'.message.updatedAt
  email_updatedAt : s.email.updatedAt = s'.email.updatedAt

theorem foldl_observed_perm (s : DeliveryLedgerState) {es es' : List ProviderEventRecord}
    (hp : es.Perm es') (hd : ∀ r ∈ s.recipients, Decided (typesFor r.id es)) :
    SameOutcome (es.foldl DeliveryLedgerState.observed s)
      (es'.foldl DeliveryLedgerState.observed s) := by
  have hrec : (es.foldl DeliveryLedgerState.observed s).recipients.map (fun r => (r.id, r.status))
      = (es'.foldl DeliveryLedgerState.observed s).recipients.map fun r => (r.id, r.status) := by
    rw [foldl_observed_recipients, foldl_observed_recipients]
    refine List.map_congr_left fun r hr => ?_
    have hperm : (typesFor r.id es).Perm (typesFor r.id es') := (hp.filter _).map _
    rw [foldl_transition_perm hperm (hd r hr)]
  have hst : (es.foldl DeliveryLedgerState.observed s).recipients.map (·.status) =
      (es'.foldl DeliveryLedgerState.observed s).recipients.map (·.status) := by
    simpa [Function.comp_def] using congrArg (List.map Prod.snd) hrec
  rcases es with _ | ⟨e, es⟩
  · obtain rfl := hp.nil_eq
    exact ⟨rfl, rfl, rfl, rfl, rfl⟩
  · rcases es' with _ | ⟨e', es'⟩
    · exact absurd hp.eq_nil (by simp)
    obtain ⟨hm, he⟩ := foldl_observed_derived s e es
    obtain ⟨hm', he'⟩ := foldl_observed_derived s e' es'
    obtain ⟨ht, hu⟩ := foldl_observed_times s e es
    obtain ⟨ht', hu'⟩ := foldl_observed_times s e' es'
    have hmax := hp.foldl_eq' (f := fun (t : ℕ) (e : ProviderEventRecord) => max t e.receivedAt)
      (fun x _ y _ z => by omega) (max s.email.updatedAt s.message.updatedAt)
    have hmsg := hm.trans ((congrArg aggregateStatus hst).trans hm'.symm)
    refine ⟨hrec, hmsg, ?_, ?_, ?_⟩
    · rw [he, he', hmsg]
      exact derivePublicEmailStatus_congr _ hst
    · rw [hu, hu', hmax]
    · rw [ht, ht', hmax]

/-- **Provider events commute.** On a ledger the planners accept, with recipients created when the
message was, any two orders of correlated events are applied and end with the same statuses and
update times, provided no recipient's events mix a refusal with a delivery and lack a bounce or a
complaint. -/
theorem applyEvents_perm {s : DeliveryLedgerState} (hs : s.Consistent)
    (hcreated : ∀ r ∈ s.recipients, r.createdAt = s.message.createdAt)
    {es es' : List ProviderEventRecord} (hp : es.Perm es') (hc : Correlated s es)
    (hd : ∀ r ∈ s.recipients, Decided (typesFor r.id es)) :
    ∃ s₁ s₂, applyEvents s es = .ok s₁ ∧ applyEvents s es' = .ok s₂ ∧ SameOutcome s₁ s₂ := by
  have hready : Ready s.normalized := by
    refine ⟨hs.normalized, hs.normalized_ids, fun r hr => ?_⟩
    rw [hcreated r (DeliveryLedgerState.Consistent.mem_of_mem_normalized hr)]
    exact hs.message_valid.created_le
  have hnorm : ∀ l, Correlated s l → Correlated s.normalized l := by
    intro l hl e he
    rw [eventCorrelates_normalized hs]
    exact hl e he
  have hc' : Correlated s es' := fun e he => hc e (hp.mem_iff.mpr he)
  have happly : ∀ l, l ≠ [] → applyEvents s l = applyEvents s.normalized l := by
    intro l hl
    obtain ⟨e, l, rfl⟩ := List.exists_cons_of_ne_nil hl
    unfold applyEvents
    rw [planProviderEvent_normalized hs]
  by_cases hnil : es = []
  · subst hnil
    obtain rfl := hp.nil_eq
    exact ⟨s, s, rfl, rfl, ⟨rfl, rfl, rfl, rfl, rfl⟩⟩
  · have hnil' : es' ≠ [] := fun h => hnil (by simpa [h] using hp)
    refine ⟨_, _, (happly es hnil).trans (hready.applyEvents (hnorm es hc)),
      (happly es' hnil').trans (hready.applyEvents (hnorm es' hc')),
      foldl_observed_perm _ hp fun r hr => ?_⟩
    exact hd r (DeliveryLedgerState.Consistent.mem_of_mem_normalized hr)

/-! ## A ledger with an accepted attempt -/

/-- A message to two recipients that the provider accepted. -/
def acceptedLedger : DeliveryLedgerState :=
  let provider : ProviderReference := ⟨"aws-ses", "1.0.0", "1.0.0"⟩
  let recipient := fun (id address : String) (ordinal : ℕ) => ({
    id := id
    messageId := "email_0123456789abcdef"
    role := .to_
    ordinal := ordinal
    address := address
    status := .accepted
    latestAttemptId := some "attempt_0123456789abcdef012345"
    createdAt := 1000
    updatedAt := 3000 } : RecipientRecord)
  { email := {
      id := "email_0123456789abcdef"
      to_ := ["ada@example.com", "bob@example.com"]
      status := .sent
      lastEvent := .status .sent
      createdAt := 1000
      updatedAt := 3000
      requestHash := "00000000000000000000000000000000000000000000000000000000000000ff"
      attempts := 1 }
    message := {
      id := "email_0123456789abcdef"
      provider := provider
      intentDigest := "00000000000000000000000000000000000000000000000000000000000000ff"
      recipientIds := ["rcpt_000000000000000000000a", "rcpt_000000000000000000000b"]
      status := .accepted
      createdAt := 1000
      updatedAt := 3000 }
    recipients := [recipient "rcpt_000000000000000000000a" "ada@example.com" 0,
      recipient "rcpt_000000000000000000000b" "bob@example.com" 1]
    attempts := [{
      id := "attempt_0123456789abcdef012345"
      messageId := "email_0123456789abcdef"
      recipientIds := ["rcpt_000000000000000000000a", "rcpt_000000000000000000000b"]
      sequence := 1
      provider := provider
      status := .accepted
      providerMessageId := some "ses-1"
      startedAt := 2000
      completedAt := some 3000 }] }

/-- An event of the provider on that message. -/
def acceptedLedgerEvent (source : String) (recipientIds : List String) (type : ProviderEventType)
    (receivedAt : ℕ) : ProviderEventRecord where
  id := "provider-event:v1:aws-ses:id:" ++ source
  provider := ⟨"aws-ses", "1.0.0", "1.0.0"⟩
  source := .providerEventId source
  messageId := "email_0123456789abcdef"
  attemptId := some "attempt_0123456789abcdef012345"
  recipientIds := recipientIds
  providerMessageId := some "ses-1"
  type := type
  providerAt := 3500
  receivedAt := receivedAt
  terminal := false

theorem acceptedLedger_consistent : acceptedLedger.Consistent :=
  (assertLedgerState_eq_ok.mp (by decide : assertLedgerState acceptedLedger = .ok acceptedLedger)).1

/-- A delivery, a failure and a bounce of one recipient, in two orders. -/
def acceptedLedgerEvents : List ProviderEventRecord :=
  [acceptedLedgerEvent "one" ["rcpt_000000000000000000000a", "rcpt_000000000000000000000b"]
    .delivered 5000,
    acceptedLedgerEvent "two" ["rcpt_000000000000000000000a"] .failed 4500,
    acceptedLedgerEvent "three" ["rcpt_000000000000000000000a"] .bounced 4000]

theorem applyEvents_perm_acceptedLedger : ∃ s₁ s₂,
    applyEvents acceptedLedger acceptedLedgerEvents = .ok s₁ ∧
      applyEvents acceptedLedger acceptedLedgerEvents.reverse = .ok s₂ ∧ SameOutcome s₁ s₂ := by
  refine applyEvents_perm acceptedLedger_consistent (by decide)
    (List.reverse_perm acceptedLedgerEvents).symm ?_ (by decide)
  exact (by decide : ∀ e ∈ acceptedLedgerEvents,
    e.issues = [] ∧ eventCorrelates acceptedLedger e = true)

end HayaSend
