import HayaSend.Core.LedgerInvariant

/-!
# Safety outcomes

A complaint, a suppression and a bounce are what keeps a sender from writing to a recipient again.
Here: no sequence of attempt starts, completions, provider events and local states takes a
recipient out of them (`safety_outcomes_sticky`), nor the message derived from the recipients.

The planners agree on this for different reasons. An attempt starts only when every recipient is
queued and a completion writes only recipients that are sending; the other two read the old
status. So one step lemma about a recipient, `LedgerOp.apply_statusOf`, covers all four, and what
a run does follows by induction. Nothing is assumed of the ledger the run starts from.
-/

namespace HayaSend

/-! ## Recipients by id -/

theorem find?_id_eq_some {rs : List RecipientRecord} (hn : (rs.map (·.id)).Nodup) {id : String}
    {r : RecipientRecord} : rs.find? (·.id == id) = some r ↔ r ∈ rs ∧ r.id = id := by
  constructor
  · intro h
    exact ⟨List.mem_of_find?_eq_some h, by simpa using List.find?_some h⟩
  · rintro ⟨hr, rfl⟩
    have hn' : (rs.reverse.map (·.id)).Nodup := by simpa [List.map_reverse] using hn
    have := find?_reverse_id hn' (List.mem_reverse.mpr hr)
    rwa [List.reverse_reverse] at this

theorem find?_map_id {rs : List RecipientRecord} {f : RecipientRecord → RecipientRecord}
    (hf : ∀ r, (f r).id = r.id) (id : String) :
    (rs.map f).find? (·.id == id) = (rs.find? (·.id == id)).map f := by
  rw [List.find?_map]
  simp only [Function.comp_def, hf]

namespace DeliveryLedgerState

/-- The status of a recipient, `none` when the ledger does not list it. -/
def statusOf (s : DeliveryLedgerState) (id : String) : Option RecipientStatus :=
  (s.recipients.find? (·.id == id)).map (·.status)

/-- The ledger with its recipients in the order of the message, as the planners see it. -/
def ordering (s : DeliveryLedgerState) : DeliveryLedgerState :=
  { s with recipients := orderRecipients s.message.recipientIds s.recipients }

theorem statusOf_map {s : DeliveryLedgerState} {f : RecipientRecord → RecipientRecord}
    {rs : List RecipientRecord} (hs : s.recipients = rs.map f) (hf : ∀ r, (f r).id = r.id)
    (id : String) :
    s.statusOf id = (rs.find? (·.id == id)).map fun r => (f r).status := by
  rw [statusOf, hs, find?_map_id hf, Option.map_map]
  rfl

namespace Consistent

variable {s : DeliveryLedgerState}

theorem recipients_nodup (h : s.Consistent) : (s.recipients.map (·.id)).Nodup :=
  h.recipient_ids.nodup_iff.mpr h.message_valid.nodup

theorem ordering_ordered (h : s.Consistent) : s.ordering.Ordered :=
  map_id_orderRecipients fun _ hid => h.recipient_ids.mem_iff.mpr hid

theorem mem_ordering (h : s.Consistent) {r : RecipientRecord} :
    r ∈ s.ordering.recipients ↔ r ∈ s.recipients := by
  simp only [ordering, orderRecipients, List.mem_filterMap]
  constructor
  · rintro ⟨id, -, hr⟩
    exact List.mem_reverse.mp (List.mem_of_find?_eq_some hr)
  · intro hr
    exact ⟨r.id, h.recipient_ids.mem_iff.mp (List.mem_map_of_mem hr),
      find?_reverse_id h.recipients_nodup hr⟩

theorem ordering_statusOf (h : s.Consistent) (id : String) :
    s.ordering.statusOf id = s.statusOf id := by
  have hn : (s.ordering.recipients.map (·.id)).Nodup := h.ordering_ordered ▸ h.message_valid.nodup
  have hfind : s.ordering.recipients.find? (·.id == id) = s.recipients.find? (·.id == id) := by
    ext r
    rw [find?_id_eq_some hn, find?_id_eq_some h.recipients_nodup, h.mem_ordering]
  rw [statusOf, statusOf, hfind]

theorem ordering_consistent (h : s.Consistent) : s.ordering.Consistent where
  message_valid := h.message_valid
  recipients_valid r hr := h.recipients_valid r (h.mem_ordering.mp hr)
  attempts_valid := h.attempts_valid
  email_id := h.email_id
  recipient_ids := by
    rw [show s.ordering.recipients.map (·.id) = _ from h.ordering_ordered]
  recipient_message r hr := h.recipient_message r (h.mem_ordering.mp hr)
  attempt_ids := h.attempt_ids
  attempt_sequences := h.attempt_sequences
  attempt_message := h.attempt_message
  attempt_recipients a ha id hid := by
    obtain ⟨r, hr, hrid⟩ := List.mem_map.mp (h.attempt_recipients a ha id hid)
    exact List.mem_map.mpr ⟨r, h.mem_ordering.mpr hr, hrid⟩

end Consistent

end DeliveryLedgerState

/-- The assertion of a planner passes on a ledger exactly when it passes on the ordered one, with
the same result. -/
theorem assertLedgerState_ordering {s t : DeliveryLedgerState} (h : assertLedgerState s = .ok t) :
    s.Consistent ∧ assertLedgerState s.ordering = .ok t := by
  obtain ⟨hc, rfl⟩ := assertLedgerState_eq_ok.mp h
  exact ⟨hc, (assertLedgerState_of_ordered hc.ordering_ordered).mpr ⟨hc.ordering_consistent, rfl⟩⟩

/-- So a planner that starts with the assertion can be read on the ordered ledger. -/
theorem assertLedgerState_bind {α : Type} {s : DeliveryLedgerState}
    {k : DeliveryLedgerState → Except Failure α} {a : α} (h : (assertLedgerState s >>= k) = .ok a) :
    s.Consistent ∧ (assertLedgerState s.ordering >>= k) = .ok a := by
  obtain ⟨t, ht, hk⟩ := bind_eq_ok.mp h
  obtain ⟨hc, ht'⟩ := assertLedgerState_ordering ht
  exact ⟨hc, bind_eq_ok.mpr ⟨t, ht', hk⟩⟩

/-! ## One operation -/

/-- The operations that write a plan. -/
def LedgerOp.isPlanned : LedgerOp → Bool
  | .beginAttempt _ | .completeAttempt _ | .appendEvent _ | .applyLocalState _ _ => true
  | .claim _ _ | .updateEmail _ _ | .reschedule _ _ => false

/-- How an operation may change the status of a recipient. -/
def LedgerOp.Turns (op : LedgerOp) (st st' : RecipientStatus) : Prop :=
  match op with
  | .beginAttempt _ => st = .queued
  | .completeAttempt _ => st' = st ∨ st = .sending
  | .appendEvent e => st' = st ∨ st' = transitionRecipientStatus st e.type
  | .applyLocalState status _ =>
    st' = if st = .complained ∨ st = .suppressed then st else status.toRecipientStatus
  | _ => st' = st

@[simp] theorem completeRecipient_id (a : AttemptRecord) (input : AttemptCompletion)
    (r : RecipientRecord) : (completeRecipient a input r).id = r.id := by
  unfold completeRecipient
  split_ifs <;> rfl

/-- Recipients that are mapped, keeping their ids, after the planner ordered them. -/
theorem DeliveryLedgerState.Consistent.statusOf_of_map {s t : DeliveryLedgerState}
    (h : s.Consistent) {f : RecipientRecord → RecipientRecord}
    {P : RecipientStatus → RecipientStatus → Prop}
    (ht : t.recipients = s.ordering.recipients.map f) (hid : ∀ r, (f r).id = r.id)
    (hf : ∀ r ∈ s.ordering.recipients, P r.status (f r).status) {id : String}
    {st : RecipientStatus} (hst : s.statusOf id = some st) :
    ∃ st', t.statusOf id = some st' ∧ P st st' := by
  rw [← h.ordering_statusOf id] at hst
  obtain ⟨r, hr, rfl⟩ := Option.map_eq_some_iff.mp hst
  refine ⟨(f r).status, ?_, hf r (List.mem_of_find?_eq_some hr)⟩
  rw [statusOf_map ht hid, hr]
  rfl

/-- **What an operation does to a recipient**, and that it derives the status of the message. -/
theorem LedgerOp.apply_statusOf {s s' : DeliveryLedgerSnapshot} {op : LedgerOp}
    (hop : op.isPlanned = true) (h : op.apply s = some s') :
    s.Consistent ∧ s'.message.status = aggregateStatus (s'.recipients.map (·.status)) ∧
      ∀ id st, s.statusOf id = some st → ∃ st', s'.statusOf id = some st' ∧ op.Turns st st' := by
  cases op with
  | beginAttempt a =>
    obtain ⟨⟨⟨t, ids⟩, a'⟩, hp, rfl⟩ := Option.map_eq_some_iff.mp h
    obtain ⟨hc, hp⟩ := assertLedgerState_bind (toOption_eq_some.mp hp)
    obtain ⟨-, -, -, hq, -, hs⟩ := planAttemptStart_eq_ok hc.ordering_ordered hp
    obtain rfl : t = _ := hs
    exact ⟨hc, rfl, fun id st hst => hc.statusOf_of_map (f := startRecipient a) rfl (fun _ => rfl)
      (fun r hr => hq r hr) hst⟩
  | completeAttempt input =>
    obtain ⟨⟨⟨t, ids⟩, a'⟩, hp, rfl⟩ := Option.map_eq_some_iff.mp h
    obtain ⟨hc, hp⟩ := assertLedgerState_bind (toOption_eq_some.mp hp)
    obtain ⟨i, a, -, -, -, -, -, hown, -, hs⟩ :=
      planAttemptCompletion_eq_ok hc.ordering_ordered hp
    obtain rfl : t = _ := hs
    refine ⟨hc, rfl, fun id st hst =>
      hc.statusOf_of_map rfl (completeRecipient_id a input) (fun r hr => ?_) hst⟩
    show (completeRecipient a input r).status = r.status ∨ r.status = .sending
    unfold completeRecipient
    split_ifs with ho
    · simp only [AttemptRecord.owns, Bool.and_eq_true, List.contains_iff_mem] at ho
      exact Or.inr (hown r hr ho.1).1
    · exact Or.inl rfl
  | appendEvent e =>
    obtain ⟨⟨⟨t, ids⟩, e'⟩, hp, rfl⟩ := Option.map_eq_some_iff.mp h
    obtain ⟨hc, hp⟩ := assertLedgerState_bind (toOption_eq_some.mp hp)
    obtain ⟨-, -, -, -, hs⟩ := planProviderEvent_eq_ok hc.ordering_ordered hp
    obtain rfl : t = _ := hs
    refine ⟨hc, rfl, fun id st hst =>
      hc.statusOf_of_map rfl (fun r => r.withStatus_id _ _) (fun r _ => ?_) hst⟩
    rw [RecipientRecord.withStatus_status, eventStatus]
    split_ifs
    · exact Or.inr rfl
    · exact Or.inl rfl
  | applyLocalState status updatedAt =>
    obtain ⟨⟨t, ids⟩, hp, rfl⟩ := Option.map_eq_some_iff.mp h
    obtain ⟨hc, hp⟩ := assertLedgerState_bind (toOption_eq_some.mp hp)
    obtain ⟨-, -, -, hs⟩ := planLocalRecipientState_eq_ok hc.ordering_ordered hp
    obtain rfl : t = _ := hs
    exact ⟨hc, rfl, fun id st hst => hc.statusOf_of_map rfl (fun r => r.withStatus_id _ _)
      (fun r _ => r.withStatus_status _ _) hst⟩
  | claim => cases hop
  | updateEmail => cases hop
  | reschedule => cases hop

/-- Of a bounce or a cancellation an event makes a complaint or nothing. -/
theorem transitionRecipientStatus_halted {st : RecipientStatus}
    (h : st = .bounced ∨ st = .canceled) (e : ProviderEventType) :
    transitionRecipientStatus st e = st ∨ transitionRecipientStatus st e = .complained := by
  rcases h with rfl | rfl <;> cases e <;> decide

namespace LedgerOp.Turns

variable {op : LedgerOp} {st st' : RecipientStatus}

theorem complained (h : op.Turns .complained st') : st' = .complained := by
  cases op with
  | beginAttempt a => cases h
  | completeAttempt input => exact h.resolve_right (by decide)
  | appendEvent e =>
    refine h.elim id fun h => h.trans ?_
    cases e.type <;> rfl
  | applyLocalState status t => exact h
  | _ => exact h

theorem suppressed (h : op.Turns .suppressed st') : st' = .suppressed := by
  cases op with
  | beginAttempt a => cases h
  | completeAttempt input => exact h.resolve_right (by decide)
  | appendEvent e =>
    refine h.elim id fun h => h.trans ?_
    cases e.type <;> rfl
  | applyLocalState status t => exact h
  | _ => exact h

/-- A bounced recipient, or one that was canceled. -/
theorem halted (hst : st = .bounced ∨ st = .canceled) (h : op.Turns st st') :
    st' = st ∨ st' = .complained ∨
      ∃ status t, op = .applyLocalState status t ∧ st' = status.toRecipientStatus := by
  cases op with
  | beginAttempt a => rcases hst with rfl | rfl <;> cases h
  | completeAttempt input =>
    refine h.imp id fun h => ?_
    rcases hst with rfl | rfl <;> cases h
  | appendEvent e =>
    refine h.elim Or.inl fun h => ?_
    rw [h]
    exact (transitionRecipientStatus_halted hst e.type).imp id Or.inl
  | applyLocalState status t =>
    refine Or.inr (Or.inr ⟨status, t, rfl, ?_⟩)
    rcases hst with rfl | rfl <;> exact h
  | _ => exact Or.inl h

end LedgerOp.Turns

/-! ## The message -/

theorem aggregateStatus_eq_suppressed {l : List RecipientStatus}
    (h : RecipientStatus.suppressed ∈ l) : aggregateStatus l = .suppressed := by
  simp [aggregateStatus, h]

/-- The aggregate is one of the two safety statuses exactly when a recipient has one of them. -/
theorem aggregateStatus_safety {l : List RecipientStatus} :
    (aggregateStatus l = .complained ∨ aggregateStatus l = .suppressed) ↔
      RecipientStatus.complained ∈ l ∨ RecipientStatus.suppressed ∈ l := by
  constructor
  · intro h
    by_contra hno
    rw [not_or] at hno
    unfold aggregateStatus at h
    simp only [List.contains_iff_mem, hno.1, hno.2, if_false] at h
    split_ifs at h <;> simp at h
  · intro h
    by_cases hs : RecipientStatus.suppressed ∈ l
    · exact Or.inr (aggregateStatus_eq_suppressed hs)
    · have hc := h.resolve_right hs
      exact Or.inl (by simp [aggregateStatus, hs, hc])

/-- A recipient of a ledger whose records agree, by its id. -/
theorem DeliveryLedgerState.Consistent.exists_statusOf {s : DeliveryLedgerState}
    (h : s.Consistent) {st : RecipientStatus} (hst : st ∈ s.recipients.map (·.status)) :
    ∃ id, s.statusOf id = some st := by
  obtain ⟨r, hr, rfl⟩ := List.mem_map.mp hst
  exact ⟨r.id, by rw [statusOf, (find?_id_eq_some h.recipients_nodup).mpr ⟨hr, rfl⟩]; rfl⟩

theorem DeliveryLedgerState.mem_status_of_statusOf {s : DeliveryLedgerState} {id : String}
    {st : RecipientStatus} (h : s.statusOf id = some st) : st ∈ s.recipients.map (·.status) := by
  obtain ⟨r, hr, rfl⟩ := Option.map_eq_some_iff.mp h
  exact List.mem_map_of_mem (List.mem_of_find?_eq_some hr)

/-! ## Runs -/

/-- An operation that fails throws and leaves the ledger as it is. -/
def LedgerOp.perform (s : DeliveryLedgerSnapshot) (op : LedgerOp) : DeliveryLedgerSnapshot :=
  (op.apply s).getD s

/-- What a run of operations keeps of the safety outcomes. -/
structure SafetyKept (ops : List LedgerOp) (s s' : DeliveryLedgerSnapshot) : Prop where
  complained : ∀ id, s.statusOf id = some .complained → s'.statusOf id = some .complained
  suppressed : ∀ id, s.statusOf id = some .suppressed → s'.statusOf id = some .suppressed
  halted : ∀ id st, (st = .bounced ∨ st = .canceled) → s.statusOf id = some st →
    ∃ st', s'.statusOf id = some st' ∧ (st' = st ∨ st' = .complained ∨
      ∃ status t, .applyLocalState status t ∈ ops ∧ st' = status.toRecipientStatus)
  message : deriveDeliveryMessageStatus s.recipients = .ok s.message.status →
    s.message.status = .complained ∨ s.message.status = .suppressed →
    deriveDeliveryMessageStatus s'.recipients = .ok s'.message.status ∧
      (s'.message.status = .complained ∨ s'.message.status = .suppressed)

theorem LedgerOp.apply_safety {s s' : DeliveryLedgerSnapshot} {op : LedgerOp}
    (hop : op.isPlanned = true) (h : op.apply s = some s') : SafetyKept [op] s s' := by
  obtain ⟨hc, hm, hst⟩ := apply_statusOf hop h
  have hcomplained : ∀ id, s.statusOf id = some .complained → s'.statusOf id = some .complained := by
    intro id hid
    obtain ⟨st', hst', ht⟩ := hst id _ hid
    rw [hst', ht.complained]
  have hsuppressed : ∀ id, s.statusOf id = some .suppressed → s'.statusOf id = some .suppressed := by
    intro id hid
    obtain ⟨st', hst', ht⟩ := hst id _ hid
    rw [hst', ht.suppressed]
  refine ⟨hcomplained, hsuppressed, fun id st hhalt hid => ?_, fun hd hs => ?_⟩
  · obtain ⟨st', hst', ht⟩ := hst id _ hid
    refine ⟨st', hst', (ht.halted hhalt).imp_right fun hor => hor.imp_right ?_⟩
    rintro ⟨status, t, rfl, heq⟩
    exact ⟨status, t, List.mem_singleton_self _, heq⟩
  · have hagg : s.message.status = aggregateStatus (s.recipients.map (·.status)) := by
      unfold deriveDeliveryMessageStatus at hd
      split_ifs at hd
      simpa using hd.symm
    rw [hagg, aggregateStatus_safety] at hs
    have hmem : RecipientStatus.complained ∈ s'.recipients.map (·.status) ∨
        RecipientStatus.suppressed ∈ s'.recipients.map (·.status) := by
      refine hs.imp (fun h => ?_) fun h => ?_
      · obtain ⟨id, hid⟩ := hc.exists_statusOf h
        exact DeliveryLedgerState.mem_status_of_statusOf (hcomplained id hid)
      · obtain ⟨id, hid⟩ := hc.exists_statusOf h
        exact DeliveryLedgerState.mem_status_of_statusOf (hsuppressed id hid)
    have hne : s'.recipients ≠ [] := by
      intro hnil
      rw [hnil] at hmem
      simp at hmem
    rw [deriveDeliveryMessageStatus, if_neg hne, hm]
    exact ⟨rfl, aggregateStatus_safety.mpr hmem⟩

theorem SafetyKept.refl (ops : List LedgerOp) (s : DeliveryLedgerSnapshot) :
    SafetyKept ops s s where
  complained _ h := h
  suppressed _ h := h
  halted _ st _ h := ⟨st, h, Or.inl rfl⟩
  message hd hs := ⟨hd, hs⟩

theorem SafetyKept.trans {ops ops' : List LedgerOp} {s t u : DeliveryLedgerSnapshot}
    (h : SafetyKept ops s t) (h' : SafetyKept ops' t u) : SafetyKept (ops ++ ops') s u where
  complained id hid := h'.complained id (h.complained id hid)
  suppressed id hid := h'.suppressed id (h.suppressed id hid)
  halted id st hst hid := by
    obtain ⟨st₁, h₁, hcase⟩ := h.halted id st hst hid
    rcases hcase with rfl | rfl | ⟨status, t', hmem, rfl⟩
    · obtain ⟨st₂, h₂, hcase⟩ := h'.halted id _ hst h₁
      refine ⟨st₂, h₂, hcase.imp_right fun hor => hor.imp_right ?_⟩
      rintro ⟨status, t', hmem, heq⟩
      exact ⟨status, t', List.mem_append_right _ hmem, heq⟩
    · exact ⟨_, h'.complained id h₁, Or.inr (Or.inl rfl)⟩
    · cases status with
      | suppressed =>
        exact ⟨_, h'.suppressed id h₁, Or.inr (Or.inr
          ⟨.suppressed, t', List.mem_append_left _ hmem, rfl⟩)⟩
      | canceled =>
        obtain ⟨st₂, h₂, hcase⟩ := h'.halted id _ (Or.inr rfl) h₁
        refine ⟨st₂, h₂, Or.inr ?_⟩
        rcases hcase with rfl | rfl | ⟨status, t'', hmem', rfl⟩
        · exact Or.inr ⟨.canceled, t', List.mem_append_left _ hmem, rfl⟩
        · exact Or.inl rfl
        · exact Or.inr ⟨status, t'', List.mem_append_right _ hmem', rfl⟩
  message hd hs := by
    obtain ⟨hd', hs'⟩ := h.message hd hs
    exact h'.message hd' hs'

theorem LedgerOp.perform_safety (s : DeliveryLedgerSnapshot) {op : LedgerOp}
    (hop : op.isPlanned = true) : SafetyKept [op] s (op.perform s) := by
  unfold perform
  cases h : op.apply s with
  | none => exact .refl _ s
  | some s' => exact apply_safety hop h

theorem foldl_perform_safety {ops : List LedgerOp} (hops : ∀ op ∈ ops, op.isPlanned = true)
    (s : DeliveryLedgerSnapshot) : SafetyKept ops s (ops.foldl (fun s op => op.perform s) s) := by
  induction ops generalizing s with
  | nil => exact .refl _ s
  | cons op ops ih =>
    have hhead := LedgerOp.perform_safety s (hops op List.mem_cons_self)
    exact hhead.trans (ih (fun o ho => hops o (List.mem_cons_of_mem _ ho)) (op.perform s))

/-- The statuses of a recipient that is being, or has been, sent to. -/
def RecipientStatus.isSent : RecipientStatus → Bool
  | .sending | .accepted | .delivered | .opened | .clicked => true
  | _ => false

/-- **Safety outcomes are sticky.** Over every run of attempt starts, completions, provider events
and local states. -/
theorem safety_outcomes_sticky (s : DeliveryLedgerSnapshot) (ops : List LedgerOp)
    (hops : ∀ op ∈ ops, op.isPlanned = true) :
    let s' := ops.foldl (fun s op => op.perform s) s
    (∀ id, s.statusOf id = some .complained → s'.statusOf id = some .complained) ∧
      (∀ id, s.statusOf id = some .suppressed → s'.statusOf id = some .suppressed) ∧
      (∀ id, s.statusOf id = some .bounced → ∃ st, s'.statusOf id = some st ∧
        (st = .bounced ∨ st = .complained ∨
          ∃ status t, .applyLocalState status t ∈ ops ∧ st = status.toRecipientStatus)) ∧
      (∀ id st st', s.statusOf id = some st →
        st = .complained ∨ st = .suppressed ∨ st = .bounced →
        s'.statusOf id = some st' → st'.isSent = false) ∧
      (deriveDeliveryMessageStatus s.recipients = .ok s.message.status →
        s.message.status = .complained ∨ s.message.status = .suppressed →
        s'.message.status = .complained ∨ s'.message.status = .suppressed) := by
  intro s'
  have hkept : SafetyKept ops s s' := foldl_perform_safety hops s
  refine ⟨hkept.complained, hkept.suppressed, fun id => hkept.halted id _ (Or.inl rfl),
    fun id st st' hst hcase hst' => ?_, fun hd hs => (hkept.message hd hs).2⟩
  rcases hcase with rfl | rfl | rfl
  · rw [hkept.complained id hst, Option.some.injEq] at hst'
    subst hst'
    rfl
  · rw [hkept.suppressed id hst, Option.some.injEq] at hst'
    subst hst'
    rfl
  · obtain ⟨st₁, h₁, hcase⟩ := hkept.halted id _ (Or.inl rfl) hst
    rw [h₁, Option.some.injEq] at hst'
    subst hst'
    rcases hcase with rfl | rfl | ⟨status, t, -, rfl⟩
    · rfl
    · rfl
    · cases status <;> rfl

/-- A message with a recipient who complained and one who bounced. -/
def complaintSample : DeliveryLedgerSnapshot where
  email := {
    id := "email_0123456789abcdef"
    to_ := ["ada@example.com", "bob@example.com"]
    status := .complained
    lastEvent := .status .complained
    createdAt := 1000
    updatedAt := 3000
    requestHash := "00000000000000000000000000000000000000000000000000000000000000ff"
    attempts := 1 }
  message := {
    id := "email_0123456789abcdef"
    provider := ⟨"aws-ses", "1.0.0", "1.0.0"⟩
    intentDigest := "00000000000000000000000000000000000000000000000000000000000000ff"
    recipientIds := ["rcpt_000000000000000000000a", "rcpt_000000000000000000000b"]
    status := .complained
    createdAt := 1000
    updatedAt := 3000 }
  recipients := [
    { id := "rcpt_000000000000000000000a"
      messageId := "email_0123456789abcdef"
      role := .to_
      ordinal := 0
      address := "ada@example.com"
      status := .complained
      createdAt := 1000
      updatedAt := 3000 },
    { id := "rcpt_000000000000000000000b"
      messageId := "email_0123456789abcdef"
      role := .to_
      ordinal := 1
      address := "bob@example.com"
      status := .bounced
      createdAt := 1000
      updatedAt := 3000 }]
  attempts := []
  events := []

theorem safety_outcomes_sticky_sample :
    let s' := [LedgerOp.applyLocalState .canceled 4000].foldl (fun s op => op.perform s)
      complaintSample
    s'.statusOf "rcpt_000000000000000000000a" = some .complained ∧
      s'.statusOf "rcpt_000000000000000000000b" = some .canceled ∧
      (s'.message.status = .complained ∨ s'.message.status = .suppressed) := by
  obtain ⟨hc, -, -, -, hm⟩ := safety_outcomes_sticky complaintSample
    [LedgerOp.applyLocalState .canceled 4000] (by decide)
  exact ⟨hc _ (by decide), by decide +kernel, hm (by decide) (Or.inl rfl)⟩

end HayaSend
