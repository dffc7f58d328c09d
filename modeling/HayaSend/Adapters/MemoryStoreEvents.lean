import HayaSend.Adapters.MemoryStoreLedger
import HayaSend.Core.LedgerRecords

/-!
# Provider events of the in-memory store

A provider delivers an event more than once, each time with another time of receipt. Here is what
a run of the store's operations makes of that: a stored event is never rewritten
(`performAll_event`), a repeated delivery reports a replay and changes nothing
(`Complete.perform_replay`), and a run leaves the store it would have left without its repeated
deliveries (`Complete.performAll_withoutRepeats`).

The store recognises a repetition by the stored event alone, before it looks at the message. What
it needs of the message is that its records can still be read, for the result it returns:
`MemoryStore.Complete` says that they can, and every operation keeps it, whatever ids the attempts
it is given carry.
-/

namespace HayaSend

/-! ## Operations -/

/-- The delivery operations of a store. -/
inductive StoreOp
  | commitDelivery (input : DeliveryCommit) (nowEpochSeconds : ℕ)
  | beginAttempt (attempt : AttemptRecord)
  | completeAttempt (input : AttemptCompletion)
  | appendEvent (event : ProviderEventRecord)
  | applyLocalState (messageId : String) (status : LocalStatus) (updatedAt : ℕ)
  | claim (id : String) (attempt now : ℕ)
  | reschedule (id : String) (scheduledAt now : ℕ)

/-- What an operation reports: an error, or the result of a ledger operation. -/
abbrev StoreOutcome := Except Failure (Option DeliveryLedgerMutationResult)

namespace MemoryStore

/-- An operation that throws leaves the store as it is. -/
def settle (s : MemoryStore) :
    Except Failure (MemoryStore × Option DeliveryLedgerMutationResult) →
      MemoryStore × StoreOutcome
  | .error e => (s, .error e)
  | .ok (s', r) => (s', .ok r)

/-- The store an operation leaves, and what it reports. -/
def perform (s : MemoryStore) : StoreOp → MemoryStore × StoreOutcome
  | .commitDelivery input now => s.settle ((s.commitDelivery input now).map fun p => (p.1, none))
  | .beginAttempt attempt => s.settle (s.beginDeliveryAttempt attempt)
  | .completeAttempt input => s.settle (s.completeDeliveryAttempt input)
  | .appendEvent event => s.settle (s.appendProviderEvent event)
  | .applyLocalState messageId status updatedAt =>
    s.settle (s.applyLocalDeliveryState messageId status updatedAt)
  | .claim id attempt now =>
    (((s.claimEmailForSend id attempt now).map Prod.fst).getD s, .ok none)
  | .reschedule id scheduledAt now =>
    (((s.rescheduleEmailAndOutbox id scheduledAt now).map Prod.fst).getD s, .ok none)

/-- The store after a run of operations. -/
def performAll (s : MemoryStore) (ops : List StoreOp) : MemoryStore :=
  ops.foldl (fun s op => (s.perform op).1) s

/-! ## Complete messages -/

/-- Every message can be read back, and every event belongs to one. -/
structure Complete (s : MemoryStore) : Prop where
  message_id : ∀ k m, s.deliveryMessages.get k = some m → m.id = k
  has_email : ∀ k m, s.deliveryMessages.get k = some m → ∃ e, s.emails.get k = some e
  recipient_id : ∀ k r, s.deliveryRecipients.get k = some r → r.id = k
  has_recipient : ∀ k m, s.deliveryMessages.get k = some m → ∀ id ∈ m.recipientIds,
    ∃ r, s.deliveryRecipients.get id = some r
  event : ∀ id e, s.providerEvents.get id = some e →
    e.id = id ∧ ∃ m, s.deliveryMessages.get e.messageId = some m

theorem complete_empty : Complete {} where
  message_id _ _ h := by cases h
  has_email _ _ h := by cases h
  recipient_id _ _ h := by cases h
  has_recipient _ _ h := by cases h
  event _ _ h := by cases h

theorem deliveryLedger_eq_some {s : MemoryStore} {k : String} {snap : DeliveryLedgerSnapshot}
    (h : s.deliveryLedger k = some snap) : s.emails.get k = some snap.email ∧
      s.deliveryMessages.get k = some snap.message ∧
      s.recipientsOf snap.message = some snap.recipients := by
  simp only [deliveryLedger, Option.pure_def, Option.bind_eq_bind, Option.bind_eq_some_iff,
    Option.some.injEq] at h
  obtain ⟨e, he, m, hm, rs, hrs, rfl⟩ := h
  exact ⟨he, hm, hrs⟩

namespace Complete

variable {s : MemoryStore}

/-- The ledger of a stored message can be read. -/
theorem exists_deliveryLedger (h : s.Complete) {k : String} {m : MessageRecord}
    (hm : s.deliveryMessages.get k = some m) : ∃ snap, s.deliveryLedger k = some snap := by
  obtain ⟨e, he⟩ := h.has_email k m hm
  obtain ⟨rs, hrs⟩ := s.deliveryRecipients.exists_map_get (h.has_recipient k m hm)
  rw [← recipientsOf_eq_some] at hrs
  simp only [deliveryLedger, he, hm, hrs, Option.bind_eq_bind, Option.bind_some]
  exact ⟨_, rfl⟩

theorem ordered (h : s.Complete) {k : String} {snap : DeliveryLedgerSnapshot}
    (hl : s.deliveryLedger k = some snap) : snap.Ordered := by
  obtain ⟨-, -, hr⟩ := deliveryLedger_eq_some hl
  rw [recipientsOf_eq_some] at hr
  unfold DeliveryLedgerState.Ordered
  revert hr
  generalize snap.message.recipientIds = ids
  generalize snap.recipients = rs
  intro hr
  induction ids generalizing rs with
  | nil =>
    cases rs with
    | nil => rfl
    | cons r rs => cases hr
  | cons id ids ih =>
    cases rs with
    | nil => cases hr
    | cons r rs =>
      rw [List.map_cons, List.map_cons, List.cons.injEq] at hr
      rw [List.map_cons, ih rs hr.2, h.recipient_id id r hr.1]

/-- Writing a plan back keeps the messages complete. -/
theorem commitLedgerPlan (h : s.Complete) {k : String} {snap : DeliveryLedgerSnapshot}
    (hl : s.deliveryLedger k = some snap) {st : DeliveryLedgerState} {a : Option AttemptRecord}
    (hk : snap.toDeliveryLedgerState.Keeps st a) {e : Option ProviderEventRecord}
    (he : ∀ e', e = some e' → e'.messageId = k) : (s.commitLedgerPlan st a e).Complete := by
  obtain ⟨-, hmessage, -⟩ := deliveryLedger_eq_some hl
  have hmid : st.message.id = k := hk.frame.message_id.trans (h.message_id k _ hmessage)
  have hmessages : ∀ k' m, (s.deliveryMessages.set st.message.id st.message).get k' = some m →
      ∃ m', s.deliveryMessages.get k' = some m' ∧ m.id = m'.id ∧
        m.recipientIds = m'.recipientIds := by
    intro k' m hm
    rw [OrderedMap.get_set, hmid] at hm
    split_ifs at hm with heq
    · rw [Option.some.injEq] at hm
      subst hm heq
      exact ⟨_, hmessage, hk.frame.message_id, hk.frame.recipient_ids⟩
    · exact ⟨m, hm, rfl, rfl⟩
  refine ⟨fun k' m hm => ?_, fun k' m hm => ?_, fun k' r hr => ?_, fun k' m hm id hid => ?_,
    fun id e' he' => ?_⟩
  · obtain ⟨m', hm', hid, -⟩ := hmessages k' m hm
    rw [hid, h.message_id k' m' hm']
  · obtain ⟨m', hm', -⟩ := hmessages k' m hm
    exact s.emails.exists_get_set (h.has_email k' m' hm') _ _
  · exact (s.deliveryRecipients.get_setAll_cases st.recipients hr).elim (h.recipient_id k' r) id
  · obtain ⟨m', hm', -, hids⟩ := hmessages k' m hm
    exact s.deliveryRecipients.exists_get_setAll _ (h.has_recipient k' m' hm' id (hids ▸ hid))
  · have hset : ∀ k', (∃ m, s.deliveryMessages.get k' = some m) →
        ∃ m, (s.commitLedgerPlan st a e).deliveryMessages.get k' = some m :=
      fun k' hk' => s.deliveryMessages.exists_get_set hk' _ _
    have hold : s.providerEvents.get id = some e' → e'.id = id ∧
        ∃ m, (s.commitLedgerPlan st a e).deliveryMessages.get e'.messageId = some m := fun hev =>
      ⟨(h.event id e' hev).1, hset _ (h.event id e' hev).2⟩
    cases e with
    | none => exact hold he'
    | some f =>
      change (s.providerEvents.set f.id f).get id = some e' at he'
      rw [OrderedMap.get_set] at he'
      split_ifs at he' with hid
      · rw [Option.some.injEq] at he'
        subst he'
        exact ⟨hid.symm, hset _ ⟨_, (he f rfl).symm ▸ hmessage⟩⟩
      · exact hold he'

/-- A write to messages and emails that keeps the ids and the recipient lists. -/
theorem of_messages (h : s.Complete) {t : MemoryStore}
    (hm : ∀ k m, t.deliveryMessages.get k = some m → ∃ m', s.deliveryMessages.get k = some m' ∧
      m.id = m'.id ∧ m.recipientIds = m'.recipientIds)
    (hm' : ∀ k, (∃ m, s.deliveryMessages.get k = some m) → ∃ m, t.deliveryMessages.get k = some m)
    (he : ∀ k, (∃ e, s.emails.get k = some e) → ∃ e, t.emails.get k = some e)
    (hr : t.deliveryRecipients = s.deliveryRecipients) (hp : t.providerEvents = s.providerEvents) :
    t.Complete where
  message_id k m hk := by
    obtain ⟨m', hk', hid, -⟩ := hm k m hk
    rw [hid, h.message_id k m' hk']
  has_email k m hk := by
    obtain ⟨m', hk', -⟩ := hm k m hk
    exact he k (h.has_email k m' hk')
  recipient_id k r hk := h.recipient_id k r (hr ▸ hk)
  has_recipient k m hk id hid := by
    obtain ⟨m', hk', -, hids⟩ := hm k m hk
    rw [hr]
    exact h.has_recipient k m' hk' id (hids ▸ hid)
  event id e hid := by
    rw [hp] at hid
    exact ⟨(h.event id e hid).1, hm' _ (h.event id e hid).2⟩

end Complete

/-! ## What an operation does to the events -/

theorem commitDelivery_events {s s' : MemoryStore} {input : DeliveryCommit} {now : ℕ}
    {r : DeliveryCommitResult} (h : s.commitDelivery input now = .ok (s', r)) :
    s'.providerEvents = s.providerEvents := by
  obtain ⟨c, -, h⟩ := bind_eq_ok.mp h
  dsimp only at h
  split at h
  · split_ifs at h
    split at h
    · cases h
    · rw [Except.ok.injEq, Prod.mk.injEq] at h
      rw [h.1]
  · obtain ⟨_, -, h⟩ := bind_eq_ok.mp h
    obtain ⟨_, -, h⟩ := bind_eq_ok.mp h
    rw [pure_eq_ok, Prod.mk.injEq] at h
    rw [← h.1]

theorem Complete.commitDelivery {s s' : MemoryStore} (h : s.Complete) {input : DeliveryCommit}
    {now : ℕ} {r : DeliveryCommitResult} (hc : s.commitDelivery input now = .ok (s', r)) :
    s'.Complete := by
  have hevents := commitDelivery_events hc
  rcases commitDelivery_eq_ok hc with ⟨rfl, -⟩ | ⟨hcom, -⟩
  · exact h
  have hrec : ∀ id, (∃ r, s.deliveryRecipients.get id = some r) →
      ∃ r, s'.deliveryRecipients.get id = some r := by
    rintro id ⟨r, hr⟩
    exact ⟨r, hcom.get_recipient_other hr⟩
  refine ⟨fun k m hm => ?_, fun k m hm => ?_, fun k r hr => ?_, fun k m hm id hid => ?_,
    fun id e he => ?_⟩
  · rw [hcom.messages, OrderedMap.get_set] at hm
    split_ifs at hm with hk
    · rw [Option.some.injEq] at hm
      rw [hk, hm]
    · exact h.message_id k m hm
  · rw [hcom.emails]
    rw [hcom.messages, OrderedMap.get_set] at hm
    split_ifs at hm with hk
    · exact ⟨input.email, by rw [hk, OrderedMap.get_set_self]⟩
    · exact s.emails.exists_get_set (h.has_email k m hm) _ _
  · rw [hcom.recipients] at hr
    exact (s.deliveryRecipients.get_setAll_cases _ hr).elim (h.recipient_id k r) id
  · rw [hcom.messages, OrderedMap.get_set] at hm
    split_ifs at hm with hk
    · rw [Option.some.injEq] at hm
      subst hm
      obtain ⟨r, hr, rfl⟩ := List.mem_map.mp (hcom.consistent.recipient_ids.mem_iff.mpr hid)
      exact ⟨r, hcom.get_recipient hr⟩
    · exact hrec id (h.has_recipient k m hm id hid)
  · rw [hevents] at he
    obtain ⟨hid, hm⟩ := h.event id e he
    rw [hcom.messages]
    exact ⟨hid, s.deliveryMessages.exists_get_set hm _ _⟩

/-- An operation keeps the messages complete; the events stay as they are, unless it stores the
new event it was given. -/
structure Performed (s s' : MemoryStore) (op : StoreOp) (r : StoreOutcome) : Prop where
  complete : s'.Complete
  events : s'.providerEvents = s.providerEvents ∨ ∃ e res, op = .appendEvent e ∧
    s.providerEvents.get e.id = none ∧ s'.providerEvents = s.providerEvents.set e.id e ∧
    r = .ok (some res) ∧ res.replayed = false

theorem Complete.performed_same {s : MemoryStore} (h : s.Complete) (op : StoreOp)
    (r : StoreOutcome) : Performed s s op r := ⟨h, Or.inl rfl⟩

/-- What a ledger operation does to the store: nothing, or it writes a plan for one ledger, with
the event if it has one. -/
inductive LedgerWrite (s : MemoryStore) (e : Option ProviderEventRecord) (s' : MemoryStore) : Prop
  | same : s' = s → LedgerWrite s e s'
  | plan (k : String) (snap : DeliveryLedgerSnapshot) (st : DeliveryLedgerState)
      (a : Option AttemptRecord) : s.deliveryLedger k = some snap →
      snap.toDeliveryLedgerState.Keeps st a → (∀ e', e = some e' → e'.messageId = k) →
      s' = s.commitLedgerPlan st a e → LedgerWrite s e s'

theorem LedgerWrite.complete {s s' : MemoryStore} {e : Option ProviderEventRecord}
    (hw : LedgerWrite s e s') (h : s.Complete) : s'.Complete := by
  cases hw with
  | same heq => exact heq ▸ h
  | plan k snap st a hl hk he heq => exact heq ▸ h.commitLedgerPlan hl hk he

theorem LedgerWrite.performed {s s' : MemoryStore} (hw : LedgerWrite s none s') (h : s.Complete)
    (op : StoreOp) (r : StoreOutcome) : Performed s s' op r := by
  refine ⟨hw.complete h, Or.inl ?_⟩
  cases hw with
  | same heq => rw [heq]
  | plan k snap st a hl hk he heq => rw [heq]; rfl

theorem Complete.write_begin {s s' : MemoryStore} (h : s.Complete) {a : AttemptRecord}
    {r : Option DeliveryLedgerMutationResult} (hb : s.beginDeliveryAttempt a = .ok (s', r)) :
    LedgerWrite s none s' := by
  obtain ⟨b, hp, hb⟩ := bind_eq_ok.mp hb
  obtain ⟨-, rfl⟩ := AttemptRecord.parse_eq_ok.mp hp
  split at hb
  · rw [pure_eq_ok, Prod.mk.injEq] at hb
    exact .same hb.1.symm
  · rename_i snap hl
    split at hb
    · obtain ⟨_, -, hb⟩ := bind_eq_ok.mp hb
      rw [pure_eq_ok, Prod.mk.injEq] at hb
      exact .same hb.1.symm
    · obtain ⟨⟨p, a'⟩, hplan, hb⟩ := bind_eq_ok.mp hb
      rw [pure_eq_ok, Prod.mk.injEq] at hb
      obtain ⟨rfl, -⟩ := hb
      obtain ⟨hs, rfl, rfl⟩ := (planAttemptStart_iff (h.ordered hl)).mp hplan
      exact .plan _ snap _ _ hl hs.keeps (fun _ he => by cases he) rfl

theorem Complete.write_complete {s s' : MemoryStore} (h : s.Complete) {input : AttemptCompletion}
    {r : Option DeliveryLedgerMutationResult}
    (hb : s.completeDeliveryAttempt input = .ok (s', r)) : LedgerWrite s none s' := by
  unfold completeDeliveryAttempt at hb
  split at hb
  · rw [Except.ok.injEq, Prod.mk.injEq] at hb
    exact .same hb.1.symm
  · rename_i snap hl
    split at hb
    · cases hb
    · split_ifs at hb
      · obtain ⟨_, -, hb⟩ := bind_eq_ok.mp hb
        rw [pure_eq_ok, Prod.mk.injEq] at hb
        exact .same hb.1.symm
      · obtain ⟨⟨p, b⟩, hplan, hb⟩ := bind_eq_ok.mp hb
        rw [pure_eq_ok, Prod.mk.injEq] at hb
        obtain ⟨rfl, -⟩ := hb
        obtain ⟨i, a, hcompletes, rfl, rfl⟩ := (planAttemptCompletion_iff (h.ordered hl)).mp hplan
        exact .plan _ snap _ _ hl hcompletes.keeps (fun _ he => by cases he) rfl

theorem Complete.write_local {s s' : MemoryStore} (h : s.Complete) {k : String}
    {status : LocalStatus} {t : ℕ} {r : Option DeliveryLedgerMutationResult}
    (hb : s.applyLocalDeliveryState k status t = .ok (s', r)) : LedgerWrite s none s' := by
  unfold applyLocalDeliveryState at hb
  split at hb
  · rw [Except.ok.injEq, Prod.mk.injEq] at hb
    exact .same hb.1.symm
  · rename_i snap hl
    obtain ⟨p, hplan, hb⟩ := bind_eq_ok.mp hb
    rw [pure_eq_ok, Prod.mk.injEq] at hb
    obtain ⟨rfl, -⟩ := hb
    obtain ⟨⟨-, -, hrestates⟩, rfl⟩ := (planLocalRecipientState_iff (h.ordered hl)).mp hplan
    exact .plan _ snap _ _ hl (hrestates.keeps none) (fun _ he => by cases he) rfl

/-- The new event is written with its plan, or it changes nothing. -/
theorem Complete.write_append {s s' : MemoryStore} (h : s.Complete) {e : ProviderEventRecord}
    {r : Option DeliveryLedgerMutationResult} (hb : s.appendProviderEvent e = .ok (s', r)) :
    LedgerWrite s (some e) s' := by
  obtain ⟨b, hp, hb⟩ := bind_eq_ok.mp hb
  obtain ⟨-, rfl⟩ := ProviderEventRecord.parse_eq_ok.mp hp
  split at hb
  · obtain ⟨_, -, hb⟩ := bind_eq_ok.mp hb
    rw [pure_eq_ok, Prod.mk.injEq] at hb
    exact .same hb.1.symm
  · split at hb
    · rw [pure_eq_ok, Prod.mk.injEq] at hb
      exact .same hb.1.symm
    · rename_i snap hl
      obtain ⟨⟨p, e'⟩, hplan, hb⟩ := bind_eq_ok.mp hb
      rw [pure_eq_ok, Prod.mk.injEq] at hb
      obtain ⟨rfl, -⟩ := hb
      obtain ⟨⟨-, -, hrestates⟩, rfl, rfl⟩ := (planProviderEvent_iff (h.ordered hl)).mp hplan
      exact .plan _ snap _ none hl (hrestates.keeps none)
        (fun _ he => by rw [← Option.some.inj he]) rfl

theorem Complete.performed_begin {s : MemoryStore} (h : s.Complete) (a : AttemptRecord) :
    Performed s (s.perform (.beginAttempt a)).1 (.beginAttempt a)
      (s.perform (.beginAttempt a)).2 := by
  show Performed s (s.settle (s.beginDeliveryAttempt a)).1 _ (s.settle (s.beginDeliveryAttempt a)).2
  cases hb : s.beginDeliveryAttempt a with
  | error e => exact h.performed_same _ _
  | ok p => exact (h.write_begin hb).performed h _ _

theorem Complete.performed_complete {s : MemoryStore} (h : s.Complete) (input : AttemptCompletion) :
    Performed s (s.perform (.completeAttempt input)).1 (.completeAttempt input)
      (s.perform (.completeAttempt input)).2 := by
  show Performed s (s.settle (s.completeDeliveryAttempt input)).1 _
    (s.settle (s.completeDeliveryAttempt input)).2
  cases hb : s.completeDeliveryAttempt input with
  | error e => exact h.performed_same _ _
  | ok p => exact (h.write_complete hb).performed h _ _

theorem Complete.performed_local {s : MemoryStore} (h : s.Complete) (k : String)
    (status : LocalStatus) (t : ℕ) :
    Performed s (s.perform (.applyLocalState k status t)).1 (.applyLocalState k status t)
      (s.perform (.applyLocalState k status t)).2 := by
  show Performed s (s.settle (s.applyLocalDeliveryState k status t)).1 _
    (s.settle (s.applyLocalDeliveryState k status t)).2
  cases hb : s.applyLocalDeliveryState k status t with
  | error e => exact h.performed_same _ _
  | ok p => exact (h.write_local hb).performed h _ _

/-- An event: a replay or an unknown message changes nothing, a new event is stored. -/
theorem Complete.performed_append {s : MemoryStore} (h : s.Complete) (e : ProviderEventRecord) :
    Performed s (s.perform (.appendEvent e)).1 (.appendEvent e)
      (s.perform (.appendEvent e)).2 := by
  show Performed s (s.settle (s.appendProviderEvent e)).1 _ (s.settle (s.appendProviderEvent e)).2
  cases hb : s.appendProviderEvent e with
  | error e => exact h.performed_same _ _
  | ok p =>
    obtain ⟨s', r⟩ := p
    show Performed s s' _ (.ok r)
    obtain ⟨b, hp, hb⟩ := bind_eq_ok.mp hb
    obtain ⟨-, rfl⟩ := ProviderEventRecord.parse_eq_ok.mp hp
    split at hb
    · obtain ⟨_, -, hb⟩ := bind_eq_ok.mp hb
      rw [pure_eq_ok, Prod.mk.injEq] at hb
      exact hb.1 ▸ h.performed_same _ _
    · rename_i hnew
      split at hb
      · rw [pure_eq_ok, Prod.mk.injEq] at hb
        exact hb.1 ▸ h.performed_same _ _
      · rename_i snap hl
        obtain ⟨⟨p, e'⟩, hplan, hb⟩ := bind_eq_ok.mp hb
        rw [pure_eq_ok, Prod.mk.injEq] at hb
        obtain ⟨rfl, rfl⟩ := hb
        obtain ⟨⟨-, -, hrestates⟩, rfl, rfl⟩ := (planProviderEvent_iff (h.ordered hl)).mp hplan
        have hcomplete : (s.commitLedgerPlan (snap.observed e') none (some e')).Complete :=
          h.commitLedgerPlan hl (hrestates.keeps none) fun _ he => by rw [← Option.some.inj he]
        -- the message is still there to be reported
        obtain ⟨-, hmessage, -⟩ := deliveryLedger_eq_some hl
        obtain ⟨m, hm'⟩ := s.deliveryMessages.exists_get_set ⟨_, hmessage⟩
          (snap.observed e').message.id (snap.observed e').message
        obtain ⟨snap', hsnap⟩ := hcomplete.exists_deliveryLedger hm'
        refine ⟨hcomplete, Or.inr ⟨e', { snap' with
          replayed := false
          changedRecipientIds :=
            (snap.recipients.filter fun r => eventStatus e' r != r.status).map (·.id)
          event := some e' }, rfl, hnew, rfl, ?_, rfl⟩⟩
        rw [deliveryLedgerResult, hsnap]
        rfl

theorem Complete.performed {s : MemoryStore} (h : s.Complete) (op : StoreOp) :
    Performed s (s.perform op).1 op (s.perform op).2 := by
  cases op with
  | commitDelivery input now =>
    show Performed s (s.settle ((s.commitDelivery input now).map _)).1 _ _
    cases hb : s.commitDelivery input now with
    | error e => exact h.performed_same _ _
    | ok p => exact ⟨h.commitDelivery hb, Or.inl (commitDelivery_events hb)⟩
  | beginAttempt a => exact h.performed_begin a
  | completeAttempt input => exact h.performed_complete input
  | appendEvent e => exact h.performed_append e
  | applyLocalState k status t => exact h.performed_local k status t
  | claim id attempt now =>
    show Performed s (((s.claimEmailForSend id attempt now).map Prod.fst).getD s) _ _
    cases hb : s.claimEmailForSend id attempt now with
    | none => exact h.performed_same _ _
    | some p =>
      obtain ⟨s', e⟩ := p
      show Performed s s' _ _
      obtain ⟨e₀, -, -, -, rfl⟩ := claimEmailForSend_eq_some.mp hb
      exact ⟨h.of_messages (fun k m hm => ⟨m, hm, rfl, rfl⟩) (fun _ hk => hk)
        (fun k hk => s.emails.exists_get_set hk _ _) rfl rfl, Or.inl rfl⟩
  | reschedule id t now =>
    show Performed s (((s.rescheduleEmailAndOutbox id t now).map Prod.fst).getD s) _ _
    cases hb : s.rescheduleEmailAndOutbox id t now with
    | none => exact h.performed_same _ _
    | some p =>
      obtain ⟨s', e⟩ := p
      show Performed s s' _ _
      obtain ⟨e₀, m, o, -, hm, -, -, -, -, -, rfl⟩ := rescheduleEmailAndOutbox_eq_some.mp hb
      refine ⟨h.of_messages (fun k m' hk => ?_)
        (fun k hk => s.deliveryMessages.exists_get_set hk _ _)
        (fun k hk => s.emails.exists_get_set hk _ _) rfl rfl, Or.inl rfl⟩
      rw [OrderedMap.get_set] at hk
      split_ifs at hk with hid
      · rw [Option.some.injEq] at hk
        subst hid hk
        exact ⟨m, hm, rfl, rfl⟩
      · exact ⟨m', hk, rfl, rfl⟩

/-- A stored event is never rewritten. -/
theorem performAll_event {s : MemoryStore} (h : s.Complete) {id : String}
    {e : ProviderEventRecord} (he : s.providerEvents.get id = some e) (ops : List StoreOp) :
    (s.performAll ops).providerEvents.get id = some e := by
  induction ops generalizing s with
  | nil => exact he
  | cons op ops ih =>
    have hp := h.performed op
    refine ih hp.complete ?_
    rcases hp.events with hev | ⟨f, _, -, hnew, hev, -⟩
    · rw [hev, he]
    · rw [hev, OrderedMap.get_set_ne, he]
      rintro rfl
      rw [he] at hnew
      cases hnew

end MemoryStore

/-! ## Repeated deliveries -/

/-- The validity of an event does not depend on when it was received. -/
theorem ProviderEventRecord.valid_of_isEquivalentReplay {e e' : ProviderEventRecord}
    (h : e.isEquivalentReplay e' = true) (hv : e.Valid) : e'.Valid := by
  have heq : { e with receivedAt := 0 } = { e' with receivedAt := 0 } := by
    simpa [isEquivalentReplay] using h
  show ({ e' with receivedAt := 0 } : ProviderEventRecord).issues = []
  rw [← heq]
  exact hv

theorem ProviderEventRecord.id_of_isEquivalentReplay {e e' : ProviderEventRecord}
    (h : e.isEquivalentReplay e' = true) : e.id = e'.id := by
  have heq : { e with receivedAt := 0 } = { e' with receivedAt := 0 } := by
    simpa [isEquivalentReplay] using h
  exact congrArg (·.id) heq

theorem ProviderEventRecord.isEquivalentReplay_trans {a b c : ProviderEventRecord}
    (hab : a.isEquivalentReplay b = true) (hbc : b.isEquivalentReplay c = true) :
    a.isEquivalentReplay c = true := by
  simp only [isEquivalentReplay, beq_iff_eq] at hab hbc ⊢
  exact hab.trans hbc

namespace MemoryStore

/-- The event an operation was given, when the store took it or knew it. -/
def accepts (s : MemoryStore) : StoreOp → Option ProviderEventRecord
  | .appendEvent e =>
    match (s.perform (.appendEvent e)).2 with
    | .ok (some _) => some e
    | _ => none
  | _ => none

/-- The events a run accepted. -/
def accepted (s : MemoryStore) : List StoreOp → List ProviderEventRecord
  | [] => []
  | op :: ops => (s.accepts op).toList ++ accepted (s.perform op).1 ops

end MemoryStore

/-- A delivery of an event that was accepted before, up to the time of receipt. -/
def StoreOp.repeats (seen : List ProviderEventRecord) : StoreOp → Bool
  | .appendEvent e => seen.any (·.isEquivalentReplay e)
  | _ => false

namespace MemoryStore

/-- A run without its repeated deliveries; `seen` are the events accepted before it. -/
def withoutRepeats (s : MemoryStore) (seen : List ProviderEventRecord) :
    List StoreOp → List StoreOp
  | [] => []
  | op :: ops =>
    if op.repeats seen then withoutRepeats (s.perform op).1 seen ops
    else op :: withoutRepeats (s.perform op).1 (seen ++ (s.accepts op).toList) ops

/-- The store has an event, up to the time of receipt. -/
def Knows (s : MemoryStore) (e : ProviderEventRecord) : Prop :=
  e.Valid ∧ ∃ e₀, s.providerEvents.get e.id = some e₀ ∧ e₀.isEquivalentReplay e = true

/-- An event the store knows is replayed. -/
theorem Complete.perform_replay {s : MemoryStore} (h : s.Complete) {e : ProviderEventRecord}
    (hk : s.Knows e) :
    ∃ r, s.perform (.appendEvent e) = (s, .ok (some r)) ∧ r.replayed = true := by
  obtain ⟨hv, e₀, he₀, hrep⟩ := hk
  obtain ⟨-, m, hm⟩ := h.event _ e₀ he₀
  obtain ⟨snap, hsnap⟩ := h.exists_deliveryLedger hm
  refine ⟨{ snap with replayed := true, changedRecipientIds := [], event := some e₀ }, ?_, rfl⟩
  show s.settle (s.appendProviderEvent e) = _
  have happend : s.appendProviderEvent e =
      .ok (s, s.deliveryLedgerResult e₀.messageId true [] none (some e₀)) := by
    refine bind_eq_ok.mpr ⟨e, ProviderEventRecord.parse_eq_ok.mpr ⟨hv, rfl⟩, ?_⟩
    rw [he₀]
    exact bind_eq_ok.mpr ⟨(), by rw [throwIf_eq_ok, hrep]; rfl, rfl⟩
  rw [happend, deliveryLedgerResult, hsnap]
  rfl

/-- An event with the id of another is refused. -/
theorem perform_reuse {s : MemoryStore} {e e₀ : ProviderEventRecord}
    (he₀ : s.providerEvents.get e.id = some e₀) (hrep : e₀.isEquivalentReplay e = false) :
    ∃ f, s.perform (.appendEvent e) = (s, .error f) := by
  show ∃ f, s.settle (s.appendProviderEvent e) = _
  cases hb : s.appendProviderEvent e with
  | error f => exact ⟨f, rfl⟩
  | ok p =>
    obtain ⟨b, hp, hb⟩ := bind_eq_ok.mp hb
    obtain ⟨-, rfl⟩ := ProviderEventRecord.parse_eq_ok.mp hp
    rw [he₀] at hb
    obtain ⟨_, hthrow, -⟩ := bind_eq_ok.mp hb
    rw [throwIf_eq_ok, hrep] at hthrow
    cases hthrow

/-- An event that is taken is new, or known already. -/
theorem appendProviderEvent_eq_ok {s s' : MemoryStore} {e : ProviderEventRecord}
    {r : DeliveryLedgerMutationResult} (hb : s.appendProviderEvent e = .ok (s', some r)) :
    e.Valid ∧ ((∃ e₀, s.providerEvents.get e.id = some e₀ ∧ e₀.isEquivalentReplay e = true ∧
        s' = s) ∨ s'.providerEvents = s.providerEvents.set e.id e) := by
  obtain ⟨b, hp, hb⟩ := bind_eq_ok.mp hb
  obtain ⟨hv, rfl⟩ := ProviderEventRecord.parse_eq_ok.mp hp
  refine ⟨hv, ?_⟩
  split at hb
  · rename_i e₀ he₀
    obtain ⟨_, hthrow, hb⟩ := bind_eq_ok.mp hb
    rw [pure_eq_ok, Prod.mk.injEq] at hb
    exact Or.inl ⟨e₀, he₀, by simpa using hthrow, hb.1.symm⟩
  · split at hb
    · rw [pure_eq_ok, Prod.mk.injEq] at hb
      cases hb.2
    · obtain ⟨⟨p, e'⟩, -, hb⟩ := bind_eq_ok.mp hb
      rw [pure_eq_ok, Prod.mk.injEq] at hb
      exact Or.inr (by rw [← hb.1]; rfl)

/-- The store knows what it accepts. -/
theorem knows_of_accepts {s : MemoryStore} {op : StoreOp} {e : ProviderEventRecord}
    (ha : s.accepts op = some e) : (s.perform op).1.Knows e := by
  cases op with
  | appendEvent f =>
    unfold accepts at ha
    dsimp only at ha
    split at ha
    · rename_i res hres
      obtain rfl := Option.some.inj ha
      change (s.settle (s.appendProviderEvent f)).2 = _ at hres
      show (s.settle (s.appendProviderEvent f)).1.Knows f
      cases hb : s.appendProviderEvent f with
      | error g => rw [hb] at hres; cases hres
      | ok p =>
        obtain ⟨s', r⟩ := p
        rw [hb] at hres
        obtain rfl : r = some res := Except.ok.inj hres
        obtain ⟨hv, ⟨e₀, he₀, hrep, rfl⟩ | hev⟩ := appendProviderEvent_eq_ok hb
        · exact ⟨hv, e₀, he₀, hrep⟩
        · refine ⟨hv, f, ?_, ?_⟩
          · show s'.providerEvents.get f.id = some f
            rw [hev, OrderedMap.get_set_self]
          · simp [ProviderEventRecord.isEquivalentReplay]
    · cases ha
  | _ => cases ha

theorem Complete.knows_performAll {s : MemoryStore} (h : s.Complete) {e : ProviderEventRecord}
    (hk : s.Knows e) (ops : List StoreOp) : (s.performAll ops).Knows e := by
  obtain ⟨hv, e₀, he₀, hrep⟩ := hk
  exact ⟨hv, e₀, performAll_event h he₀ ops, hrep⟩

theorem Knows.of_isEquivalentReplay {s : MemoryStore} {e e' : ProviderEventRecord}
    (hk : s.Knows e) (h : e.isEquivalentReplay e' = true) : s.Knows e' := by
  obtain ⟨hv, e₀, he₀, hrep⟩ := hk
  refine ⟨ProviderEventRecord.valid_of_isEquivalentReplay h hv, e₀, ?_,
    ProviderEventRecord.isEquivalentReplay_trans hrep h⟩
  rwa [← ProviderEventRecord.id_of_isEquivalentReplay h]

/-- The store knows every event a run accepted. -/
theorem Complete.knows_of_accepted {s : MemoryStore} (h : s.Complete) {ops : List StoreOp}
    {e : ProviderEventRecord} (he : e ∈ s.accepted ops) : (s.performAll ops).Knows e := by
  induction ops generalizing s with
  | nil => cases he
  | cons op ops ih =>
    have hc := (h.performed op).complete
    rcases List.mem_append.mp he with he | he
    · exact hc.knows_performAll (knows_of_accepts (Option.mem_toList.mp he)) ops
    · exact ih hc he

/-- Dropping the repeated deliveries from a run leaves its last store as it is. -/
theorem Complete.performAll_withoutRepeats {s : MemoryStore} (h : s.Complete)
    {seen : List ProviderEventRecord} (hseen : ∀ e ∈ seen, s.Knows e) (ops : List StoreOp) :
    s.performAll (s.withoutRepeats seen ops) = s.performAll ops := by
  induction ops generalizing s seen with
  | nil => rfl
  | cons op ops ih =>
    have hc := (h.performed op).complete
    have hkeep : ∀ e, s.Knows e → (s.perform op).1.Knows e := fun e hk =>
      h.knows_performAll hk [op]
    unfold withoutRepeats
    split_ifs with hrep
    · -- the dropped operation does nothing
      have hsame : (s.perform op).1 = s := by
        cases op with
        | appendEvent e =>
          obtain ⟨f, hf, hfe⟩ := List.any_eq_true.mp hrep
          obtain ⟨r, hr, -⟩ := h.perform_replay ((hseen f hf).of_isEquivalentReplay hfe)
          rw [hr]
        | _ => cases hrep
      show _ = (s.perform op).1.performAll ops
      rw [hsame]
      exact ih h hseen
    · refine ih hc fun e he => ?_
      rcases List.mem_append.mp he with he | he
      · exact hkeep e (hseen e he)
      · exact knows_of_accepts (Option.mem_toList.mp he)

end MemoryStore

end HayaSend
