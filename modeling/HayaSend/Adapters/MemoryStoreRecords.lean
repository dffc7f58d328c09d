import HayaSend.Adapters.MemoryStoreEvents

/-!
# First and repeated deliveries of an event

`MemoryStoreEvents` says what a repeated delivery of a provider event does: nothing. Here is what
the first one does: an event that correlates with the ledger of its message is stored and applied
(`Checked.perform_first`). A planner throws when any record of the ledger fails its check, so the
store has to keep every record in order, whatever attempts, completions and events it is given:
`MemoryStore.Checked` says so, and every operation keeps it. The update time of a message is the
one thing it leaves out, for a reschedule writes it as it is given.

`provider_events_exactly_once` puts the two together.
-/

namespace HayaSend

namespace MemoryStore

/-- Every record passes the checks of the planners, the update times of the messages apart. -/
structure Checked (s : MemoryStore) : Prop extends s.Complete where
  email_id : ∀ k e, s.emails.get k = some e → e.id = k
  message : ∀ k m, s.deliveryMessages.get k = some m →
    ({ m with updatedAt := m.createdAt } : MessageRecord).Valid
  recipient : ∀ k m, s.deliveryMessages.get k = some m → ∀ id ∈ m.recipientIds,
    ∀ r, s.deliveryRecipients.get id = some r →
      r.Valid ∧ r.messageId = k ∧ r.createdAt = m.createdAt
  attempt : ∀ id a, s.deliveryAttempts.get id = some a → a.id = id ∧ a.Valid ∧
    ∃ m, s.deliveryMessages.get a.messageId = some m ∧ a.provider = m.provider ∧
      a.recipientIds ⊆ m.recipientIds
  sequences : ∀ id id' a a', s.deliveryAttempts.get id = some a →
    s.deliveryAttempts.get id' = some a' → a.messageId = a'.messageId →
    a.sequence = a'.sequence → id = id'

theorem checked_empty : Checked {} where
  toComplete := complete_empty
  email_id _ _ h := by cases h
  message _ _ h := by cases h
  recipient _ _ h := by cases h
  attempt _ _ h := by cases h
  sequences _ _ _ _ h := by cases h

/-! ## Reading a ledger in order -/

theorem deliveryLedger_attempts {s : MemoryStore} {k : String} {snap : DeliveryLedgerSnapshot}
    (h : s.deliveryLedger k = some snap) :
    snap.attempts = (s.attemptsOf k).insertionSort attemptOrder := by
  simp only [deliveryLedger, Option.pure_def, Option.bind_eq_bind, Option.bind_eq_some_iff,
    Option.some.injEq] at h
  obtain ⟨e, -, m, -, rs, -, rfl⟩ := h
  rfl

theorem Complete.mem_recipients {s : MemoryStore} (h : s.Complete) {k : String}
    {snap : DeliveryLedgerSnapshot} (hl : s.deliveryLedger k = some snap) {r : RecipientRecord}
    (hr : r ∈ snap.recipients) :
    r.id ∈ snap.message.recipientIds ∧ s.deliveryRecipients.get r.id = some r := by
  obtain ⟨-, -, hrecipients⟩ := deliveryLedger_eq_some hl
  rw [recipientsOf_eq_some] at hrecipients
  have hmem : some r ∈ snap.message.recipientIds.map s.deliveryRecipients.get :=
    hrecipients ▸ List.mem_map_of_mem hr
  obtain ⟨id, hid, hget⟩ := List.mem_map.mp hmem
  obtain rfl := h.recipient_id id r hget
  exact ⟨hid, hget⟩

namespace Checked

variable {s : MemoryStore} {k : String} {snap : DeliveryLedgerSnapshot}

theorem mem_attempts (h : s.Checked) (hl : s.deliveryLedger k = some snap) {a : AttemptRecord} :
    a ∈ snap.attempts ↔ s.deliveryAttempts.get a.id = some a ∧ a.messageId = k := by
  rw [deliveryLedger_attempts hl, List.mem_insertionSort, attemptsOf, List.mem_filter,
    OrderedMap.mem_values_iff, beq_iff_eq]
  refine and_congr_left fun _ => ⟨?_, fun ha => ⟨_, ha⟩⟩
  rintro ⟨id, ha⟩
  rwa [(h.attempt id a ha).1]

theorem attempt_ids (h : s.Checked) (hl : s.deliveryLedger k = some snap) :
    (snap.attempts.map (·.id)).Nodup := by
  have hkeys : s.deliveryAttempts.values.map (·.id) = s.deliveryAttempts.keys :=
    OrderedMap.map_values_eq_keys fun id a ha => (h.attempt id a ha).1
  have hvalues : (s.deliveryAttempts.values.map (·.id)).Nodup :=
    hkeys ▸ s.deliveryAttempts.nodup
  rw [deliveryLedger_attempts hl]
  exact ((List.perm_insertionSort _ _).map _).nodup_iff.mpr
    (hvalues.sublist (List.filter_sublist.map _))

/-- A message that was not updated before it was created has a ledger the planners accept. -/
theorem ready (h : s.Checked) (hl : s.deliveryLedger k = some snap)
    (ht : snap.message.createdAt ≤ snap.message.updatedAt) :
    Ready snap.toDeliveryLedgerState := by
  obtain ⟨hemail, hmessage, -⟩ := deliveryLedger_eq_some hl
  have hmid : snap.message.id = k := h.message_id k _ hmessage
  have hordered : snap.Ordered := h.ordered hl
  have hrecipient : ∀ r ∈ snap.recipients,
      r.Valid ∧ r.messageId = k ∧ r.createdAt = snap.message.createdAt := by
    intro r hr
    obtain ⟨hid, hget⟩ := h.mem_recipients hl hr
    exact h.recipient k _ hmessage r.id hid r hget
  have hattempt : ∀ a ∈ snap.attempts, a.Valid ∧ a.messageId = snap.message.id ∧
      a.provider = snap.message.provider ∧ a.recipientIds ⊆ snap.message.recipientIds := by
    intro a ha
    obtain ⟨hget, hk⟩ := (h.mem_attempts hl).mp ha
    obtain ⟨-, hv, m, hm, hp, hr⟩ := h.attempt _ a hget
    rw [hk, hmessage, Option.some.injEq] at hm
    subst hm
    exact ⟨hv, hk.trans hmid.symm, hp, hr⟩
  have hsequences : (snap.attempts.map (·.sequence)).Nodup := by
    refine List.Nodup.map_on (fun a ha b hb heq => ?_) (h.attempt_ids hl).of_map
    obtain ⟨hget, hk⟩ := (h.mem_attempts hl).mp ha
    obtain ⟨hget', hk'⟩ := (h.mem_attempts hl).mp hb
    have hid := h.sequences _ _ a b hget hget' (hk.trans hk'.symm) heq
    rw [hid, hget', Option.some.injEq] at hget
    exact hget.symm
  refine ⟨⟨(h.message k _ hmessage).update rfl rfl rfl rfl ht, fun r hr => (hrecipient r hr).1,
    fun a ha => (hattempt a ha).1, (h.email_id k _ hemail).trans hmid.symm, ?_,
    fun r hr => (hrecipient r hr).2.1.trans hmid.symm, h.attempt_ids hl, hsequences,
    fun a ha => ⟨(hattempt a ha).2.1, (hattempt a ha).2.2.1⟩, fun a ha id hid => ?_⟩,
    hordered, fun r hr => (hrecipient r hr).2.2.le.trans ht⟩
  · exact List.Perm.of_eq hordered
  · show id ∈ snap.recipients.map (·.id)
    rw [hordered]
    exact (hattempt a ha).2.2.2 hid

/-! ## Every operation keeps the records in order -/

/-- A stored attempt is the one written with the plan, or one that was there under another id. -/
theorem attempt_commitLedgerPlan {st : DeliveryLedgerState} {a : Option AttemptRecord}
    {e : Option ProviderEventRecord} {id : String} {b : AttemptRecord}
    (hb : (s.commitLedgerPlan st a e).deliveryAttempts.get id = some b) :
    (a = some b ∧ b.id = id) ∨
      (s.deliveryAttempts.get id = some b ∧ ∀ c, a = some c → c.id ≠ id) := by
  cases a with
  | none => exact Or.inr ⟨hb, fun c hc => by cases hc⟩
  | some c =>
    change (s.deliveryAttempts.set c.id c).get id = some b at hb
    rw [OrderedMap.get_set] at hb
    split_ifs at hb with heq
    · exact Or.inl ⟨hb, heq ▸ congrArg (·.id) (Option.some.inj hb).symm⟩
    · refine Or.inr ⟨hb, fun c' hc' => ?_⟩
      rw [← Option.some.inj hc']
      exact fun hcid => heq hcid.symm

/-- The attempt written with a plan has a number of its own. -/
theorem sequence_ne_written (h : s.Checked) (hl : s.deliveryLedger k = some snap)
    {st : DeliveryLedgerState} {a b : AttemptRecord}
    (hk : snap.toDeliveryLedgerState.Keeps st (some a)) {id : String}
    (hb : s.deliveryAttempts.get id = some b) (hne : a.id ≠ id)
    (hm : a.messageId = b.messageId) : a.sequence ≠ b.sequence := by
  intro heq
  obtain ⟨-, hmessage, -⟩ := deliveryLedger_eq_some hl
  have hmid : st.message.id = k := hk.frame.message_id.trans (h.message_id k _ hmessage)
  have hid : b.id = id := (h.attempt id b hb).1
  have hold : b ∈ snap.attempts :=
    (h.mem_attempts hl).mpr ⟨by rwa [hid], (hm.symm.trans (hk.written rfl).2.1).trans hmid⟩
  have hkept : b ∈ st.attempts := hk.attempts b hold fun c hc => by
    rw [hid, ← Option.some.inj hc]
    exact hne
  have hsame : a = b := List.inj_on_of_nodup_map hk.consistent.attempt_sequences
    (hk.attempt a rfl) hkept heq
  exact hne (hsame ▸ hid)

/-- A plan that is written back. -/
theorem commitLedgerPlan (h : s.Checked) (hl : s.deliveryLedger k = some snap)
    {st : DeliveryLedgerState} {a : Option AttemptRecord}
    (hk : snap.toDeliveryLedgerState.Keeps st a) {e : Option ProviderEventRecord}
    (he : ∀ e', e = some e' → e'.messageId = k) : (s.commitLedgerPlan st a e).Checked := by
  obtain ⟨-, hmessage, -⟩ := deliveryLedger_eq_some hl
  have hcomplete : (s.commitLedgerPlan st a e).Complete := h.toComplete.commitLedgerPlan hl hk he
  have hc := hk.consistent
  have hmid : st.message.id = k := hk.frame.message_id.trans (h.message_id k _ hmessage)
  have hids : ∀ id, id ∈ st.recipients.map (·.id) ↔ id ∈ snap.message.recipientIds := by
    intro id
    rw [hc.recipient_ids.mem_iff, hk.frame.recipient_ids]
  have hnodup : (st.recipients.map (·.id)).Nodup :=
    hc.recipient_ids.nodup_iff.mpr hc.message_valid.nodup
  have hmessages : ∀ k' m, s.deliveryMessages.get k' = some m →
      ∃ m', (s.deliveryMessages.set st.message.id st.message).get k' = some m' ∧
        m'.provider = m.provider ∧ m'.recipientIds = m.recipientIds := by
    intro k' m hm
    rw [OrderedMap.get_set, hmid]
    split_ifs with heq
    · rw [heq, hmessage, Option.some.injEq] at hm
      subst hm
      exact ⟨_, rfl, hk.provider, hk.frame.recipient_ids⟩
    · exact ⟨m, hm, rfl, rfl⟩
  have hcreated : ∀ r ∈ st.recipients, r.createdAt = st.message.createdAt := by
    refine hk.created fun r hr => ?_
    obtain ⟨hid, hget⟩ := h.mem_recipients hl hr
    exact (h.recipient k _ hmessage r.id hid r hget).2.2
  refine ⟨hcomplete, OrderedMap.forall_get_set h.email_id rfl,
    OrderedMap.forall_get_set h.message (hc.message_valid.update rfl rfl rfl rfl le_rfl),
    fun k' m hm id hid r hr => ?_, fun id b hb => ?_, fun id id' b b' hb hb' hm hs => ?_⟩
  · change (s.deliveryMessages.set st.message.id st.message).get k' = some m at hm
    change (s.deliveryRecipients.setAll (·.id) st.recipients).get id = some r at hr
    rw [OrderedMap.get_set] at hm
    split_ifs at hm with heq
    · rw [Option.some.injEq] at hm
      subst hm
      obtain ⟨r', hr', rfl⟩ := List.mem_map.mp (hc.recipient_ids.mem_iff.mpr hid)
      rw [OrderedMap.get_setAll_of_mem hnodup hr', Option.some.injEq] at hr
      subst hr
      exact ⟨hc.recipients_valid _ hr', (hc.recipient_message _ hr').trans heq.symm,
        hcreated _ hr'⟩
    · -- a recipient of another message is not written
      have hnot : id ∉ st.recipients.map (·.id) := by
        rw [hids]
        intro hmem
        obtain ⟨r', hr'⟩ := h.has_recipient k _ hmessage id hmem
        have hrk := (h.recipient k _ hmessage id hmem r' hr').2.1
        have hrk' := (h.recipient k' m hm id hid r' hr').2.1
        exact heq (hrk'.symm.trans (hrk.trans hmid.symm))
      rw [OrderedMap.get_setAll_of_notMem hnot] at hr
      exact h.recipient k' m hm id hid r hr
  · rcases attempt_commitLedgerPlan hb with ⟨hab, hid⟩ | ⟨hold, -⟩
    · obtain ⟨hv, hbm, hp, hr⟩ := hk.written hab
      refine ⟨hid, hv, st.message, ?_, hp, hr⟩
      show (s.deliveryMessages.set st.message.id st.message).get b.messageId = some st.message
      rw [hbm, OrderedMap.get_set_self]
    · obtain ⟨hid, hv, m, hm, hp, hr⟩ := h.attempt id b hold
      obtain ⟨m', hm', hp', hr'⟩ := hmessages _ m hm
      exact ⟨hid, hv, m', hm', hp.trans hp'.symm, hr' ▸ hr⟩
  · rcases attempt_commitLedgerPlan hb with ⟨hab, hid⟩ | ⟨hold, hne⟩
    · rcases attempt_commitLedgerPlan hb' with ⟨hab', hid'⟩ | ⟨hold', hne'⟩
      · rw [hab, Option.some.injEq] at hab'
        rw [← hid, ← hid', hab']
      · subst hab
        exact absurd hs (h.sequence_ne_written hl hk hold' (hne' b rfl) hm)
    · rcases attempt_commitLedgerPlan hb' with ⟨hab', hid'⟩ | ⟨hold', -⟩
      · subst hab'
        exact absurd hs.symm (h.sequence_ne_written hl hk hold (hne b' rfl) hm.symm)
      · exact h.sequences id id' b b' hold hold' hm hs

theorem write (h : s.Checked) {t : MemoryStore} {e : Option ProviderEventRecord}
    (hw : LedgerWrite s e t) : t.Checked := by
  cases hw with
  | same heq => exact heq ▸ h
  | plan k snap st a hl hk he heq => exact heq ▸ h.commitLedgerPlan hl hk he

theorem commitDelivery (h : s.Checked) {t : MemoryStore} {input : DeliveryCommit} {now : ℕ}
    {r : DeliveryCommitResult} (hc : s.commitDelivery input now = .ok (t, r)) : t.Checked := by
  have hcomplete := h.toComplete.commitDelivery hc
  rcases commitDelivery_eq_ok hc with ⟨rfl, -⟩ | ⟨hcom, -⟩
  · exact h
  refine ⟨hcomplete, ?_, ?_, fun k m hm id hid r hr => ?_, fun id a ha => ?_, ?_⟩
  · rw [hcom.emails]
    exact OrderedMap.forall_get_set h.email_id hcom.consistent.email_id
  · rw [hcom.messages]
    exact OrderedMap.forall_get_set h.message
      (hcom.consistent.message_valid.update rfl rfl rfl rfl le_rfl)
  · rw [hcom.messages, OrderedMap.get_set] at hm
    split_ifs at hm with heq
    · rw [Option.some.injEq] at hm
      subst hm
      obtain ⟨r', hr', rfl⟩ := List.mem_map.mp (hcom.consistent.recipient_ids.mem_iff.mpr hid)
      rw [hcom.get_recipient hr', Option.some.injEq] at hr
      subst hr
      obtain ⟨hmessage, -, -, hcreated⟩ := hcom.consistent.recipient hr'
      exact ⟨hcom.consistent.recipients_valid _ hr', hmessage.trans heq.symm, hcreated⟩
    · obtain ⟨r', hr'⟩ := h.has_recipient k m hm id hid
      rw [hcom.get_recipient_other hr', Option.some.injEq] at hr
      exact h.recipient k m hm id hid r (hr ▸ hr')
  · rw [hcom.attempts] at ha
    obtain ⟨hid, hv, m, hm, hp⟩ := h.attempt id a ha
    refine ⟨hid, hv, m, ?_, hp⟩
    rw [hcom.messages, OrderedMap.get_set_ne, hm]
    rintro heq
    rw [heq, hcom.no_message] at hm
    cases hm
  · rw [hcom.attempts]
    exact h.sequences

/-- A write to emails and messages that keeps the ids, the providers, the lists of recipients and
the times of creation. -/
theorem of_messages (h : s.Checked) {t : MemoryStore} (hc : t.Complete)
    (he : ∀ k e, t.emails.get k = some e → e.id = k)
    (hm : ∀ k m, t.deliveryMessages.get k = some m → ∃ m', s.deliveryMessages.get k = some m' ∧
      m = { m' with status := m.status, scheduledAt := m.scheduledAt, updatedAt := m.updatedAt })
    (hm' : ∀ k m, s.deliveryMessages.get k = some m → ∃ m', t.deliveryMessages.get k = some m' ∧
      m'.provider = m.provider ∧ m'.recipientIds = m.recipientIds)
    (hr : t.deliveryRecipients = s.deliveryRecipients)
    (ha : t.deliveryAttempts = s.deliveryAttempts) : t.Checked where
  toComplete := hc
  email_id := he
  message k m hk := by
    obtain ⟨m', hk', heq⟩ := hm k m hk
    rw [heq]
    exact (h.message k m' hk').update rfl rfl rfl rfl le_rfl
  recipient k m hk id hid r hr' := by
    obtain ⟨m', hk', heq⟩ := hm k m hk
    rw [heq] at hid ⊢
    exact h.recipient k m' hk' id hid r (hr ▸ hr')
  attempt id a hid := by
    rw [ha] at hid
    obtain ⟨hida, hv, m, hk, hp, hsub⟩ := h.attempt id a hid
    obtain ⟨m', hk', hp', hids⟩ := hm' _ m hk
    exact ⟨hida, hv, m', hk', hp.trans hp'.symm, hids ▸ hsub⟩
  sequences := ha ▸ h.sequences

/-- **Every operation keeps the records in order.** -/
theorem perform (h : s.Checked) (op : StoreOp) : (s.perform op).1.Checked := by
  have hcomplete := (h.performed op).complete
  cases op with
  | commitDelivery input now =>
    show (s.settle ((s.commitDelivery input now).map _)).1.Checked
    cases hb : s.commitDelivery input now with
    | error e => exact h
    | ok p => exact h.commitDelivery hb
  | beginAttempt a =>
    show (s.settle (s.beginDeliveryAttempt a)).1.Checked
    cases hb : s.beginDeliveryAttempt a with
    | error e => exact h
    | ok p => exact h.write (h.write_begin hb)
  | completeAttempt input =>
    show (s.settle (s.completeDeliveryAttempt input)).1.Checked
    cases hb : s.completeDeliveryAttempt input with
    | error e => exact h
    | ok p => exact h.write (h.write_complete hb)
  | appendEvent e =>
    show (s.settle (s.appendProviderEvent e)).1.Checked
    cases hb : s.appendProviderEvent e with
    | error f => exact h
    | ok p => exact h.write (h.write_append hb)
  | applyLocalState k status t =>
    show (s.settle (s.applyLocalDeliveryState k status t)).1.Checked
    cases hb : s.applyLocalDeliveryState k status t with
    | error e => exact h
    | ok p => exact h.write (h.write_local hb)
  | claim id attempt now =>
    show (((s.claimEmailForSend id attempt now).map Prod.fst).getD s).Checked
    change (((s.claimEmailForSend id attempt now).map Prod.fst).getD s).Complete at hcomplete
    cases hb : s.claimEmailForSend id attempt now with
    | none => exact h
    | some p =>
      obtain ⟨s', e⟩ := p
      rw [hb] at hcomplete
      obtain ⟨e₀, he₀, -, rfl, rfl⟩ := claimEmailForSend_eq_some.mp hb
      exact h.of_messages hcomplete (OrderedMap.forall_get_set h.email_id (h.email_id id e₀ he₀))
        (fun k m hk => ⟨m, hk, rfl⟩) (fun k m hk => ⟨m, hk, rfl, rfl⟩) rfl rfl
  | reschedule id t now =>
    show (((s.rescheduleEmailAndOutbox id t now).map Prod.fst).getD s).Checked
    change (((s.rescheduleEmailAndOutbox id t now).map Prod.fst).getD s).Complete at hcomplete
    cases hb : s.rescheduleEmailAndOutbox id t now with
    | none => exact h
    | some p =>
      obtain ⟨s', e⟩ := p
      rw [hb] at hcomplete
      obtain ⟨e₀, m, o, he₀, hm, -, -, -, -, rfl, rfl⟩ := rescheduleEmailAndOutbox_eq_some.mp hb
      refine h.of_messages hcomplete
        (OrderedMap.forall_get_set h.email_id (h.email_id id e₀ he₀)) (fun k m' hk => ?_)
        (fun k m' hk => ?_) rfl rfl
      · rw [Option.map_some, Option.getD_some, OrderedMap.get_set] at hk
        split_ifs at hk with heq
        · rw [Option.some.injEq] at hk
          subst heq hk
          exact ⟨m, hm, rfl⟩
        · exact ⟨m', hk, rfl⟩
      · rw [Option.map_some, Option.getD_some, OrderedMap.get_set]
        split_ifs with heq
        · rw [heq, hm, Option.some.injEq] at hk
          subst hk
          exact ⟨_, rfl, rfl, rfl⟩
        · exact ⟨m', hk, rfl, rfl⟩

theorem performAll (h : s.Checked) (ops : List StoreOp) : (s.performAll ops).Checked := by
  induction ops generalizing s with
  | nil => exact h
  | cons op ops ih => exact ih (h.perform op)

end Checked

/-! ## Update times -/

/-- The message `k`, when it was created by the time `t`, was not updated before it was created. -/
def Dated (s : MemoryStore) (k : String) (t : ℕ) : Prop :=
  ∀ m, s.deliveryMessages.get k = some m → m.createdAt ≤ t → m.createdAt ≤ m.updatedAt

/-- Of all operations only a reschedule writes an update time without a check. -/
theorem Checked.dated_perform {s : MemoryStore} (h : s.Checked) {k : String} {t : ℕ}
    (hd : s.Dated k t) {op : StoreOp}
    (hop : ∀ scheduledAt now, op = .reschedule k scheduledAt now → t ≤ now) :
    (s.perform op).1.Dated k t := by
  have hset : ∀ {m : MessageRecord} {k' : String} {s' : MemoryStore}, m.Valid →
      s'.deliveryMessages = s.deliveryMessages.set k' m → s'.Dated k t := by
    intro m k' s' hv hs' m' hm' ht
    rw [hs', OrderedMap.get_set] at hm'
    split_ifs at hm'
    · exact Option.some.inj hm' ▸ hv.created_le
    · exact hd m' hm' ht
  have hwrite : ∀ {e : Option ProviderEventRecord} {s' : MemoryStore}, LedgerWrite s e s' →
      s'.Dated k t := by
    intro e s' hw
    cases hw with
    | same heq => exact heq ▸ hd
    | plan k' snap st a hl hk he heq =>
      exact hset hk.consistent.message_valid (congrArg (·.deliveryMessages) heq)
  cases op with
  | commitDelivery input now =>
    show (s.settle ((s.commitDelivery input now).map _)).1.Dated k t
    cases hb : s.commitDelivery input now with
    | error e => exact hd
    | ok p =>
      rcases commitDelivery_eq_ok hb with ⟨heq, -⟩ | ⟨hcom, -⟩
      · show p.1.Dated k t
        exact heq ▸ hd
      · exact hset hcom.consistent.message_valid hcom.messages
  | beginAttempt a =>
    show (s.settle (s.beginDeliveryAttempt a)).1.Dated k t
    cases hb : s.beginDeliveryAttempt a with
    | error e => exact hd
    | ok p => exact hwrite (h.write_begin hb)
  | completeAttempt input =>
    show (s.settle (s.completeDeliveryAttempt input)).1.Dated k t
    cases hb : s.completeDeliveryAttempt input with
    | error e => exact hd
    | ok p => exact hwrite (h.write_complete hb)
  | appendEvent e =>
    show (s.settle (s.appendProviderEvent e)).1.Dated k t
    cases hb : s.appendProviderEvent e with
    | error f => exact hd
    | ok p => exact hwrite (h.write_append hb)
  | applyLocalState k' status u =>
    show (s.settle (s.applyLocalDeliveryState k' status u)).1.Dated k t
    cases hb : s.applyLocalDeliveryState k' status u with
    | error e => exact hd
    | ok p => exact hwrite (h.write_local hb)
  | claim id attempt now =>
    show (((s.claimEmailForSend id attempt now).map Prod.fst).getD s).Dated k t
    cases hb : s.claimEmailForSend id attempt now with
    | none => exact hd
    | some p =>
      obtain ⟨s', e⟩ := p
      obtain ⟨-, -, -, -, rfl⟩ := claimEmailForSend_eq_some.mp hb
      exact hd
  | reschedule id u now =>
    show (((s.rescheduleEmailAndOutbox id u now).map Prod.fst).getD s).Dated k t
    cases hb : s.rescheduleEmailAndOutbox id u now with
    | none => exact hd
    | some p =>
      obtain ⟨s', e⟩ := p
      obtain ⟨-, m, -, -, -, -, -, -, -, -, rfl⟩ := rescheduleEmailAndOutbox_eq_some.mp hb
      intro m' hm' ht
      change (s.deliveryMessages.set id (m.rescheduled u now)).get k = some m' at hm'
      rw [OrderedMap.get_set] at hm'
      split_ifs at hm' with heq
      · subst heq
        obtain rfl := Option.some.inj hm'
        exact ht.trans (hop u now rfl)
      · exact hd m' hm' ht

theorem Checked.dated_performAll {s : MemoryStore} (h : s.Checked) {k : String} {t : ℕ}
    (hd : s.Dated k t) {ops : List StoreOp}
    (hops : ∀ scheduledAt now, .reschedule k scheduledAt now ∈ ops → t ≤ now) :
    (s.performAll ops).Dated k t := by
  induction ops generalizing s with
  | nil => exact hd
  | cons op ops ih =>
    refine ih (h.perform op) (h.dated_perform hd fun u now heq => ?_) fun u now hmem => ?_
    · exact hops u now (heq ▸ List.mem_cons_self)
    · exact hops u now (List.mem_cons_of_mem _ hmem)

/-! ## The first delivery -/

/-- A plan without an attempt is read back as it was written. -/
theorem Complete.deliveryLedger_commitLedgerPlan {s : MemoryStore} (h : s.Complete) {k : String}
    {snap : DeliveryLedgerSnapshot} (hl : s.deliveryLedger k = some snap)
    {st : DeliveryLedgerState} (hk : snap.toDeliveryLedgerState.Keeps st none)
    (ha : st.attempts = snap.attempts) (e : Option ProviderEventRecord) :
    ∃ events, (s.commitLedgerPlan st none e).deliveryLedger k =
      some { st with events := events } := by
  obtain ⟨-, hmessage, -⟩ := deliveryLedger_eq_some hl
  have hmid : st.message.id = k := hk.frame.message_id.trans (h.message_id k _ hmessage)
  have heid : st.email.id = k := hk.consistent.email_id.trans hmid
  have hids : st.recipients.map (·.id) = st.message.recipientIds := by
    have hsame : st.recipients.map (·.id) = snap.recipients.map (·.id) := by
      simpa [Function.comp_def] using congrArg (List.map Prod.fst) hk.frame.recipients
    rw [hsame, hk.frame.recipient_ids]
    exact h.ordered hl
  have hnodup : (st.recipients.map (·.id)).Nodup := hids ▸ hk.consistent.message_valid.nodup
  have hrecipients : (s.commitLedgerPlan st none e).recipientsOf st.message =
      some st.recipients := by
    rw [recipientsOf_eq_some, ← hids, List.map_map]
    exact List.map_congr_left fun r hr => OrderedMap.get_setAll_of_mem hnodup hr _
  have hemails : (s.commitLedgerPlan st none e).emails.get k = some st.email :=
    heid ▸ OrderedMap.get_set_self _ _ _
  have hmessages : (s.commitLedgerPlan st none e).deliveryMessages.get k = some st.message :=
    hmid ▸ OrderedMap.get_set_self _ _ _
  have hattempts : ((s.commitLedgerPlan st none e).attemptsOf k).insertionSort attemptOrder =
      st.attempts := ha ▸ (deliveryLedger_attempts hl).symm
  refine ⟨((s.commitLedgerPlan st none e).eventsOf k).insertionSort eventOrder, ?_⟩
  unfold deliveryLedger
  rw [hemails, hmessages, Option.bind_eq_bind, Option.bind_some, Option.bind_eq_bind,
    Option.bind_some, hrecipients, hattempts]
  rfl

/-- An event that correlates with a ledger in order is stored and applied. -/
theorem Checked.perform_first {s : MemoryStore} (h : s.Checked) {e : ProviderEventRecord}
    (hv : e.Valid) (hnew : s.providerEvents.get e.id = none) {ledger : DeliveryLedgerSnapshot}
    (hl : s.deliveryLedger e.messageId = some ledger)
    (ht : ledger.message.createdAt ≤ ledger.message.updatedAt)
    (hcorr : eventCorrelates ledger.toDeliveryLedgerState e = true) :
    ∃ s' r, s.perform (.appendEvent e) = (s', .ok (some r)) ∧ r.replayed = false ∧
      s'.providerEvents = s.providerEvents.set e.id e ∧
      s'.deliveryLedger e.messageId = some r.toDeliveryLedgerSnapshot ∧
      r.toDeliveryLedgerState = ledger.observed e := by
  obtain ⟨p, hplan, -⟩ := (h.ready hl ht).plan hv hcorr
  obtain ⟨⟨-, -, hrestates⟩, -, rfl⟩ := (planProviderEvent_iff (h.ordered hl)).mp hplan
  have hkeeps : ledger.toDeliveryLedgerState.Keeps (ledger.observed e) none := hrestates.keeps none
  obtain ⟨events, hread⟩ := h.toComplete.deliveryLedger_commitLedgerPlan hl hkeeps rfl (some e)
  refine ⟨s.commitLedgerPlan (ledger.observed e) none (some e), { ledger.observed e with
    events := events
    replayed := false
    changedRecipientIds :=
      (ledger.recipients.filter fun r => eventStatus e r != r.status).map (·.id)
    event := some e }, ?_, rfl, rfl, hread, rfl⟩
  have happend : s.appendProviderEvent e =
      .ok (s.commitLedgerPlan (ledger.observed e) none (some e),
        (s.commitLedgerPlan (ledger.observed e) none (some e)).deliveryLedgerResult e.messageId
          false ((ledger.recipients.filter fun r => eventStatus e r != r.status).map (·.id))
          none (some e)) := by
    unfold appendProviderEvent
    rw [ProviderEventRecord.parse_eq_ok.mpr ⟨hv, rfl⟩, ok_bind, hnew]
    dsimp only
    rw [hl]
    exact bind_eq_ok.mpr ⟨_, hplan, rfl⟩
  show s.settle (s.appendProviderEvent e) = _
  rw [happend, deliveryLedgerResult, hread]
  rfl

/-- **Provider events take effect exactly once.** In every run an event id is stored once and never
rewritten; the first delivery of an event that correlates with the stored ledger is stored, applied
and not a replay; every repeated delivery is a replay and changes nothing, so that the run without
them leaves the same store; and another event under a stored id is refused. A run may also hold
reschedules, which the first delivery needs to be of no earlier time than the message. -/
theorem provider_events_exactly_once (ops later : List StoreOp) :
    let s := performAll {} ops
    ((s.providerEvents.values.map (·.id)).Nodup ∧
      ∀ id e, s.providerEvents.get id = some e →
        (s.performAll later).providerEvents.get id = some e) ∧
    (∀ e ledger, e.Valid → s.providerEvents.get e.id = none →
      s.deliveryLedger e.messageId = some ledger →
      eventCorrelates ledger.toDeliveryLedgerState e = true →
      (∀ scheduledAt now, .reschedule e.messageId scheduledAt now ∈ ops →
        ledger.message.createdAt ≤ now) →
      ∃ s' r, s.perform (.appendEvent e) = (s', .ok (some r)) ∧ r.replayed = false ∧
        s'.providerEvents = s.providerEvents.set e.id e ∧
        s'.deliveryLedger e.messageId = some r.toDeliveryLedgerSnapshot ∧
        r.toDeliveryLedgerState = ledger.observed e) ∧
    (∀ e ∈ accepted {} ops, ∀ e', e.isEquivalentReplay e' = true →
      ∃ r, s.perform (.appendEvent e') = (s, .ok (some r)) ∧ r.replayed = true) ∧
    performAll {} (withoutRepeats {} [] ops) = s ∧
    (∀ e e', s.providerEvents.get e'.id = some e → e.isEquivalentReplay e' = false →
      ∃ f, s.perform (.appendEvent e') = (s, .error f)) := by
  intro s
  have hs : s.Checked := checked_empty.performAll ops
  refine ⟨⟨?_, fun id e he => performAll_event hs.toComplete he later⟩,
    fun e ledger hv hnew hl hcorr hops => ?_, fun e he e' hrep => ?_,
    complete_empty.performAll_withoutRepeats (fun _ h => by cases h) ops,
    fun e e' he hrep => perform_reuse he hrep⟩
  · have hkeys : s.providerEvents.values.map (·.id) = s.providerEvents.keys :=
      OrderedMap.map_values_eq_keys fun id e he => (hs.event id e he).1
    rw [hkeys]
    exact s.providerEvents.nodup
  · have hdated : s.Dated e.messageId ledger.message.createdAt :=
      checked_empty.dated_performAll (fun _ h => by cases h) hops
    obtain ⟨-, hmessage, -⟩ := deliveryLedger_eq_some hl
    exact hs.perform_first hv hnew hl (hdated _ hmessage le_rfl) hcorr
  · exact hs.toComplete.perform_replay
      ((complete_empty.knows_of_accepted he).of_isEquivalentReplay hrep)

theorem performAll_concat (s : MemoryStore) (ops : List StoreOp) (op : StoreOp) :
    performAll s (ops ++ [op]) = ((performAll s ops).perform op).1 := by
  rw [performAll, List.foldl_append]
  rfl

/-- An event that is taken after a run is accepted by the run that goes on with it. -/
theorem mem_accepted_append {s : MemoryStore} {ops : List StoreOp} {e : ProviderEventRecord}
    (h : ∃ s' r, (performAll s ops).perform (.appendEvent e) = (s', .ok (some r))) :
    e ∈ s.accepted (ops ++ [.appendEvent e]) := by
  induction ops generalizing s with
  | nil =>
    obtain ⟨s', r, h⟩ := h
    have haccepts : s.accepts (.appendEvent e) = some e := by
      rw [accepts, show s.perform (.appendEvent e) = _ from h]
    rw [List.nil_append, accepted, haccepts]
    exact List.mem_cons_self
  | cons op ops ih => exact List.mem_append_right _ (ih h)

/-- The delivery of `acceptedLedger` is committed, submitted and accepted by the provider. -/
def acceptedOps : List StoreOp :=
  [.commitDelivery {
      email := { acceptedLedger.email with
        status := .queued
        lastEvent := .status .queued
        updatedAt := 1000
        attempts := 0 }
      message := { acceptedLedger.message with status := .queued, updatedAt := 1000 }
      recipients := acceptedLedger.recipients.map fun r =>
        { r with status := .queued, latestAttemptId := none, updatedAt := 1000 }
      outbox := {
        id := "outbox:v1:email_0123456789abcdef:dispatch-message:0"
        messageId := "email_0123456789abcdef"
        jobType := .dispatchMessage
        generation := 0
        dueAt := 1000
        attempts := 0
        createdAt := 1000
        updatedAt := 1000 } } 1,
    .beginAttempt {
      id := "attempt_0123456789abcdef012345"
      messageId := "email_0123456789abcdef"
      recipientIds := acceptedLedger.message.recipientIds
      sequence := 1
      provider := acceptedLedger.message.provider
      status := .submitting
      startedAt := 2000 },
    .completeAttempt {
      messageId := "email_0123456789abcdef"
      attemptId := "attempt_0123456789abcdef012345"
      status := .accepted
      completedAt := 3000
      providerMessageId := some "ses-1" }]

/-- An event that bounces the first of the two recipients, received at the given time. -/
def bounceEvent (receivedAt : ℕ) : ProviderEventRecord :=
  acceptedLedgerEvent "one" ["rcpt_000000000000000000000a"] .bounced receivedAt

/-- The bounce is applied once, a second delivery of it is a replay, and an opening under its id is
refused. -/
theorem provider_events_exactly_once_sample : ∃ s r,
    (performAll {} acceptedOps).perform (.appendEvent (bounceEvent 4000)) = (s, .ok (some r)) ∧
      r.replayed = false ∧ s.providerEvents.get (bounceEvent 4000).id = some (bounceEvent 4000) ∧
      r.recipients.map (·.status) = [.bounced, .accepted] ∧
      (∃ r', s.perform (.appendEvent (bounceEvent 9000)) = (s, .ok (some r')) ∧
        r'.replayed = true) ∧
      performAll {} (withoutRepeats {} [] (acceptedOps ++
        [.appendEvent (bounceEvent 4000), .appendEvent (bounceEvent 9000)])) = s ∧
      ∃ f, s.perform (.appendEvent { bounceEvent 4000 with type := .opened }) = (s, .error f) := by
  have hstart : (((performAll {} acceptedOps).deliveryLedger "email_0123456789abcdef").any
      fun ledger => eventCorrelates ledger.toDeliveryLedgerState (bounceEvent 4000) &&
        decide ((ledger.observed (bounceEvent 4000)).recipients.map (·.status) =
          [.bounced, .accepted])) = true ∧
      (performAll {} acceptedOps).providerEvents.get (bounceEvent 4000).id = none := by
    decide +kernel
  obtain ⟨hledger, hnew⟩ := hstart
  obtain ⟨ledger, hl, hsample⟩ := (Option.any_eq_true _ _).mp hledger
  rw [Bool.and_eq_true, decide_eq_true_eq] at hsample
  obtain ⟨-, hfirst, -⟩ := provider_events_exactly_once acceptedOps []
  obtain ⟨s, r, hs, hr, hevents, -, hstate⟩ := hfirst (bounceEvent 4000) ledger (by decide) hnew hl
    hsample.1 (by simp [acceptedOps])
  have hrun : performAll {} (acceptedOps ++ [.appendEvent (bounceEvent 4000)]) = s := by
    rw [performAll_concat, hs]
  obtain ⟨-, -, hagain, -, hreuse⟩ :=
    provider_events_exactly_once (acceptedOps ++ [.appendEvent (bounceEvent 4000)]) []
  rw [hrun] at hagain hreuse
  have haccepted := mem_accepted_append ⟨s, r, hs⟩
  have hget : s.providerEvents.get (bounceEvent 4000).id = some (bounceEvent 4000) := by
    rw [hevents, OrderedMap.get_set_self]
  obtain ⟨r', hr', hreplayed⟩ := hagain _ haccepted (bounceEvent 9000) (by decide)
  refine ⟨s, r, hs, hr, hget, ?_, ⟨r', hr', hreplayed⟩, ?_, hreuse _ _ hget (by decide)⟩
  · rw [hstate]
    exact hsample.2
  · obtain ⟨-, -, -, hwithout, -⟩ := provider_events_exactly_once
      (acceptedOps ++ [.appendEvent (bounceEvent 4000), .appendEvent (bounceEvent 9000)]) []
    rw [hwithout, List.append_cons, performAll_concat, hrun, hr']

end MemoryStore

end HayaSend
