import HayaSend.Adapters.MemoryStore
import HayaSend.Core.LedgerInvariant

/-!
# The ledgers of the in-memory store

The maps of the store hold the records of many messages. `MemoryStore.Inv` says how the records
refer to each other; under it the operations act on the ledgers one message at a time:
`Step.ledger` shows that a store operation makes one `LedgerMove` on each ledger, and `Step.inv`
that it keeps the store's invariant.
-/

namespace HayaSend

namespace MemoryStore

/-- The ledger of a message without its events. -/
def ledgerState (s : MemoryStore) (messageId : String) : Option DeliveryLedgerState :=
  (s.deliveryLedger messageId).map (·.toDeliveryLedgerState)

/-- The invariant of the store. -/
structure Inv (s : MemoryStore) : Prop where
  email_id : ∀ k e, s.emails.get k = some e → e.id = k
  message_id : ∀ k m, s.deliveryMessages.get k = some m → m.id = k
  has_email : ∀ k m, s.deliveryMessages.get k = some m → ∃ e, s.emails.get k = some e
  recipient_id : ∀ k r, s.deliveryRecipients.get k = some r → r.id = k
  has_recipient : ∀ k m, s.deliveryMessages.get k = some m → ∀ id ∈ m.recipientIds,
    ∃ r, s.deliveryRecipients.get id = some r ∧ r.messageId = k
  attempt_id : ∀ k a, s.deliveryAttempts.get k = some a → a.id = k
  has_message : ∀ k a, s.deliveryAttempts.get k = some a →
    ∃ m, s.deliveryMessages.get a.messageId = some m
  sequences : ∀ k, (s.attemptsOf k).map (·.sequence) = List.range' 1 (s.attemptsOf k).length
  ledger : ∀ k st, s.ledgerState k = some st → LedgerInv st
  has_outbox : ∀ k m, s.deliveryMessages.get k = some m →
    ∃ id item, s.outboxByMessage.get k = some id ∧ s.outboxItems.get id = some item
  outbox_id : ∀ id item, s.outboxItems.get id = some item →
    item.id = id ∧ s.outboxByMessage.get item.messageId = some id
  outbox_message : ∀ k id, s.outboxByMessage.get k = some id →
    ∃ item, s.outboxItems.get id = some item ∧ item.messageId = k
  outbox_has_message : ∀ id item, s.outboxItems.get id = some item →
    ∃ m, s.deliveryMessages.get item.messageId = some m

/-! ## Reading a ledger -/

theorem recipientsOf_eq_some {s : MemoryStore} {m : MessageRecord} {rs : List RecipientRecord} :
    s.recipientsOf m = some rs ↔ m.recipientIds.map s.deliveryRecipients.get = rs.map some :=
  mapM_eq_some

/-- Attempts numbered in the order they were stored are sorted. -/
theorem insertionSort_attemptOrder {as : List AttemptRecord}
    (h : as.map (·.sequence) = List.range' 1 as.length) : as.insertionSort attemptOrder = as := by
  refine List.Pairwise.insertionSort_eq ?_
  have hlt : (as.map (·.sequence)).Pairwise (· < ·) := by
    rw [h]
    exact List.pairwise_lt_range'
  exact (List.pairwise_map.mp hlt).imp fun hab => Or.inl hab

theorem ledgerState_eq_some {s : MemoryStore} {k : String}
    (h : (s.attemptsOf k).map (·.sequence) = List.range' 1 (s.attemptsOf k).length)
    {st : DeliveryLedgerState} : s.ledgerState k = some st ↔
      s.emails.get k = some st.email ∧ s.deliveryMessages.get k = some st.message ∧
      s.recipientsOf st.message = some st.recipients ∧ s.attemptsOf k = st.attempts := by
  unfold ledgerState deliveryLedger
  rw [insertionSort_attemptOrder h]
  simp only [Option.pure_def, Option.bind_eq_bind, Option.map_eq_some_iff,
    Option.bind_eq_some_iff, Option.some.injEq]
  constructor
  · rintro ⟨_, ⟨e, he, m, hm, rs, hrs, rfl⟩, rfl⟩
    exact ⟨he, hm, hrs, rfl⟩
  · rintro ⟨he, hm, hrs, ha⟩
    refine ⟨_, ⟨_, he, _, hm, _, hrs, rfl⟩, ?_⟩
    cases st
    rw [ha]

theorem Inv.ledgerState_eq_some {s : MemoryStore} (h : s.Inv) {k : String}
    {st : DeliveryLedgerState} : s.ledgerState k = some st ↔
      s.emails.get k = some st.email ∧ s.deliveryMessages.get k = some st.message ∧
      s.recipientsOf st.message = some st.recipients ∧ s.attemptsOf k = st.attempts :=
  MemoryStore.ledgerState_eq_some (h.sequences k)

/-- A ledger is read from the email, the message, the recipients and the attempts. -/
theorem ledgerState_congr {s t : MemoryStore} {k : String}
    (he : t.emails.get k = s.emails.get k)
    (hm : t.deliveryMessages.get k = s.deliveryMessages.get k)
    (hr : ∀ m, s.deliveryMessages.get k = some m → t.recipientsOf m = s.recipientsOf m)
    (ha : t.attemptsOf k = s.attemptsOf k) : t.ledgerState k = s.ledgerState k := by
  unfold ledgerState deliveryLedger
  rw [he, hm, ha]
  cases hk : s.deliveryMessages.get k with
  | none => cases s.emails.get k <;> rfl
  | some m =>
    simp only [Option.bind_eq_bind, Option.bind_some, hr m hk]
    cases s.emails.get k with
    | none => rfl
    | some e => cases s.recipientsOf m <;> rfl

/-- The ledgers are those of the stored messages. -/
theorem Inv.exists_ledgerState {s : MemoryStore} (h : s.Inv) {k : String} {m : MessageRecord}
    (hm : s.deliveryMessages.get k = some m) : ∃ st, s.ledgerState k = some st := by
  obtain ⟨e, he⟩ := h.has_email k m hm
  have hall : ∀ id ∈ m.recipientIds, ∃ r, s.deliveryRecipients.get id = some r := fun id hid =>
    let ⟨r, hr, _⟩ := h.has_recipient k m hm id hid
    ⟨r, hr⟩
  obtain ⟨rs, hrs⟩ := s.deliveryRecipients.exists_map_get hall
  exact ⟨⟨e, m, rs, s.attemptsOf k⟩,
    h.ledgerState_eq_some.mpr ⟨he, hm, recipientsOf_eq_some.mpr hrs, rfl⟩⟩

theorem Inv.ledgerState_eq_none {s : MemoryStore} (h : s.Inv) {k : String} :
    s.ledgerState k = none ↔ s.deliveryMessages.get k = none := by
  constructor
  · intro hn
    cases hm : s.deliveryMessages.get k with
    | none => rfl
    | some m =>
      obtain ⟨st, hst⟩ := h.exists_ledgerState hm
      rw [hn] at hst
      cases hst
  · intro hn
    cases hl : s.ledgerState k with
    | none => rfl
    | some st =>
      have := (h.ledgerState_eq_some.mp hl).2.1
      rw [hn] at this
      cases this

theorem mem_attemptsOf {s : MemoryStore} (h : s.Inv) {k : String} {a : AttemptRecord} :
    a ∈ s.attemptsOf k ↔ s.deliveryAttempts.get a.id = some a ∧ a.messageId = k := by
  rw [attemptsOf, List.mem_filter, OrderedMap.mem_values_iff, beq_iff_eq]
  refine and_congr_left fun _ => ⟨?_, fun ha => ⟨_, ha⟩⟩
  rintro ⟨id, ha⟩
  rwa [h.attempt_id id a ha]

theorem Inv.deliveryLedger_none {s : MemoryStore} {k : String} :
    s.deliveryLedger k = none ↔ s.ledgerState k = none := by
  simp [ledgerState]

/-! ## Writing a ledger back -/

theorem attemptsOf_of_set_new {s t : MemoryStore} {a : AttemptRecord}
    (ht : t.deliveryAttempts = s.deliveryAttempts.set a.id a)
    (hn : s.deliveryAttempts.get a.id = none) (k : String) :
    t.attemptsOf k = s.attemptsOf k ++ if a.messageId = k then [a] else [] := by
  simp only [attemptsOf]
  rw [ht, OrderedMap.values_set_of_absent _ _ hn, List.filter_append]
  congr 1
  by_cases hk : a.messageId = k <;> simp [hk]

theorem attemptsOf_of_set_present {s t : MemoryStore} (h : s.Inv) {a b : AttemptRecord}
    (ht : t.deliveryAttempts = s.deliveryAttempts.set b.id b)
    (ha : s.deliveryAttempts.get a.id = some a) (hid : b.id = a.id)
    (hm : b.messageId = a.messageId) (k : String) :
    t.attemptsOf k = (s.attemptsOf k).map fun w => if w.id = a.id then b else w := by
  have hvalues := OrderedMap.values_set_of_present s.deliveryAttempts b ha
    (fun w => decide (w.id = a.id)) (by
      intro k' w hw
      rw [decide_eq_true_eq, h.attempt_id k' w hw])
  simp only [decide_eq_true_eq] at hvalues
  simp only [attemptsOf]
  rw [ht, hid, hvalues, List.filter_map]
  congr 1
  refine List.filter_congr fun w hw => ?_
  obtain ⟨k', hk'⟩ := (OrderedMap.mem_values_iff _ _).mp hw
  simp only [Function.comp_apply]
  split_ifs with hwa
  · rw [← h.attempt_id k' w hk', hwa, ha, Option.some.injEq] at hk'
    rw [← hk', hm]
  · rfl

/-- `t` is `s` with the ledger `st` written over that of the message `k`. -/
structure WrittenBack (s t : MemoryStore) (k : String) (st : DeliveryLedgerState) : Prop where
  emails : ∀ k', t.emails.get k' = if k' = k then some st.email else s.emails.get k'
  messages : ∀ k', t.deliveryMessages.get k' =
    if k' = k then some st.message else s.deliveryMessages.get k'
  recipients : ∀ r ∈ st.recipients, t.deliveryRecipients.get r.id = some r
  other_recipients : ∀ id, id ∉ st.recipients.map (·.id) →
    t.deliveryRecipients.get id = s.deliveryRecipients.get id
  attempts : t.attemptsOf k = st.attempts
  other_attempts : ∀ k' ≠ k, t.attemptsOf k' = s.attemptsOf k'
  attempt : ∀ id a, t.deliveryAttempts.get id = some a →
    s.deliveryAttempts.get id = some a ∨ (a.id = id ∧ a.messageId = k)
  items : t.outboxItems = s.outboxItems
  by_message : t.outboxByMessage = s.outboxByMessage

namespace WrittenBack

variable {s t : MemoryStore} {k : String} {st st' : DeliveryLedgerState}

/-- No other message lists a recipient of the ledger written. -/
theorem notMem_other (h : s.Inv) (hst : s.ledgerState k = some st) (hf : st.Frame st')
    (hinv : LedgerInv st') {k' : String} {m' : MessageRecord} (hk' : k' ≠ k)
    (hm' : s.deliveryMessages.get k' = some m') {id : String} (hid : id ∈ m'.recipientIds) :
    id ∉ st'.recipients.map (·.id) := by
  obtain ⟨-, hm, -, -⟩ := h.ledgerState_eq_some.mp hst
  intro hmem
  rw [hinv.ordered.trans hf.recipient_ids] at hmem
  obtain ⟨r, hr, hrk⟩ := h.has_recipient k _ hm id hmem
  obtain ⟨r', hr', hrk'⟩ := h.has_recipient k' _ hm' id hid
  rw [hr, Option.some.injEq] at hr'
  exact hk' (hrk'.symm.trans (hr' ▸ hrk))

theorem sequences (hw : WrittenBack s t k st') (h : s.Inv) (hinv : LedgerInv st') (k' : String) :
    (t.attemptsOf k').map (·.sequence) = List.range' 1 (t.attemptsOf k').length := by
  by_cases hk' : k' = k
  · rw [hk', hw.attempts]
    exact hinv.sequences
  · rw [hw.other_attempts k' hk']
    exact h.sequences k'

theorem ledgerState_self (hw : WrittenBack s t k st') (h : s.Inv) (hinv : LedgerInv st') :
    t.ledgerState k = some st' := by
  refine (MemoryStore.ledgerState_eq_some (hw.sequences h hinv k)).mpr
    ⟨by rw [hw.emails, if_pos rfl], by rw [hw.messages, if_pos rfl], ?_, hw.attempts⟩
  rw [recipientsOf_eq_some, ← hinv.ordered, List.map_map]
  exact List.map_congr_left hw.recipients

theorem ledgerState_other (hw : WrittenBack s t k st') (h : s.Inv)
    (hst : s.ledgerState k = some st) (hf : st.Frame st') (hinv : LedgerInv st') {k' : String}
    (hk' : k' ≠ k) : t.ledgerState k' = s.ledgerState k' := by
  refine ledgerState_congr (by rw [hw.emails, if_neg hk']) (by rw [hw.messages, if_neg hk'])
    (fun m' hm' => mapM_option_congr fun id hid => ?_) (hw.other_attempts k' hk')
  exact hw.other_recipients id (notMem_other h hst hf hinv hk' hm' hid)

theorem inv (hw : WrittenBack s t k st') (h : s.Inv) (hst : s.ledgerState k = some st)
    (hf : st.Frame st') (hinv : LedgerInv st') : t.Inv := by
  obtain ⟨he, hm, -, -⟩ := h.ledgerState_eq_some.mp hst
  have hmid : st'.message.id = k := hf.message_id.trans (h.message_id k _ hm)
  have heid : st'.email.id = k := hf.email_id.trans (h.email_id k _ he)
  have hmessage : ∀ k' m', s.deliveryMessages.get k' = some m' →
      ∃ m'', t.deliveryMessages.get k' = some m'' := by
    intro k' m' hm'
    rw [hw.messages]
    split_ifs
    · exact ⟨_, rfl⟩
    · exact ⟨_, hm'⟩
  exact {
    email_id := by
      intro k' e hk'
      rw [hw.emails] at hk'
      split_ifs at hk' with heq
      · obtain rfl : st'.email = e := by simpa using hk'
        exact heid.trans heq.symm
      · exact h.email_id k' e hk'
    message_id := by
      intro k' m' hk'
      rw [hw.messages] at hk'
      split_ifs at hk' with heq
      · obtain rfl : st'.message = m' := by simpa using hk'
        exact hmid.trans heq.symm
      · exact h.message_id k' m' hk'
    has_email := by
      intro k' m' hk'
      rw [hw.emails]
      rw [hw.messages] at hk'
      split_ifs at hk' ⊢ with heq
      · exact ⟨_, rfl⟩
      · exact h.has_email k' m' hk'
    recipient_id := by
      intro id r hr
      by_cases hid : id ∈ st'.recipients.map (·.id)
      · obtain ⟨r', hr', rfl⟩ := List.mem_map.mp hid
        rw [hw.recipients r' hr', Option.some.injEq] at hr
        rw [hr]
      · rw [hw.other_recipients id hid] at hr
        exact h.recipient_id id r hr
    has_recipient := by
      intro k' m' hk' id hid
      rw [hw.messages] at hk'
      split_ifs at hk' with heq
      · obtain rfl : st'.message = m' := by simpa using hk'
        rw [← hinv.ordered] at hid
        obtain ⟨r, hr, rfl⟩ := List.mem_map.mp hid
        exact ⟨r, hw.recipients r hr, by rw [hinv.recipient_message r hr, hmid, heq]⟩
      · obtain ⟨r, hr, hrk⟩ := h.has_recipient k' m' hk' id hid
        have hnot := notMem_other h hst hf hinv heq hk' hid
        exact ⟨r, (hw.other_recipients id hnot).trans hr, hrk⟩
    attempt_id := by
      intro id a ha
      rcases hw.attempt id a ha with ha | ⟨ha, -⟩
      · exact h.attempt_id id a ha
      · exact ha
    has_message := by
      intro id a ha
      rcases hw.attempt id a ha with ha | ⟨-, ha⟩
      · obtain ⟨m', hm'⟩ := h.has_message id a ha
        exact hmessage _ m' hm'
      · rw [ha]
        exact hmessage k _ hm
    sequences := hw.sequences h hinv
    ledger := by
      intro k' st₁ hk'
      by_cases heq : k' = k
      · rw [heq, hw.ledgerState_self h hinv, Option.some.injEq] at hk'
        exact hk' ▸ hinv
      · rw [hw.ledgerState_other h hst hf hinv heq] at hk'
        exact h.ledger k' st₁ hk'
    has_outbox := by
      intro k' m' hk'
      rw [hw.items, hw.by_message]
      rw [hw.messages] at hk'
      split_ifs at hk' with heq
      · exact h.has_outbox k' _ (heq ▸ hm)
      · exact h.has_outbox k' m' hk'
    outbox_id := by
      rw [hw.items, hw.by_message]
      exact h.outbox_id
    outbox_message := by
      rw [hw.items, hw.by_message]
      exact h.outbox_message
    outbox_has_message := by
      intro id item hi
      rw [hw.items] at hi
      obtain ⟨m', hm'⟩ := h.outbox_has_message id item hi
      exact hmessage _ m' hm' }

end WrittenBack

/-- The attempts a plan leaves are those the store holds after it. -/
structure Writes (s : MemoryStore) (k : String) (st' : DeliveryLedgerState)
    (attempt : Option AttemptRecord) (event : Option ProviderEventRecord) : Prop where
  attempts : (s.commitLedgerPlan st' attempt event).attemptsOf k = st'.attempts
  others : ∀ k' ≠ k, (s.commitLedgerPlan st' attempt event).attemptsOf k' = s.attemptsOf k'
  message : ∀ a, attempt = some a → a.messageId = k

theorem Inv.writtenBack_commit {s : MemoryStore} (h : s.Inv) {k : String}
    {st st' : DeliveryLedgerState} (hst : s.ledgerState k = some st) (hf : st.Frame st')
    (hinv : LedgerInv st') {attempt : Option AttemptRecord} {event : Option ProviderEventRecord}
    (hw : s.Writes k st' attempt event) :
    WrittenBack s (s.commitLedgerPlan st' attempt event) k st' := by
  obtain ⟨he, hm, -, -⟩ := h.ledgerState_eq_some.mp hst
  have hmid : st'.message.id = k := hf.message_id.trans (h.message_id k _ hm)
  have heid : st'.email.id = k := hf.email_id.trans (h.email_id k _ he)
  have hn : (st'.recipients.map (·.id)).Nodup := by
    rw [hinv.ordered]
    exact hinv.recipient_ids_nodup
  refine ⟨fun k' => ?_, fun k' => ?_, fun r hr => OrderedMap.get_setAll_of_mem hn hr _,
    fun id hid => OrderedMap.get_setAll_of_notMem hid _, hw.attempts, hw.others,
    fun id a ha => ?_, rfl, rfl⟩
  · rw [← heid]
    exact OrderedMap.get_set _ _ _ _
  · rw [← hmid]
    exact OrderedMap.get_set _ _ _ _
  · cases hatt : attempt with
    | none =>
      rw [hatt] at ha
      exact Or.inl ha
    | some b =>
      rw [hatt] at ha
      have hset := OrderedMap.get_set s.deliveryAttempts b.id b id
      rw [show (s.commitLedgerPlan st' (some b) event).deliveryAttempts.get id = _ from hset] at ha
      split_ifs at ha with hid
      · obtain rfl : b = a := by simpa using ha
        exact Or.inr ⟨hid.symm, hw.message b hatt⟩
      · exact Or.inl ha

theorem writes_none {s : MemoryStore} (h : s.Inv) {k : String} {st st' : DeliveryLedgerState}
    (hst : s.ledgerState k = some st) (ha : st'.attempts = st.attempts)
    (event : Option ProviderEventRecord) : s.Writes k st' none event where
  attempts := (h.ledgerState_eq_some.mp hst).2.2.2.trans ha.symm
  others _ _ := rfl
  message _ ha := by cases ha

theorem writes_new {s : MemoryStore} (h : s.Inv) {k : String} {st st' : DeliveryLedgerState}
    (hst : s.ledgerState k = some st) {a : AttemptRecord}
    (hn : s.deliveryAttempts.get a.id = none) (hk : a.messageId = k)
    (ha : st'.attempts = st.attempts ++ [a]) (event : Option ProviderEventRecord) :
    s.Writes k st' (some a) event where
  attempts := by
    rw [attemptsOf_of_set_new (a := a) rfl hn, if_pos hk, ha, (h.ledgerState_eq_some.mp hst).2.2.2]
  others k' hk' := by
    rw [attemptsOf_of_set_new (a := a) rfl hn, if_neg (fun heq => hk' (heq.symm.trans hk)),
      List.append_nil]
  message b hb := by
    cases hb
    exact hk

theorem writes_completed {s : MemoryStore} (h : s.Inv) {k : String} {st st' : DeliveryLedgerState}
    (hst : s.ledgerState k = some st) {i : ℕ} {a b : AttemptRecord}
    (hi : st.attempts[i]? = some a) (hid : b.id = a.id) (hm : b.messageId = a.messageId)
    (ha : st'.attempts = st.attempts.set i b) (event : Option ProviderEventRecord) :
    s.Writes k st' (some b) event := by
  have hatt := (h.ledgerState_eq_some.mp hst).2.2.2
  obtain ⟨hget, hk⟩ := (mem_attemptsOf h).mp (hatt ▸ List.mem_of_getElem? hi)
  refine ⟨?_, fun k' hk' => ?_, ?_⟩
  · rw [attemptsOf_of_set_present h (b := b) rfl hget hid hm, hatt, ha]
    exact map_replace_eq_set (h.ledger k st hst).attempt_ids hi
  · rw [attemptsOf_of_set_present h (b := b) rfl hget hid hm]
    -- the attempts of other messages have other ids
    have hsame : ∀ w ∈ s.attemptsOf k', (if w.id = a.id then b else w) = w := by
      intro w hw
      obtain ⟨hgw, hwk⟩ := (mem_attemptsOf h).mp hw
      refine if_neg fun heq => hk' ?_
      rw [heq, hget, Option.some.injEq] at hgw
      rw [← hwk, ← hgw, hk]
    rw [List.map_congr_left hsame, List.map_id']
  · intro b' hb'
    cases hb'
    exact hm.trans hk

/-- **A planned move is written back as such.** The ledgers of the other messages stay. -/
theorem Inv.commit_move {s : MemoryStore} (h : s.Inv) {k : String} {st st' : DeliveryLedgerState}
    (hst : s.ledgerState k = some st) (hm : LedgerMove st st') {attempt : Option AttemptRecord}
    {event : Option ProviderEventRecord} (hw : s.Writes k st' attempt event) :
    (s.commitLedgerPlan st' attempt event).Inv ∧
      (s.commitLedgerPlan st' attempt event).ledgerState k = some st' ∧
      ∀ k' ≠ k, (s.commitLedgerPlan st' attempt event).ledgerState k' = s.ledgerState k' := by
  have hinv := (h.ledger k st hst).move hm
  have hwb := h.writtenBack_commit hst hm.frame hinv hw
  exact ⟨hwb.inv h hst hm.frame hinv, hwb.ledgerState_self h hinv,
    fun k' hk' => hwb.ledgerState_other h hst hm.frame hinv hk'⟩

/-! ## What the ledger operations do -/

theorem ledgerState_of_deliveryLedger {s : MemoryStore} {k : String}
    {snap : DeliveryLedgerSnapshot} (h : s.deliveryLedger k = some snap) :
    s.ledgerState k = some snap.toDeliveryLedgerState := by
  rw [ledgerState, h]
  rfl

/-- A new attempt begins, or there is no ledger. The id of the attempt is not in use. -/
theorem Inv.beginDeliveryAttempt {s s' : MemoryStore} (h : s.Inv) {a : AttemptRecord}
    (hn : s.deliveryAttempts.get a.id = none) {r : Option DeliveryLedgerMutationResult}
    (hb : s.beginDeliveryAttempt a = .ok (s', r)) :
    (s' = s ∧ r = none ∧ s.ledgerState a.messageId = none) ∨
      ∃ st, s.ledgerState a.messageId = some st ∧ attemptMatches st a = true ∧ st.AllQueued ∧
        s' = s.commitLedgerPlan (st.started a) (some a) none := by
  obtain ⟨b, hp, hb⟩ := bind_eq_ok.mp hb
  obtain ⟨-, rfl⟩ := AttemptRecord.parse_eq_ok.mp hp
  split at hb
  · rename_i hl
    rw [pure_eq_ok, Prod.mk.injEq] at hb
    exact Or.inl ⟨hb.1.symm, hb.2.symm, by rw [ledgerState, hl]; rfl⟩
  · rename_i snap hl
    have hst := ledgerState_of_deliveryLedger hl
    have hatt := (h.ledgerState_eq_some.mp hst).2.2.2
    split at hb
    · -- an attempt with the same sequence has another id
      rename_i existing hf
      obtain ⟨_, heq, -⟩ := bind_eq_ok.mp hb
      rw [throwIf_eq_ok, bne_eq_false_iff_eq] at heq
      have hmem : a ∈ snap.attempts := heq ▸ List.mem_of_find?_eq_some hf
      have := ((mem_attemptsOf h).mp (hatt ▸ hmem)).1
      rw [hn] at this
      cases this
    · obtain ⟨⟨p, a'⟩, hplan, hb⟩ := bind_eq_ok.mp hb
      rw [pure_eq_ok, Prod.mk.injEq] at hb
      obtain ⟨rfl, -⟩ := hb
      obtain ⟨-, -, hm, hq, rfl, hs⟩ := planAttemptStart_eq_ok (h.ledger _ _ hst).ordered hplan
      exact Or.inr ⟨_, hst, hm, hq, by rw [hs]⟩

/-- A submitting attempt completes, or nothing changes: there is no ledger, or the attempt had
completed before. -/
theorem Inv.completeDeliveryAttempt {s s' : MemoryStore} (h : s.Inv) {input : AttemptCompletion}
    {r : Option DeliveryLedgerMutationResult}
    (hc : s.completeDeliveryAttempt input = .ok (s', r)) :
    (s' = s ∧ ∀ st, s.ledgerState input.messageId = some st → ∃ a ∈ st.attempts,
        a.id = input.attemptId ∧ a.status ≠ .submitting) ∨
      ∃ st i a, s.ledgerState input.messageId = some st ∧ st.attempts[i]? = some a ∧
        a.id = input.attemptId ∧ a.status = .submitting ∧
        s' = s.commitLedgerPlan (st.completed i a input) (some (completedAttempt input a))
          none := by
  unfold MemoryStore.completeDeliveryAttempt at hc
  split at hc
  · rename_i hl
    rw [Except.ok.injEq, Prod.mk.injEq] at hc
    refine Or.inl ⟨hc.1.symm, fun st hst => ?_⟩
    rw [ledgerState, hl] at hst
    cases hst
  · rename_i snap hl
    have hst := ledgerState_of_deliveryLedger hl
    split at hc
    · cases hc
    · rename_i existing hf
      split_ifs at hc with hsub
      · obtain ⟨_, -, hc⟩ := bind_eq_ok.mp hc
        rw [pure_eq_ok, Prod.mk.injEq] at hc
        refine Or.inl ⟨hc.1.symm, fun st hst' => ?_⟩
        rw [hst, Option.some.injEq] at hst'
        subst hst'
        exact ⟨existing, List.mem_of_find?_eq_some hf, by simpa using List.find?_some hf,
          by simpa using hsub⟩
      · obtain ⟨⟨p, b⟩, hplan, hc⟩ := bind_eq_ok.mp hc
        rw [pure_eq_ok, Prod.mk.injEq] at hc
        obtain ⟨rfl, -⟩ := hc
        obtain ⟨i, a, -, hi, hid, -, hst', -, rfl, hs⟩ :=
          planAttemptCompletion_eq_ok (h.ledger _ _ hst).ordered hplan
        exact Or.inr ⟨_, i, a, hst, hi, hid, hst', by rw [hs]⟩

theorem isSome_deliveryLedgerResult {s : MemoryStore} {k : String} {st : DeliveryLedgerState}
    (hst : s.ledgerState k = some st) (replayed : Bool) (changed : List String)
    (attempt : Option AttemptRecord) (event : Option ProviderEventRecord) :
    (s.deliveryLedgerResult k replayed changed attempt event).isSome = true := by
  obtain ⟨snap, hsnap, -⟩ := Option.map_eq_some_iff.mp hst
  rw [deliveryLedgerResult, hsnap]
  rfl

/-- A completion on a ledger has a result. -/
theorem Inv.completeDeliveryAttempt_result {s s' : MemoryStore} (h : s.Inv)
    {input : AttemptCompletion} {r : Option DeliveryLedgerMutationResult}
    (hc : s.completeDeliveryAttempt input = .ok (s', r)) {st : DeliveryLedgerState}
    (hst : s.ledgerState input.messageId = some st) : r.isSome = true := by
  have hst' : ∃ st', s'.ledgerState input.messageId = some st' := by
    rcases h.completeDeliveryAttempt hc with ⟨rfl, -⟩ | ⟨st₁, i, a, hst₁, hi, hid, hsub, rfl⟩
    · exact ⟨st, hst⟩
    · have hw : s.Writes input.messageId (st₁.completed i a input)
          (some (completedAttempt input a)) none :=
        writes_completed h hst₁ (b := completedAttempt input a) hi rfl rfl (by rfl) none
      exact ⟨_, (h.commit_move hst₁ (.completed i a input hi hid hsub) hw).2.1⟩
  obtain ⟨st', hst'⟩ := hst'
  unfold MemoryStore.completeDeliveryAttempt at hc
  split at hc
  · rename_i hl
    rw [ledgerState, hl] at hst
    cases hst
  · split at hc
    · cases hc
    · split_ifs at hc
      · obtain ⟨_, -, hc⟩ := bind_eq_ok.mp hc
        rw [pure_eq_ok, Prod.mk.injEq] at hc
        obtain ⟨rfl, rfl⟩ := hc
        exact isSome_deliveryLedgerResult hst' _ _ _ _
      · obtain ⟨⟨p, b⟩, -, hc⟩ := bind_eq_ok.mp hc
        rw [pure_eq_ok, Prod.mk.injEq] at hc
        obtain ⟨rfl, rfl⟩ := hc
        exact isSome_deliveryLedgerResult hst' _ _ _ _

theorem Inv.appendProviderEvent {s s' : MemoryStore} (h : s.Inv) {e : ProviderEventRecord}
    {r : Option DeliveryLedgerMutationResult} (ha : s.appendProviderEvent e = .ok (s', r)) :
    s' = s ∨ ∃ st, s.ledgerState e.messageId = some st ∧ eventCorrelates st e = true ∧
      s' = s.commitLedgerPlan (st.observed e) none (some e) := by
  obtain ⟨b, hp, ha⟩ := bind_eq_ok.mp ha
  obtain ⟨-, rfl⟩ := ProviderEventRecord.parse_eq_ok.mp hp
  split at ha
  · obtain ⟨_, -, ha⟩ := bind_eq_ok.mp ha
    rw [pure_eq_ok, Prod.mk.injEq] at ha
    exact Or.inl ha.1.symm
  · split at ha
    · rw [pure_eq_ok, Prod.mk.injEq] at ha
      exact Or.inl ha.1.symm
    · rename_i snap hl
      have hst := ledgerState_of_deliveryLedger hl
      obtain ⟨⟨p, e'⟩, hplan, ha⟩ := bind_eq_ok.mp ha
      rw [pure_eq_ok, Prod.mk.injEq] at ha
      obtain ⟨rfl, -⟩ := ha
      obtain ⟨-, -, hc, rfl, hs⟩ := planProviderEvent_eq_ok (h.ledger _ _ hst).ordered hplan
      exact Or.inr ⟨_, hst, hc, by rw [hs]⟩

theorem Inv.applyLocalDeliveryState {s s' : MemoryStore} (h : s.Inv) {k : String}
    {status : LocalStatus} {t : ℕ} {r : Option DeliveryLedgerMutationResult}
    (ha : s.applyLocalDeliveryState k status t = .ok (s', r)) :
    (s' = s ∧ r = none ∧ s.ledgerState k = none) ∨
      ∃ st, s.ledgerState k = some st ∧ (∀ a ∈ st.attempts, a.status ≠ .submitting) ∧
        (∀ r ∈ st.recipients, r.status ≠ .sending) ∧
        s' = s.commitLedgerPlan (st.localized status t) none none ∧
        ∃ res, r = some res ∧ res.email = (st.localized status t).email := by
  unfold MemoryStore.applyLocalDeliveryState at ha
  split at ha
  · rename_i hl
    rw [Except.ok.injEq, Prod.mk.injEq] at ha
    exact Or.inl ⟨ha.1.symm, ha.2.symm, by rw [ledgerState, hl]; rfl⟩
  · rename_i snap hl
    have hst := ledgerState_of_deliveryLedger hl
    obtain ⟨p, hplan, ha⟩ := bind_eq_ok.mp ha
    rw [pure_eq_ok, Prod.mk.injEq] at ha
    obtain ⟨rfl, rfl⟩ := ha
    obtain ⟨-, hno, hns, hs⟩ :=
      planLocalRecipientState_eq_ok (h.ledger _ _ hst).ordered hplan
    refine Or.inr ⟨_, hst, hno, hns, by rw [hs], ?_⟩
    have hw : s.Writes k (snap.localized status t) none none :=
      writes_none h hst (by rfl) none
    obtain ⟨-, hled, -⟩ := h.commit_move hst (.localized status t hno hns) hw
    rw [hs, deliveryLedgerResult]
    rw [ledgerState, Option.map_eq_some_iff] at hled
    obtain ⟨snap', hsnap, hstate⟩ := hled
    exact ⟨_, by rw [hsnap]; rfl, congrArg (·.email) hstate⟩

/-! ## What the other operations do -/

/-- Writing an email leaves the other records alone. -/
theorem ledgerState_setEmail (s : MemoryStore) (e : EmailRecord) (k : String)
    (he : ∃ e₀, s.emails.get e.id = some e₀) :
    ({ s with emails := s.emails.set e.id e } : MemoryStore).ledgerState k =
      if k = e.id then (s.ledgerState k).map fun st => { st with email := e }
      else s.ledgerState k := by
  split_ifs with hk
  · subst hk
    obtain ⟨e₀, he⟩ := he
    unfold ledgerState deliveryLedger
    simp only [OrderedMap.get_set_self, he, Option.bind_eq_bind, Option.bind_some]
    cases s.deliveryMessages.get e.id with
    | none => rfl
    | some m =>
      simp only [Option.bind_some]
      have hr : ({ s with emails := s.emails.set e.id e } : MemoryStore).recipientsOf m =
        s.recipientsOf m := rfl
      rw [hr]
      cases s.recipientsOf m <;> rfl
  · exact ledgerState_congr (OrderedMap.get_set_ne _ _ hk) rfl (fun _ _ => rfl) rfl

theorem Inv.setEmail {s : MemoryStore} (h : s.Inv) {e e₀ : EmailRecord}
    (he : s.emails.get e.id = some e₀)
    (hm : ∀ st, s.ledgerState e.id = some st → LedgerInv { st with email := e }) :
    ({ s with emails := s.emails.set e.id e } : MemoryStore).Inv where
  email_id k e' hk := by
    rw [OrderedMap.get_set] at hk
    split_ifs at hk with heq
    · obtain rfl : e = e' := by simpa using hk
      exact heq.symm
    · exact h.email_id k e' hk
  message_id := h.message_id
  has_email k m hk := by
    rw [OrderedMap.get_set]
    split_ifs
    · exact ⟨_, rfl⟩
    · exact h.has_email k m hk
  recipient_id := h.recipient_id
  has_recipient := h.has_recipient
  attempt_id := h.attempt_id
  has_message := h.has_message
  sequences := h.sequences
  ledger k st hk := by
    rw [ledgerState_setEmail s e k ⟨e₀, he⟩] at hk
    split_ifs at hk with heq
    · obtain ⟨st₀, hst₀, rfl⟩ := Option.map_eq_some_iff.mp hk
      exact hm st₀ (heq ▸ hst₀)
    · exact h.ledger k st hk
  has_outbox := h.has_outbox
  outbox_id := h.outbox_id
  outbox_message := h.outbox_message
  outbox_has_message := h.outbox_has_message

theorem Inv.ledgerState_email {s : MemoryStore} (h : s.Inv) {k : String} {st : DeliveryLedgerState}
    {e : EmailRecord} (hst : s.ledgerState k = some st) (he : s.emails.get k = some e) :
    st.email = e := by
  have := (h.ledgerState_eq_some.mp hst).1
  rw [he, Option.some.injEq] at this
  exact this.symm

theorem claimEmailForSend_eq_some {s s' : MemoryStore} {id : String} {attempt now : ℕ}
    {e : EmailRecord} : s.claimEmailForSend id attempt now = some (s', e) ↔
      ∃ e₀, s.emails.get id = some e₀ ∧ e₀.claimable now = true ∧
        e = e₀.claimed (max (e₀.attempts + 1) attempt) now ∧
        s' = { s with emails := s.emails.set id e } := by
  unfold claimEmailForSend
  simp only [Option.bind_eq_bind, Option.bind_eq_some_iff, Option.ite_none_right_eq_some,
    Option.some.injEq, Prod.mk.injEq]
  constructor
  · rintro ⟨e₀, he, hc, rfl, rfl⟩
    exact ⟨e₀, he, hc, rfl, rfl⟩
  · rintro ⟨e₀, he, hc, rfl, rfl⟩
    exact ⟨e₀, he, hc, rfl, rfl⟩

theorem updateEmail_eq_some {s s' : MemoryStore} {id : String} {u : EmailUpdates}
    {fromStatuses : Option (List EmailStatus)} {e : EmailRecord} :
    s.updateEmail id u fromStatuses = some (s', e) ↔
      ∃ e₀, s.emails.get id = some e₀ ∧ e₀.updatable fromStatuses = true ∧ e = u.applyTo e₀ ∧
        s' = { s with emails := s.emails.set id e } := by
  unfold updateEmail
  simp only [Option.bind_eq_bind, Option.bind_eq_some_iff, Option.ite_none_right_eq_some,
    Option.some.injEq, Prod.mk.injEq]
  constructor
  · rintro ⟨e₀, he, hc, rfl, rfl⟩
    exact ⟨e₀, he, hc, rfl, rfl⟩
  · rintro ⟨e₀, he, hc, rfl, rfl⟩
    exact ⟨e₀, he, hc, rfl, rfl⟩

theorem rescheduleEmailAndOutbox_eq_some {s s' : MemoryStore} {id : String} {t now : ℕ}
    {e : EmailRecord} : s.rescheduleEmailAndOutbox id t now = some (s', e) ↔
      ∃ e₀ m o, s.emails.get id = some e₀ ∧ s.deliveryMessages.get id = some m ∧
        s.outboxOf id = some o ∧ e₀.status.isPending = true ∧ o.dispatchedAt = none ∧
        o.leaseOwner = none ∧ e = e₀.rescheduled t now ∧
        s' = { s with
          emails := s.emails.set id e
          deliveryMessages := s.deliveryMessages.set id (m.rescheduled t now)
          outboxItems := s.outboxItems.set o.id { o with dueAt := t, updatedAt := now } } := by
  unfold rescheduleEmailAndOutbox
  simp only [Option.bind_eq_bind, Option.bind_eq_some_iff, Option.ite_none_right_eq_some,
    Option.some.injEq, Prod.mk.injEq, Bool.and_eq_true, Option.isNone_iff_eq_none]
  constructor
  · rintro ⟨e₀, he, m, hm, o, ho, ⟨⟨hp, hd⟩, hl⟩, rfl, rfl⟩
    exact ⟨e₀, m, o, he, hm, ho, hp, hd, hl, rfl, rfl⟩
  · rintro ⟨e₀, m, o, he, hm, ho, hp, hd, hl, rfl, rfl⟩
    exact ⟨e₀, he, m, hm, o, ho, ⟨⟨hp, hd⟩, hl⟩, rfl, rfl⟩

/-- Writes to the outbox that keep the identity of every item. -/
theorem Inv.setOutbox {s : MemoryStore} (h : s.Inv) {item item' : OutboxItemRecord}
    (hi : s.outboxItems.get item.id = some item) (hid : item'.id = item.id)
    (hm : item'.messageId = item.messageId) (failures : ℕ) :
    ({ s with
      outboxItems := s.outboxItems.set item.id item'
      outboxPublishFailures := failures } : MemoryStore).Inv where
  email_id := h.email_id
  message_id := h.message_id
  has_email := h.has_email
  recipient_id := h.recipient_id
  has_recipient := h.has_recipient
  attempt_id := h.attempt_id
  has_message := h.has_message
  sequences := h.sequences
  ledger := h.ledger
  has_outbox k m hk := by
    obtain ⟨id, o, hid', ho⟩ := h.has_outbox k m hk
    by_cases heq : id = item.id
    · exact ⟨id, item', hid', by rw [heq]; exact OrderedMap.get_set_self _ _ _⟩
    · exact ⟨id, o, hid', (OrderedMap.get_set_ne _ _ heq).trans ho⟩
  outbox_id id o ho := by
    rw [OrderedMap.get_set] at ho
    split_ifs at ho with heq
    · obtain rfl : item' = o := by simpa using ho
      exact ⟨hid.trans heq.symm, by rw [hm, heq]; exact (h.outbox_id _ _ hi).2⟩
    · exact h.outbox_id id o ho
  outbox_message k id hk := by
    obtain ⟨o, ho, hok⟩ := h.outbox_message k id hk
    by_cases heq : id = item.id
    · refine ⟨item', by rw [heq]; exact OrderedMap.get_set_self _ _ _, hm.trans ?_⟩
      rw [heq, hi, Option.some.injEq] at ho
      exact ho ▸ hok
    · exact ⟨o, (OrderedMap.get_set_ne _ _ heq).trans ho, hok⟩
  outbox_has_message id o ho := by
    rw [OrderedMap.get_set] at ho
    split_ifs at ho with heq
    · obtain rfl : item' = o := by simpa using ho
      rw [hm]
      exact h.outbox_has_message _ _ hi
    · exact h.outbox_has_message id o ho

/-! ## Commits -/

theorem stageRecipients_eq_ok {m m' : OrderedMap String RecipientRecord}
    {rs : List RecipientRecord} (h : stageRecipients m rs = .ok m') :
    (∀ r ∈ rs, m.get r.id = none) ∧ m' = m.setAll (·.id) rs := by
  induction rs generalizing m with
  | nil =>
    obtain rfl : m = m' := by simpa [stageRecipients] using h
    exact ⟨by simp, rfl⟩
  | cons r rs ih =>
    unfold stageRecipients at h
    split_ifs at h with hr
    obtain ⟨hnone, rfl⟩ := ih h
    refine ⟨fun r' hr' => ?_, rfl⟩
    rcases List.mem_cons.mp hr' with rfl | hr'
    · exact (OrderedMap.get_eq_none_iff _ _).mpr (by simpa using hr)
    · have := hnone r' hr'
      rw [OrderedMap.get_set] at this
      split_ifs at this
      exact this

/-- The records a commit found free, and the store it leaves. -/
structure Committed (s s' : MemoryStore) (c : DeliveryCommit) : Prop where
  consistent : c.Consistent
  no_email : s.emails.get c.message.id = none
  no_message : s.deliveryMessages.get c.message.id = none
  no_outbox : s.outboxItems.get c.outbox.id = none
  no_recipient : ∀ r ∈ c.recipients, s.deliveryRecipients.get r.id = none
  emails : s'.emails = s.emails.set c.message.id c.email
  messages : s'.deliveryMessages = s.deliveryMessages.set c.message.id c.message
  recipients : s'.deliveryRecipients = s.deliveryRecipients.setAll (·.id) c.recipients
  attempts : s'.deliveryAttempts = s.deliveryAttempts
  items : s'.outboxItems = s.outboxItems.set c.outbox.id c.outbox
  by_message : s'.outboxByMessage = s.outboxByMessage.set c.message.id c.outbox.id

/-- A commit adds one delivery, or it is replayed and changes nothing. -/
theorem commitDelivery_eq_ok {s s' : MemoryStore} {input : DeliveryCommit} {now : ℕ}
    {r : DeliveryCommitResult} (h : s.commitDelivery input now = .ok (s', r)) :
    (s' = s ∧ r.replayed = true) ∨
      (Committed s s' input ∧ r = { input with replayed := false }) := by
  obtain ⟨c, hc, h⟩ := bind_eq_ok.mp h
  obtain ⟨rfl, hcons⟩ := validateDeliveryCommit_eq_ok hc
  dsimp only at h
  split at h
  · rename_i entry hentry
    split_ifs at h
    split at h
    · cases h
    · rename_i replay hreplay
      rw [Except.ok.injEq, Prod.mk.injEq] at h
      obtain ⟨rfl, rfl⟩ := h
      refine Or.inl ⟨rfl, ?_⟩
      unfold deliveryResult at hreplay
      simp only [Option.bind_eq_bind, Option.bind_eq_some_iff, Option.pure_def,
        Option.some.injEq] at hreplay
      obtain ⟨_, _, _, _, _, _, _, _, rfl⟩ := hreplay
      rfl
  · obtain ⟨_, hfree, h⟩ := bind_eq_ok.mp h
    obtain ⟨rs, hrs, h⟩ := bind_eq_ok.mp h
    obtain ⟨hnone, rfl⟩ := stageRecipients_eq_ok hrs
    rw [pure_eq_ok, Prod.mk.injEq] at h
    obtain ⟨rfl, rfl⟩ := h
    simp only [throwIf_eq_ok, Bool.or_eq_false_iff, ← OrderedMap.get_eq_none_iff] at hfree
    obtain ⟨⟨he, hm⟩, ho⟩ := hfree
    rw [hcons.email_id] at he
    exact Or.inr ⟨⟨hcons, he, hm, ho, hnone, by rw [← hcons.email_id], rfl, rfl, rfl, rfl, rfl⟩,
      rfl⟩

namespace Committed

variable {s s' : MemoryStore} {c : DeliveryCommit}

theorem recipients_nodup (h : Committed s s' c) : (c.recipients.map (·.id)).Nodup :=
  h.consistent.recipient_ids.nodup_iff.mpr h.consistent.message_valid.nodup

theorem get_recipient (h : Committed s s' c) {r : RecipientRecord} (hr : r ∈ c.recipients) :
    s'.deliveryRecipients.get r.id = some r := by
  rw [h.recipients]
  exact OrderedMap.get_setAll_of_mem h.recipients_nodup hr _

theorem get_recipient_other (h : Committed s s' c) {id : String} {r : RecipientRecord}
    (hr : s.deliveryRecipients.get id = some r) : s'.deliveryRecipients.get id = some r := by
  rw [h.recipients, OrderedMap.get_setAll_of_notMem, hr]
  intro hmem
  obtain ⟨r', hr', rfl⟩ := List.mem_map.mp hmem
  rw [h.no_recipient r' hr'] at hr
  cases hr

/-- The new ledger. -/
theorem ledgerState_self (h : Committed s s' c) (hs : s.Inv) :
    ∃ st, s'.ledgerState c.message.id = some st ∧ LedgerInv st ∧ st.email = c.email ∧
      st.attempts = [] ∧ st.message = c.message ∧ ∀ r ∈ st.recipients, r ∈ c.recipients := by
  have hatt : s'.attemptsOf c.message.id = [] := by
    rw [attemptsOf, h.attempts]
    refine List.filter_eq_nil_iff.mpr fun a ha hk => ?_
    obtain ⟨k, hk'⟩ := (OrderedMap.mem_values_iff _ _).mp ha
    obtain ⟨m, hm⟩ := hs.has_message k a hk'
    rw [beq_iff_eq.mp hk, h.no_message] at hm
    cases hm
  have hmem : ∀ id ∈ c.message.recipientIds, ∃ r ∈ c.recipients, r.id = id := by
    intro id hid
    simpa using h.consistent.recipient_ids.mem_iff.mpr hid
  obtain ⟨rs, hrs, hids, hsub⟩ : ∃ rs : List RecipientRecord,
      s'.recipientsOf c.message = some rs ∧ rs.map (·.id) = c.message.recipientIds ∧
        ∀ r ∈ rs, r ∈ c.recipients := by
    simp only [recipientsOf_eq_some]
    revert hmem
    generalize c.message.recipientIds = ids
    intro hmem
    induction ids with
    | nil => exact ⟨[], rfl, rfl, by simp⟩
    | cons id ids ih =>
      obtain ⟨r, hr, rfl⟩ := hmem id List.mem_cons_self
      obtain ⟨rs, hrs, hids, hsub⟩ := ih fun id' h' => hmem id' (List.mem_cons_of_mem _ h')
      refine ⟨r :: rs, ?_, ?_, ?_⟩
      · rw [List.map_cons, List.map_cons, h.get_recipient hr, hrs]
      · rw [List.map_cons, hids]
      · exact List.forall_mem_cons.mpr ⟨hr, hsub⟩
  refine ⟨⟨c.email, c.message, rs, []⟩, ?_, LedgerInv.initial h.consistent hids hsub, rfl, rfl,
    rfl, hsub⟩
  rw [ledgerState_eq_some (by rw [hatt]; rfl)]
  exact ⟨by rw [h.emails]; exact OrderedMap.get_set_self _ _ _,
    by rw [h.messages]; exact OrderedMap.get_set_self _ _ _, hrs, hatt⟩

theorem ledgerState_other (h : Committed s s' c) (hs : s.Inv) {k : String}
    (hk : k ≠ c.message.id) : s'.ledgerState k = s.ledgerState k := by
  refine ledgerState_congr ?_ ?_ (fun m hm => mapM_option_congr fun id hid => ?_) ?_
  · rw [h.emails, OrderedMap.get_set_ne _ _ hk]
  · rw [h.messages, OrderedMap.get_set_ne _ _ hk]
  · obtain ⟨r, hr, -⟩ := hs.has_recipient k m hm id hid
    rw [hr, h.get_recipient_other hr]
  · rw [attemptsOf, attemptsOf, h.attempts]

theorem inv (h : Committed s s' c) (hs : s.Inv) : s'.Inv := by
  obtain ⟨st, hst, hinv, -⟩ := h.ledgerState_self hs
  have hemail : ∀ k, s'.emails.get k =
      if k = c.message.id then some c.email else s.emails.get k := by
    intro k
    rw [h.emails, OrderedMap.get_set]
  have hmessage : ∀ k, s'.deliveryMessages.get k =
      if k = c.message.id then some c.message else s.deliveryMessages.get k := by
    intro k
    rw [h.messages, OrderedMap.get_set]
  have hitem : ∀ id, s'.outboxItems.get id =
      if id = c.outbox.id then some c.outbox else s.outboxItems.get id := by
    intro id
    rw [h.items, OrderedMap.get_set]
  have hby : ∀ k, s'.outboxByMessage.get k =
      if k = c.message.id then some c.outbox.id else s.outboxByMessage.get k := by
    intro k
    rw [h.by_message, OrderedMap.get_set]
  have hom := h.consistent.outbox_fields.1
  exact {
    email_id := by
      intro k e hk
      rw [hemail] at hk
      split_ifs at hk with heq
      · obtain rfl : c.email = e := by simpa using hk
        exact h.consistent.email_id.trans heq.symm
      · exact hs.email_id k e hk
    message_id := by
      intro k m hk
      rw [hmessage] at hk
      split_ifs at hk with heq
      · obtain rfl : c.message = m := by simpa using hk
        exact heq.symm
      · exact hs.message_id k m hk
    has_email := by
      intro k m hk
      rw [hemail]
      rw [hmessage] at hk
      split_ifs at hk ⊢ with heq
      · exact ⟨_, rfl⟩
      · exact hs.has_email k m hk
    recipient_id := by
      intro id r hr
      by_cases hid : id ∈ c.recipients.map (·.id)
      · obtain ⟨r', hr', rfl⟩ := List.mem_map.mp hid
        rw [h.get_recipient hr', Option.some.injEq] at hr
        rw [hr]
      · rw [h.recipients, OrderedMap.get_setAll_of_notMem hid] at hr
        exact hs.recipient_id id r hr
    has_recipient := by
      intro k m hk id hid
      rw [hmessage] at hk
      split_ifs at hk with heq
      · obtain rfl : c.message = m := by simpa using hk
        obtain ⟨r, hr, rfl⟩ : ∃ r ∈ c.recipients, r.id = id := by
          simpa using h.consistent.recipient_ids.mem_iff.mpr hid
        exact ⟨r, h.get_recipient hr, (h.consistent.recipient hr).1.trans heq.symm⟩
      · obtain ⟨r, hr, hrk⟩ := hs.has_recipient k m hk id hid
        exact ⟨r, h.get_recipient_other hr, hrk⟩
    attempt_id := by
      rw [h.attempts]
      exact hs.attempt_id
    has_message := by
      intro id a ha
      rw [h.attempts] at ha
      obtain ⟨m, hm⟩ := hs.has_message id a ha
      rw [hmessage]
      split_ifs
      · exact ⟨_, rfl⟩
      · exact ⟨m, hm⟩
    sequences := by
      intro k
      have : s'.attemptsOf k = s.attemptsOf k := by rw [attemptsOf, attemptsOf, h.attempts]
      rw [this]
      exact hs.sequences k
    ledger := by
      intro k st' hk
      by_cases heq : k = c.message.id
      · rw [heq, hst, Option.some.injEq] at hk
        exact hk ▸ hinv
      · rw [h.ledgerState_other hs heq] at hk
        exact hs.ledger k st' hk
    has_outbox := by
      intro k m hk
      rw [hmessage] at hk
      split_ifs at hk with heq
      · exact ⟨c.outbox.id, c.outbox, by rw [hby, if_pos heq], by rw [hitem, if_pos rfl]⟩
      · obtain ⟨id, item, hid, hi⟩ := hs.has_outbox k m hk
        refine ⟨id, item, by rw [hby, if_neg heq, hid], ?_⟩
        rw [hitem, if_neg, hi]
        rintro rfl
        rw [h.no_outbox] at hi
        cases hi
    outbox_id := by
      intro id item hi
      rw [hitem] at hi
      split_ifs at hi with heq
      · obtain rfl : c.outbox = item := by simpa using hi
        exact ⟨heq.symm, by rw [hby, if_pos hom, heq]⟩
      · obtain ⟨hid, hk⟩ := hs.outbox_id id item hi
        refine ⟨hid, ?_⟩
        obtain ⟨m, hm⟩ := hs.outbox_has_message id item hi
        rw [hby, if_neg, hk]
        intro hkm
        rw [hkm, h.no_message] at hm
        cases hm
    outbox_message := by
      intro k id hk
      rw [hby] at hk
      split_ifs at hk with heq
      · obtain rfl : c.outbox.id = id := by simpa using hk
        exact ⟨c.outbox, by rw [hitem, if_pos rfl], hom.trans heq.symm⟩
      · obtain ⟨item, hi, hik⟩ := hs.outbox_message k id hk
        refine ⟨item, ?_, hik⟩
        rw [hitem, if_neg, hi]
        rintro rfl
        rw [h.no_outbox] at hi
        cases hi
    outbox_has_message := by
      intro id item hi
      rw [hitem] at hi
      rw [hmessage]
      split_ifs with hk
      · exact ⟨_, rfl⟩
      · split_ifs at hi with heq
        · obtain rfl : c.outbox = item := by simpa using hi
          exact absurd hom hk
        · exact hs.outbox_has_message id item hi }

end Committed

end MemoryStore

end HayaSend
