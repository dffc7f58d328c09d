import HayaSend.Adapters.MemoryStoreOutbox

/-!
# Steps of the in-memory store

`MemoryStore.Step` is what a caller may rely on when some operation of the store has run: the
store's invariant, one `LedgerMove` on every ledger, and that nothing outside the operation's
footprint changed. There is one lemma for each operation, and the theorems about whole runs use no
more of an operation than its step.
-/

namespace HayaSend

namespace MemoryStore

/-- What an operation may touch: an attempt, the schedules it moves, and the outbox item it marks
as dispatched. -/
structure Footprint where
  attempt : Option String := none
  schedule : String → Option ℕ := fun _ => none
  dispatched : Option String := none

/-- How the ledger of one message evolves in a step. -/
inductive Evolves (s s' : MemoryStore) (k : String) : Prop
  | absent : s.ledgerState k = none → s'.ledgerState k = none → Evolves s s' k
  | created (st : DeliveryLedgerState) : s.emails.get k = none → s'.ledgerState k = some st →
      st.attempts = [] →
      (st.AllQueued → ∃ item, s'.outboxOf k = some item ∧ item.dispatchedAt = none) →
      Evolves s s' k
  | moved (st st' : DeliveryLedgerState) : s.ledgerState k = some st →
      s'.ledgerState k = some st' → LedgerMove st st' → Evolves s s' k

theorem Evolves.same {s s' : MemoryStore} {k : String} (h : s'.ledgerState k = s.ledgerState k) :
    Evolves s s' k := by
  cases hk : s.ledgerState k with
  | none => exact .absent hk (h.trans hk)
  | some st => exact .moved st st hk (h.trans hk) .same

/-- A step of the store with a footprint. -/
structure Step (s s' : MemoryStore) (f : Footprint) : Prop where
  inv : s'.Inv
  evolves : ∀ k, Evolves s s' k
  emails : ∀ k e, s.emails.get k = some e →
    ∃ e', s'.emails.get k = some e' ∧ e'.scheduledAt = (f.schedule k).or e.scheduledAt
  attempts : ∀ id, f.attempt ≠ some id → s'.deliveryAttempts.get id = s.deliveryAttempts.get id
  outbox : ∀ id item, s.outboxItems.get id = some item →
    ∃ item', s'.outboxItems.get id = some item' ∧ item'.messageId = item.messageId ∧
      (item'.dispatchedAt.isSome = true → item.dispatchedAt.isSome = true ∨ f.dispatched = some id)
  by_message : ∀ k id, s.outboxByMessage.get k = some id → s'.outboxByMessage.get k = some id

theorem Step.refl {s : MemoryStore} (h : s.Inv) : Step s s {} where
  inv := h
  evolves _ := .same rfl
  emails _ e he := ⟨e, he, rfl⟩
  attempts _ _ := rfl
  outbox _ item hi := ⟨item, hi, rfl, Or.inl⟩
  by_message _ _ h := h

/-- Writing an email, where the ledger it may have makes a move. -/
theorem Inv.step_setEmail {s : MemoryStore} (h : s.Inv) {e e₀ : EmailRecord} {k : String}
    (he₀ : s.emails.get k = some e₀) (hid : e.id = e₀.id) {f : Footprint}
    (hsch : e.scheduledAt = (f.schedule k).or e₀.scheduledAt)
    (hf : ∀ k' ≠ k, f.schedule k' = none)
    (hm : ∀ st, s.ledgerState k = some st → LedgerMove st { st with email := e }) :
    Step s { s with emails := s.emails.set k e } f := by
  obtain rfl : e.id = k := hid.trans (h.email_id k e₀ he₀)
  have hled := fun k => ledgerState_setEmail s e k ⟨e₀, he₀⟩
  exact {
    inv := h.setEmail he₀ fun st hst => (h.ledger _ st hst).move (hm st hst)
    evolves := by
      intro k
      by_cases hk : k = e.id
      · cases hst : s.ledgerState k with
        | none => exact .absent hst (by rw [hled, if_pos hk, hst]; rfl)
        | some st =>
          exact .moved st _ hst (by rw [hled, if_pos hk, hst]; rfl) (hm st (hk ▸ hst))
      · exact .same (by rw [hled, if_neg hk])
    emails := by
      intro k e' he'
      by_cases hk : k = e.id
      · subst hk
        rw [he₀, Option.some.injEq] at he'
        exact ⟨e, OrderedMap.get_set_self _ _ _, he' ▸ hsch⟩
      · refine ⟨e', (OrderedMap.get_set_ne _ _ hk).trans he', ?_⟩
        rw [hf k hk]
        rfl
    attempts := fun _ _ => rfl
    outbox := fun _ item hi => ⟨item, hi, rfl, Or.inl⟩
    by_message := fun _ _ h => h }

theorem Inv.step_claim {s s' : MemoryStore} (h : s.Inv) {id : String} {attempt now : ℕ}
    {e : EmailRecord} (hc : s.claimEmailForSend id attempt now = some (s', e)) :
    Step s s' {} := by
  obtain ⟨e₀, he₀, hcl, rfl, rfl⟩ := claimEmailForSend_eq_some.mp hc
  refine h.step_setEmail (f := {}) (e := e₀.claimed _ now) he₀ rfl rfl (fun _ _ => rfl)
    fun st hst => ?_
  have := h.ledgerState_email hst he₀
  exact this ▸ .claimed _ now (this ▸ hcl)

/-- An update of an email without a ledger. -/
theorem Inv.step_update {s s' : MemoryStore} (h : s.Inv) {id : String} {u : EmailUpdates}
    {fromStatuses : Option (List EmailStatus)} {e : EmailRecord}
    (hno : s.deliveryMessages.get id = none) (hu : u.scheduledAt = none)
    (hc : s.updateEmail id u fromStatuses = some (s', e)) : Step s s' {} := by
  obtain ⟨e₀, he₀, -, rfl, rfl⟩ := updateEmail_eq_some.mp hc
  refine h.step_setEmail (f := {}) (e := u.applyTo e₀) he₀ rfl ?_ (fun _ _ => rfl)
    fun st hst => ?_
  · show u.scheduledAt.or e₀.scheduledAt = _
    rw [hu]
  · rw [h.ledgerState_eq_none.mpr hno] at hst
    cases hst

/-- The footprint of a reschedule. -/
def rescheduleFootprint (id : String) (t : ℕ) : Footprint where
  schedule k := if k = id then some t else none

/-- The reschedule of an email alone. -/
theorem Inv.step_updateSchedule {s s' : MemoryStore} (h : s.Inv) {id : String} {t now : ℕ}
    {e : EmailRecord}
    (hc : s.updateEmail id (rescheduleUpdates t now) (some pendingStatuses) = some (s', e)) :
    Step s s' (rescheduleFootprint id t) := by
  obtain ⟨e₀, he₀, hp, rfl, rfl⟩ := updateEmail_eq_some.mp hc
  rw [rescheduleUpdates_applyTo] at *
  rw [updatable_pending] at hp
  refine h.step_setEmail (f := rescheduleFootprint id t) (e := e₀.rescheduled t now) he₀ rfl ?_
    (fun k hk => if_neg hk) fun st hst => ?_
  · simp [rescheduleFootprint, EmailRecord.rescheduled]
  · have := h.ledgerState_email hst he₀
    exact this ▸ .rescheduledEmail t now (this ▸ hp)

/-- Writing the ledger of a message after a move. -/
theorem Inv.step_writtenBack {s t : MemoryStore} (h : s.Inv) {k : String}
    {st st' : DeliveryLedgerState} (hst : s.ledgerState k = some st) (hm : LedgerMove st st')
    (hw : WrittenBack s t k st') {f : Footprint}
    (hsch : st'.email.scheduledAt = (f.schedule k).or st.email.scheduledAt)
    (hf : ∀ k' ≠ k, f.schedule k' = none)
    (ha : ∀ id, f.attempt ≠ some id → t.deliveryAttempts.get id = s.deliveryAttempts.get id) :
    Step s t f := by
  have hinv := (h.ledger k st hst).move hm
  obtain ⟨he, -, -, -⟩ := h.ledgerState_eq_some.mp hst
  exact {
    inv := hw.inv h hst hm.frame hinv
    evolves := by
      intro k'
      by_cases hk : k' = k
      · subst hk
        exact .moved st st' hst (hw.ledgerState_self h hinv) hm
      · exact .same (hw.ledgerState_other h hst hm.frame hinv hk)
    emails := by
      intro k' e hk
      rw [hw.emails]
      split_ifs with heq
      · rw [heq, he, Option.some.injEq] at hk
        exact ⟨_, rfl, by rw [heq, ← hk, hsch]⟩
      · exact ⟨e, hk, by rw [hf k' heq, Option.none_or]⟩
    attempts := ha
    outbox := by
      intro id item hi
      exact ⟨item, by rw [hw.items, hi], rfl, Or.inl⟩
    by_message := by
      rw [hw.by_message]
      exact fun _ _ h => h }

/-- Writing a planned move back. -/
theorem Inv.step_commit {s : MemoryStore} (h : s.Inv) {k : String} {st st' : DeliveryLedgerState}
    (hst : s.ledgerState k = some st) (hm : LedgerMove st st')
    (hsch : st'.email.scheduledAt = st.email.scheduledAt) {attempt : Option AttemptRecord}
    {event : Option ProviderEventRecord} (hw : s.Writes k st' attempt event) :
    Step s (s.commitLedgerPlan st' attempt event) { attempt := attempt.map (·.id) } := by
  have hwb := h.writtenBack_commit hst hm.frame ((h.ledger k st hst).move hm) hw
  refine h.step_writtenBack hst hm hwb hsch (fun _ _ => rfl) fun id hid => ?_
  cases attempt with
  | none => rfl
  | some a =>
    refine OrderedMap.get_set_ne _ _ fun heq => hid ?_
    rw [heq]
    rfl

theorem Inv.step_begin {s s' : MemoryStore} (h : s.Inv) {a : AttemptRecord}
    (hn : s.deliveryAttempts.get a.id = none) {r : Option DeliveryLedgerMutationResult}
    (hb : s.beginDeliveryAttempt a = .ok (s', r)) : Step s s' { attempt := some a.id } := by
  rcases h.beginDeliveryAttempt hn hb with ⟨rfl, -, -⟩ | ⟨st, hst, hm, hq, rfl⟩
  · exact { Step.refl h with attempts := fun _ _ => rfl }
  · have hw : s.Writes a.messageId (st.started a) (some a) none :=
      writes_new h hst hn rfl (by rfl) none
    exact h.step_commit hst (.started a hm hq) rfl hw

theorem Inv.step_complete {s s' : MemoryStore} (h : s.Inv) {input : AttemptCompletion}
    {r : Option DeliveryLedgerMutationResult}
    (hc : s.completeDeliveryAttempt input = .ok (s', r)) :
    Step s s' { attempt := some input.attemptId } := by
  rcases h.completeDeliveryAttempt hc with ⟨rfl, -⟩ | ⟨st, i, a, hst, hi, hid, hsub, rfl⟩
  · exact { Step.refl h with attempts := fun _ _ => rfl }
  · have hw : s.Writes input.messageId (st.completed i a input) (some (completedAttempt input a))
        none := writes_completed h hst (b := completedAttempt input a) hi rfl rfl (by rfl) none
    have := h.step_commit hst (.completed i a input hi hid hsub)
      (completeEmail_scheduledAt _ _) hw
    rwa [← hid]

theorem Inv.step_event {s s' : MemoryStore} (h : s.Inv) {e : ProviderEventRecord}
    {r : Option DeliveryLedgerMutationResult} (ha : s.appendProviderEvent e = .ok (s', r)) :
    Step s s' {} := by
  rcases h.appendProviderEvent ha with rfl | ⟨st, hst, hc, rfl⟩
  · exact Step.refl h
  · have hw : s.Writes e.messageId (st.observed e) none (some e) :=
      writes_none h hst (by rfl) (some e)
    exact h.step_commit hst (.observed e hc) rfl hw

theorem Inv.step_local {s s' : MemoryStore} (h : s.Inv) {k : String} {status : LocalStatus}
    {t : ℕ} {r : Option DeliveryLedgerMutationResult}
    (ha : s.applyLocalDeliveryState k status t = .ok (s', r)) : Step s s' {} := by
  rcases h.applyLocalDeliveryState ha with ⟨rfl, -, -⟩ | ⟨st, hst, hno, hns, rfl, -⟩
  · exact Step.refl h
  · have hw : s.Writes k (st.localized status t) none none :=
      writes_none h hst (by rfl) none
    exact h.step_commit hst (.localized status t hno hns) rfl hw

/-- A write to one outbox item that keeps its identity. -/
theorem Inv.step_setOutbox {s : MemoryStore} (h : s.Inv) {item : OutboxItemRecord}
    (item' : OutboxItemRecord) (hi : s.outboxItems.get item.id = some item) (hid : item'.id = item.id)
    (hm : item'.messageId = item.messageId) (failures : ℕ) {f : Footprint}
    (hsch : ∀ k, f.schedule k = none)
    (hd : item'.dispatchedAt.isSome = true → item.dispatchedAt.isSome = true ∨
      f.dispatched = some item.id) :
    Step s { s with
      outboxItems := s.outboxItems.set item.id item'
      outboxPublishFailures := failures } f where
  inv := h.setOutbox hi hid hm failures
  evolves _ := .same rfl
  emails k e he := ⟨e, he, by rw [hsch]; rfl⟩
  attempts _ _ := rfl
  outbox id o ho := by
    by_cases heq : id = item.id
    · rw [heq, hi, Option.some.injEq] at ho
      subst ho
      exact ⟨item', by rw [heq]; exact OrderedMap.get_set_self _ _ _, hm, heq ▸ hd⟩
    · exact ⟨o, (OrderedMap.get_set_ne _ _ heq).trans ho, rfl, Or.inl⟩
  by_message _ _ h := h

/-- A step followed by one that touches the outbox only. -/
theorem Step.trans_outbox {s t u : MemoryStore} {f : Footprint} (h : Step s t f)
    (h' : Step t u {}) (hl : ∀ k, u.ledgerState k = t.ledgerState k) : Step s u f where
  inv := h'.inv
  evolves k := by
    have hk := hl k
    rcases h.evolves k with ⟨hn, hn'⟩ | ⟨st, he, hst, ha, hq⟩ | ⟨st, st', hst, hst', hm⟩
    · exact .absent hn (hk.trans hn')
    · refine .created st he (hk.trans hst) ha fun hqueued => ?_
      obtain ⟨item, ho, hd⟩ := hq hqueued
      obtain ⟨id, hid, hi⟩ := Option.bind_eq_some_iff.mp ho
      obtain ⟨item', hi', -, hd'⟩ := h'.outbox id item hi
      refine ⟨item', Option.bind_eq_some_iff.mpr ⟨id, h'.by_message k id hid, hi'⟩, ?_⟩
      cases hsome : item'.dispatchedAt with
      | none => rfl
      | some t =>
        rcases hd' (by rw [hsome]; rfl) with hd' | hd'
        · rw [hd] at hd'
          cases hd'
        · cases hd'
    · exact .moved st st' hst (hk.trans hst') hm
  emails k e he := by
    obtain ⟨e', he', hsch⟩ := h.emails k e he
    obtain ⟨e'', he'', hsch'⟩ := h'.emails k e' he'
    exact ⟨e'', he'', hsch'.trans hsch⟩
  attempts id hid := (h'.attempts id (by simp)).trans (h.attempts id hid)
  outbox id item hi := by
    obtain ⟨item', hi', hm, hd⟩ := h.outbox id item hi
    obtain ⟨item'', hi'', hm', hd'⟩ := h'.outbox id item' hi'
    refine ⟨item'', hi'', hm'.trans hm, fun hsome => ?_⟩
    rcases hd' hsome with hsome | hsome
    · exact hd hsome
    · cases hsome
  by_message k id hk := h'.by_message k id (h.by_message k id hk)

theorem Inv.outboxOf_eq_some {s : MemoryStore} (h : s.Inv) {k : String} {item : OutboxItemRecord}
    (ho : s.outboxOf k = some item) : s.outboxItems.get item.id = some item ∧
      item.messageId = k := by
  obtain ⟨id, hid, hi⟩ := Option.bind_eq_some_iff.mp ho
  obtain ⟨item', hi', hk⟩ := h.outbox_message k id hid
  rw [hi, Option.some.injEq] at hi'
  subst hi'
  exact ⟨by rw [(h.outbox_id id item hi).1, hi], hk⟩

/-- The reschedule of email, message and outbox item. -/
theorem Inv.step_reschedule {s s' : MemoryStore} (h : s.Inv) {id : String} {t now : ℕ}
    {e : EmailRecord} (hc : s.rescheduleEmailAndOutbox id t now = some (s', e)) :
    Step s s' (rescheduleFootprint id t) := by
  obtain ⟨e₀, m, o, he, hm, ho, hp, hd, -, rfl, rfl⟩ := rescheduleEmailAndOutbox_eq_some.mp hc
  obtain ⟨hi, -⟩ := h.outboxOf_eq_some ho
  obtain ⟨st, hst⟩ := h.exists_ledgerState hm
  have hst' := h.ledgerState_eq_some.mp hst
  obtain rfl := h.ledgerState_email hst he
  have hinv := h.ledger id st hst
  obtain rfl : st.message = m := by
    have := hst'.2.1
    rw [hm, Option.some.injEq] at this
    exact this.symm
  -- first the email and the message, then the outbox item
  have hw : WrittenBack s { s with
      emails := s.emails.set id (st.email.rescheduled t now)
      deliveryMessages := s.deliveryMessages.set id (st.message.rescheduled t now) } id
      { st with
        email := st.email.rescheduled t now
        message := st.message.rescheduled t now } :=
    { emails := fun k' => OrderedMap.get_set _ _ _ _
      messages := fun k' => OrderedMap.get_set _ _ _ _
      recipients := by
        intro r hr
        have hmap := recipientsOf_eq_some.mp hst'.2.2.1
        rw [← hinv.ordered, List.map_map] at hmap
        exact List.map_inj_left.mp hmap r hr
      other_recipients := fun _ _ => rfl
      attempts := hst'.2.2.2
      other_attempts := fun _ _ => rfl
      attempt := fun _ _ ha => Or.inl ha
      items := rfl
      by_message := rfl }
  have hstep := h.step_writtenBack (f := rescheduleFootprint id t) hst
    (.rescheduled t now hp) hw (by simp [rescheduleFootprint, EmailRecord.rescheduled])
    (fun k hk => if_neg hk) fun _ _ => rfl
  exact hstep.trans_outbox (hstep.inv.step_setOutbox (f := {})
    { o with dueAt := t, updatedAt := now } hi rfl rfl s.outboxPublishFailures
    (fun _ => rfl) Or.inl) fun _ => rfl

theorem Inv.step_acknowledge {s s' : MemoryStore} (h : s.Inv) {id owner : String} {now : ℕ}
    {b : Bool} (ha : s.acknowledgeOutbox id owner now = .ok (s', b)) :
    Step s s' { dispatched := some id } := by
  unfold acknowledgeOutbox at ha
  split at ha
  · rw [Except.ok.injEq, Prod.mk.injEq] at ha
    obtain ⟨rfl, -⟩ := ha
    exact { Step.refl h with outbox := fun _ item hi => ⟨item, hi, rfl, Or.inl⟩ }
  · rename_i item hheld
    obtain ⟨updated, hp, ha⟩ := bind_eq_ok.mp ha
    obtain ⟨-, rfl⟩ := OutboxItemRecord.parse_eq_ok.mp hp
    rw [pure_eq_ok, Prod.mk.injEq] at ha
    obtain ⟨rfl, -⟩ := ha
    obtain ⟨hi, -, -⟩ := heldItem_eq_some.mp hheld
    obtain rfl := (h.outbox_id id item hi).1
    exact h.step_setOutbox (f := { dispatched := some item.id }) (acknowledgedItem now item) hi
      rfl rfl
      s.outboxPublishFailures (fun _ => rfl) fun _ => Or.inr rfl

theorem Inv.step_failure {s s' : MemoryStore} (h : s.Inv) {id owner : String}
    {category : DiagnosticCategory} {now : ℕ} {b : Bool}
    (ha : s.recordOutboxFailure id owner category now = .ok (s', b)) : Step s s' {} := by
  unfold recordOutboxFailure at ha
  split at ha
  · rw [Except.ok.injEq, Prod.mk.injEq] at ha
    exact ha.1 ▸ Step.refl h
  · rename_i item hheld
    obtain ⟨updated, hp, ha⟩ := bind_eq_ok.mp ha
    obtain ⟨-, rfl⟩ := OutboxItemRecord.parse_eq_ok.mp hp
    rw [pure_eq_ok, Prod.mk.injEq] at ha
    obtain ⟨rfl, -⟩ := ha
    obtain ⟨hi, -, -⟩ := heldItem_eq_some.mp hheld
    obtain rfl := (h.outbox_id id item hi).1
    exact h.step_setOutbox (f := {}) (failedItem category now item) hi rfl rfl _ (fun _ => rfl)
      Or.inl

/-- Leasing a list of stored items. The items returned are stored under the same identities. -/
theorem Inv.step_leaseItems {input : LeaseDueOutboxInput} {items : List OutboxItemRecord}
    {s : MemoryStore} (h : s.Inv)
    (hi : ∀ item ∈ items, s.outboxItems.get item.id = some item)
    (hn : (items.map (·.id)).Nodup) :
    Step s (leaseItems input s items).1 {} ∧
      (∀ k, (leaseItems input s items).1.ledgerState k = s.ledgerState k) ∧
      ∀ leased, (leaseItems input s items).2 = .ok leased → ∀ item ∈ leased,
        ∃ item₀ ∈ items, item.id = item₀.id ∧ item.messageId = item₀.messageId := by
  induction items generalizing s with
  | nil =>
    refine ⟨Step.refl h, fun _ => rfl, fun leased hl item hm => ?_⟩
    obtain rfl : [] = leased := by simpa [leaseItems] using hl
    cases hm
  | cons item items ih =>
    obtain ⟨hni, hn⟩ := List.nodup_cons.mp hn
    unfold leaseItems
    cases hp : (leasedItem input item).parse with
    | error e => exact ⟨Step.refl h, fun _ => rfl, fun leased hl => by cases hl⟩
    | ok updated =>
      obtain ⟨-, rfl⟩ := OutboxItemRecord.parse_eq_ok.mp hp
      have hstep := h.step_setOutbox (f := {}) (leasedItem input item)
        (hi item List.mem_cons_self) rfl rfl s.outboxPublishFailures (fun _ => rfl) Or.inl
      have hi' : ∀ o ∈ items, ({ s with
          outboxItems := s.outboxItems.set item.id (leasedItem input item) } :
          MemoryStore).outboxItems.get o.id = some o := by
        intro o ho
        refine (OrderedMap.get_set_ne _ _ fun heq => hni ?_).trans
          (hi o (List.mem_cons_of_mem _ ho))
        exact List.mem_map.mpr ⟨o, ho, heq⟩
      obtain ⟨hrest, hled, hids⟩ := ih hstep.inv hi' hn
      refine ⟨hstep.trans_outbox hrest hled, hled, fun leased hl o ho => ?_⟩
      obtain ⟨rest, hr, rfl⟩ : ∃ rest, (leaseItems input { s with
          outboxItems := s.outboxItems.set item.id (leasedItem input item) } items).2 = .ok rest ∧
          leasedItem input item :: rest = leased := by
        dsimp only at hl
        revert hl
        generalize (leaseItems input { s with
          outboxItems := s.outboxItems.set item.id (leasedItem input item) } items).2 = r
        intro hl
        cases r with
        | error e => cases hl
        | ok rest => exact ⟨rest, rfl, by simpa [Except.map] using hl⟩
      rcases List.mem_cons.mp ho with rfl | ho
      · exact ⟨item, List.mem_cons_self, rfl, rfl⟩
      · obtain ⟨o₀, ho₀, heq⟩ := hids rest hr o ho
        exact ⟨o₀, List.mem_cons_of_mem _ ho₀, heq⟩

theorem Inv.step_lease {s : MemoryStore} (h : s.Inv) (input : LeaseDueOutboxInput) :
    Step s (s.leaseDueOutbox input).1 {} ∧
      ∀ leased, (s.leaseDueOutbox input).2 = .ok leased → ∀ item ∈ leased,
        ∃ item₀, s.outboxItems.get item.id = some item₀ ∧ item.messageId = item₀.messageId := by
  unfold leaseDueOutbox
  split_ifs
  · exact ⟨Step.refl h, fun leased hl => by cases hl⟩
  · exact ⟨Step.refl h, fun leased hl => by cases hl⟩
  · exact ⟨Step.refl h, fun leased hl => by cases hl⟩
  · exact ⟨Step.refl h, fun leased hl => by cases hl⟩
  · generalize hdue : ((s.outboxItems.values.filter (isDue input.now)).insertionSort
      outboxOrder).take input.limit = due
    have hmem : ∀ item ∈ due, s.outboxItems.get item.id = some item := by
      intro item hi
      rw [← hdue] at hi
      have hi := List.mem_of_mem_take hi
      rw [List.mem_insertionSort, List.mem_filter] at hi
      obtain ⟨id, hid⟩ := (OrderedMap.mem_values_iff _ _).mp hi.1
      rwa [(h.outbox_id id item hid).1]
    have hnd : (due.map (·.id)).Nodup := by
      have hids : s.outboxItems.values.map (·.id) = s.outboxItems.keys := by
        simp only [OrderedMap.values, OrderedMap.keys, List.map_map]
        refine List.map_congr_left fun e he => ?_
        exact (h.outbox_id e.1 e.2 ((OrderedMap.get_eq_some_iff _ _ _).mpr he)).1
      have hvals : (s.outboxItems.values.map (·.id)).Nodup := hids ▸ s.outboxItems.nodup
      rw [← hdue]
      refine List.Nodup.sublist ((List.take_sublist _ _).map _) ?_
      refine ((List.perm_insertionSort outboxOrder _).map _).nodup_iff.mpr ?_
      exact hvals.sublist (List.filter_sublist.map _)
    obtain ⟨hstep, -, hids⟩ := h.step_leaseItems hmem hnd
    refine ⟨hstep, fun leased hl item hi => ?_⟩
    obtain ⟨item₀, hi₀, hid, hm⟩ := hids leased hl item hi
    exact ⟨item₀, hid ▸ hmem item₀ hi₀, hm⟩

theorem Committed.step {s s' : MemoryStore} {c : DeliveryCommit} (hc : Committed s s' c)
    (h : s.Inv) : Step s s' {} where
  inv := hc.inv h
  evolves k := by
    by_cases hk : k = c.message.id
    · subst hk
      obtain ⟨st, hst, hinv, -, hatt, -, hsub⟩ := hc.ledgerState_self h
      refine .created st hc.no_email hst hatt fun hq => ⟨c.outbox, ?_, ?_⟩
      · rw [outboxOf, hc.by_message, hc.items, OrderedMap.get_set_self, Option.bind_some,
          OrderedMap.get_set_self]
      · obtain ⟨r, hr⟩ := List.exists_mem_of_ne_nil _ hinv.recipients_ne_nil
        have hstatus := (hc.consistent.recipient (hsub r hr)).2.1
        rw [hq r hr, EmailStatus.initialRecipientStatus] at hstatus
        rw [hc.consistent.outbox_fields.2.2.2, if_neg]
        intro he
        rw [if_pos he] at hstatus
        cases hstatus
    · exact .same (hc.ledgerState_other h hk)
  emails k e he := by
    refine ⟨e, ?_, rfl⟩
    rw [hc.emails, OrderedMap.get_set_ne, he]
    rintro rfl
    rw [hc.no_email] at he
    cases he
  attempts id _ := by rw [hc.attempts]
  outbox id item hi := by
    refine ⟨item, ?_, rfl, Or.inl⟩
    rw [hc.items, OrderedMap.get_set_ne, hi]
    rintro rfl
    rw [hc.no_outbox] at hi
    cases hi
  by_message k id hk := by
    rw [hc.by_message, OrderedMap.get_set_ne, hk]
    rintro rfl
    obtain ⟨item, hi, hik⟩ := h.outbox_message _ id hk
    obtain ⟨m, hm⟩ := h.outbox_has_message id item hi
    rw [hik, hc.no_message] at hm
    cases hm

theorem Inv.step_commitDelivery {s s' : MemoryStore} (h : s.Inv) {input : DeliveryCommit}
    {now : ℕ} {r : DeliveryCommitResult} (hc : s.commitDelivery input now = .ok (s', r)) :
    Step s s' {} := by
  rcases commitDelivery_eq_ok hc with ⟨rfl, -⟩ | ⟨hc, -⟩
  · exact Step.refl h
  · exact hc.step h

/-- An email under a new id leaves the ledgers alone. -/
theorem Inv.ledgerState_createEmail {s : MemoryStore} (h : s.Inv) {e : EmailRecord}
    (hn : s.emails.get e.id = none) (k : String) :
    ({ s with emails := s.emails.set e.id e } : MemoryStore).ledgerState k = s.ledgerState k := by
  by_cases hk : k = e.id
  · subst hk
    have hnone : s.deliveryMessages.get e.id = none := by
      cases hm : s.deliveryMessages.get e.id with
      | none => rfl
      | some m =>
        obtain ⟨e', he'⟩ := h.has_email e.id m hm
        rw [hn] at he'
        cases he'
    unfold ledgerState deliveryLedger
    simp only [hnone, Option.bind_eq_bind, Option.bind_none]
    cases s.emails.get e.id <;> cases (s.emails.set e.id e).get e.id <;> rfl
  · exact ledgerState_congr (OrderedMap.get_set_ne _ _ hk) rfl (fun _ _ => rfl) rfl

/-- An email under a new id, without a ledger. -/
theorem Inv.step_createEmail {s : MemoryStore} (h : s.Inv) {e : EmailRecord}
    (hn : s.emails.get e.id = none) : Step s { s with emails := s.emails.set e.id e } {} := by
  have hled := h.ledgerState_createEmail hn
  exact {
    inv :=
      { email_id := by
          intro k e' hk
          rw [OrderedMap.get_set] at hk
          split_ifs at hk with heq
          · obtain rfl : e = e' := by simpa using hk
            exact heq.symm
          · exact h.email_id k e' hk
        message_id := h.message_id
        has_email := by
          intro k m hk
          rw [OrderedMap.get_set]
          split_ifs
          · exact ⟨_, rfl⟩
          · exact h.has_email k m hk
        recipient_id := h.recipient_id
        has_recipient := h.has_recipient
        attempt_id := h.attempt_id
        has_message := h.has_message
        sequences := h.sequences
        ledger := by
          intro k st hk
          rw [hled] at hk
          exact h.ledger k st hk
        has_outbox := h.has_outbox
        outbox_id := h.outbox_id
        outbox_message := h.outbox_message
        outbox_has_message := h.outbox_has_message }
    evolves := fun k => .same (hled k)
    emails := by
      intro k e' he'
      refine ⟨e', (OrderedMap.get_set_ne _ _ ?_).trans he', rfl⟩
      rintro rfl
      rw [hn] at he'
      cases he'
    attempts := fun _ _ => rfl
    outbox := fun _ item hi => ⟨item, hi, rfl, Or.inl⟩
    by_message := fun _ _ h => h }

/-- The empty store. -/
theorem inv_empty : Inv {} := by
  have hled : ∀ k, ({} : MemoryStore).ledgerState k = none := fun _ => rfl
  refine ⟨?_, ?_, ?_, ?_, ?_, ?_, ?_, fun _ => rfl, fun k st hk => ?_, ?_, ?_, ?_, ?_⟩
  all_goals first
    | exact fun _ _ hk => by cases hk
    | (rw [hled] at hk; cases hk)

end MemoryStore

end HayaSend
