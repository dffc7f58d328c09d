import HayaSend.Adapters.IdempotencyClaims
import HayaSend.Adapters.MemoryStoreEvents

/-!
# What the in-memory store retains

Every operation of the in-memory store keeps the deliveries that are stored readable, and an
unexpired claim where it is: `MemoryStore.Operation` lists the operations, `Retains` is what one of
them leaves, and `retains_of_operations` what a run of them does.
-/

namespace HayaSend

namespace MemoryStore

/-- Every stored delivery can be read back, under its own id. -/
structure Readable (s : MemoryStore) : Prop extends Complete s where
  email_id : ∀ k e, s.emails.get k = some e → e.id = k
  outbox : ∀ k m, s.deliveryMessages.get k = some m →
    ∃ id item, s.outboxByMessage.get k = some id ∧ s.outboxItems.get id = some item

theorem readable_empty : Readable {} where
  toComplete := complete_empty
  email_id _ _ h := by cases h
  outbox _ _ h := by cases h

/-- One delivery operation. Those that may replace a claim run at a time of at most `last`, in
epoch seconds. -/
inductive Operation (last : ℕ) (s : MemoryStore) : MemoryStore → Prop
  | perform (op : StoreOp) : (∀ input now, op = .commitDelivery input now → now ≤ last) →
      Operation last s (s.perform op).1
  | createEmail {record : EmailRecord} {claim : Option IdempotencyClaim} {now : ℕ}
      {p : MemoryStore × EmailRecord × Bool} : s.createEmail record claim now = .ok p →
      epochSeconds now ≤ last → Operation last s p.1
  | updateEmail {id : String} {updates : EmailUpdates} {fromStatuses : Option (List EmailStatus)}
      {p : MemoryStore × EmailRecord} : s.updateEmail id updates fromStatuses = some p →
      Operation last s p.1
  | leaseDueOutbox (input : LeaseDueOutboxInput) : Operation last s (s.leaseDueOutbox input).1
  | acknowledgeOutbox {id owner : String} {now : ℕ} {p : MemoryStore × Bool} :
      s.acknowledgeOutbox id owner now = .ok p → Operation last s p.1
  | recordOutboxFailure {id owner : String} {category : DiagnosticCategory} {now : ℕ}
      {p : MemoryStore × Bool} : s.recordOutboxFailure id owner category now = .ok p →
      Operation last s p.1

/-- The deliveries stay stored and readable, and the claims that expire after `last` stay. -/
structure Retains (last : ℕ) (s s' : MemoryStore) : Prop where
  readable : s'.Readable
  message : ∀ k, (∃ m, s.deliveryMessages.get k = some m) → ∃ m, s'.deliveryMessages.get k = some m
  claim : ∀ key entry, s.idempotency.get key = some entry → last < entry.expiresAt →
    s'.idempotency.get key = some entry

theorem Readable.retains_self {s : MemoryStore} (h : s.Readable) (last : ℕ) : Retains last s s :=
  ⟨h, fun _ => id, fun _ _ hk _ => hk⟩

theorem Retains.trans {last : ℕ} {s t u : MemoryStore} (h : Retains last s t)
    (h' : Retains last t u) : Retains last s u :=
  ⟨h'.readable, fun k hk => h'.message k (h.message k hk),
    fun key entry hk hl => h'.claim key entry (h.claim key entry hk hl) hl⟩

/-! ## One operation -/

namespace Readable

variable {s t : MemoryStore} {last : ℕ}

/-- Writing an email under its own id. -/
theorem retains_setEmail (h : s.Readable) (e : EmailRecord) {claims : ClaimTable}
    (hc : ∀ key entry, s.idempotency.get key = some entry → last < entry.expiresAt →
      claims.get key = some entry) :
    Retains last s { s with emails := s.emails.set e.id e, idempotency := claims } where
  readable := {
    toComplete := h.toComplete.of_messages (fun _ m hm => ⟨m, hm, rfl, rfl⟩) (fun _ => id)
      (fun _ hk => s.emails.exists_get_set hk _ _) rfl rfl
    email_id := OrderedMap.forall_get_set h.email_id rfl
    outbox := h.outbox }
  message _ := id
  claim := hc

/-- Writing the outbox. -/
theorem retains_outbox (h : s.Readable) {items : OrderedMap String OutboxItemRecord} {failures : ℕ}
    (hi : ∀ id, (∃ item, s.outboxItems.get id = some item) → ∃ item, items.get id = some item) :
    Retains last s { s with outboxItems := items, outboxPublishFailures := failures } where
  readable := {
    toComplete := h.toComplete.of_messages (fun _ m hm => ⟨m, hm, rfl, rfl⟩) (fun _ => id)
      (fun _ => id) rfl rfl
    email_id := h.email_id
    outbox := fun k m hm =>
      let ⟨id, item, hk, hitem⟩ := h.outbox k m hm
      let ⟨item', hitem'⟩ := hi id ⟨item, hitem⟩
      ⟨id, item', hk, hitem'⟩ }
  message _ := id
  claim _ _ hk _ := hk

/-- Writing a ledger. -/
theorem retains_write (h : s.Readable) {e : Option ProviderEventRecord}
    (hw : LedgerWrite s e t) : Retains last s t := by
  have hcomplete := hw.complete h.toComplete
  cases hw with
  | same heq => exact heq ▸ h.retains_self last
  | plan k snap st a hl hk _ heq =>
    subst heq
    obtain ⟨-, hmessage, -⟩ := deliveryLedger_eq_some hl
    have hmid : st.message.id = k := hk.frame.message_id.trans (h.message_id k _ hmessage)
    refine ⟨⟨hcomplete, fun k' e' hk' => ?_, fun k' m hk' => ?_⟩,
      fun k' hk' => s.deliveryMessages.exists_get_set hk' _ _, fun _ _ hk' _ => hk'⟩
    · change (s.emails.set st.email.id st.email).get k' = some e' at hk'
      rw [OrderedMap.get_set] at hk'
      split_ifs at hk' with heq
      · rw [← Option.some.inj hk', heq]
      · exact h.email_id k' e' hk'
    · change (s.deliveryMessages.set st.message.id st.message).get k' = some m at hk'
      rw [OrderedMap.get_set] at hk'
      split_ifs at hk' with heq
      · rw [heq, hmid]
        exact h.outbox k _ hmessage
      · exact h.outbox k' m hk'

theorem retains_commit (h : s.Readable) {input : DeliveryCommit} {now : ℕ}
    {r : DeliveryCommitResult} (hc : s.commitDelivery input now = .ok (t, r)) (hnow : now ≤ last) :
    Retains last s t := by
  have hcomplete := h.toComplete.commitDelivery hc
  rcases commitDelivery_eq_ok hc with ⟨rfl, -⟩ | ⟨hcom, hr⟩
  · exact h.retains_self last
  refine ⟨⟨hcomplete, fun k e hk => ?_, fun k m hk => ?_⟩, fun k hk => ?_, fun key entry hk hl => ?_⟩
  · rw [hcom.emails, OrderedMap.get_set] at hk
    split_ifs at hk with heq
    · rw [← Option.some.inj hk, heq, hcom.consistent.email_id]
    · exact h.email_id k e hk
  · rw [hcom.messages, OrderedMap.get_set] at hk
    rw [hcom.by_message, hcom.items]
    split_ifs at hk with heq
    · exact ⟨input.outbox.id, input.outbox, by rw [heq, OrderedMap.get_set_self],
        OrderedMap.get_set_self _ _ _⟩
    · obtain ⟨id, item, hid, hitem⟩ := h.outbox k m hk
      obtain ⟨item', hitem'⟩ := s.outboxItems.exists_get_set ⟨item, hitem⟩ input.outbox.id
        input.outbox
      exact ⟨id, item', by rw [OrderedMap.get_set_ne _ _ heq, hid], hitem'⟩
  · rw [hcom.messages]
    exact s.deliveryMessages.exists_get_set hk _ _
  · rcases commitDelivery_idempotency hc with hs | ⟨hlive, hs⟩
    · rw [hs, hk]
    · rw [hs]
      exact ClaimTable.get_record_of_not_live hlive hk (lt_of_le_of_lt hnow hl)

theorem retains_claimEmail (h : s.Readable) (id : String) (attempt now : ℕ) :
    Retains last s (s.perform (.claim id attempt now)).1 := by
  show Retains last s (((s.claimEmailForSend id attempt now).map Prod.fst).getD s)
  cases hb : s.claimEmailForSend id attempt now with
  | none => exact h.retains_self last
  | some p =>
    obtain ⟨s', e⟩ := p
    obtain ⟨e₀, he, -, rfl, rfl⟩ := claimEmailForSend_eq_some.mp hb
    obtain rfl : e₀.id = id := h.email_id id e₀ he
    exact h.retains_setEmail (e₀.claimed (max (e₀.attempts + 1) attempt) now) fun _ _ hk _ => hk

theorem retains_reschedule (h : s.Readable) (id : String) (scheduledAt now : ℕ) :
    Retains last s (s.perform (.reschedule id scheduledAt now)).1 := by
  show Retains last s (((s.rescheduleEmailAndOutbox id scheduledAt now).map Prod.fst).getD s)
  have hcomplete := (h.toComplete.performed (.reschedule id scheduledAt now)).complete
  change Complete (((s.rescheduleEmailAndOutbox id scheduledAt now).map Prod.fst).getD s)
    at hcomplete
  cases hb : s.rescheduleEmailAndOutbox id scheduledAt now with
  | none => exact h.retains_self last
  | some p =>
    rw [hb] at hcomplete
    obtain ⟨s', e⟩ := p
    obtain ⟨e₀, m, o, he, hm, ho, -, -, -, rfl, rfl⟩ := rescheduleEmailAndOutbox_eq_some.mp hb
    refine ⟨⟨hcomplete, OrderedMap.forall_get_set h.email_id (h.email_id id e₀ he),
      fun k m' hk => ?_⟩, fun k hk => s.deliveryMessages.exists_get_set hk _ _, fun _ _ hk _ => hk⟩
    · have hmessage : ∃ m'', s.deliveryMessages.get k = some m'' := by
        change (s.deliveryMessages.set id (m.rescheduled scheduledAt now)).get k = some m' at hk
        rw [OrderedMap.get_set] at hk
        split_ifs at hk with heq
        · exact ⟨m, heq ▸ hm⟩
        · exact ⟨m', hk⟩
      obtain ⟨m'', hm''⟩ := hmessage
      obtain ⟨oid, item, hid, hitem⟩ := h.outbox k m'' hm''
      obtain ⟨item', hitem'⟩ := s.outboxItems.exists_get_set ⟨item, hitem⟩ o.id
        { o with dueAt := scheduledAt, updatedAt := now }
      exact ⟨oid, item', hid, hitem'⟩

theorem retains_perform (h : s.Readable) (op : StoreOp)
    (hnow : ∀ input now, op = .commitDelivery input now → now ≤ last) :
    Retains last s (s.perform op).1 := by
  cases op with
  | commitDelivery input now =>
    show Retains last s (s.settle ((s.commitDelivery input now).map fun p => (p.1, none))).1
    cases hb : s.commitDelivery input now with
    | error e => exact h.retains_self last
    | ok p => exact h.retains_commit hb (hnow input now rfl)
  | beginAttempt a =>
    show Retains last s (s.settle (s.beginDeliveryAttempt a)).1
    cases hb : s.beginDeliveryAttempt a with
    | error e => exact h.retains_self last
    | ok p => exact h.retains_write (h.toComplete.write_begin hb)
  | completeAttempt input =>
    show Retains last s (s.settle (s.completeDeliveryAttempt input)).1
    cases hb : s.completeDeliveryAttempt input with
    | error e => exact h.retains_self last
    | ok p => exact h.retains_write (h.toComplete.write_complete hb)
  | appendEvent e =>
    show Retains last s (s.settle (s.appendProviderEvent e)).1
    cases hb : s.appendProviderEvent e with
    | error e => exact h.retains_self last
    | ok p => exact h.retains_write (h.toComplete.write_append hb)
  | applyLocalState k status t =>
    show Retains last s (s.settle (s.applyLocalDeliveryState k status t)).1
    cases hb : s.applyLocalDeliveryState k status t with
    | error e => exact h.retains_self last
    | ok p => exact h.retains_write (h.toComplete.write_local hb)
  | claim id attempt now => exact h.retains_claimEmail id attempt now
  | reschedule id scheduledAt now => exact h.retains_reschedule id scheduledAt now

theorem retains_createEmail (h : s.Readable) {record : EmailRecord}
    {claim : Option IdempotencyClaim} {now : ℕ} {p : MemoryStore × EmailRecord × Bool}
    (hc : s.createEmail record claim now = .ok p) (hnow : epochSeconds now ≤ last) :
    Retains last s p.1 := by
  unfold createEmail at hc
  dsimp only at hc
  split at hc
  · split_ifs at hc
    split at hc
    · cases hc
    · cases hc
      exact h.retains_self last
  · cases hc
    exact h.retains_setEmail record fun _ _ hk _ => hk
  · rename_i c hlive
    cases hc
    refine h.retains_setEmail record fun key entry hk hl => ?_
    rw [OrderedMap.get_set_ne, hk]
    -- an unexpired claim of the key would have been found
    rintro rfl
    refine hlive entry ?_
    rw [Option.bind_some, hk, Option.filter_some, if_pos (decide_eq_true (by omega))]

/-- A lease loop writes the outbox only, and removes nothing from it. -/
theorem leaseItems_frame (input : LeaseDueOutboxInput) (s : MemoryStore)
    (items : List OutboxItemRecord) : ∃ rows : OrderedMap String OutboxItemRecord,
      (leaseItems input s items).1 = { s with outboxItems := rows } ∧
        ∀ id, (∃ item, s.outboxItems.get id = some item) → ∃ item, rows.get id = some item := by
  induction items generalizing s with
  | nil => exact ⟨s.outboxItems, rfl, fun _ => id⟩
  | cons item items ih =>
    unfold leaseItems
    cases hp : (leasedItem input item).parse with
    | error e => exact ⟨s.outboxItems, rfl, fun _ => id⟩
    | ok updated =>
      obtain ⟨rows, hrows, hkeep⟩ := ih { s with
        outboxItems := s.outboxItems.set item.id updated }
      exact ⟨rows, hrows, fun id hid => hkeep id (s.outboxItems.exists_get_set hid _ _)⟩

theorem retains_lease (h : s.Readable) (input : LeaseDueOutboxInput) :
    Retains last s (s.leaseDueOutbox input).1 := by
  unfold leaseDueOutbox
  split_ifs
  · exact h.retains_self last
  · exact h.retains_self last
  · exact h.retains_self last
  · exact h.retains_self last
  · obtain ⟨rows, hrows, hkeep⟩ := leaseItems_frame input s
      (((s.outboxItems.values.filter (isDue input.now)).insertionSort outboxOrder).take input.limit)
    rw [hrows]
    exact h.retains_outbox hkeep

theorem retains_operation (h : s.Readable) (hop : Operation last s t) : Retains last s t := by
  cases hop with
  | perform op hnow => exact h.retains_perform op hnow
  | createEmail hc hnow => exact h.retains_createEmail hc hnow
  | updateEmail hu =>
    rename_i id updates fromStatuses p
    obtain ⟨s', e⟩ := p
    obtain ⟨e₀, he, -, rfl, rfl⟩ := updateEmail_eq_some.mp hu
    obtain rfl : e₀.id = id := h.email_id id e₀ he
    exact h.retains_setEmail (updates.applyTo e₀) fun _ _ hk _ => hk
  | leaseDueOutbox input => exact h.retains_lease input
  | acknowledgeOutbox ha =>
    unfold acknowledgeOutbox at ha
    split at ha
    · cases ha
      exact h.retains_self last
    · obtain ⟨item, -, ha⟩ := bind_eq_ok.mp ha
      cases ha
      exact h.retains_outbox fun id hid => s.outboxItems.exists_get_set hid _ _
  | recordOutboxFailure hf =>
    unfold recordOutboxFailure at hf
    split at hf
    · cases hf
      exact h.retains_self last
    · obtain ⟨item, -, hf⟩ := bind_eq_ok.mp hf
      cases hf
      exact h.retains_outbox fun id hid => s.outboxItems.exists_get_set hid _ _

end Readable

/-! ## Claims -/

/-- A readable delivery is read back with its email. -/
theorem Readable.deliveryResult {s : MemoryStore} (h : s.Readable) {k : String}
    (hm : ∃ m, s.deliveryMessages.get k = some m) (replayed : Bool) :
    ∃ r, s.deliveryResult k replayed = some r ∧ r.email.id = k ∧ r.replayed = replayed := by
  obtain ⟨m, hm⟩ := hm
  obtain ⟨e, he⟩ := h.has_email k m hm
  obtain ⟨id, item, hid, hitem⟩ := h.outbox k m hm
  obtain ⟨rs, hrs⟩ := exists_mapM_eq_some (h.has_recipient k m hm)
  have houtbox : s.outboxOf k = some item := by
    rw [outboxOf, hid, Option.bind_some, hitem]
  have hrecipients : s.recipientsOf m = some rs := hrs
  exact ⟨_, by simp only [MemoryStore.deliveryResult, he, hm, houtbox,
    Option.bind_eq_bind, Option.bind_some, hrecipients]; rfl, h.email_id k e he, rfl⟩

theorem deliveryResult_eq_some {s : MemoryStore} {k : String} {replayed : Bool}
    {r : DeliveryCommitResult} (h : s.deliveryResult k replayed = some r) :
    s.emails.get k = some r.email ∧ ∃ m, s.deliveryMessages.get k = some m := by
  obtain ⟨e, he, h⟩ := Option.bind_eq_some_iff.mp h
  obtain ⟨m, hm, h⟩ := Option.bind_eq_some_iff.mp h
  obtain ⟨_, -, h⟩ := Option.bind_eq_some_iff.mp h
  obtain ⟨_, -, h⟩ := Option.bind_eq_some_iff.mp h
  obtain rfl := Option.some.inj h
  exact ⟨he, m, hm⟩

/-- After a commit under a claim, the claim of its key names the email that was returned. -/
theorem Readable.claimed {s s' : MemoryStore} (h : s.Readable) {input : DeliveryCommit} {now : ℕ}
    {r : DeliveryCommitResult} (hc : s.commitDelivery input now = .ok (s', r))
    {claim : IdempotencyClaim} (hi : input.idempotency = some claim) :
    ∃ entry, s'.idempotency.get claim.keyHash = some entry ∧
      entry.requestHash = claim.requestHash ∧ entry.emailId = r.email.id ∧
      ∃ m, s'.deliveryMessages.get entry.emailId = some m := by
  obtain ⟨c, hv, h'⟩ := bind_eq_ok.mp hc
  obtain ⟨rfl, hcons⟩ := validateDeliveryCommit_eq_ok hv
  dsimp only at h'
  split at h'
  · rename_i entry hlive
    obtain ⟨hlive, -⟩ := Option.filter_eq_some_iff.mp hlive
    rw [hi, Option.bind_some] at hlive
    split_ifs at h' with hhash
    split at h'
    · cases h'
    · rename_i replay hreplay
      rw [Except.ok.injEq, Prod.mk.injEq] at h'
      obtain ⟨rfl, rfl⟩ := h'
      obtain ⟨hemail, hmessage⟩ := deliveryResult_eq_some hreplay
      rw [hi, Option.any_some, bne_iff_ne, ne_eq, not_not] at hhash
      exact ⟨entry, hlive, hhash, (h.email_id _ _ hemail).symm, hmessage⟩
  · obtain ⟨_, -, h'⟩ := bind_eq_ok.mp h'
    obtain ⟨_, -, h'⟩ := bind_eq_ok.mp h'
    rw [pure_eq_ok, Prod.mk.injEq] at h'
    obtain ⟨rfl, rfl⟩ := h'
    refine ⟨{ claim with emailId := input.email.id }, ?_, rfl, rfl, input.message, ?_⟩
    · simp only [hi, OrderedMap.get_set_self]
    · simp only [hcons.email_id, OrderedMap.get_set_self]

/-- **A run of operations** keeps every stored delivery readable and every claim that has not
expired by its end. -/
theorem retains_of_operations {last : ℕ} {s t : MemoryStore} (h : s.Readable)
    (hops : Relation.ReflTransGen (Operation last) s t) : Retains last s t := by
  induction hops with
  | refl => exact h.retains_self last
  | tail _ hop ih => exact ih.trans (ih.readable.retains_operation hop)

end MemoryStore

end HayaSend
