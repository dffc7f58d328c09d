import HayaSend.Adapters.MemoryStoreLedger
import HayaSend.Foundations.Segments

/-!
# The outbox of the in-memory store

What one operation does to one outbox item. A lease changes items that are due and under no live
lease, an acknowledgement and a failure change an item of the caller's own lease, a reschedule
changes an item that is neither dispatched nor leased, and no operation changes a dispatched one.

`MemoryStore.OutboxInv` says that every stored item passes its schema and was not created in the
future. It is what keeps the schema check inside the lease loop from failing: under it a lease
returns exactly the first due items (`OutboxInv.leaseDueOutbox_eq`).
-/

namespace HayaSend

/-! ## Identities -/

/-- A message id has no character that `encodeURIComponent` would escape. -/
theorem messageIdSchema_chars {s : String} (h : messageIdSchema s = true) :
    ∀ c ∈ s.toList, isIdChar c = true := by
  simp only [messageIdSchema, isOpaqueId, Bool.and_eq_true, List.isPrefixOf_iff_prefix,
    List.all_eq_true] at h
  obtain ⟨⟨⟨⟨rest, hrest⟩, htail⟩, -⟩, -⟩ := h
  have hstart : ∀ c ∈ "email_".toList, isIdChar c = true :=
    List.all_eq_true.mp (by decide)
  have hdrop : s.toList.drop "email_".length = rest := by
    rw [← hrest]
    rfl
  intro c hc
  rw [← hrest] at hc
  rw [hdrop] at htail
  exact (List.mem_append.mp hc).elim (hstart c) (htail c)

/-- The segment of a message id is the id itself. -/
theorem identitySegment_eq_self {s : String} (h : messageIdSchema s = true) :
    identitySegment s = s := by
  have hflat : ∀ cs : List Char, (∀ c ∈ cs, isIdChar c = true) → ∀ f : Char → List Char,
      cs.flatMap (fun c => if c.isAlphanum || "-_.!~*'()".toList.contains c then [c] else f c)
        = cs := by
    intro cs hcs f
    induction cs with
    | nil => rfl
    | cons c cs ih =>
      obtain ⟨hc, hcs⟩ := List.forall_mem_cons.mp hcs
      have hkeep : (c.isAlphanum || "-_.!~*'()".toList.contains c) = true := by
        simp only [isIdChar, Bool.or_eq_true, beq_iff_eq] at hc
        rcases hc with (hc | rfl) | rfl
        · rw [hc, Bool.true_or]
        · rfl
        · rfl
      rw [List.flatMap_cons, if_pos hkeep, ih hcs]
      rfl
  exact String.ext (by rw [identitySegment, String.toList_ofList, hflat _ (messageIdSchema_chars h)])

/-- A message id has no colon. -/
theorem colon_notMem {s : String} (h : messageIdSchema s = true) : ':' ∉ s.toList := fun hc => by
  have := messageIdSchema_chars h _ hc
  revert this
  decide

/-- The identity of an outbox item determines its message. -/
theorem createOutboxIdentity_inj {m m' : String} {j j' : OutboxJobType} {g g' : ℕ} {id : String}
    (h : createOutboxIdentity m j g = .ok id) (h' : createOutboxIdentity m' j' g' = .ok id) :
    m = m' := by
  simp only [createOutboxIdentity] at h h'
  split_ifs at h with hi
  split_ifs at h' with hi'
  simp only [List.append_eq_nil_iff, issueUnless_eq_nil] at hi hi'
  rw [Except.ok.injEq] at h h'
  rw [identitySegment_eq_self hi.1] at h
  rw [identitySegment_eq_self hi'.1] at h'
  have heq := congrArg String.toList (h.trans h'.symm)
  simp only [String.toList_append, List.append_assoc] at heq
  have hcolon : ":".toList = [':'] := rfl
  simp only [List.append_right_inj, hcolon, List.singleton_append] at heq
  exact String.toList_injective
    (append_sep_inj_left (colon_notMem hi.1) (colon_notMem hi'.1) heq).1

namespace OutboxItemRecord

theorem valid_iff {o : OutboxItemRecord} : o.Valid ↔
    messageIdSchema o.messageId = true ∧ o.leaseOwner.all providerOpaqueIdSchema = true ∧
      o.createdAt ≤ o.updatedAt ∧
      (match createOutboxIdentity o.messageId o.jobType o.generation with
        | .ok identity => o.id == identity
        | .error _ => false) = true ∧
      o.leaseOwner.isNone = o.leaseExpiresAt.isNone ∧
      (o.dispatchedAt.isNone || o.leaseOwner.isNone) = true := by
  simp only [Valid, issues, refineIssues_eq_nil, validateUpdatedAt, List.append_eq_nil_iff,
    issueUnless_eq_nil, decide_eq_true_eq, beq_iff_eq]
  constructor
  · rintro ⟨⟨hm, ho⟩, ⟨⟨hu, hi⟩, hl⟩, hd⟩
    exact ⟨hm, ho, hu, hi, hl, hd⟩
  · rintro ⟨hm, ho, hu, hi, hl, hd⟩
    exact ⟨⟨hm, ho⟩, ⟨⟨hu, hi⟩, hl⟩, hd⟩

theorem Valid.identity {o : OutboxItemRecord} (h : o.Valid) :
    createOutboxIdentity o.messageId o.jobType o.generation = .ok o.id := by
  obtain ⟨-, -, -, h, -⟩ := valid_iff.mp h
  split at h
  · rename_i i hi
    rw [hi, beq_iff_eq.mp h]
  · cases h

/-- Items of different messages have different ids. -/
theorem Valid.messageId_eq {o o' : OutboxItemRecord} (h : o.Valid) (h' : o'.Valid)
    (hid : o.id = o'.id) : o.messageId = o'.messageId :=
  createOutboxIdentity_inj h.identity (hid ▸ h'.identity)

end OutboxItemRecord

namespace MemoryStore

/-- The invariant of the outbox at a time. -/
structure OutboxInv (s : MemoryStore) (now : ℕ) : Prop where
  item_id : ∀ id item, s.outboxItems.get id = some item → item.id = id
  valid : ∀ id item, s.outboxItems.get id = some item → item.Valid
  created : ∀ id item, s.outboxItems.get id = some item → item.createdAt ≤ now

/-! ## Leases -/

/-- The items a lease may take. -/
theorem isDue_iff {now : ℕ} {item : OutboxItemRecord} : isDue now item = true ↔
    item.dispatchedAt = none ∧ item.dueAt ≤ now ∧ ∀ t, item.leaseExpiresAt = some t → t ≤ now := by
  simp only [isDue, Bool.and_eq_true, Option.isNone_iff_eq_none, decide_eq_true_eq, and_assoc]
  cases item.leaseExpiresAt <;> simp

/-- Leasing a list of stored items changes these only, and each to its leased record. -/
theorem leaseItems_get {input : LeaseDueOutboxInput} {items : List OutboxItemRecord}
    {s : MemoryStore} (hn : (items.map (·.id)).Nodup) (id : String) :
    (leaseItems input s items).1.outboxItems.get id = s.outboxItems.get id ∨
      ∃ item ∈ items, item.id = id ∧ (leasedItem input item).Valid ∧
        (leaseItems input s items).1.outboxItems.get id = some (leasedItem input item) := by
  induction items generalizing s with
  | nil => exact Or.inl rfl
  | cons item items ih =>
    obtain ⟨hni, hn⟩ := List.nodup_cons.mp hn
    unfold leaseItems
    cases hp : (leasedItem input item).parse with
    | error e => exact Or.inl rfl
    | ok updated =>
      obtain ⟨hv, rfl⟩ := OutboxItemRecord.parse_eq_ok.mp hp
      rcases ih (s := { s with
          outboxItems := s.outboxItems.set item.id (leasedItem input item) }) hn with h | h
      · by_cases hid : id = item.id
        · subst hid
          exact Or.inr ⟨item, List.mem_cons_self, rfl, hv,
            h.trans (OrderedMap.get_set_self _ _ _)⟩
        · exact Or.inl (h.trans (OrderedMap.get_set_ne _ _ hid))
      · obtain ⟨o, ho, h⟩ := h
        exact Or.inr ⟨o, List.mem_cons_of_mem _ ho, h⟩

theorem leaseItems_succeeds {input : LeaseDueOutboxInput} {items : List OutboxItemRecord}
    {s : MemoryStore} (h : ∀ item ∈ items, (leasedItem input item).Valid) :
    (leaseItems input s items).2 = .ok (items.map (leasedItem input)) := by
  induction items generalizing s with
  | nil => rfl
  | cons item items ih =>
    have hp : (leasedItem input item).parse = .ok (leasedItem input item) :=
      OutboxItemRecord.parse_eq_ok.mpr ⟨h item List.mem_cons_self, rfl⟩
    unfold leaseItems
    rw [hp]
    dsimp only
    rw [ih fun o ho => h o (List.mem_cons_of_mem _ ho)]
    rfl

/-- The items a lease takes: the first of those that are due. -/
def dueItems (s : MemoryStore) (now limit : ℕ) : List OutboxItemRecord :=
  ((s.outboxItems.values.filter (isDue now)).insertionSort outboxOrder).take limit

namespace OutboxInv

variable {s : MemoryStore} {now : ℕ}

theorem mono (h : s.OutboxInv now) {now' : ℕ} (hle : now ≤ now') : s.OutboxInv now' :=
  ⟨h.item_id, h.valid, fun id item hi => (h.created id item hi).trans hle⟩

theorem mem_dueItems (h : s.OutboxInv now) {t limit : ℕ} {item : OutboxItemRecord}
    (hi : item ∈ s.dueItems t limit) :
    s.outboxItems.get item.id = some item ∧ isDue t item = true := by
  have hi := List.mem_of_mem_take hi
  rw [List.mem_insertionSort, List.mem_filter] at hi
  obtain ⟨id, hid⟩ := (OrderedMap.mem_values_iff _ _).mp hi.1
  exact ⟨by rwa [h.item_id id item hid], hi.2⟩

theorem dueItems_nodup (h : s.OutboxInv now) (t limit : ℕ) :
    ((s.dueItems t limit).map (·.id)).Nodup := by
  have hids : s.outboxItems.values.map (·.id) = s.outboxItems.keys := by
    simp only [OrderedMap.values, OrderedMap.keys, List.map_map]
    refine List.map_congr_left fun e he => ?_
    exact h.item_id e.1 e.2 ((OrderedMap.get_eq_some_iff _ _ _).mpr he)
  have hvals : (s.outboxItems.values.map (·.id)).Nodup := hids ▸ s.outboxItems.nodup
  refine List.Nodup.sublist ((List.take_sublist _ _).map _) ?_
  refine ((List.perm_insertionSort outboxOrder _).map _).nodup_iff.mpr ?_
  exact hvals.sublist (List.filter_sublist.map _)

/-- Writing an item that passes its schema. -/
theorem set (h : s.OutboxInv now) {t : MemoryStore} {id : String} {item : OutboxItemRecord}
    (ht : t.outboxItems = s.outboxItems.set id item) (hid : item.id = id) (hv : item.Valid)
    (hc : item.createdAt ≤ now) : t.OutboxInv now := by
  have hget : ∀ k o, t.outboxItems.get k = some o →
      s.outboxItems.get k = some o ∨ (k = id ∧ o = item) := by
    intro k o hk
    rw [ht, OrderedMap.get_set] at hk
    split_ifs at hk with heq
    · exact Or.inr ⟨heq, (Option.some.inj hk).symm⟩
    · exact Or.inl hk
  refine ⟨fun k o hk => ?_, fun k o hk => ?_, fun k o hk => ?_⟩
  · rcases hget k o hk with hk | ⟨rfl, rfl⟩
    · exact h.item_id k o hk
    · exact hid
  · rcases hget k o hk with hk | ⟨rfl, rfl⟩
    · exact h.valid k o hk
    · exact hv
  · rcases hget k o hk with hk | ⟨rfl, rfl⟩
    · exact h.created k o hk
    · exact hc

/-- What a lease does to an item: nothing, or it was due and is leased. -/
theorem leaseDueOutbox_get (h : s.OutboxInv now) (input : LeaseDueOutboxInput) (id : String) :
    (s.leaseDueOutbox input).1.outboxItems.get id = s.outboxItems.get id ∨
      ∃ item, s.outboxItems.get id = some item ∧ isDue input.now item = true ∧
        (leasedItem input item).Valid ∧
        (s.leaseDueOutbox input).1.outboxItems.get id = some (leasedItem input item) := by
  unfold leaseDueOutbox
  split_ifs
  · exact Or.inl rfl
  · exact Or.inl rfl
  · exact Or.inl rfl
  · exact Or.inl rfl
  · refine (leaseItems_get (h.dueItems_nodup input.now input.limit) id).imp_right ?_
    rintro ⟨item, hi, rfl, hv, hget⟩
    obtain ⟨hstored, hdue⟩ := h.mem_dueItems hi
    exact ⟨item, hstored, hdue, hv, hget⟩

theorem lease (h : s.OutboxInv now) (input : LeaseDueOutboxInput) :
    (s.leaseDueOutbox input).1.OutboxInv now := by
  refine ⟨fun id item hi => ?_, fun id item hi => ?_, fun id item hi => ?_⟩ <;>
    rcases h.leaseDueOutbox_get input id with heq | ⟨o, ho, -, hv, heq⟩ <;>
    rw [heq] at hi
  · exact h.item_id id item hi
  · obtain rfl := Option.some.inj hi
    exact h.item_id id o ho
  · exact h.valid id item hi
  · obtain rfl := Option.some.inj hi
    exact hv
  · exact h.created id item hi
  · obtain rfl := Option.some.inj hi
    exact h.created id o ho

end OutboxInv

/-! ## Acknowledgements, failures and reschedules -/

theorem heldItem_eq_some {s : MemoryStore} {id owner : String} {item : OutboxItemRecord} :
    s.heldItem id owner = some item ↔ s.outboxItems.get id = some item ∧
      item.dispatchedAt = none ∧ item.leaseOwner = some owner := by
  simp [heldItem, Option.filter_eq_some_iff]

/-- An acknowledgement changes nothing, or an item of the caller's lease. -/
theorem acknowledgeOutbox_get {s s' : MemoryStore} {id owner : String} {now : ℕ} {b : Bool}
    (h : s.acknowledgeOutbox id owner now = .ok (s', b)) :
    s' = s ∨ ∃ item, s.outboxItems.get id = some item ∧ item.dispatchedAt = none ∧
      item.leaseOwner = some owner ∧ (acknowledgedItem now item).Valid ∧
      s'.outboxItems = s.outboxItems.set id (acknowledgedItem now item) := by
  unfold acknowledgeOutbox at h
  split at h
  · rw [Except.ok.injEq, Prod.mk.injEq] at h
    exact Or.inl h.1.symm
  · rename_i item hheld
    obtain ⟨updated, hp, h⟩ := bind_eq_ok.mp h
    obtain ⟨hv, rfl⟩ := OutboxItemRecord.parse_eq_ok.mp hp
    rw [pure_eq_ok, Prod.mk.injEq] at h
    obtain ⟨hi, hd, ho⟩ := heldItem_eq_some.mp hheld
    exact Or.inr ⟨item, hi, hd, ho, hv, by rw [← h.1]⟩

/-- The same of a failure. -/
theorem recordOutboxFailure_get {s s' : MemoryStore} {id owner : String}
    {category : DiagnosticCategory} {now : ℕ} {b : Bool}
    (h : s.recordOutboxFailure id owner category now = .ok (s', b)) :
    s' = s ∨ ∃ item, s.outboxItems.get id = some item ∧ item.dispatchedAt = none ∧
      item.leaseOwner = some owner ∧ (failedItem category now item).Valid ∧
      s'.outboxItems = s.outboxItems.set id (failedItem category now item) := by
  unfold recordOutboxFailure at h
  split at h
  · rw [Except.ok.injEq, Prod.mk.injEq] at h
    exact Or.inl h.1.symm
  · rename_i item hheld
    obtain ⟨updated, hp, h⟩ := bind_eq_ok.mp h
    obtain ⟨hv, rfl⟩ := OutboxItemRecord.parse_eq_ok.mp hp
    rw [pure_eq_ok, Prod.mk.injEq] at h
    obtain ⟨hi, hd, ho⟩ := heldItem_eq_some.mp hheld
    exact Or.inr ⟨item, hi, hd, ho, hv, by rw [← h.1]⟩

/-- A rescheduled item. -/
def rescheduledItem (scheduledAt now : ℕ) (item : OutboxItemRecord) : OutboxItemRecord :=
  { item with dueAt := scheduledAt, updatedAt := now }

theorem rescheduledItem_valid {item : OutboxItemRecord} (h : item.Valid) (scheduledAt : ℕ)
    {now : ℕ} (hc : item.createdAt ≤ now) : (rescheduledItem scheduledAt now item).Valid := by
  rw [OutboxItemRecord.valid_iff] at h ⊢
  exact ⟨h.1, h.2.1, hc, h.2.2.2⟩

/-- A reschedule changes an item that is neither dispatched nor leased. -/
theorem rescheduleEmailAndOutbox_get {s s' : MemoryStore} {id : String} {t now : ℕ}
    {e : EmailRecord} (h : s.rescheduleEmailAndOutbox id t now = some (s', e)) :
    ∃ k item, s.outboxItems.get k = some item ∧ item.dispatchedAt = none ∧
      item.leaseOwner = none ∧
      s'.outboxItems = s.outboxItems.set item.id (rescheduledItem t now item) := by
  obtain ⟨_, _, item, -, -, ho, -, hd, hl, -, rfl⟩ := rescheduleEmailAndOutbox_eq_some.mp h
  obtain ⟨k, -, hk⟩ := Option.bind_eq_some_iff.mp ho
  exact ⟨k, item, hk, hd, hl, rfl⟩

end MemoryStore

end HayaSend
