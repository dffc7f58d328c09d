import HayaSend.Adapters.MemoryStoreOutbox
import HayaSend.Services.World

/-!
# Dispatching the outbox

Any number of sweeps run over one store and one queue, between deliveries that are committed and
rescheduled. A step is one operation of a sweep, a commit, a reschedule, the clock moving on, a
sweep starting, or a crash. `OutboxWorld.accepted` records the jobs the queue took and
`OutboxWorld.commits` the deliveries that entered the store; no step reads them.

`OutboxWorld.step_item` says what a step can do to one item, and with whose lease. The four parts
of `outbox_dispatch_safe` follow from it: an item is acknowledged only behind the queue's
acceptance of its job, a lease is exclusive until it expires, a dispatched item is final, and an
undispatched one can always be leased again.
-/

namespace HayaSend

structure OutboxWorld where
  now : ℕ
  store : MemoryStore := {}
  sweeps : List Task := []
  /-- The jobs the queue accepted. -/
  accepted : List Job := []
  /-- The deliveries committed. -/
  commits : List DeliveryCommit := []

namespace OutboxWorld

inductive Label
  | tick (ms : ℕ)
  | commitDelivery (input : DeliveryCommit)
  | reschedule (id : String) (scheduledAt : ℕ)
  | sweep (owner : String) (leaseSeconds limit : ℕ)
  | act (index : ℕ) (choice : Choice)
  | crash (index : ℕ)

/-- The task a step of a sweep leaves. -/
def nextTask : Next → Task
  | .goto task => task
  | .resolve | .throw => .idle

/-- The system after a step of one sweep. -/
def after (w : OutboxWorld) (index : ℕ) (eff : Effect) : OutboxWorld :=
  { w with
    store := eff.store
    sweeps := w.sweeps.set index (nextTask eff.next)
    accepted := w.accepted ++ eff.enqueued }

def step (w : OutboxWorld) : Label → Option OutboxWorld
  | .tick ms => some { w with now := w.now + ms }
  | .commitDelivery input =>
    -- a delivery is created at the time its records carry
    if input.email.createdAt ≤ w.now then
      match w.store.commitDelivery input (epochSeconds w.now) with
      | .error _ => some w
      | .ok (s', result) => some { w with
          store := s'
          commits := if result.replayed then w.commits else w.commits ++ [input] }
    else none
  | .reschedule id scheduledAt =>
    match w.store.rescheduleEmailAndOutbox id scheduledAt w.now with
    | none => some w
    | some (s', _) => some { w with store := s' }
  | .sweep owner leaseSeconds limit =>
    some { w with sweeps := w.sweeps ++ [.sweep owner leaseSeconds limit .lease] }
  | .act index choice =>
    match w.sweeps[index]? with
    | some (.sweep owner leaseSeconds limit pc) =>
      (pc.act owner leaseSeconds limit w.now w.store choice).map (w.after index)
    | _ => none
  | .crash index => some { w with sweeps := w.sweeps.set index .idle }

def system : TransitionSystem OutboxWorld Label where
  init w := ∃ now, w = { now := now }
  step := step

/-- The step is a lease by this owner. -/
def Leases (owner : String) (w : OutboxWorld) (l : Label) : Prop :=
  ∃ index choice leaseSeconds limit, l = .act index choice ∧
    w.sweeps[index]? = some (.sweep owner leaseSeconds limit .lease)

/-- The change of a stored item in a step. -/
inductive ItemStep (w : OutboxWorld) (l : Label) (id : String) (item : OutboxItemRecord) :
    OutboxItemRecord → Prop
  | same : ItemStep w l id item item
  | leased (owner : String) (leaseSeconds limit : ℕ) : Leases owner w l →
      MemoryStore.isDue w.now item = true →
      ItemStep w l id item (MemoryStore.leasedItem ⟨owner, w.now, leaseSeconds, limit⟩ item)
  | acknowledged (index : ℕ) (owner : String) (leaseSeconds limit t : ℕ) (x : OutboxItemRecord)
      (xs : List OutboxItemRecord) :
      w.sweeps[index]? = some (.sweep owner leaseSeconds limit (.acknowledge t x xs)) →
      x.id = id → item.dispatchedAt = none → item.leaseOwner = some owner →
      ItemStep w l id item (MemoryStore.acknowledgedItem t item)
  | failed (owner : String) (t : ℕ) (category : DiagnosticCategory) :
      item.dispatchedAt = none → item.leaseOwner = some owner →
      ItemStep w l id item (MemoryStore.failedItem category t item)
  | rescheduled (scheduledAt : ℕ) : item.dispatchedAt = none → item.leaseOwner = none →
      ItemStep w l id item (MemoryStore.rescheduledItem scheduledAt w.now item)

/-- What a step does to the items of the outbox. -/
structure StoreStep (w : OutboxWorld) (l : Label) (w' : OutboxWorld) : Prop where
  valid : w'.store.OutboxInv w'.now
  old : ∀ id item, w.store.outboxItems.get id = some item →
    ∃ item', w'.store.outboxItems.get id = some item' ∧ ItemStep w l id item item'
  new : ∀ id item', w'.store.outboxItems.get id = some item' →
    w.store.outboxItems.get id = none →
    ∃ c ∈ w'.commits, c.Consistent ∧ c.outbox = item' ∧ c.outbox.id = id
  commits : w.commits <+: w'.commits
  accepted : w.accepted <+: w'.accepted
  clock : w.now ≤ w'.now

/-- A step that leaves the outbox alone. -/
theorem StoreStep.of_same {w w' : OutboxWorld} {l : Label} (h : w.store.OutboxInv w.now)
    (hs : w'.store.outboxItems = w.store.outboxItems) (hc : w.commits <+: w'.commits)
    (ha : w.accepted <+: w'.accepted) (hn : w.now ≤ w'.now) : StoreStep w l w' where
  valid := by
    have := h.mono hn
    exact ⟨hs ▸ this.item_id, hs ▸ this.valid, hs ▸ this.created⟩
  old id item hi := ⟨item, hs ▸ hi, .same⟩
  new id item hi hno := by
    rw [hs, hno] at hi
    cases hi
  commits := hc
  accepted := ha
  clock := hn

/-- A step that writes one stored item. -/
theorem StoreStep.of_set {w w' : OutboxWorld} {l : Label} (h : w.store.OutboxInv w.now)
    {id : String} {item item' : OutboxItemRecord} (hi : w.store.outboxItems.get id = some item)
    (hs : w'.store.outboxItems = w.store.outboxItems.set id item') (hid : item'.id = item.id)
    (hv : item'.Valid) (hcr : item'.createdAt = item.createdAt) (hst : ItemStep w l id item item')
    (hc : w.commits <+: w'.commits) (ha : w.accepted <+: w'.accepted) (hn : w.now = w'.now) :
    StoreStep w l w' where
  valid := hn ▸ h.set hs (hid.trans (h.item_id id item hi)) hv (hcr ▸ h.created id item hi)
  old k o ho := by
    by_cases hk : k = id
    · subst hk
      rw [hi] at ho
      obtain rfl := Option.some.inj ho
      exact ⟨item', by rw [hs, OrderedMap.get_set_self], hst⟩
    · exact ⟨o, by rw [hs, OrderedMap.get_set_ne _ _ hk, ho], .same⟩
  new k o ho hno := by
    rw [hs, OrderedMap.get_set] at ho
    split_ifs at ho with hk
    · subst hk
      rw [hi] at hno
      cases hno
    · rw [hno] at ho
      cases ho
  commits := hc
  accepted := ha
  clock := hn.le

theorem step_commit {w w' : OutboxWorld} (h : w.store.OutboxInv w.now) {input : DeliveryCommit}
    (hs : w.step (.commitDelivery input) = some w') :
    StoreStep w (.commitDelivery input) w' := by
  simp only [step] at hs
  split_ifs at hs with hcreated
  cases hc : w.store.commitDelivery input (epochSeconds w.now) with
  | error e =>
    rw [hc] at hs
    obtain rfl := Option.some.inj hs
    exact .of_same h rfl (List.prefix_refl _) (List.prefix_refl _) (le_refl _)
  | ok p =>
    obtain ⟨s', result⟩ := p
    rw [hc] at hs
    obtain rfl := Option.some.inj hs
    rcases MemoryStore.commitDelivery_eq_ok hc with ⟨rfl, hrep⟩ | ⟨hcom, rfl⟩
    · refine .of_same h rfl ?_ (List.prefix_refl _) (le_refl _)
      rw [hrep]
      exact List.prefix_refl _
    · have hcons := hcom.consistent
      have hcr : input.outbox.createdAt = input.email.createdAt := by
        have := hcons.outbox
        simp only [DeliveryCommit.outboxMatches, Bool.and_eq_true, beq_iff_eq] at this
        rw [this.1.2, hcons.created_eq]
      have hnone := hcom.no_outbox
      refine ⟨h.set hcom.items rfl hcons.outbox_valid (hcr ▸ hcreated), fun id item hi => ?_,
        fun id item hi hno => ?_, List.prefix_append _ _, List.prefix_refl _, le_refl _⟩
      · refine ⟨item, ?_, .same⟩
        show s'.outboxItems.get id = some item
        rw [hcom.items, OrderedMap.get_set_ne, hi]
        rintro rfl
        rw [hnone] at hi
        cases hi
      · change s'.outboxItems.get id = some item at hi
        rw [hcom.items, OrderedMap.get_set] at hi
        split_ifs at hi with hid
        · exact ⟨input, List.mem_append_right _ (List.mem_singleton_self _), hcons,
            Option.some.inj hi, hid.symm⟩
        · rw [hno] at hi
          cases hi

theorem step_reschedule {w w' : OutboxWorld} (h : w.store.OutboxInv w.now) {id : String} {t : ℕ}
    (hs : w.step (.reschedule id t) = some w') : StoreStep w (.reschedule id t) w' := by
  simp only [step] at hs
  cases hr : w.store.rescheduleEmailAndOutbox id t w.now with
  | none =>
    rw [hr] at hs
    obtain rfl := Option.some.inj hs
    exact .of_same h rfl (List.prefix_refl _) (List.prefix_refl _) (le_refl _)
  | some p =>
    obtain ⟨s', e⟩ := p
    rw [hr] at hs
    obtain rfl := Option.some.inj hs
    obtain ⟨k, item, hk, hd, hl, hitems⟩ := MemoryStore.rescheduleEmailAndOutbox_get hr
    obtain rfl := h.item_id k item hk
    exact .of_set h hk hitems rfl
      (MemoryStore.rescheduledItem_valid (h.valid _ _ hk) t (h.created _ _ hk)) rfl
      (.rescheduled t hd hl) (List.prefix_refl _) (List.prefix_refl _) rfl

/-- A step of a sweep. -/
theorem step_sweep {w : OutboxWorld} (h : w.store.OutboxInv w.now) {index : ℕ} {owner : String}
    {leaseSeconds limit : ℕ} {pc : SweepPc} {choice : Choice} {eff : Effect}
    (hw : w.sweeps[index]? = some (.sweep owner leaseSeconds limit pc))
    (he : pc.act owner leaseSeconds limit w.now w.store choice = some eff) :
    StoreStep w (.act index choice) (w.after index eff) := by
  have hacc : w.accepted <+: w.accepted ++ eff.enqueued := List.prefix_append _ _
  have hsame : eff.store = w.store → StoreStep w (.act index choice) (w.after index eff) := by
    intro hs
    refine .of_same h ?_ (List.prefix_refl _) hacc (le_refl _)
    show eff.store.outboxItems = _
    rw [hs]
  unfold SweepPc.act at he
  split at he
  case h_1 =>
    -- the lease
    have hstep : ∀ next, StoreStep w (.act index .go) (w.after index
        { store := (w.store.leaseDueOutbox ⟨owner, w.now, leaseSeconds, limit⟩).1
          next := next }) := by
      intro next
      refine ⟨h.lease _, fun id item hi => ?_, fun id item hi hno => ?_, List.prefix_refl _,
        List.prefix_append _ _, le_refl _⟩
      · rcases h.leaseDueOutbox_get ⟨owner, w.now, leaseSeconds, limit⟩ id with hget | hget
        · exact ⟨item, hget.trans hi, .same⟩
        · obtain ⟨o, ho, hdue, -, hget⟩ := hget
          rw [hi] at ho
          obtain rfl := Option.some.inj ho
          exact ⟨_, hget, .leased owner leaseSeconds limit
            ⟨index, .go, leaseSeconds, limit, rfl, hw⟩ hdue⟩
      · exfalso
        change (w.store.leaseDueOutbox _).1.outboxItems.get id = some item at hi
        rcases h.leaseDueOutbox_get ⟨owner, w.now, leaseSeconds, limit⟩ id with hget | hget
        · rw [hget, hno] at hi
          cases hi
        · obtain ⟨o, ho, -⟩ := hget
          rw [hno] at ho
          cases ho
    split at he <;> rename_i s' _ hl <;> obtain rfl := Option.some.inj he <;>
      obtain rfl : (w.store.leaseDueOutbox ⟨owner, w.now, leaseSeconds, limit⟩).1 = s' := by
        rw [hl]
    · exact hstep _
    · exact hstep _
  case h_5 t x xs =>
    -- an acknowledgement
    split at he
    · obtain rfl := Option.some.inj he
      exact hsame rfl
    · rename_i s' b ha
      obtain rfl := Option.some.inj he
      rcases MemoryStore.acknowledgeOutbox_get ha with rfl | ⟨item, hi, hd, ho, hv, hitems⟩
      · exact hsame rfl
      · exact .of_set h hi hitems rfl hv rfl
          (.acknowledged index owner leaseSeconds limit t x xs hw rfl hd ho)
          (List.prefix_refl _) hacc rfl
  case h_6 t x category xs =>
    -- a failure
    split at he
    · obtain rfl := Option.some.inj he
      exact hsame rfl
    · rename_i s' b ha
      obtain rfl := Option.some.inj he
      rcases MemoryStore.recordOutboxFailure_get ha with rfl | ⟨item, hi, hd, ho, hv, hitems⟩
      · exact hsame rfl
      · exact .of_set h hi hitems rfl hv rfl (.failed owner t category hd ho)
          (List.prefix_refl _) hacc rfl
  case h_7 => cases he
  all_goals
    obtain rfl := Option.some.inj he
    exact hsame rfl

/-- **What a step does to the outbox.** -/
theorem step_item {w w' : OutboxWorld} (h : w.store.OutboxInv w.now) {l : Label}
    (hs : w.step l = some w') : StoreStep w l w' := by
  cases l with
  | tick ms =>
    obtain rfl := Option.some.inj hs
    exact .of_same h rfl (List.prefix_refl _) (List.prefix_refl _) (Nat.le_add_right _ _)
  | commitDelivery input => exact step_commit h hs
  | reschedule id t => exact step_reschedule h hs
  | sweep owner leaseSeconds limit =>
    obtain rfl := Option.some.inj hs
    exact .of_same h rfl (List.prefix_refl _) (List.prefix_refl _) (le_refl _)
  | act index choice =>
    simp only [step] at hs
    split at hs
    · rename_i owner leaseSeconds limit pc hw
      obtain ⟨eff, he, rfl⟩ := Option.map_eq_some_iff.mp hs
      exact step_sweep h hw he
    · cases hs
  | crash index =>
    obtain rfl := Option.some.inj hs
    exact .of_same h rfl (List.prefix_refl _) (List.prefix_refl _) (le_refl _)

/-! ## Behind every dispatch stands a job -/

/-- Why an item is dispatched: its job was accepted, or it was committed so for a suppressed
message. -/
def Accounted (w : OutboxWorld) (id : String) : Prop :=
  (∃ messageId, Job.sendEmail messageId (some id) ∈ w.accepted) ∨
    ∃ c ∈ w.commits, c.outbox.id = id ∧ c.outbox.dispatchedAt.isSome = true ∧
      c.email.status = .suppressed

structure Inv (w : OutboxWorld) : Prop where
  outbox : w.store.OutboxInv w.now
  dispatched : ∀ id item, w.store.outboxItems.get id = some item →
    item.dispatchedAt.isSome = true → w.Accounted id
  /-- A sweep acknowledges what it has enqueued. -/
  enqueued : ∀ (index : ℕ) (owner : String) (leaseSeconds limit t : ℕ) (x : OutboxItemRecord)
    (xs : List OutboxItemRecord),
    w.sweeps[index]? = some (.sweep owner leaseSeconds limit (.acknowledge t x xs)) →
    ∃ messageId, Job.sendEmail messageId (some x.id) ∈ w.accepted

theorem Accounted.mono {w w' : OutboxWorld} {l : Label} (h : StoreStep w l w') {id : String}
    (ha : w.Accounted id) : w'.Accounted id := by
  refine ha.imp ?_ ?_
  · rintro ⟨m, hm⟩
    exact ⟨m, h.accepted.subset hm⟩
  · rintro ⟨c, hc, hid⟩
    exact ⟨c, h.commits.subset hc, hid⟩

/-- A sweep turns to an acknowledgement only by enqueueing the job. -/
theorem enqueued_of_act {w : OutboxWorld} {owner owner' : String}
    {leaseSeconds limit leaseSeconds' limit' t : ℕ} {pc : SweepPc} {choice : Choice} {eff : Effect}
    {x : OutboxItemRecord} {xs : List OutboxItemRecord}
    (he : pc.act owner leaseSeconds limit w.now w.store choice = some eff)
    (hn : nextTask eff.next = .sweep owner' leaseSeconds' limit' (.acknowledge t x xs)) :
    .sendEmail x.messageId (some x.id) ∈ eff.enqueued := by
  unfold SweepPc.act at he
  split at he
  case h_3 =>
    obtain rfl := Option.some.inj he
    simp only [nextTask, Task.sweep.injEq, SweepPc.acknowledge.injEq] at hn
    rw [← hn.2.2.2.2.1]
    exact List.mem_singleton_self _
  case h_7 => cases he
  case h_1 | h_5 | h_6 =>
    split at he <;> obtain rfl := Option.some.inj he <;> cases hn
  all_goals
    obtain rfl := Option.some.inj he
    cases hn

theorem Inv.step {w w' : OutboxWorld} (h : w.Inv) {l : Label} (hs : w.step l = some w') :
    w'.Inv := by
  have hst := step_item h.outbox hs
  refine ⟨hst.valid, fun id item' hi' hd => ?_, ?_⟩
  · cases hi : w.store.outboxItems.get id with
    | none =>
      obtain ⟨c, hc, hcons, rfl, hid⟩ := hst.new id item' hi' hi
      refine Or.inr ⟨c, hc, hid, hd, ?_⟩
      have := hcons.outbox_fields.2.2.2
      rw [this] at hd
      split_ifs at hd with hsup
      · exact hsup
      · cases hd
    | some item =>
      obtain ⟨o, ho, hstep⟩ := hst.old id item hi
      rw [hi'] at ho
      obtain rfl := Option.some.inj ho
      have hold : item.dispatchedAt.isSome = true → w'.Accounted id := fun hd =>
        (h.dispatched id item hi hd).mono hst
      cases hstep with
      | same => exact hold hd
      | leased owner ls lim hl hdue => exact hold hd
      | acknowledged index owner ls lim t x xs hw hid =>
        obtain ⟨m, hm⟩ := h.enqueued index owner ls lim t x xs hw
        exact Or.inl ⟨m, hst.accepted.subset (hid ▸ hm)⟩
      | failed owner t category => exact hold hd
      | rescheduled t => exact hold hd
  · intro i owner ls lim t x xs hi
    have hold : w.sweeps[i]? = some (.sweep owner ls lim (.acknowledge t x xs)) →
        ∃ m, Job.sendEmail m (some x.id) ∈ w'.accepted := fun hi =>
      (h.enqueued i owner ls lim t x xs hi).imp fun m hm => hst.accepted.subset hm
    cases l with
    | tick ms =>
      obtain rfl := Option.some.inj hs
      exact hold hi
    | commitDelivery input =>
      simp only [OutboxWorld.step] at hs
      split_ifs at hs
      split at hs <;> obtain rfl := Option.some.inj hs <;> exact hold hi
    | reschedule id t =>
      simp only [OutboxWorld.step] at hs
      split at hs <;> obtain rfl := Option.some.inj hs <;> exact hold hi
    | sweep owner' ls' lim' =>
      obtain rfl := Option.some.inj hs
      change (w.sweeps ++ [_])[i]? = _ at hi
      rcases Nat.lt_or_ge i w.sweeps.length with hlt | hge
      · rw [List.getElem?_append_left hlt] at hi
        exact hold hi
      · rw [List.getElem?_append_right hge] at hi
        have := List.mem_singleton.mp (List.mem_of_getElem? hi)
        cases this
    | act index choice =>
      simp only [OutboxWorld.step] at hs
      split at hs
      · rename_i hw
        obtain ⟨eff, he, rfl⟩ := Option.map_eq_some_iff.mp hs
        change (w.sweeps.set index _)[i]? = _ at hi
        rw [List.getElem?_set] at hi
        split_ifs at hi with heq hlt
        · exact ⟨_, List.mem_append_right _ (enqueued_of_act he (Option.some.inj hi))⟩
        · exact hold hi
      · cases hs
    | crash index =>
      obtain rfl := Option.some.inj hs
      change (w.sweeps.set index _)[i]? = _ at hi
      rw [List.getElem?_set] at hi
      split_ifs at hi with heq hlt
      · cases Option.some.inj hi
      · exact hold hi

theorem reachable_inv {w : OutboxWorld} (h : system.Reachable w) : w.Inv := by
  refine h.invariant (fun s hs => ?_) fun s s' l _ hi hs => hi.step hs
  obtain ⟨now, rfl⟩ := hs
  exact ⟨⟨fun _ _ h => (by cases h), fun _ _ h => (by cases h), fun _ _ h => (by cases h)⟩,
    fun _ _ h => (by cases h), fun _ _ _ _ _ _ _ h => (by cases h)⟩

/-! ## Runs from a state on -/

end OutboxWorld

end HayaSend
