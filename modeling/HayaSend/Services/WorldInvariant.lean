import HayaSend.Services.World
import HayaSend.Adapters.MemoryStoreSteps

/-!
# The invariant of the delivery system

What a call knows where it stands (`Task.Sound`) stays true while other calls make their steps:
an email stays, an email without a ledger gets none, and an attempt under way is completed by
the call that began it and by no other. `Task.act_acted` is the step lemma of a call, and
`World.Inv.step` that of the system.
-/

namespace HayaSend

/-! ## The schedule a log records -/

/-- The time a reschedule of this email wrote. -/
def Event.rescheduledAt (id : String) : Event → Option ℕ
  | .rescheduled k t => if k = id then some t else none
  | _ => none

/-- The time the last reschedule of this email wrote. -/
def lastReschedule (id : String) (log : List Event) : Option ℕ :=
  (log.filterMap (Event.rescheduledAt id)).getLast?

@[simp] theorem lastReschedule_nil (id : String) : lastReschedule id [] = none := rfl

theorem lastReschedule_append (id : String) (l l' : List Event) :
    lastReschedule id (l ++ l') = (lastReschedule id l').or (lastReschedule id l) := by
  rw [lastReschedule, List.filterMap_append, List.getLast?_append]
  rfl

/-! ## What a call knows -/

namespace MemoryStore

def HasEmail (s : MemoryStore) (id : String) : Prop := ∃ e, s.emails.get id = some e

/-- An email that was stored without a ledger. -/
structure NoLedger (s : MemoryStore) (id : String) : Prop where
  email : s.HasEmail id
  message : s.deliveryMessages.get id = none

/-- A call sends under an attempt of its own, or an email without a ledger. -/
def Holds (s : MemoryStore) (id : String) : Option String → Prop
  | none => s.NoLedger id
  | some a => ∃ r, s.deliveryAttempts.get a = some r ∧ r.messageId = id ∧ r.status = .submitting

/-- The items are stored, for the messages they name. -/
def HasItems (s : MemoryStore) (items : List OutboxItemRecord) : Prop :=
  ∀ item ∈ items, ∃ o, s.outboxItems.get item.id = some o ∧ o.messageId = item.messageId

theorem Step.hasEmail {s s' : MemoryStore} {f : Footprint} (h : Step s s' f) {id : String}
    (he : s.HasEmail id) : s'.HasEmail id := by
  obtain ⟨e, he⟩ := he
  obtain ⟨e', he', -⟩ := h.emails id e he
  exact ⟨e', he'⟩

theorem Step.noLedger {s s' : MemoryStore} {f : Footprint} (hs : s.Inv) (h : Step s s' f)
    {id : String} (hn : s.NoLedger id) : s'.NoLedger id where
  email := h.hasEmail hn.email
  message := by
    rw [← h.inv.ledgerState_eq_none]
    have hnone := hs.ledgerState_eq_none.mpr hn.message
    obtain ⟨e, he⟩ := hn.email
    rcases h.evolves id with ⟨-, hn'⟩ | ⟨st, he', -, -, -⟩ | ⟨st, st', hst, -, -⟩
    · exact hn'
    · rw [he] at he'
      cases he'
    · rw [hnone] at hst
      cases hst

theorem Inv.noLedger {s : MemoryStore} (hs : s.Inv) {id : String} (he : s.HasEmail id)
    (hl : s.getDeliveryLedger id = none) : s.NoLedger id :=
  ⟨he, hs.ledgerState_eq_none.mp (Inv.deliveryLedger_none.mp hl)⟩

theorem Step.holds {s s' : MemoryStore} {f : Footprint} (hs : s.Inv) (h : Step s s' f)
    {id : String} {a : Option String} (ha : ∀ b, a = some b → f.attempt ≠ some b)
    (hh : s.Holds id a) : s'.Holds id a := by
  cases a with
  | none => exact h.noLedger hs hh
  | some a =>
    obtain ⟨r, hr, hm⟩ := hh
    exact ⟨r, (h.attempts a (ha a rfl)).trans hr, hm⟩

/-- A call holds the attempt it began. -/
theorem Inv.holds_begun {s s' : MemoryStore} (hs : s.Inv) {a : AttemptRecord}
    (hn : s.deliveryAttempts.get a.id = none) {r : DeliveryLedgerMutationResult}
    (hb : s.beginDeliveryAttempt a = .ok (s', some r)) : s'.Holds a.messageId (some a.id) := by
  rcases hs.beginDeliveryAttempt hn hb with ⟨-, hr, -⟩ | ⟨st, -, hm, -, rfl⟩
  · cases hr
  · simp only [attemptMatches, Bool.and_eq_true, beq_iff_eq] at hm
    exact ⟨a, OrderedMap.get_set_self _ _ _, rfl, hm.1.1.1.1.1.2⟩

theorem Step.hasItems {s s' : MemoryStore} {f : Footprint} (h : Step s s' f)
    {items : List OutboxItemRecord} (hi : s.HasItems items) : s'.HasItems items := by
  intro item hm
  obtain ⟨o, ho, hmsg⟩ := hi item hm
  obtain ⟨o', ho', hmsg', -⟩ := h.outbox _ o ho
  exact ⟨o', ho', hmsg'.trans hmsg⟩

end MemoryStore

/-- The attempt a call is about to begin or has under way. -/
def SendPc.attemptId : SendPc → Option String
  | .begin _ a _ _ => some a.id
  | .send _ a _ _ | .transport _ a | .accepted _ a _ | .rejected _ a _ => a
  | _ => none

def Task.attemptId : Task → Option String
  | .send _ _ pc => pc.attemptId
  | _ => none

/-- What a call is about, from its first step to its last. -/
inductive Subject
  | send (id : String)
  | cancel (id : String)
  | reschedule (id : String)
  | other
  deriving DecidableEq

def Task.subject : Task → Subject
  | .send id _ _ => .send id
  | .cancel id _ => .cancel id
  | .reschedule id _ => .reschedule id
  | _ => .other

/-- The outbox item a call is about to acknowledge. -/
def Task.acknowledges : Task → Option OutboxItemRecord
  | .sweep _ _ _ (.acknowledge _ item _) => some item
  | _ => none

def SendPc.Sound (s : MemoryStore) (issued : List String) (id : String) : SendPc → Prop
  | .getEmail | .publish => True
  | .suppressUpdate _ => s.NoLedger id
  | .begin _ a _ _ => a.messageId = id ∧ a.id ∈ issued ∧ s.deliveryAttempts.get a.id = none
  | .send _ a _ _ | .transport _ a | .accepted _ a _ | .rejected _ a _ => s.Holds id a
  | .delay _ _ | .requeue | .findSuppressed _ _ | .suppressedLedger | .suppressApply _
  | .claim _ _ | .ledger _ _ _ => s.HasEmail id

def CancelPc.Sound (s : MemoryStore) (id : String) : CancelPc → Prop
  | .getEmail | .apply _ | .resolve _ => True
  | .ledger => s.HasEmail id
  | .update _ => s.NoLedger id

def ProviderEventPc.Sound (s : MemoryStore) (id : String) : ProviderEventPc → Prop
  | .ledger => s.HasEmail id
  | .update => s.NoLedger id
  | .append _ => True

def SweepPc.Sound (s : MemoryStore) : SweepPc → Prop
  | .lease => True
  | .enqueue _ items => s.HasItems items
  | .acknowledge _ item items | .failure _ item _ items => s.HasItems (item :: items)

/-- What a call knows of the store where it stands. -/
def Task.Sound (s : MemoryStore) (issued : List String) : Task → Prop
  | .idle | .create _ | .reschedule _ _ => True
  | .send id _ pc => pc.Sound s issued id
  | .cancel id pc => pc.Sound s id
  | .providerEvent id _ _ pc => pc.Sound s id
  | .sweep _ _ _ pc => pc.Sound s

/-- **What a call knows outlives every step that leaves its attempt alone.** -/
theorem Task.Sound.stable {s s' : MemoryStore} {f : MemoryStore.Footprint} (hs : s.Inv)
    (h : s.Step s' f) {issued issued' : List String} (hi : issued ⊆ issued') {task : Task}
    (ha : ∀ a, task.attemptId = some a → f.attempt ≠ some a) (hk : task.Sound s issued) :
    task.Sound s' issued' := by
  cases task with
  | idle | create _ | reschedule _ _ => exact hk
  | send id attempt pc =>
    cases pc with
    | getEmail | publish => exact hk
    | suppressUpdate _ => exact h.noLedger hs hk
    | begin sending a readAt claimedAt =>
      obtain ⟨hm, hid, hn⟩ := hk
      exact ⟨hm, hi hid, (h.attempts _ (ha _ rfl)).trans hn⟩
    | send _ a _ _ | transport _ a | accepted _ a _ | rejected _ a _ => exact h.holds hs ha hk
    | _ => exact h.hasEmail hk
  | cancel id pc =>
    cases pc with
    | getEmail | apply _ | resolve _ => exact hk
    | ledger => exact h.hasEmail hk
    | update _ => exact h.noLedger hs hk
  | providerEvent id status receivedAt pc =>
    cases pc with
    | ledger => exact h.hasEmail hk
    | update => exact h.noLedger hs hk
    | append _ => exact hk
  | sweep owner leaseSeconds limit pc =>
    cases pc with
    | lease => exact hk
    | _ => exact h.hasItems hk

/-! ## One step of a call -/

namespace MemoryStore

/-- What one footprint allows, the other allows. -/
structure Footprint.Within (f g : Footprint) : Prop where
  attempt : f.attempt = none ∨ f.attempt = g.attempt
  schedule : ∀ k, f.schedule k = g.schedule k
  dispatched : f.dispatched = none ∨ f.dispatched = g.dispatched

theorem Step.mono {s s' : MemoryStore} {f g : Footprint} (h : Step s s' f) (hw : f.Within g) :
    Step s s' g where
  inv := h.inv
  evolves := h.evolves
  emails k e he := by
    rw [← hw.schedule]
    exact h.emails k e he
  attempts id hid := by
    refine h.attempts id fun heq => ?_
    rcases hw.attempt with ha | ha
    · rw [ha] at heq
      cases heq
    · exact hid (ha ▸ heq)
  outbox id item hi := by
    obtain ⟨item', hi', hm, hd⟩ := h.outbox id item hi
    refine ⟨item', hi', hm, fun hsome => (hd hsome).imp_right fun heq => ?_⟩
    rcases hw.dispatched with hd | hd
    · rw [hd] at heq
      cases heq
    · exact hd ▸ heq
  by_message := h.by_message

end MemoryStore

/-- What a step of a call may touch. -/
def Task.footprint (task : Task) (log : List Event) : MemoryStore.Footprint where
  attempt := task.attemptId
  schedule k := lastReschedule k log
  dispatched := task.acknowledges.map (·.id)

/-- A step of a call keeps to its footprint, and the call knows where it stands after it. -/
structure Task.Acted (issued : List String) (s : MemoryStore) (task : Task) (eff : Effect) :
    Prop where
  step : s.Step eff.store (task.footprint eff.log)
  fresh : ∀ a ∈ eff.issued, a ∉ issued
  sound : ∀ task', eff.next = .goto task' → task'.Sound eff.store (issued ++ eff.issued)
  holds : ∀ task', eff.next = .goto task' → ∀ a, task'.attemptId = some a →
    task.attemptId = some a ∨ a ∈ eff.issued
  subject : ∀ task', eff.next = .goto task' → task'.subject = task.subject

namespace Task.Acted

variable {issued : List String} {s : MemoryStore} {task : Task} {eff : Effect}
  {f : MemoryStore.Footprint}

/-- The last step of a call. -/
theorem finish (h : s.Step eff.store f) (hf : f.Within (task.footprint eff.log))
    (hi : eff.issued = []) (hn : eff.next = .resolve ∨ eff.next = .throw) :
    task.Acted issued s eff where
  step := h.mono hf
  fresh a ha := by
    rw [hi] at ha
    cases ha
  sound task' heq := by rcases hn with hn | hn <;> rw [hn] at heq <;> cases heq
  holds task' heq := by rcases hn with hn | hn <;> rw [hn] at heq <;> cases heq
  subject task' heq := by rcases hn with hn | hn <;> rw [hn] at heq <;> cases heq

/-- A step on which a call goes on. -/
theorem goto (h : s.Step eff.store f) (hf : f.Within (task.footprint eff.log))
    (hi : eff.issued = []) {task' : Task} (hn : eff.next = .goto task')
    (hsound : task'.Sound eff.store issued)
    (hholds : task'.attemptId = none ∨ task'.attemptId = task.attemptId)
    (hsubject : task'.subject = task.subject) : task.Acted issued s eff where
  step := h.mono hf
  fresh a ha := by
    rw [hi] at ha
    cases ha
  sound t heq := by
    rw [hn, Next.goto.injEq] at heq
    subst heq
    rw [hi, List.append_nil]
    exact hsound
  holds t heq a ha := by
    rw [hn, Next.goto.injEq] at heq
    subst heq
    rcases hholds with hh | hh <;> rw [hh] at ha
    · cases ha
    · exact Or.inl ha
  subject t heq := by
    rw [hn, Next.goto.injEq] at heq
    exact heq ▸ hsubject

end Task.Acted

/-- A step that touches nothing keeps to every footprint of a step that reschedules nothing. -/
theorem Task.within_footprint (task : Task) (log : List Event)
    (h : ∀ k, lastReschedule k log = none) :
    MemoryStore.Footprint.Within {} (task.footprint log) :=
  ⟨Or.inl rfl, fun k => (h k).symm, Or.inl rfl⟩

/-- A step of a call that touches nothing, and on which the call goes on. -/
theorem Task.Acted.stay {issued : List String} {s : MemoryStore} {task : Task} {eff : Effect}
    (hs : s.Inv) (he : eff.store = s) (hl : ∀ k, lastReschedule k eff.log = none)
    (hi : eff.issued = []) {task' : Task} (hn : eff.next = .goto task')
    (hsound : task'.Sound s issued)
    (hholds : task'.attemptId = none ∨ task'.attemptId = task.attemptId)
    (hsubject : task'.subject = task.subject) : task.Acted issued s eff :=
  .goto (by rw [he]; exact .refl hs) (task.within_footprint _ hl) hi hn (he ▸ hsound) hholds
    hsubject

/-- A step of a call that touches nothing, its last. -/
theorem Task.Acted.leave {issued : List String} {s : MemoryStore} {task : Task} {eff : Effect}
    (hs : s.Inv) (he : eff.store = s) (hl : ∀ k, lastReschedule k eff.log = none)
    (hi : eff.issued = []) (hn : eff.next = .resolve ∨ eff.next = .throw) :
    task.Acted issued s eff :=
  .finish (by rw [he]; exact .refl hs) (task.within_footprint _ hl) hi hn

theorem SendPc.act_acted {id : String} {attempt now logged : ℕ} {issued : List String}
    {s : MemoryStore} {pc : SendPc} {choice : Choice} {eff : Effect} (hs : s.Inv)
    (hi : ∀ k a, s.deliveryAttempts.get k = some a → k ∈ issued) (hk : pc.Sound s issued id)
    (h : pc.act id attempt now logged issued s choice = some eff) :
    Task.Acted issued s (.send id attempt pc) eff := by
  unfold SendPc.act at h
  split at h
  · -- getEmail
    split at h
    · cases h
      exact .leave hs rfl (fun _ => rfl) rfl (Or.inl rfl)
    · rename_i record he
      split_ifs at h <;> cases h
      · exact .leave hs rfl (fun _ => rfl) rfl (Or.inl rfl)
      · exact .stay hs rfl (fun _ => rfl) rfl rfl ⟨record, he⟩ (Or.inl rfl) rfl
  · -- delay
    split_ifs at h <;> cases h <;>
      exact .stay hs rfl (fun _ => rfl) rfl rfl hk (Or.inl rfl) rfl
  · -- requeue
    cases h
    exact .stay hs rfl (fun _ => rfl) rfl rfl trivial (Or.inl rfl) rfl
  · -- findSuppressed
    split_ifs at h <;> cases h <;>
      exact .stay hs rfl (fun _ => rfl) rfl rfl hk (Or.inl rfl) rfl
  · -- suppressedLedger
    split at h <;> cases h
    · exact .stay hs rfl (fun _ => rfl) rfl rfl hk (Or.inl rfl) rfl
    · rename_i hl
      exact .stay hs rfl (fun _ => rfl) rfl rfl (hs.noLedger hk hl) (Or.inl rfl) rfl
  · -- suppressApply
    have hw := (Task.send id attempt (.suppressApply ‹_›)).within_footprint []
      fun _ => rfl
    split at h <;> cases h
    · exact .leave hs rfl (fun _ => rfl) rfl (Or.inr rfl)
    · rename_i hl
      exact .finish (hs.step_local hl) hw rfl (Or.inl rfl)
    · rename_i hl
      exact .goto (hs.step_local hl) hw rfl rfl trivial (Or.inl rfl) rfl
  · -- suppressUpdate
    have hw := (Task.send id attempt (.suppressUpdate ‹_›)).within_footprint []
      fun _ => rfl
    split at h <;> cases h
    · exact .leave hs rfl (fun _ => rfl) rfl (Or.inl rfl)
    · rename_i hl
      exact .goto (hs.step_update hk.message rfl hl) hw rfl rfl trivial (Or.inl rfl) rfl
  · -- claim
    have hw := (Task.send id attempt (.claim ‹_› ‹_›)).within_footprint []
      fun _ => rfl
    split at h <;> cases h
    · exact .leave hs rfl (fun _ => rfl) rfl (Or.inl rfl)
    · rename_i hl
      have hstep := hs.step_claim hl
      exact .goto hstep hw rfl rfl (hstep.hasEmail hk) (Or.inl rfl) rfl
  · -- ledger, with a new attempt
    split at h
    · cases h
    · rename_i snapshot hl
      split_ifs at h with hin
      cases h
      have hn : s.deliveryAttempts.get _ = none := Option.eq_none_iff_forall_ne_some.mpr
        fun r hr => hin (hi _ r hr)
      exact {
        step := (MemoryStore.Step.refl hs).mono (Task.within_footprint _ _ fun _ => rfl)
        fresh := fun b hb => List.mem_singleton.mp hb ▸ hin
        sound := fun task' heq => by
          cases heq
          exact ⟨rfl, List.mem_append_right _ List.mem_cons_self, hn⟩
        holds := fun task' heq b hb => by
          cases heq
          cases hb
          exact Or.inr List.mem_cons_self
        subject := fun task' heq => by
          cases heq
          rfl }
  · -- ledger
    split at h <;> cases h
    rename_i hl
    exact .stay hs rfl (fun _ => rfl) rfl rfl (hs.noLedger hk hl) (Or.inl rfl) rfl
  · -- begin
    obtain ⟨hm, -, hn⟩ := hk
    split at h <;> cases h
    · exact .leave hs rfl (fun _ => rfl) rfl (Or.inr rfl)
    · rename_i hb
      exact .finish (hs.step_begin hn hb) ⟨Or.inr rfl, fun _ => rfl, Or.inl rfl⟩ rfl (Or.inr rfl)
    · rename_i hb
      have hholds := hs.holds_begun hn hb
      rw [hm] at hholds
      exact .goto (hs.step_begin hn hb) ⟨Or.inr rfl, fun _ => rfl, Or.inl rfl⟩ rfl rfl hholds
        (Or.inr rfl) rfl
  · -- send
    cases h
    exact .stay hs rfl (fun _ => rfl) rfl rfl hk (Or.inr rfl) rfl
  · -- send, with attachments that cannot be read
    cases h
    exact .stay hs rfl (fun _ => rfl) rfl rfl hk (Or.inr rfl) rfl
  · -- transport
    cases h
    exact .stay hs rfl (fun _ => rfl) rfl rfl hk (Or.inr rfl) rfl
  · -- transport, throwing
    cases h
    exact .stay hs rfl (fun _ => rfl) rfl rfl hk (Or.inr rfl) rfl
  · -- accepted, under an attempt
    split at h <;> cases h
    · exact .leave hs rfl (fun _ => rfl) rfl (Or.inr rfl)
    · rename_i hc
      exact .finish (hs.step_complete hc) ⟨Or.inr rfl, fun _ => rfl, Or.inl rfl⟩ rfl (Or.inl rfl)
    · rename_i hc
      exact .goto (hs.step_complete hc) ⟨Or.inr rfl, fun _ => rfl, Or.inl rfl⟩ rfl rfl trivial
        (Or.inl rfl) rfl
  · -- accepted, without a ledger
    split at h <;> cases h
    · exact .leave hs rfl (fun _ => rfl) rfl (Or.inl rfl)
    · rename_i hu
      exact .goto (hs.step_update hk.message rfl hu) (Task.within_footprint _ _ fun _ => rfl) rfl
        rfl trivial (Or.inl rfl) rfl
  · -- rejected, under an attempt
    rename_i sending a error
    dsimp only at h
    generalize isFinalAttempt sending error = isFinal at h
    split at h <;> cases h
    · exact .leave hs rfl (fun _ => rfl) rfl (Or.inr rfl)
    · rename_i hc
      exact .finish (hs.step_complete hc) ⟨Or.inr rfl, fun _ => rfl, Or.inl rfl⟩ rfl
        (by cases isFinal <;> simp)
    · rename_i hc
      have hw : MemoryStore.Footprint.Within { attempt := some a }
          ((Task.send id attempt (.rejected sending (some a) error)).footprint []) :=
        ⟨Or.inr rfl, fun _ => rfl, Or.inl rfl⟩
      cases isFinal with
      | true => exact .goto (hs.step_complete hc) hw rfl rfl trivial (Or.inl rfl) rfl
      | false => exact .finish (hs.step_complete hc) hw rfl (Or.inr rfl)
  · -- rejected, without a ledger
    rename_i sending error
    dsimp only at h
    generalize isFinalAttempt sending error = isFinal at h
    split at h <;> cases h
    · exact .leave hs rfl (fun _ => rfl) rfl (by cases isFinal <;> simp)
    · rename_i hu
      have hw := (Task.send id attempt (.rejected sending none error)).within_footprint
        [] fun _ => rfl
      cases isFinal with
      | true => exact .goto (hs.step_update hk.message rfl hu) hw rfl rfl trivial (Or.inl rfl) rfl
      | false => exact .finish (hs.step_update hk.message rfl hu) hw rfl (Or.inr rfl)
  · -- publish
    cases h
    exact .leave hs rfl (fun _ => rfl) rfl (Or.inl rfl)
  all_goals
    cases h
    try exact .leave hs rfl (fun _ => rfl) rfl (Or.inr rfl)

theorem CancelPc.act_acted {id : String} {now : ℕ} {issued : List String} {s : MemoryStore}
    {pc : CancelPc} {eff : Effect} (hs : s.Inv) (hk : pc.Sound s id)
    (h : pc.act id now s = some eff) : Task.Acted issued s (.cancel id pc) eff := by
  cases pc with
  | getEmail =>
    simp only [act] at h
    split at h
    · cases h
      exact .leave hs rfl (fun _ => rfl) rfl (Or.inr rfl)
    · rename_i record he
      split_ifs at h <;> cases h
      · exact .stay hs rfl (fun _ => rfl) rfl rfl ⟨record, he⟩ (Or.inl rfl) rfl
      · exact .leave hs rfl (fun _ => rfl) rfl (Or.inr rfl)
  | ledger =>
    simp only [act] at h
    split at h <;> cases h
    · exact .stay hs rfl (fun _ => rfl) rfl rfl trivial (Or.inl rfl) rfl
    · rename_i hl
      exact .stay hs rfl (fun _ => rfl) rfl rfl (hs.noLedger hk hl) (Or.inl rfl) rfl
  | apply updatedAt =>
    have hw := (Task.cancel id (.apply updatedAt)).within_footprint [] fun _ => rfl
    simp only [act] at h
    split at h <;> cases h
    · exact .leave hs rfl (fun _ => rfl) rfl (Or.inr rfl)
    · rename_i hl
      exact .finish (hs.step_local hl) hw rfl (Or.inr rfl)
    · rename_i hl
      exact .goto (hs.step_local hl) hw rfl rfl trivial (Or.inl rfl) rfl
  | update updatedAt =>
    have hw := (Task.cancel id (.update updatedAt)).within_footprint [] fun _ => rfl
    simp only [act] at h
    split at h <;> cases h
    · exact .leave hs rfl (fun _ => rfl) rfl (Or.inr rfl)
    · rename_i hu
      exact .goto (hs.step_update hk.message rfl hu) hw rfl rfl trivial (Or.inl rfl) rfl
  | resolve record =>
    cases h
    exact .leave hs rfl (fun _ => rfl) rfl (Or.inl rfl)

theorem within_reschedule (task : Task) (id : String) (t : ℕ) :
    (MemoryStore.rescheduleFootprint id t).Within (task.footprint [.rescheduled id t]) where
  attempt := Or.inl rfl
  schedule k := by
    by_cases hk : k = id
    · simp [MemoryStore.rescheduleFootprint, Task.footprint, lastReschedule, Event.rescheduledAt,
        hk]
    · simp [MemoryStore.rescheduleFootprint, Task.footprint, lastReschedule, Event.rescheduledAt,
        hk, Ne.symm hk]
  dispatched := Or.inl rfl

theorem ReschedulePc.act_acted {id : String} {now : ℕ} {issued : List String} {s : MemoryStore}
    {pc : ReschedulePc} {choice : Choice} {eff : Effect} (hs : s.Inv)
    (h : pc.act id now s choice = some eff) : Task.Acted issued s (.reschedule id pc) eff := by
  unfold ReschedulePc.act at h
  split at h
  · -- getEmail
    split at h
    · cases h
      exact .leave hs rfl (fun _ => rfl) rfl (Or.inr rfl)
    · split_ifs at h <;> cases h
      · exact .stay hs rfl (fun _ => rfl) rfl rfl trivial (Or.inl rfl) rfl
      · exact .leave hs rfl (fun _ => rfl) rfl (Or.inr rfl)
  · -- parse
    split at h <;> cases h
    · exact .stay hs rfl (fun _ => rfl) rfl rfl trivial (Or.inl rfl) rfl
    · exact .leave hs rfl (fun _ => rfl) rfl (Or.inr rfl)
  · -- store
    split at h <;> cases h
    · exact .stay hs rfl (fun _ => rfl) rfl rfl trivial (Or.inl rfl) rfl
    · rename_i hc
      exact .goto (hs.step_reschedule hc) (within_reschedule _ _ _) rfl rfl trivial (Or.inl rfl)
        rfl
  · -- update
    split at h <;> cases h
    · exact .leave hs rfl (fun _ => rfl) rfl (Or.inr rfl)
    · rename_i hc
      exact .goto (hs.step_updateSchedule hc) (within_reschedule _ _ _) rfl rfl trivial
        (Or.inl rfl) rfl
  · -- schedule
    cases h
    exact .stay hs rfl (fun _ => rfl) rfl rfl trivial (Or.inl rfl) rfl
  · -- schedule, throwing
    split_ifs at h <;> cases h
    · exact .stay hs rfl (fun _ => rfl) rfl rfl trivial (Or.inl rfl) rfl
    · exact .leave hs rfl (fun _ => rfl) rfl (Or.inr rfl)
  · -- reread
    split at h
    · cases h
      exact .leave hs rfl (fun _ => rfl) rfl (Or.inl rfl)
    · split_ifs at h <;> cases h
      · exact .stay hs rfl (fun _ => rfl) rfl rfl trivial (Or.inl rfl) rfl
      · exact .leave hs rfl (fun _ => rfl) rfl (Or.inl rfl)
  · -- again
    cases h
    exact .leave hs rfl (fun _ => rfl) rfl (Or.inl rfl)
  · -- again, throwing
    rename_i isAtomic _
    cases h
    exact .leave hs rfl (fun _ => rfl) rfl (by cases isAtomic <;> simp)
  · cases h

theorem ProviderEventPc.act_acted {id : String} {status : EmailStatus} {receivedAt : ℕ}
    {issued : List String} {s : MemoryStore} {pc : ProviderEventPc} {choice : Choice}
    {eff : Effect} (hs : s.Inv) (hk : pc.Sound s id)
    (h : pc.act id status receivedAt s choice = some eff) :
    Task.Acted issued s (.providerEvent id status receivedAt pc) eff := by
  unfold ProviderEventPc.act at h
  split at h
  · -- ledger, finding none
    split at h <;> cases h
    rename_i hl
    exact .stay hs rfl (fun _ => rfl) rfl rfl (hs.noLedger hk hl) (Or.inl rfl) rfl
  · -- ledger
    split at h
    · cases h
    · split_ifs at h <;> cases h
      · exact .stay hs rfl (fun _ => rfl) rfl rfl trivial (Or.inl rfl) rfl
      · exact .leave hs rfl (fun _ => rfl) rfl (Or.inr rfl)
  · -- update
    have hw := (Task.providerEvent id status receivedAt .update).within_footprint []
      fun _ => rfl
    split at h <;> cases h
    · exact .leave hs rfl (fun _ => rfl) rfl (Or.inl rfl)
    · rename_i hu
      exact .finish (hs.step_update hk.message rfl hu) hw rfl (Or.inl rfl)
  · -- append
    rename_i event
    have hw := (Task.providerEvent id status receivedAt (.append event)).within_footprint
      [] fun _ => rfl
    split at h <;> cases h
    · exact .leave hs rfl (fun _ => rfl) rfl (Or.inr rfl)
    · rename_i ha
      exact .finish (hs.step_event ha) hw rfl (Or.inl rfl)
  · cases h

theorem CreatePc.act_acted {issued : List String} {s : MemoryStore} {pc : CreatePc}
    {choice : Choice} {eff : Effect} (hs : s.Inv) (h : pc.act s choice = some eff) :
    Task.Acted issued s (.create pc) eff := by
  unfold CreatePc.act at h
  split at h
  · -- commit
    rename_i input nowEpochSeconds
    have hw := (Task.create (.commit input nowEpochSeconds)).within_footprint []
      fun _ => rfl
    split at h
    · cases h
      exact .leave hs rfl (fun _ => rfl) rfl (Or.inr rfl)
    · rename_i hc
      split_ifs at h <;> cases h
      · exact .finish (hs.step_commitDelivery hc) hw rfl (Or.inl rfl)
      · exact .goto (hs.step_commitDelivery hc) hw rfl rfl trivial (Or.inl rfl) rfl
  · -- schedule
    cases h
    exact .leave hs rfl (fun _ => rfl) rfl (Or.inl rfl)
  · -- schedule, throwing
    cases h
    exact .leave hs rfl (fun _ => rfl) rfl (Or.inl rfl)
  · cases h

theorem SweepPc.act_acted {owner : String} {leaseSeconds limit now : ℕ} {issued : List String}
    {s : MemoryStore} {pc : SweepPc} {choice : Choice} {eff : Effect} (hs : s.Inv)
    (hk : pc.Sound s) (h : pc.act owner leaseSeconds limit now s choice = some eff) :
    Task.Acted issued s (.sweep owner leaseSeconds limit pc) eff := by
  unfold SweepPc.act at h
  split at h
  · -- lease
    have hw := (Task.sweep owner leaseSeconds limit .lease).within_footprint []
      fun _ => rfl
    obtain ⟨hstep, hids⟩ := hs.step_lease ⟨owner, now, leaseSeconds, limit⟩
    revert h hstep hids
    generalize s.leaseDueOutbox ⟨owner, now, leaseSeconds, limit⟩ = r
    intro h hstep hids
    obtain ⟨s', leased⟩ := r
    cases leased with
    | error e =>
      cases h
      exact .finish hstep hw rfl (Or.inr rfl)
    | ok leased =>
      cases h
      refine .goto hstep hw rfl rfl (fun item hi => ?_) (Or.inl rfl) rfl
      obtain ⟨item₀, hi₀, hm⟩ := hids leased rfl item hi
      obtain ⟨o, ho, hmo, -⟩ := hstep.outbox _ item₀ hi₀
      exact ⟨o, ho, hmo.trans hm.symm⟩
  · -- enqueue, at the end
    cases h
    exact .leave hs rfl (fun _ => rfl) rfl (Or.inl rfl)
  · -- enqueue
    cases h
    exact .stay hs rfl (fun _ => rfl) rfl rfl hk (Or.inl rfl) rfl
  · -- enqueue, throwing
    cases h
    exact .stay hs rfl (fun _ => rfl) rfl rfl hk (Or.inl rfl) rfl
  · -- acknowledge
    split at h <;> cases h
    · exact .leave hs rfl (fun _ => rfl) rfl (Or.inr rfl)
    · rename_i ha
      have hstep := hs.step_acknowledge ha
      exact .goto hstep ⟨Or.inl rfl, fun _ => rfl, Or.inr rfl⟩ rfl rfl
        (fun o ho => hstep.hasItems hk o (List.mem_cons_of_mem _ ho)) (Or.inl rfl) rfl
  · -- failure
    rename_i t item category items
    have hw := (Task.sweep owner leaseSeconds limit (.failure t item category items)
      ).within_footprint [] fun _ => rfl
    split at h <;> cases h
    · exact .leave hs rfl (fun _ => rfl) rfl (Or.inr rfl)
    · rename_i ha
      have hstep := hs.step_failure ha
      exact .goto hstep hw rfl rfl (fun o ho => hstep.hasItems hk o (List.mem_cons_of_mem _ ho))
        (Or.inl rfl) rfl
  · cases h

/-- **One step of any call.** -/
theorem Task.act_acted {now logged : ℕ} {issued : List String} {s : MemoryStore} {task : Task}
    {choice : Choice} {eff : Effect} (hs : s.Inv)
    (hi : ∀ k a, s.deliveryAttempts.get k = some a → k ∈ issued) (hk : task.Sound s issued)
    (h : task.act now logged issued s choice = some eff) : task.Acted issued s eff := by
  cases task with
  | idle => cases h
  | create pc => exact CreatePc.act_acted hs h
  | send id attempt pc => exact SendPc.act_acted hs hi hk h
  | cancel id pc =>
    cases choice with
    | go => exact CancelPc.act_acted hs hk h
    | _ => cases h
  | reschedule id pc => exact ReschedulePc.act_acted hs h
  | providerEvent id status receivedAt pc => exact ProviderEventPc.act_acted hs hk h
  | sweep owner leaseSeconds limit pc => exact SweepPc.act_acted hs hk h

/-! ## The invariant -/

theorem Process.Starting.attemptId {s : MemoryStore} {x : Process} (h : x.Starting s) :
    x.task.attemptId = none := by
  obtain ⟨hstart, -, -⟩ := h
  revert hstart
  cases x.task with
  | send id attempt pc => cases pc <;> first | exact fun _ => rfl | exact fun h => by cases h
  | _ => exact fun _ => rfl

theorem Process.Starting.sound {s s' : MemoryStore} {x : Process} (h : x.Starting s)
    (he : ∀ id, s.HasEmail id → s'.HasEmail id) (issued : List String) :
    x.task.Sound s' issued := by
  obtain ⟨hstart, -, hevent⟩ := h
  revert hstart hevent
  cases x.task with
  | idle | create _ | reschedule _ _ => exact fun _ _ => trivial
  | send id attempt pc =>
    cases pc <;> first | exact fun _ _ => trivial | exact fun h => by cases h
  | cancel id pc => cases pc <;> first | exact fun _ _ => trivial | exact fun h => by cases h
  | providerEvent id status receivedAt pc =>
    cases pc with
    | ledger => exact fun _ hevent => he id (hevent id _ _ _ rfl)
    | _ => exact fun h => by cases h
  | sweep owner leaseSeconds limit pc =>
    cases pc <;> first | exact fun _ _ => trivial | exact fun h => by cases h

theorem Process.Starting.job_of_send {s : MemoryStore} {x : Process} (h : x.Starting s)
    {id : String} (hid : x.task.subject = .send id) :
    ∃ jobId, x.job = some (.sendEmail id jobId) := by
  cases htask : x.task with
  | send id' attempt pc =>
    rw [htask] at hid
    obtain rfl : id' = id := by simpa [Task.subject] using hid
    exact h.job _ _ _ htask
  | _ =>
    rw [htask] at hid
    cases hid

namespace World

/-- The invariant of the system. -/
structure Inv (w : World) : Prop where
  store : w.store.Inv
  issued : ∀ k a, w.store.deliveryAttempts.get k = some a → k ∈ w.issued
  sound : ∀ (i : ℕ) (x : Process), w.procs[i]? = some x → x.task.Sound w.store w.issued
  /-- An attempt belongs to one call. -/
  owner : ∀ (i j : ℕ) (x y : Process) (a : String), w.procs[i]? = some x → w.procs[j]? = some y →
    x.task.attemptId = some a → y.task.attemptId = some a → i = j
  job : ∀ (i : ℕ) (x : Process), w.procs[i]? = some x → ∀ id, x.task.subject = .send id →
    ∃ jobId, x.job = some (.sendEmail id jobId)

variable {w w' : World}

theorem Inv.attemptId_issued (h : w.Inv) {i : ℕ} {x : Process} (hx : w.procs[i]? = some x)
    {a : String} (ha : x.task.attemptId = some a) : a ∈ w.issued := by
  have hk := h.sound i x hx
  cases htask : x.task with
  | send id attempt pc =>
    rw [htask] at hk ha
    have hheld : ∀ b, b = some a → w.store.Holds id b → a ∈ w.issued := by
      rintro b rfl ⟨r, hr, -⟩
      exact h.issued a r hr
    cases pc with
    | begin sending b readAt claimedAt =>
      cases ha
      exact hk.2.1
    | send _ b _ _ | transport _ b | accepted _ b _ | rejected _ b _ => exact hheld b ha hk
    | _ => cases ha
  | _ =>
    rw [htask] at ha
    cases ha

theorem Inv.acted (h : w.Inv) {p : ℕ} {x : Process} (hp : w.procs[p]? = some x) {choice : Choice}
    {eff : Effect} (he : x.task.act w.now w.log.length w.issued w.store choice = some eff) :
    x.task.Acted w.issued w.store eff :=
  Task.act_acted h.store h.issued (h.sound p x hp) he

theorem Inv.step_quiet (h : w.Inv) (hq : w.Quiet w') : w.store.Step w'.store {} := by
  rcases hq.store with hs | ⟨e, he, hs⟩ <;> rw [hs]
  · exact .refl h.store
  · exact h.store.step_createEmail he

theorem Inv.quiet (h : w.Inv) (hq : w.Quiet w') : w'.Inv := by
  have hstep := h.step_quiet hq
  refine ⟨hstep.inv, ?_, ?_, ?_, ?_⟩
  · intro k a ha
    rw [hstep.attempts k (by simp)] at ha
    exact hq.issued ▸ h.issued k a ha
  · intro i x hx
    rcases hq.procs i x hx with hx | hx
    · exact (h.sound i x hx).stable h.store hstep (by rw [hq.issued]; exact fun _ => id)
        fun _ _ => by simp
    · exact hx.sound (fun _ => hstep.hasEmail) _
  · intro i j x y a hx hy hxa hya
    rcases hq.procs i x hx with hx | hx
    · rcases hq.procs j y hy with hy | hy
      · exact h.owner i j x y a hx hy hxa hya
      · rw [hy.attemptId] at hya
        cases hya
    · rw [hx.attemptId] at hxa
      cases hxa
  · intro i x hx id hid
    rcases hq.procs i x hx with hx | hx
    · exact h.job i x hx id hid
    · exact hx.job_of_send hid

/-- Where the call stands after its step. -/
theorem after_procs {p : ℕ} {x : Process} {eff : Effect} {i : ℕ} {y : Process}
    (hy : (w.after p x eff).procs[i]? = some y) : (i ≠ p ∧ w.procs[i]? = some y) ∨
      (i = p ∧ ((∃ task, eff.next = .goto task ∧ y = { x with task := task }) ∨
        y = { task := .idle })) := by
  refine (procs_set hy).imp_right fun ⟨hi, heq⟩ => ⟨hi, ?_⟩
  subst heq
  cases eff.next with
  | goto task => exact Or.inl ⟨task, rfl, rfl⟩
  | resolve => exact Or.inr rfl
  | throw => exact Or.inr rfl

theorem Inv.after (h : w.Inv) {p : ℕ} {x : Process} (hp : w.procs[p]? = some x) {eff : Effect}
    (ha : x.task.Acted w.issued w.store eff) : (w.after p x eff).Inv := by
  -- a call other than the one that makes the step has another attempt, if any
  have hother : ∀ i y, i ≠ p → w.procs[i]? = some y → ∀ a, y.task.attemptId = some a →
      x.task.attemptId ≠ some a := fun i y hi hy a hya hxa => hi (h.owner i p y x a hy hp hya hxa)
  refine ⟨ha.step.inv, ?_, ?_, ?_, ?_⟩
  · intro k a hk
    refine List.mem_append_left _ ?_
    by_cases hxk : x.task.attemptId = some k
    · exact h.attemptId_issued hp hxk
    · exact h.issued k a ((ha.step.attempts k hxk).symm.trans hk)
  · intro i y hy
    rcases after_procs hy with ⟨hi, hy⟩ | ⟨-, ⟨task, hn, rfl⟩ | rfl⟩
    · exact (h.sound i y hy).stable h.store ha.step (List.subset_append_left _ _)
        (hother i y hi hy)
    · exact ha.sound task hn
    · trivial
  · have hdistinct : ∀ i y a, i ≠ p → w.procs[i]? = some y → y.task.attemptId = some a →
        ∀ task, eff.next = .goto task → task.attemptId ≠ some a := by
      intro i y a hi hy hya task hn htask
      rcases ha.holds task hn a htask with hxa | hnew
      · exact hother i y hi hy a hya hxa
      · exact ha.fresh a hnew (h.attemptId_issued hy hya)
    intro i j y z a hy hz hya hza
    rcases after_procs hy with ⟨hi, hy'⟩ | ⟨hi, ⟨task, hn, rfl⟩ | rfl⟩
    · rcases after_procs hz with ⟨hj, hz'⟩ | ⟨-, ⟨task, hn, rfl⟩ | rfl⟩
      · exact h.owner i j y z a hy' hz' hya hza
      · exact absurd hza (hdistinct i y a hi hy' hya task hn)
      · cases hza
    · rcases after_procs hz with ⟨hj, hz'⟩ | ⟨hj, -⟩
      · exact absurd hya (hdistinct j z a hj hz' hza task hn)
      · exact hi.trans hj.symm
    · cases hya
  · intro i y hy id hid
    rcases after_procs hy with ⟨-, hy⟩ | ⟨rfl, ⟨task, hn, rfl⟩ | rfl⟩
    · exact h.job i y hy id hid
    · exact h.job i x hp id ((ha.subject task hn).symm.trans hid)
    · cases hid

/-- **The invariant is kept by every step.** -/
theorem Inv.step (h : w.Inv) {l : Label} (hs : w.step l = some w') : w'.Inv := by
  rcases step_cases hs with hq | ⟨p, choice, x, eff, -, hp, he, rfl⟩
  · exact h.quiet hq
  · exact h.after hp (h.acted hp he)

theorem Inv.init {w : World} (h : system.init w) : w.Inv := by
  obtain ⟨now, rfl⟩ := h
  exact {
    store := MemoryStore.inv_empty
    issued := fun _ _ h => by cases h
    sound := fun _ _ h => by cases h
    owner := fun _ _ _ _ _ h => by cases h
    job := fun _ _ h => by cases h }

theorem reachable_inv (h : system.Reachable w) : w.Inv :=
  h.invariant (fun _ => Inv.init) fun _ _ _ _ hi hs => hi.step hs

end World

end HayaSend
