import HayaSend.Services.LedgerSteps

/-!
# The schedule of an email and of its message

The time of a scheduled email is stored in the email and in its message. A reschedule moves both
together when the outbox item is free; when the item is leased or dispatched it falls back to an
update of the email alone, and the message keeps the old time (`fallback_disagrees`).

`schedules_agree` says that nothing else drives the two apart: they agree in every state of a run
without such a fallback, and where they agree, a step keeps it so exactly if it is none.
-/

namespace HayaSend

/-- Every email with a ledger has the schedule of its message. -/
def MemoryStore.SchedulesAgree (s : MemoryStore) : Prop :=
  ∀ id ledger, s.getDeliveryLedger id = some ledger →
    ledger.email.scheduledAt = ledger.message.scheduledAt

theorem MemoryStore.schedulesAgree_iff {s : MemoryStore} : s.SchedulesAgree ↔
    ∀ id st, s.ledgerState id = some st → st.email.scheduledAt = st.message.scheduledAt := by
  constructor
  · intro h id st hst
    obtain ⟨ledger, hledger, rfl⟩ := Option.map_eq_some_iff.mp hst
    exact h id ledger hledger
  · intro h id ledger hledger
    exact h id _ (MemoryStore.ledgerState_of_deliveryLedger hledger)

/-- A call that stands before the update a reschedule falls back to, where this would set a pending
email to another time than its message. -/
def Task.fallsBack (s : MemoryStore) : Task → Bool
  | .reschedule id (.update t _) => (s.getDeliveryLedger id).any fun ledger =>
      ledger.email.status.isPending && ledger.message.scheduledAt != some t
  | _ => false

/-- A step that is such an update. -/
def World.fallsBack (w : World) : Label → Bool
  | .act p _ => (w.procs[p]?).any fun proc => proc.task.fallsBack w.store
  | _ => false

theorem Task.fallsBack_eq_true {s : MemoryStore} {task : Task} (h : task.fallsBack s = true) :
    ∃ id t updatedAt st, task = .reschedule id (.update t updatedAt) ∧
      s.ledgerState id = some st ∧ st.email.status.isPending = true ∧
      st.message.scheduledAt ≠ some t := by
  unfold Task.fallsBack at h
  split at h
  · rename_i id t updatedAt
    obtain ⟨ledger, hledger, h⟩ := (Option.any_eq_true _ _).mp h
    rw [Bool.and_eq_true, bne_iff_ne] at h
    exact ⟨id, t, updatedAt, _, rfl, MemoryStore.ledgerState_of_deliveryLedger hledger, h.1, h.2⟩
  · cases h

theorem Task.not_fallsBack {s : MemoryStore} {id : String} {t updatedAt : ℕ}
    (h : (Task.reschedule id (.update t updatedAt)).fallsBack s = false)
    {st : DeliveryLedgerState} (hst : s.ledgerState id = some st)
    (hp : st.email.status.isPending = true) : st.message.scheduledAt = some t := by
  obtain ⟨ledger, hledger, rfl⟩ := Option.map_eq_some_iff.mp hst
  rw [Task.fallsBack, MemoryStore.getDeliveryLedger, hledger, Option.any_some,
    Bool.and_eq_false_iff, bne_eq_false_iff_eq] at h
  rcases h with h | h
  · rw [hp] at h
    cases h
  · exact h

/-! ## One step -/

/-- A move that is no fallback keeps the schedules equal. -/
theorem Task.Moves.schedule {now : ℕ} {s : MemoryStore} {task : Task} {k : String}
    {st st' : DeliveryLedgerState} (h : task.Moves now k st st') (hst : s.ledgerState k = some st)
    (hback : task.fallsBack s = false) (ha : st.email.scheduledAt = st.message.scheduledAt) :
    st'.email.scheduledAt = st'.message.scheduledAt := by
  cases h with
  | accepted _ _ | rejected _ _ => exact (completeEmail_scheduledAt _ _).trans ha
  | rescheduled _ => rfl
  | rescheduledEmail hp => exact (Task.not_fallsBack hback hst hp).symm
  | _ => exact ha

theorem MemoryStore.SchedulesAgree.act {now logged : ℕ} {issued : List String} {s : MemoryStore}
    {task : Task} {choice : Choice} {eff : Effect} (ha : s.SchedulesAgree) (hs : s.Inv)
    (hk : task.Sound s issued) (h : task.act now logged issued s choice = some eff)
    (hback : task.fallsBack s = false) : eff.store.SchedulesAgree := by
  rw [MemoryStore.schedulesAgree_iff] at ha ⊢
  intro k st' hst'
  cases Task.act_ledgers hs hk h with
  | same hsame => exact ha k st' ((hsame k).symm.trans hst')
  | created hc =>
    rename_i c
    by_cases hk : k = c.message.id
    · obtain ⟨st, hst, -, he, -, hm, -⟩ := hc.ledgerState_self hs
      rw [hk, hst, Option.some.injEq] at hst'
      rw [← hst', he, hm, hc.consistent.schedule_eq]
    · rw [hc.ledgerState_other hs hk] at hst'
      exact ha k st' hst'
  | moved hstep hmove =>
    rename_i k₀ st st₀
    by_cases hk : k = k₀
    · subst hk
      rw [hstep.after, Option.some.injEq] at hst'
      subst hst'
      exact hmove.schedule hstep.before hback (ha k st hstep.before)
    · rw [hstep.others k hk] at hst'
      exact ha k st' hst'

/-- A fallback leaves the message at the old time. -/
theorem MemoryStore.not_schedulesAgree_of_fallsBack {now logged : ℕ} {issued : List String}
    {s : MemoryStore} {task : Task} {choice : Choice} {eff : Effect} (hs : s.Inv)
    (h : task.act now logged issued s choice = some eff) (hback : task.fallsBack s = true) :
    ¬ eff.store.SchedulesAgree := by
  obtain ⟨id, t, updatedAt, st, rfl, hst, hp, hne⟩ := Task.fallsBack_eq_true hback
  have he := (hs.ledgerState_eq_some.mp hst).1
  cases choice with
  | go =>
    have hupdated : s.updateEmail id (rescheduleUpdates t updatedAt) (some pendingStatuses) ≠
        none := by
      intro hnone
      rw [MemoryStore.updateEmail, he, Option.bind_eq_bind, Option.bind_some,
        updatable_pending, if_pos hp] at hnone
      cases hnone
    simp only [Task.act, ReschedulePc.act] at h
    split at h
    · rename_i hnone
      exact absurd hnone hupdated
    · rename_i hu
      cases h
      rw [MemoryStore.schedulesAgree_iff]
      intro hagree
      rcases hs.ledgerStep_updateSchedule hu with ⟨hnone, -⟩ | ⟨st₁, -, hstep⟩
      · rw [hst] at hnone
        cases hnone
      · have hst₁ := hstep.before
        rw [hst, Option.some.injEq] at hst₁
        subst hst₁
        exact hne (hagree id _ hstep.after).symm
  | _ => cases h

/-! ## Whole runs -/

namespace World

variable {w w' : World}

theorem schedulesAgree_step (hi : w.Inv) (ha : w.store.SchedulesAgree) {l : Label}
    (hs : w.step l = some w') : w'.store.SchedulesAgree ↔ w.fallsBack l = false := by
  have hquiet : w.Quiet w' → w'.store.SchedulesAgree := by
    intro hq
    rw [MemoryStore.schedulesAgree_iff] at ha ⊢
    intro k st hst
    exact ha k st ((hi.ledgerState_quiet hq k).symm.trans hst)
  cases l with
  | act p choice =>
    obtain ⟨proc, hp, hs⟩ := Option.bind_eq_some_iff.mp hs
    obtain ⟨eff, he, rfl⟩ := Option.map_eq_some_iff.mp hs
    rw [fallsBack, hp, Option.any_some]
    constructor
    · intro hagree
      rw [Bool.eq_false_iff]
      exact fun hback => MemoryStore.not_schedulesAgree_of_fallsBack hi.store he hback hagree
    · exact ha.act hi.store (hi.sound p proc hp) he
  | _ =>
    rcases step_cases hs with hq | ⟨p, choice, _, _, hl, -⟩
    · exact iff_of_true (hquiet hq) rfl
    · cases hl

theorem schedulesAgree_init (h : system.init w) : w.store.SchedulesAgree := by
  obtain ⟨now, rfl⟩ := h
  intro id ledger hledger
  cases hledger

end World

/-- **The schedules agree exactly as long as no reschedule falls back**, in every run: they agree in
every state it reaches, and the next step keeps them so exactly if it is no fallback. -/
theorem schedules_agree {w : World}
    (h : World.system.ReachableWhere (fun w l => w.fallsBack l = false) w) :
    w.store.SchedulesAgree ∧ ∀ l w', w.step l = some w' →
      (w'.store.SchedulesAgree ↔ w.fallsBack l = false) := by
  have hagree : w.store.SchedulesAgree := by
    refine h.invariant (fun _ => World.schedulesAgree_init) fun w l w' hr ha hback hs => ?_
    exact (World.schedulesAgree_step (World.reachable_inv hr.reachable) ha hs).mpr hback
  exact ⟨hagree, fun _ _ => World.schedulesAgree_step (World.reachable_inv h.reachable) hagree⟩

/-- A sweep that leases the item of the delivery. -/
def World.leaseSample : List Label :=
  [.call (.create (.commit sampleCommit 1)), .act 0 .go, .call (.sweep "worker" 60 100 .lease),
    .act 1 .go]

/-- A reschedule by an hour, the third process. -/
def World.rescheduleSample : List Label :=
  [.call (.reschedule "email_0123456789abcdef" (.getEmail (.relative 1 .hours))), .act 2 .go,
    .act 2 .go, .act 2 .go, .act 2 .go]

theorem fallback_disagrees : ∃ w, World.system.Reachable w ∧ ¬ w.store.SchedulesAgree := by
  have hrun : (World.system.run { now := 2000 } (World.leaseSample ++ World.rescheduleSample)).any
      (fun w => (w.store.getDeliveryLedger "email_0123456789abcdef").any fun ledger =>
        ledger.email.scheduledAt != ledger.message.scheduledAt) := by decide +kernel
  obtain ⟨w, hw, hstored⟩ :=
    TransitionSystem.exists_reachable_of_run (T := World.system) ⟨2000, rfl⟩ hrun
  obtain ⟨ledger, hledger, hne⟩ := (Option.any_eq_true _ _).mp hstored
  exact ⟨w, hw, fun h => bne_iff_ne.mp hne (h _ ledger hledger)⟩

theorem schedules_agree_sample : ∃ w,
    World.system.ReachableWhere (fun w l => w.fallsBack l = false) w ∧
      (w.store.getDeliveryLedger "email_0123456789abcdef").any
        (fun ledger => ledger.email.scheduledAt == some 3602000) = true ∧ w.store.SchedulesAgree := by
  have hrun : (World.system.runWhere (fun w l => !w.fallsBack l) { now := 2000 }
      ([.call (.create (.commit sampleCommit 1)), .act 0 .go, .call (.cancel "email_x" .getEmail)] ++
        World.rescheduleSample)).any
      (fun w => (w.store.getDeliveryLedger "email_0123456789abcdef").any fun ledger =>
        ledger.email.scheduledAt == some 3602000) := by decide +kernel
  obtain ⟨w, hw, hstored⟩ :=
    TransitionSystem.exists_reachableWhere_of_run (T := World.system) ⟨2000, rfl⟩ hrun
  have hw := hw.mono fun _ _ h => by simpa using h
  exact ⟨w, hw, hstored, (schedules_agree hw).1⟩

end HayaSend
