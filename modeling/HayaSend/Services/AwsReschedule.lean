import HayaSend.Core.LedgerMachine
import HayaSend.Core.Schedule
import HayaSend.Foundations.TransitionSystem
import HayaSend.Services.World

/-!
# Rescheduling over a named schedule

Any number of `EmailService.reschedule` calls on one email whose outbox item is dispatched, with an
`AwsEmailScheduler`: the email has one named schedule, which is created or updated, and a time at
most 900 seconds away deletes it and enqueues a job instead. A call stores its time, wakes the email
up at that time, reads the email again and repairs the wake-up once when the stored time is another.

A call that has not read the email again, or is about to repair the wake-up to the time that is
stored, is open: it may have spoiled the wake-up, and will see to it (`WakeInv.wakes`). A repair that
comes after a further store is neither, and spoils it for good.
-/

namespace HayaSend

/-! ## The scheduler -/

/-- `atExpression`: a schedule is to the second. -/
def atExpression (scheduledAt : ℕ) : ℕ := scheduledAt / 1000 * 1000

structure NamedSchedule where
  time : ℕ
  job : Job
  deriving DecidableEq, Repr

/-- An enqueued job, with the time its delay was computed from. -/
structure DelayedJob where
  job : Job
  readAt : ℕ
  enqueuedAt : ℕ
  delaySeconds : ℕ
  deriving DecidableEq, Repr

/-- The end of the delay. -/
def DelayedJob.dueAt (j : DelayedJob) : ℕ := j.enqueuedAt + 1000 * j.delaySeconds

/-- The requests of `AwsEmailScheduler.rescheduleDelivery`. -/
inductive WakeRequest
  | delete
  | enqueue
  | create
  | update
  deriving DecidableEq, Repr

/-- Where a `reschedule` call stands. -/
inductive RescheduleStage
  | getEmail (scheduledAt : ScheduleText)
  | moveOutbox (scheduledAt now : ℕ)
  | updateEmail (scheduledAt now : ℕ)
  | wake (scheduledAt now : ℕ) (isRepair : Bool) (request : WakeRequest)
  | reread (scheduledAt : ℕ)
  | resolved
  | thrown
  deriving DecidableEq, Repr

/-- What the calls share. -/
structure WakeState where
  email : EmailRecord
  schedule : Option NamedSchedule := none
  jobs : List DelayedJob := []
  deriving DecidableEq, Repr

namespace RescheduleStage

/-- `rescheduleDelivery` deletes the schedule and enqueues a job, or writes the schedule. -/
def rescheduleDelivery (scheduledAt now : ℕ) (isRepair : Bool) : RescheduleStage :=
  .wake scheduledAt now isRepair
    (if secondsUntil (some scheduledAt) now ≤ 900 then .delete else .create)

/-- Where a call goes on after its wake-up. -/
def woken (scheduledAt : ℕ) (isRepair : Bool) : RescheduleStage :=
  if isRepair then .resolved else .reread scheduledAt

/-- One request of a call. -/
def act (now : ℕ) (s : WakeState) : RescheduleStage → Option (WakeState × RescheduleStage)
  | .getEmail text =>
    if s.email.status.isPending then
      match parseScheduledAt (some text) now with
      | .ok (some scheduledAt) => some (s, .moveOutbox scheduledAt now)
      | _ => some (s, .thrown)
    else some (s, .thrown)
  -- `rescheduleEmailAndOutbox` finds the item dispatched and changes nothing
  | .moveOutbox scheduledAt t => some (s, .updateEmail scheduledAt t)
  | .updateEmail scheduledAt t =>
    if s.email.updatable (some pendingStatuses) then
      some ({ s with email := (rescheduleUpdates scheduledAt t).applyTo s.email },
        rescheduleDelivery scheduledAt t false)
    else some (s, .thrown)
  | .wake scheduledAt t isRepair .delete =>
    some ({ s with schedule := none }, .wake scheduledAt t isRepair .enqueue)
  | .wake scheduledAt t isRepair .enqueue =>
    let job : DelayedJob := {
      job := .sendEmail s.email.id none
      readAt := t
      enqueuedAt := now
      delaySeconds := delaySecondsUntil (some scheduledAt) t }
    some ({ s with jobs := s.jobs ++ [job] }, woken scheduledAt isRepair)
  | .wake scheduledAt t isRepair .create =>
    match s.schedule with
    | none => some ({ s with
        schedule := some ⟨atExpression scheduledAt, .sendEmail s.email.id none⟩ },
        woken scheduledAt isRepair)
    -- `ConflictException`
    | some _ => some (s, .wake scheduledAt t isRepair .update)
  | .wake scheduledAt _ isRepair .update =>
    match s.schedule with
    | some _ => some ({ s with
        schedule := some ⟨atExpression scheduledAt, .sendEmail s.email.id none⟩ },
        woken scheduledAt isRepair)
    -- `ResourceNotFoundException`
    | none => some (s, .thrown)
  | .reread scheduledAt =>
    match s.email.scheduledAt with
    | some current =>
      if s.email.status = .scheduled ∧ current ≠ scheduledAt then
        some (s, rescheduleDelivery current now true)
      else some (s, .resolved)
    | none => some (s, .resolved)
  | .resolved | .thrown => none

end RescheduleStage

/-! ## The system -/

structure WakeWorld extends WakeState where
  now : ℕ
  calls : List RescheduleStage := []
  deriving DecidableEq, Repr

inductive WakeLabel
  | tick (ms : ℕ)
  | call (scheduledAt : ScheduleText)
  | act (index : ℕ)
  /-- A request of a call fails. -/
  | fails (index : ℕ)
  /-- The time of the schedule has come: its job is in the queue. -/
  | fire
  deriving DecidableEq, Repr

namespace WakeWorld

def step (w : WakeWorld) : WakeLabel → Option WakeWorld
  | .tick ms => some { w with now := w.now + ms }
  | .call scheduledAt => some { w with calls := w.calls ++ [.getEmail scheduledAt] }
  | .act index =>
    (w.calls[index]?).bind fun c => (c.act w.now w.toWakeState).map fun r =>
      { w with toWakeState := r.1, calls := w.calls.set index r.2 }
  | .fails index =>
    (w.calls[index]?).bind fun c =>
      if c = .resolved then none else some { w with calls := w.calls.set index .thrown }
  | .fire => w.schedule.bind fun s =>
    if s.time ≤ w.now then some { w with
      schedule := none
      jobs := w.jobs ++ [⟨s.job, s.time, s.time, 0⟩] }
    else none

/-- Any email, with any schedule and jobs from before. -/
def system : TransitionSystem WakeWorld WakeLabel where
  init w := w.calls = []
  step := step

/-- A repair writes the time that is stored. -/
def isFresh (w : WakeWorld) : WakeLabel → Bool
  | .act index =>
    match w.calls[index]? with
    | some (.wake scheduledAt _ true _) => w.email.scheduledAt == some scheduledAt
    | _ => true
  | _ => true

end WakeWorld

/-- A wake-up due no later than the stored time: the named schedule, or an enqueued job. -/
def WakeState.WakesInTime (s : WakeState) : Prop :=
  ∃ scheduledAt, s.email.scheduledAt = some scheduledAt ∧
    ((∃ n, s.schedule = some n ∧ n.time ≤ scheduledAt) ∨
      ∃ j ∈ s.jobs, j.job = .sendEmail s.email.id none ∧ j.dueAt ≤ scheduledAt)

instance (s : WakeState) : Decidable s.WakesInTime :=
  decidable_of_iff (s.email.scheduledAt.any (fun scheduledAt =>
    s.schedule.any (fun n => decide (n.time ≤ scheduledAt)) || s.jobs.any fun j =>
      decide (j.job = .sendEmail s.email.id none ∧ j.dueAt ≤ scheduledAt)) = true) (by
    simp only [WakeState.WakesInTime, Option.any_eq_true, Bool.or_eq_true, List.any_eq_true,
      decide_eq_true_eq])

/-- A wake-up at the stored time, as the scheduler sets it: the named schedule is due no later. The
delay of a job is rounded up to the second and runs from the enqueue, not from the time it was
computed from. -/
def WakeState.Wakes (s : WakeState) : Prop :=
  ∃ scheduledAt, s.email.scheduledAt = some scheduledAt ∧
    ((∃ n, s.schedule = some n ∧ n.job = .sendEmail s.email.id none ∧ n.time ≤ scheduledAt) ∨
      ∃ j ∈ s.jobs, j.job = .sendEmail s.email.id none ∧
        j.dueAt ≤ max scheduledAt j.readAt + (j.enqueuedAt - j.readAt) + 999)

/-! ## Open calls -/

namespace RescheduleStage

/-- The call has stored its time. -/
def hasStored : RescheduleStage → Bool
  | .wake _ _ _ _ | .reread _ | .resolved => true
  | _ => false

/-- The call will read the email again and find another time, or is about to wake it up at the
stored time, or has failed. -/
def IsOpen (email : EmailRecord) : RescheduleStage → Prop
  | .wake scheduledAt _ isRepair _ => isRepair = true → email.scheduledAt = some scheduledAt
  | .reread scheduledAt => email.scheduledAt ≠ some scheduledAt
  | .thrown => True
  | _ => False

/-- The call has read the clock before. -/
def Valid (now : ℕ) : RescheduleStage → Prop
  | .moveOutbox _ t | .updateEmail _ t | .wake _ t _ _ => t ≤ now
  | _ => True

theorem Valid.mono {now now' : ℕ} (hle : now ≤ now') {c : RescheduleStage} (h : c.Valid now) :
    c.Valid now' := by
  cases c with
  | moveOutbox _ t => exact Nat.le_trans h hle
  | updateEmail _ t => exact Nat.le_trans h hle
  | wake _ t _ _ => exact Nat.le_trans h hle
  | _ => trivial

variable {now : ℕ} {s s' : WakeState} {c c' : RescheduleStage}

/-- A call that has set a wake-up at the stored time. -/
theorem woken_or_open {scheduledAt : ℕ} {isRepair : Bool}
    (hfresh : isRepair = true → s.email.scheduledAt = some scheduledAt)
    (hwakes : s.email.scheduledAt = some scheduledAt → s.Wakes) :
    (woken scheduledAt isRepair).IsOpen s.email ∨ s.Wakes := by
  by_cases hstored : s.email.scheduledAt = some scheduledAt
  · exact Or.inr (hwakes hstored)
  · left
    cases isRepair with
    | false => exact hstored
    | true => exact absurd (hfresh rfl) hstored

/-- **One request of a call.** It leaves the call open, or a wake-up at the stored time, or it changes
nothing and the call was not open before. -/
theorem act_open (hvalid : c.Valid now)
    (hfresh : ∀ scheduledAt t request, c = .wake scheduledAt t true request →
      s.email.scheduledAt = some scheduledAt)
    (hstored : c.hasStored = true →
      s.email.status = .scheduled ∧ s.email.scheduledAt.isSome = true)
    (h : c.act now s = some (s', c')) : c'.IsOpen s'.email ∨ s'.Wakes ∨
      (s' = s ∧ ¬ c.IsOpen s.email ∧ (c'.hasStored = true → c.hasStored = true)) := by
  cases c with
  | getEmail text =>
    simp only [act] at h
    split_ifs at h
    · split at h <;> cases h
      · exact Or.inr (Or.inr ⟨rfl, id, id⟩)
      · exact Or.inl trivial
    · cases h
      exact Or.inl trivial
  | moveOutbox scheduledAt t =>
    cases h
    exact Or.inr (Or.inr ⟨rfl, id, id⟩)
  | updateEmail scheduledAt t =>
    simp only [act] at h
    split_ifs at h <;> cases h
    · exact Or.inl fun hrepair => by cases hrepair
    · exact Or.inl trivial
  | wake scheduledAt t isRepair request =>
    have hrepair : isRepair = true → s.email.scheduledAt = some scheduledAt := by
      rintro rfl
      exact hfresh scheduledAt t request rfl
    cases request with
    | delete =>
      cases h
      exact Or.inl hrepair
    | enqueue =>
      cases h
      rw [← or_assoc]
      refine Or.inl (woken_or_open hrepair fun hst => ⟨scheduledAt, hst, Or.inr ⟨_,
        List.mem_append_right _ (List.mem_singleton_self _), rfl, ?_⟩⟩)
      have hle : t ≤ now := hvalid
      simp only [DelayedJob.dueAt, delaySecondsUntil, secondsUntil]
      omega
    | create =>
      simp only [act] at h
      split at h <;> cases h
      · rw [← or_assoc]
        refine Or.inl (woken_or_open hrepair fun hst => ⟨scheduledAt, hst, Or.inl ⟨_, rfl, rfl, ?_⟩⟩)
        exact Nat.div_mul_le_self _ _
      · exact Or.inl hrepair
    | update =>
      simp only [act] at h
      split at h <;> cases h
      · rw [← or_assoc]
        refine Or.inl (woken_or_open hrepair fun hst => ⟨scheduledAt, hst, Or.inl ⟨_, rfl, rfl, ?_⟩⟩)
        exact Nat.div_mul_le_self _ _
      · exact Or.inl trivial
  | reread scheduledAt =>
    obtain ⟨hstatus, hsome⟩ := hstored rfl
    obtain ⟨current, hcurrent⟩ := Option.isSome_iff_exists.mp hsome
    simp only [act, hcurrent, hstatus, true_and] at h
    split_ifs at h with hne
    · cases h
      exact Or.inl fun _ => hcurrent
    · cases h
      refine Or.inr (Or.inr ⟨rfl, fun hopen => hopen ?_, fun _ => rfl⟩)
      rw [hcurrent, not_not.mp hne]
  | resolved => cases h
  | thrown => cases h

/-- What else a request keeps: the stage stays valid, and the email stays scheduled or becomes so. -/
theorem act_valid (hvalid : c.Valid now) (h : c.act now s = some (s', c')) : c'.Valid now ∧
    (s'.email = s.email ∨
      s'.email.status = .scheduled ∧ s'.email.scheduledAt.isSome = true) ∧
    (c'.hasStored = true → c.hasStored = true ∨
      s'.email.status = .scheduled ∧ s'.email.scheduledAt.isSome = true) := by
  cases c with
  | getEmail text =>
    simp only [act] at h
    split_ifs at h
    · split at h <;> cases h
      · exact ⟨le_refl _, Or.inl rfl, fun h => by cases h⟩
      · exact ⟨trivial, Or.inl rfl, fun h => by cases h⟩
    · cases h
      exact ⟨trivial, Or.inl rfl, fun h => by cases h⟩
  | moveOutbox scheduledAt t =>
    cases h
    exact ⟨hvalid, Or.inl rfl, fun h => by cases h⟩
  | updateEmail scheduledAt t =>
    simp only [act] at h
    split_ifs at h <;> cases h
    · exact ⟨hvalid, Or.inr ⟨rfl, rfl⟩, fun _ => Or.inr ⟨rfl, rfl⟩⟩
    · exact ⟨trivial, Or.inl rfl, fun h => by cases h⟩
  | wake scheduledAt t isRepair request =>
    have hwoken : (woken scheduledAt isRepair).Valid now := by
      cases isRepair <;> trivial
    cases request with
    | delete =>
      cases h
      exact ⟨hvalid, Or.inl rfl, fun _ => Or.inl rfl⟩
    | enqueue =>
      cases h
      exact ⟨hwoken, Or.inl rfl, fun _ => Or.inl rfl⟩
    | create =>
      simp only [act] at h
      split at h <;> cases h
      · exact ⟨hwoken, Or.inl rfl, fun _ => Or.inl rfl⟩
      · exact ⟨hvalid, Or.inl rfl, fun _ => Or.inl rfl⟩
    | update =>
      simp only [act] at h
      split at h <;> cases h
      · exact ⟨hwoken, Or.inl rfl, fun _ => Or.inl rfl⟩
      · exact ⟨trivial, Or.inl rfl, fun h => by cases h⟩
  | reread scheduledAt =>
    simp only [act] at h
    split at h
    · split_ifs at h <;> cases h
      · exact ⟨le_refl _, Or.inl rfl, fun _ => Or.inl rfl⟩
      · exact ⟨trivial, Or.inl rfl, fun _ => Or.inl rfl⟩
    · cases h
      exact ⟨trivial, Or.inl rfl, fun _ => Or.inl rfl⟩
  | resolved => cases h
  | thrown => cases h

end RescheduleStage

/-! ## The invariant -/

/-- Once a time is stored, the email is woken up at it, or a call is open. -/
structure WakeInv (w : WakeWorld) : Prop where
  valid : ∀ c ∈ w.calls, c.Valid w.now
  stored : ∀ c ∈ w.calls, c.hasStored = true →
    w.email.status = .scheduled ∧ w.email.scheduledAt.isSome = true
  wakes : (∃ c ∈ w.calls, c.hasStored = true) →
    w.toWakeState.Wakes ∨ ∃ c ∈ w.calls, c.IsOpen w.email

namespace WakeInv

variable {w w' : WakeWorld}

/-- A wake-up stays where it is only added to, and where the schedule turns into a job. -/
theorem wakes_fire {s : WakeState} {n : NamedSchedule} (hn : s.schedule = some n)
    (h : s.Wakes) : WakeState.Wakes { s with
      schedule := none
      jobs := s.jobs ++ [⟨n.job, n.time, n.time, 0⟩] } := by
  obtain ⟨scheduledAt, hst, hwake⟩ := h
  refine ⟨scheduledAt, hst, Or.inr ?_⟩
  rcases hwake with ⟨m, hm, hjob, hle⟩ | ⟨j, hj, hjob, hdue⟩
  · rw [hn, Option.some.injEq] at hm
    subst hm
    refine ⟨_, List.mem_append_right _ (List.mem_singleton_self _), hjob, ?_⟩
    simp only [DelayedJob.dueAt]
    omega
  · exact ⟨j, List.mem_append_left _ hj, hjob, hdue⟩

theorem act (h : WakeInv w) {i : ℕ} {c c' : RescheduleStage} (hi : w.calls[i]? = some c)
    (hfresh : w.isFresh (.act i) = true) {s' : WakeState}
    (hact : c.act w.now w.toWakeState = some (s', c')) :
    WakeInv { w with toWakeState := s', calls := w.calls.set i c' } := by
  have hmem : c ∈ w.calls := List.mem_of_getElem? hi
  have hlt := (List.getElem?_eq_some_iff.mp hi).1
  have hset : ∀ d ∈ w.calls.set i c', d ∈ w.calls ∨ d = c' := fun d hd =>
    List.mem_or_eq_of_mem_set hd
  have hnew : c' ∈ w.calls.set i c' := List.mem_set hlt c'
  have hrepair : ∀ scheduledAt t request, c = .wake scheduledAt t true request →
      w.email.scheduledAt = some scheduledAt := by
    rintro scheduledAt t request rfl
    simpa [WakeWorld.isFresh, hi] using hfresh
  obtain ⟨hvalid', hemail, hstored'⟩ := RescheduleStage.act_valid (h.valid c hmem) hact
  have hopen := RescheduleStage.act_open (h.valid c hmem) hrepair (h.stored c hmem) hact
  exact {
    valid := by
      intro d hd
      rcases hset d hd with hd | rfl
      · exact h.valid d hd
      · exact hvalid'
    stored := by
      intro d hd hdst
      have hbefore : (∃ e ∈ w.calls, e.hasStored = true) →
          s'.email.status = .scheduled ∧ s'.email.scheduledAt.isSome = true := by
        rintro ⟨e, he, hest⟩
        rcases hemail with heq | hnew
        · rw [heq]
          exact h.stored e he hest
        · exact hnew
      rcases hset d hd with hd | rfl
      · exact hbefore ⟨d, hd, hdst⟩
      · rcases hstored' hdst with hcst | hnew
        · exact hbefore ⟨c, hmem, hcst⟩
        · exact hnew
    wakes := by
      rintro ⟨d, hd, hdst⟩
      rcases hopen with hopen | hwakes | ⟨rfl, hclosed, hkeep⟩
      · exact Or.inr ⟨c', hnew, hopen⟩
      · exact Or.inl hwakes
      · have hsome : ∃ e ∈ w.calls, e.hasStored = true := by
          rcases hset d hd with hd | rfl
          · exact ⟨d, hd, hdst⟩
          · exact ⟨c, hmem, hkeep hdst⟩
        rcases h.wakes hsome with hwakes | ⟨e, he, heopen⟩
        · exact Or.inl hwakes
        · -- the open call is another one
          obtain ⟨j, hj⟩ := List.mem_iff_getElem?.mp he
          have hne : i ≠ j := by
            rintro rfl
            rw [hi, Option.some.injEq] at hj
            exact hclosed (hj ▸ heopen)
          refine Or.inr ⟨e, List.mem_iff_getElem?.mpr ⟨j, ?_⟩, heopen⟩
          rw [List.getElem?_set_ne hne]
          exact hj }

theorem step (h : WakeInv w) {l : WakeLabel} (hfresh : w.isFresh l = true)
    (hs : w.step l = some w') : WakeInv w' := by
  cases l with
  | tick ms =>
    obtain rfl : _ = w' := Option.some.inj hs
    exact { h with valid := fun c hc => (h.valid c hc).mono (Nat.le_add_right _ _) }
  | call scheduledAt =>
    obtain rfl : _ = w' := Option.some.inj hs
    have hcalls : ∀ d ∈ w.calls ++ [.getEmail scheduledAt],
        d ∈ w.calls ∨ d = .getEmail scheduledAt := by simp
    exact {
      valid := by
        intro d hd
        rcases hcalls d hd with hd | rfl
        · exact h.valid d hd
        · trivial
      stored := by
        intro d hd hdst
        rcases hcalls d hd with hd | rfl
        · exact h.stored d hd hdst
        · cases hdst
      wakes := by
        rintro ⟨d, hd, hdst⟩
        rcases hcalls d hd with hd | rfl
        · refine (h.wakes ⟨d, hd, hdst⟩).imp id ?_
          rintro ⟨e, he, heopen⟩
          exact ⟨e, List.mem_append_left _ he, heopen⟩
        · cases hdst }
  | act index =>
    obtain ⟨c, hc, hs⟩ := Option.bind_eq_some_iff.mp hs
    obtain ⟨⟨s', c'⟩, hact, rfl⟩ := Option.map_eq_some_iff.mp hs
    exact h.act hc hfresh hact
  | fails index =>
    obtain ⟨c, hc, hs⟩ := Option.bind_eq_some_iff.mp hs
    split_ifs at hs
    obtain rfl : _ = w' := Option.some.inj hs
    have hcalls : ∀ d ∈ w.calls.set index .thrown, d ∈ w.calls ∨ d = .thrown := fun d hd =>
      List.mem_or_eq_of_mem_set hd
    exact {
      valid := by
        intro d hd
        rcases hcalls d hd with hd | rfl
        · exact h.valid d hd
        · trivial
      stored := by
        intro d hd hdst
        rcases hcalls d hd with hd | rfl
        · exact h.stored d hd hdst
        · cases hdst
      wakes := fun _ => Or.inr
        ⟨.thrown, List.mem_set (List.getElem?_eq_some_iff.mp hc).1 _, trivial⟩ }
  | fire =>
    obtain ⟨n, hn, hs⟩ := Option.bind_eq_some_iff.mp hs
    split_ifs at hs
    obtain rfl : _ = w' := Option.some.inj hs
    exact {
      valid := h.valid
      stored := h.stored
      wakes := fun hst => (h.wakes hst).imp (wakes_fire hn) id }

theorem reachable (h : WakeWorld.system.ReachableWhere (fun w l => w.isFresh l = true) w) :
    WakeInv w := by
  refine h.invariant ?_ fun w w' l _ hw hfresh hs => hw.step hfresh hs
  intro w hcalls
  have hnone : ∀ c, c ∉ w.calls := by
    intro c hc
    rw [hcalls] at hc
    cases hc
  exact {
    valid := fun c hc => absurd hc (hnone c)
    stored := fun c hc => absurd hc (hnone c)
    wakes := fun ⟨c, hc, _⟩ => absurd hc (hnone c) }

end WakeInv

/-- **Concurrent reschedules converge**, where no repair comes after a further store: once all calls
have resolved, the email is woken up at the stored time. -/
theorem reschedules_converge {w : WakeWorld}
    (h : WakeWorld.system.ReachableWhere (fun w l => w.isFresh l = true) w) (hne : w.calls ≠ [])
    (hresolved : ∀ c ∈ w.calls, c = .resolved) : w.toWakeState.Wakes := by
  have hinv := WakeInv.reachable h
  obtain ⟨c, hc⟩ := List.exists_mem_of_ne_nil _ hne
  rcases hinv.wakes ⟨c, hc, by rw [hresolved c hc]; rfl⟩ with hwakes | ⟨d, hd, hopen⟩
  · exact hwakes
  · rw [hresolved d hd] at hopen
    exact hopen.elim

/-! ## Runs -/

namespace WakeWorld

/-- The sample email, which nothing wakes up yet. -/
def sample (now : ℕ) : WakeWorld where
  email := sampleCommit.email
  now := now

theorem sample_init (now : ℕ) : system.init (sample now) := rfl

/-- A call starts and stores its time. -/
def storeSteps (index scheduledAt : ℕ) : List WakeLabel :=
  [.call (.date (some scheduledAt)), .act index, .act index, .act index]

/-- A second call stores its time, sets the schedule and resolves, before the first has set it. -/
def overtakeSteps : List WakeLabel :=
  storeSteps 0 2000000 ++ storeSteps 1 4000000 ++ [.act 1, .act 1]

/-- The first call updates the schedule and finds the time of the second. -/
def findSteps : List WakeLabel := [.act 0, .act 0, .act 0]

/-- A call updates the schedule that it could not create. -/
def updateSteps (index : ℕ) : List WakeLabel := [.act index, .act index]

/-- A third call stores its time and resolves before the first repairs the schedule. -/
def staleSteps : List WakeLabel :=
  overtakeSteps ++ findSteps ++ storeSteps 2 3000000 ++ updateSteps 2 ++ [.act 2] ++ updateSteps 0

end WakeWorld

open WakeWorld in
theorem reschedules_converge_sample : ∃ w,
    system.ReachableWhere (fun w l => w.isFresh l = true) w ∧ w.calls ≠ [] ∧
      (∀ c ∈ w.calls, c = .resolved) ∧ w.toWakeState.Wakes := by
  have hrun : (system.runWhere isFresh (sample 2000)
      (overtakeSteps ++ findSteps ++ updateSteps 0)).any
        (fun w => decide (w.calls ≠ [] ∧ ∀ c ∈ w.calls, c = .resolved)) = true := by decide +kernel
  obtain ⟨w, hw, hdone⟩ :=
    TransitionSystem.exists_reachableWhere_of_run (sample_init 2000) hrun
  obtain ⟨hne, hresolved⟩ := of_decide_eq_true hdone
  exact ⟨w, hw, hne, hresolved, reschedules_converge hw hne hresolved⟩

open WakeWorld in
/-- One call to a time half a second away, whose job comes half a second late; and three calls, of
which the first repairs the schedule to a time that the third has replaced by an earlier one. -/
theorem reschedules_diverge :
    (∃ w, system.Reachable w ∧ w.calls = [.resolved] ∧ ¬ w.toWakeState.WakesInTime) ∧
      ∃ w, system.Reachable w ∧ w.calls = [.resolved, .resolved, .resolved] ∧
        ¬ w.toWakeState.WakesInTime := by
  have hnear : (system.run (sample 1500) (storeSteps 0 2000 ++ [.act 0, .act 0, .act 0])).any
      (fun w => decide (w.calls = [.resolved] ∧ ¬ w.toWakeState.WakesInTime)) = true := by
    decide +kernel
  have hstale : (system.run (sample 2000) staleSteps).any (fun w => decide
      (w.calls = [.resolved, .resolved, .resolved] ∧ ¬ w.toWakeState.WakesInTime)) = true := by
    decide +kernel
  constructor
  · obtain ⟨w, hw, h⟩ := TransitionSystem.exists_reachable_of_run (sample_init 1500) hnear
    exact ⟨w, hw, of_decide_eq_true h⟩
  · obtain ⟨w, hw, h⟩ := TransitionSystem.exists_reachable_of_run (sample_init 2000) hstale
    exact ⟨w, hw, of_decide_eq_true h⟩

end HayaSend
