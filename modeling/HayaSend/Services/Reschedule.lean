import HayaSend.Services.Cancel

/-!
# Rescheduling

`processSend` decides on one read whether the email is due and claims it in a later operation.
The claim does not look at the schedule again, nor does the start of the attempt, so a reschedule
between the two is overtaken: the email is sent before its new time (`reschedule_overtaken`).

`not_early_iff` says that this is the only way: in every run the sends that start early are exactly
those for which the last reschedule between the read and the claim, or the start of the attempt,
wrote a time still to come.
-/

namespace HayaSend

/-- The last reschedule of an email in this part of the log, if any, wrote a time that has
come. -/
def DueBy (id : String) (log : List Event) (now : ℕ) : Prop :=
  ∀ t ∈ lastReschedule id log, t ≤ now

instance (id : String) (log : List Event) (now : ℕ) : Decidable (DueBy id log now) :=
  inferInstanceAs (Decidable (∀ t ∈ lastReschedule id log, t ≤ now))

/-- When everything before a point was due, only what comes after it counts. -/
theorem dueBy_iff_drop {id : String} {log : List Event} {n now : ℕ}
    (h : DueBy id (log.take n) now) : DueBy id log now ↔ DueBy id (log.drop n) now := by
  unfold DueBy at h ⊢
  rw [← List.take_append_drop n log, lastReschedule_append, List.take_append_drop]
  cases hd : lastReschedule id (log.drop n) with
  | none => simpa using h
  | some t => simp

/-- What a call knows of the schedule from its read on. -/
structure ReadFact (s : MemoryStore) (log : List Event) (id : String) (record : EmailRecord)
    (readAt : ℕ) : Prop where
  le : readAt ≤ log.length
  stored : ∃ e, s.emails.get id = some e ∧
    e.scheduledAt = (lastReschedule id (log.drop readAt)).or record.scheduledAt
  before : ∀ t ∈ lastReschedule id (log.take readAt), record.scheduledAt = some t

/-- The record of a claim was due at the claim. -/
def ClaimDue (sending : EmailRecord) : Prop := ∀ t ∈ sending.scheduledAt, t ≤ sending.updatedAt

instance (sending : EmailRecord) : Decidable (ClaimDue sending) :=
  inferInstanceAs (Decidable (∀ t ∈ sending.scheduledAt, t ≤ sending.updatedAt))

/-- What a call knows of the schedule from its claim on. -/
structure ClaimFact (now : ℕ) (log : List Event) (id : String) (sending : EmailRecord)
    (readAt claimedAt : ℕ) : Prop where
  read_le : readAt ≤ log.length
  claimed_le : claimedAt ≤ log.length
  due : DueBy id (log.take readAt) now
  claim : ClaimDue sending ↔ DueBy id ((log.take claimedAt).drop readAt) sending.updatedAt

/-- What a `processSend` call knows of the schedule where it stands. -/
def SendPc.Timed (now : ℕ) (s : MemoryStore) (log : List Event) (id : String) : SendPc → Prop
  | .delay record readAt => ReadFact s log id record readAt
  | .findSuppressed record readAt | .claim record readAt =>
    ReadFact s log id record readAt ∧ ∀ t ∈ record.scheduledAt, t ≤ now
  | .ledger sending readAt claimedAt | .begin sending _ readAt claimedAt
  | .send sending _ readAt claimedAt => ClaimFact now log id sending readAt claimedAt
  | _ => True

theorem ReadFact.stable {s s' : MemoryStore} {f : MemoryStore.Footprint} {log new : List Event}
    (h : s.Step s' f) (hf : ∀ k, f.schedule k = lastReschedule k new) {id : String}
    {record : EmailRecord} {readAt : ℕ} (hr : ReadFact s log id record readAt) :
    ReadFact s' (log ++ new) id record readAt where
  le := by
    rw [List.length_append]
    exact hr.le.trans (Nat.le_add_right _ _)
  stored := by
    obtain ⟨e, he, hsch⟩ := hr.stored
    obtain ⟨e', he', hsch'⟩ := h.emails id e he
    refine ⟨e', he', ?_⟩
    rw [hsch', hsch, hf, List.drop_append_of_le_length hr.le, lastReschedule_append,
      Option.or_assoc]
  before := by
    rw [List.take_append_of_le_length hr.le]
    exact hr.before

theorem ClaimFact.stable {now now' : ℕ} (hnow : now ≤ now') {log : List Event} (new : List Event)
    {id : String} {sending : EmailRecord} {readAt claimedAt : ℕ}
    (h : ClaimFact now log id sending readAt claimedAt) :
    ClaimFact now' (log ++ new) id sending readAt claimedAt where
  read_le := by
    rw [List.length_append]
    exact h.read_le.trans (Nat.le_add_right _ _)
  claimed_le := by
    rw [List.length_append]
    exact h.claimed_le.trans (Nat.le_add_right _ _)
  due := by
    rw [List.take_append_of_le_length h.read_le]
    exact fun t ht => (h.due t ht).trans hnow
  claim := by
    rw [List.take_append_of_le_length h.claimed_le]
    exact h.claim

theorem SendPc.Timed.stable {now now' : ℕ} {s s' : MemoryStore} {f : MemoryStore.Footprint}
    {log new : List Event} (hnow : now ≤ now') (h : s.Step s' f)
    (hf : ∀ k, f.schedule k = lastReschedule k new) {id : String} {pc : SendPc}
    (ht : pc.Timed now s log id) : pc.Timed now' s' (log ++ new) id := by
  cases pc with
  | delay record readAt => exact ReadFact.stable h hf ht
  | findSuppressed record readAt | claim record readAt =>
    exact ⟨ht.1.stable h hf, fun t hm => (ht.2 t hm).trans hnow⟩
  | ledger sending readAt claimedAt | begin sending _ readAt claimedAt
  | send sending _ readAt claimedAt => exact ClaimFact.stable hnow new ht
  | _ => trivial

/-- The claim of a record that was due at the read. -/
theorem claimFact_of_claim {now attempt : ℕ} {s s' : MemoryStore} {log : List Event}
    {id : String} {record sending : EmailRecord} {readAt : ℕ}
    (hr : ReadFact s log id record readAt) (hdue : ∀ t ∈ record.scheduledAt, t ≤ now)
    (hc : s.claimEmailForSend id attempt now = some (s', sending)) :
    ClaimFact now log id sending readAt log.length where
  read_le := hr.le
  claimed_le := le_refl _
  due t ht := hdue t (hr.before t ht)
  claim := by
    obtain ⟨e, he, -, rfl, -⟩ := MemoryStore.claimEmailForSend_eq_some.mp hc
    obtain ⟨e', he', hsch⟩ := hr.stored
    rw [he, Option.some.injEq] at he'
    subst he'
    show (∀ t ∈ e.scheduledAt, t ≤ now) ↔ _
    rw [List.take_length, hsch, DueBy]
    cases lastReschedule id (log.drop readAt) with
    | none => simpa using hdue
    | some t => simp [EmailRecord.claimed]

/-- **A call keeps track of the schedule.** -/
theorem SendPc.act_timed {id : String} {attempt attempt' now : ℕ} {issued : List String}
    {s : MemoryStore} {log : List Event} {pc pc' : SendPc} {choice : Choice} {eff : Effect}
    (hlast : ∀ t ∈ lastReschedule id log, ∀ e, s.emails.get id = some e → e.scheduledAt = some t)
    (ht : pc.Timed now s log id)
    (h : pc.act id attempt now log.length issued s choice = some eff)
    (hn : eff.next = .goto (.send id attempt' pc')) :
    pc'.Timed now eff.store (log ++ eff.log) id := by
  unfold SendPc.act at h
  split at h
  case h_1 =>
    -- getEmail
    split at h
    · cases h
      cases hn
    · rename_i record he
      split_ifs at h <;> cases h <;> cases hn
      refine ⟨by simp, ⟨record, he, by simp⟩, fun t hm => ?_⟩
      rw [List.append_nil, List.take_length] at hm
      exact hlast t hm record he
  case h_2 =>
    -- delay
    rename_i record readAt
    split_ifs at h with hdelay <;> cases h <;> cases hn
    · trivial
    · rw [List.append_nil]
      refine ⟨ht, fun t hm => ?_⟩
      rw [Option.mem_def] at hm
      simpa [hm, secondsUntil_pos_iff] using hdelay
  case h_4 =>
    -- findSuppressed
    split_ifs at h <;> cases h <;> cases hn
    · trivial
    · rw [List.append_nil]
      exact ht
  case h_8 =>
    -- claim
    split at h <;> cases h <;> cases hn
    rename_i hc
    rw [List.append_nil]
    exact claimFact_of_claim ht.1 ht.2 hc
  case h_9 =>
    -- ledger, with a new attempt
    split at h
    · cases h
    · split_ifs at h
      cases h
      cases hn
      rw [List.append_nil]
      exact ht
  case h_10 =>
    -- ledger
    split at h <;> cases h
    cases hn
    rw [List.append_nil]
    exact ht
  case h_11 =>
    -- begin
    split at h <;> cases h <;> cases hn
    exact ClaimFact.stable (le_refl now) _ ht
  all_goals
    try dsimp only at h
    repeat' split at h
    all_goals first
      | (cases h; cases hn; trivial)
      | (cases h; cases hn)
      | cases h

/-! ## The schedule in every run -/

/-- A step that logs a reschedule finds the email. -/
theorem logged_rescheduled {now : ℕ} {s : MemoryStore} {task : Task} {eff : Effect}
    (hl : task.Logs now s eff) {id : String} {t : ℕ} (ht : t ∈ lastReschedule id eff.log) :
    s.HasEmail id := by
  have hsingle : ∀ k t', t ∈ lastReschedule id [.rescheduled k t'] → k = id := by
    intro k t' hm
    by_contra hk
    simp [lastReschedule, Event.rescheduledAt, hk] at hm
  cases hl with
  | silent hnil =>
    rw [hnil] at ht
    cases ht
  | moved hc =>
    obtain rfl := hsingle _ _ ht
    obtain ⟨e, -, -, he, -⟩ := MemoryStore.rescheduleEmailAndOutbox_eq_some.mp hc
    exact ⟨e, he⟩
  | updated hu =>
    obtain rfl := hsingle _ _ ht
    obtain ⟨e, he, -⟩ := MemoryStore.updateEmail_eq_some.mp hu
    exact ⟨e, he⟩
  | _ => cases ht

theorem logged_begun {now : ℕ} {s : MemoryStore} {task : Task} {eff : Effect}
    (hl : task.Logs now s eff) {id a : String} {t readAt : ℕ}
    (he : .attemptBegun id a t readAt ∈ eff.log) : t = now ∧ eff.log = [.attemptBegun id a t readAt] ∧
      ∃ attempt sending b claimedAt, task = .send id attempt (.begin sending b readAt claimedAt) := by
  cases hl with
  | silent hnil =>
    rw [hnil] at he
    cases he
  | begun =>
    rw [List.mem_singleton, Event.attemptBegun.injEq] at he
    obtain ⟨rfl, rfl, rfl, rfl⟩ := he
    exact ⟨rfl, rfl, _, _, _, _, rfl⟩
  | _ => simp at he

namespace World

/-- What the log, the store and the calls say of the schedules. -/
structure ScheduleInv (w : World) : Prop where
  last : ∀ id, ∀ t ∈ lastReschedule id w.log, ∃ e, w.store.emails.get id = some e ∧
    e.scheduledAt = some t
  timed : ∀ (i : ℕ) (x : Process), w.procs[i]? = some x → ∀ id attempt pc,
    x.task = .send id attempt pc → pc.Timed w.now w.store w.log id
  started : ∀ id a sending readAt claimedAt,
    .transportStarted id a sending readAt claimedAt ∈ w.log → claimedAt ≤ w.log.length ∧
      (ClaimDue sending ↔ DueBy id ((w.log.take claimedAt).drop readAt) sending.updatedAt)
  begun : ∀ before after id a t readAt, w.log = before ++ .attemptBegun id a t readAt :: after →
    (DueBy id before t ↔ DueBy id (before.drop readAt) t)

variable {w w' : World}

theorem ScheduleInv.quiet (hi : w.Inv) (h : w.ScheduleInv) (hq : w.Quiet w') :
    w'.ScheduleInv := by
  have hstep := hi.step_quiet hq
  refine ⟨?_, ?_, hq.log ▸ h.started, hq.log ▸ h.begun⟩
  · rw [hq.log]
    intro id t ht
    obtain ⟨e, he, hsch⟩ := h.last id t ht
    obtain ⟨e', he', hsch'⟩ := hstep.emails id e he
    exact ⟨e', he', by rw [hsch', Option.none_or, hsch]⟩
  · intro i x hx id attempt pc htask
    rcases hq.procs i x hx with hx | hx
    · have hf : ∀ k, none = lastReschedule k [] := fun _ => rfl
      have := (h.timed i x hx id attempt pc htask).stable hq.now hstep hf
      rwa [List.append_nil, ← hq.log] at this
    · have hstart := hx.start
      rw [htask] at hstart
      cases pc <;> trivial

theorem ScheduleInv.after (hi : w.Inv) (h : w.ScheduleInv) {p : ℕ} {x : Process}
    (hp : w.procs[p]? = some x) {choice : Choice} {eff : Effect}
    (he : x.task.act w.now w.log.length w.issued w.store choice = some eff) :
    (w.after p x eff).ScheduleInv := by
  have ha := hi.acted hp he
  have hl := Task.act_logs he
  refine ⟨?_, ?_, ?_, ?_⟩
  · intro id t ht
    -- either this step moved the schedule, or it is the one before
    have hemail : w.store.HasEmail id := by
      rw [World.after, lastReschedule_append, Option.mem_def, Option.or_eq_some_iff] at ht
      rcases ht with ht | ⟨-, ht⟩
      · exact logged_rescheduled hl ht
      · obtain ⟨e, hget, -⟩ := h.last id t ht
        exact ⟨e, hget⟩
    obtain ⟨e, hget⟩ := hemail
    obtain ⟨e', he', hsch⟩ := ha.step.emails id e hget
    refine ⟨e', he', ?_⟩
    rw [hsch]
    rw [World.after, lastReschedule_append, Option.mem_def] at ht
    show (lastReschedule id eff.log).or e.scheduledAt = some t
    cases hnew : lastReschedule id eff.log with
    | some t' =>
      rw [hnew] at ht
      exact ht
    | none =>
      rw [hnew, Option.none_or] at ht
      obtain ⟨e₀, hget₀, hsch₀⟩ := h.last id t ht
      rw [hget, Option.some.injEq] at hget₀
      rw [Option.none_or, hget₀, hsch₀]
  · intro i y hy id attempt pc htask
    rcases after_procs hy with ⟨-, hy⟩ | ⟨-, ⟨task, hn, rfl⟩ | rfl⟩
    · exact (h.timed i y hy id attempt pc htask).stable (le_refl _) ha.step fun _ => rfl
    · obtain rfl : task = .send id attempt pc := htask
      obtain ⟨job, task⟩ := x
      obtain ⟨attempt', pc', rfl⟩ := Task.eq_send (ha.subject _ hn).symm
      refine SendPc.act_timed (fun t ht e hget => ?_) (h.timed p _ hp id attempt' pc' rfl) he hn
      obtain ⟨e', hget', hsch⟩ := h.last id t ht
      rw [hget, Option.some.injEq] at hget'
      exact hget' ▸ hsch
    · cases htask
  · intro id a sending readAt claimedAt hm
    have hlen : w.log.length ≤ (w.log ++ eff.log).length := by simp
    have hold : claimedAt ≤ w.log.length →
        (ClaimDue sending ↔ DueBy id ((w.log.take claimedAt).drop readAt) sending.updatedAt) →
        claimedAt ≤ (w.log ++ eff.log).length ∧ (ClaimDue sending ↔
          DueBy id (((w.log ++ eff.log).take claimedAt).drop readAt) sending.updatedAt) := by
      intro hle hiff
      rw [List.take_append_of_le_length hle]
      exact ⟨hle.trans hlen, hiff⟩
    rcases List.mem_append.mp hm with hm | hm
    · obtain ⟨hle, hiff⟩ := h.started id a sending readAt claimedAt hm
      exact hold hle hiff
    · obtain ⟨attempt, htask⟩ := logged_started hl hm
      have hfact := h.timed p x hp id attempt _ htask
      exact hold hfact.claimed_le hfact.claim
  · intro before after id a t readAt hlog
    rcases append_eq_append_cons hlog with ⟨m, hold, -⟩ | ⟨m, hbefore, hnew⟩
    · exact h.begun before m id a t readAt hold
    · obtain ⟨rfl, hsingle, attempt, sending, b, claimedAt, htask⟩ :=
        logged_begun hl (hnew.symm ▸ List.mem_append_right m List.mem_cons_self)
      obtain rfl : m = [] := by
        have := congrArg List.length (hsingle.symm.trans hnew)
        simp only [List.length_append, List.length_cons, List.length_nil] at this
        exact List.length_eq_zero_iff.mp (by omega)
      rw [hbefore, List.append_nil]
      exact dueBy_iff_drop (h.timed p x hp id attempt _ htask).due

theorem reachable_scheduleInv (h : system.Reachable w) : w.ScheduleInv := by
  refine h.invariant ?_ ?_
  · rintro _ ⟨now, rfl⟩
    exact ⟨fun _ _ h => (by cases h), fun _ _ h => (by cases h), fun _ _ _ _ _ h => (by cases h),
      fun _ _ _ _ _ _ h => (by simp at h)⟩
  · intro w w' l hr hi hs
    have hinv := reachable_inv hr
    rcases step_cases hs with hq | ⟨p, choice, x, eff, -, hp, he, rfl⟩
    · exact hi.quiet hinv hq
    · exact hi.after hinv hp he

/-- No email was sent before its time: what a claim that went on to the transport found stored
was due at the claim, and where an attempt began, the time of the last reschedule had come. -/
def NotEarly (w : World) : Prop :=
  (∀ id a sending readAt claimedAt,
    .transportStarted id a sending readAt claimedAt ∈ w.log → ClaimDue sending) ∧
  ∀ before after id a t readAt,
    w.log = before ++ .attemptBegun id a t readAt :: after → DueBy id before t

/-- No reschedule to a time still to come fell between the read of a call and its claim, or the
start of its attempt. -/
def NotOvertaken (w : World) : Prop :=
  (∀ id a sending readAt claimedAt,
    .transportStarted id a sending readAt claimedAt ∈ w.log →
      DueBy id ((w.log.take claimedAt).drop readAt) sending.updatedAt) ∧
  ∀ before after id a t readAt,
    w.log = before ++ .attemptBegun id a t readAt :: after → DueBy id (before.drop readAt) t

end World

/-- **A send is early exactly when it overtook a reschedule**, in every run. -/
theorem not_early_iff {w : World} (h : World.system.Reachable w) :
    w.NotEarly ↔ w.NotOvertaken := by
  have hi := World.reachable_scheduleInv h
  refine and_congr ?_ ?_
  · exact forall₅_congr fun id a sending readAt claimedAt =>
      imp_congr_right fun hm => (hi.started id a sending readAt claimedAt hm).2
  · refine forall₄_congr fun before after id a => forall₂_congr fun t readAt => ?_
    exact imp_congr_right fun hlog => hi.begun before after id a t readAt hlog

/-- A reschedule by an hour, the third process, between the read of a worker and its claim. -/
def World.rescheduleOvertaken : List Label :=
  deliverSample ++ [.act 1 .go, .act 1 .go, .act 1 (.suppressed false),
    .call (.reschedule "email_0123456789abcdef" (.getEmail (.relative 1 .hours))), .act 2 .go,
    .act 2 .go, .act 2 .go, .act 1 .go, .act 1 (.attemptId "attempt_0123456789abcdef012345"),
    .act 1 .go, .act 1 .go]

def World.isSentEarly (w : World) : Bool :=
  match w.log with
  | [_, _, .transportStarted _ _ sending _ _] => !decide (ClaimDue sending)
  | _ => false

theorem reschedule_overtaken : ∃ w, World.system.Reachable w ∧ ¬ w.NotEarly := by
  have hrun : (World.system.run { now := 2000 } World.rescheduleOvertaken).any
      World.isSentEarly := by decide +kernel
  obtain ⟨w, hw, hearly⟩ :=
    TransitionSystem.exists_reachable_of_run (T := World.system) ⟨2000, rfl⟩ hrun
  refine ⟨w, hw, fun h => ?_⟩
  unfold World.isSentEarly at hearly
  split at hearly
  · rename_i e₁ e₂ id a sending readAt claimedAt hlog
    rw [Bool.not_eq_true', decide_eq_false_iff_not] at hearly
    exact hearly (h.1 id a sending readAt claimedAt (by simp [hlog]))
  · cases hearly

theorem not_early_iff_sample : ∃ w, World.system.Reachable w ∧ w.log ≠ [] ∧
    (w.NotEarly ↔ w.NotOvertaken) := by
  have hrun : (World.system.run { now := 2000 } World.rescheduleOvertaken).any
      (fun w => !w.log.isEmpty) := by decide +kernel
  obtain ⟨w, hw, hlog⟩ :=
    TransitionSystem.exists_reachable_of_run (T := World.system) ⟨2000, rfl⟩ hrun
  exact ⟨w, hw, by simpa using hlog, not_early_iff hw⟩

end HayaSend
