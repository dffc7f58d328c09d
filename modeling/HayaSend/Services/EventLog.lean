import HayaSend.Services.WorldInvariant

/-!
# What a step of a call logs

`Task.Logs` lists the steps that log an event, each with the place of the call that makes it and
what it does; every other step logs nothing. The theorems about the log read it off from here.
-/

namespace HayaSend

/-- The steps of a call that log an event. -/
inductive Task.Logs (now : ℕ) (s : MemoryStore) : Task → Effect → Prop
  | silent {task : Task} {eff : Effect} : eff.log = [] → Logs now s task eff
  | begun {id : String} {attempt : ℕ} {sending : EmailRecord} {a : AttemptRecord}
      {readAt claimedAt : ℕ} {s' : MemoryStore} {r : DeliveryLedgerMutationResult} :
      s.beginDeliveryAttempt a = .ok (s', some r) →
      Logs now s (.send id attempt (.begin sending a readAt claimedAt)) {
        store := s'
        log := [.attemptBegun id a.id now readAt]
        next := .goto (.send id attempt (.send sending (some a.id) readAt claimedAt)) }
  | started {id : String} {attempt : ℕ} {sending : EmailRecord} {a : Option String}
      {readAt claimedAt : ℕ} :
      Logs now s (.send id attempt (.send sending a readAt claimedAt)) {
        store := s
        log := [.transportStarted id a sending readAt claimedAt]
        next := .goto (.send id attempt (.transport sending a)) }
  | accepted {id : String} {attempt : ℕ} {sending : EmailRecord} {a : Option String}
      {providerId : String} :
      Logs now s (.send id attempt (.transport sending a)) {
        store := s
        log := [.transportAccepted id a]
        next := .goto (.send id attempt (.accepted sending a providerId)) }
  | canceled {id : String} {record : EmailRecord} :
      Logs now s (.cancel id (.resolve record)) {
        store := s
        log := [.cancelResolved id record]
        next := .resolve }
  | moved {id : String} {t : ℕ} {s' : MemoryStore} {record : EmailRecord} :
      s.rescheduleEmailAndOutbox id t now = some (s', record) →
      Logs now s (.reschedule id (.store t)) {
        store := s'
        log := [.rescheduled id t]
        next := .goto (.reschedule id (.schedule t true)) }
  | updated {id : String} {t updatedAt : ℕ} {s' : MemoryStore} {record : EmailRecord} :
      s.updateEmail id (rescheduleUpdates t updatedAt) (some pendingStatuses) = some (s', record) →
      Logs now s (.reschedule id (.update t updatedAt)) {
        store := s'
        log := [.rescheduled id t]
        next := .goto (.reschedule id (.schedule t false)) }

theorem SendPc.act_logs {id : String} {attempt now logged : ℕ} {issued : List String}
    {s : MemoryStore} {pc : SendPc} {choice : Choice} {eff : Effect}
    (h : pc.act id attempt now logged issued s choice = some eff) :
    Task.Logs now s (.send id attempt pc) eff := by
  unfold SendPc.act at h
  split at h
  case h_11 =>
    -- begin
    split at h <;> cases h
    · exact .silent rfl
    · exact .silent rfl
    · rename_i hb
      exact .begun hb
  case h_12 =>
    -- send
    cases h
    exact .started
  case h_14 =>
    -- transport
    cases h
    exact .accepted
  all_goals
    try dsimp only at h
    repeat' split at h
    all_goals first
      | (cases h; exact .silent rfl)
      | cases h

theorem CancelPc.act_logs {id : String} {now : ℕ} {s : MemoryStore} {pc : CancelPc}
    {eff : Effect} (h : pc.act id now s = some eff) : Task.Logs now s (.cancel id pc) eff := by
  cases pc with
  | resolve record =>
    cases h
    exact .canceled
  | _ =>
    simp only [act] at h
    repeat' split at h
    all_goals
      cases h
      exact .silent rfl

theorem ReschedulePc.act_logs {id : String} {now : ℕ} {s : MemoryStore} {pc : ReschedulePc}
    {choice : Choice} {eff : Effect} (h : pc.act id now s choice = some eff) :
    Task.Logs now s (.reschedule id pc) eff := by
  unfold ReschedulePc.act at h
  split at h
  case h_3 =>
    -- store
    split at h <;> cases h
    · exact .silent rfl
    · rename_i hc
      exact .moved hc
  case h_4 =>
    -- update
    split at h <;> cases h
    · exact .silent rfl
    · rename_i hc
      exact .updated hc
  all_goals
    repeat' split at h
    all_goals first
      | (cases h; exact .silent rfl)
      | cases h

theorem ProviderEventPc.act_log {id : String} {status : EmailStatus} {receivedAt : ℕ}
    {s : MemoryStore} {pc : ProviderEventPc} {choice : Choice} {eff : Effect}
    (h : pc.act id status receivedAt s choice = some eff) : eff.log = [] := by
  unfold ProviderEventPc.act at h
  repeat' split at h
  all_goals first
    | (cases h; rfl)
    | cases h

theorem CreatePc.act_log {s : MemoryStore} {pc : CreatePc} {choice : Choice} {eff : Effect}
    (h : pc.act s choice = some eff) : eff.log = [] := by
  unfold CreatePc.act at h
  repeat' split at h
  all_goals first
    | (cases h; rfl)
    | cases h

theorem SweepPc.act_log {owner : String} {leaseSeconds limit now : ℕ} {s : MemoryStore}
    {pc : SweepPc} {choice : Choice} {eff : Effect}
    (h : pc.act owner leaseSeconds limit now s choice = some eff) : eff.log = [] := by
  unfold SweepPc.act at h
  repeat' split at h
  all_goals first
    | (cases h; rfl)
    | cases h

/-- **Every step that logs is one of the list.** -/
theorem Task.act_logs {now logged : ℕ} {issued : List String} {s : MemoryStore} {task : Task}
    {choice : Choice} {eff : Effect} (h : task.act now logged issued s choice = some eff) :
    task.Logs now s eff := by
  cases task with
  | idle => cases h
  | create pc => exact .silent (CreatePc.act_log h)
  | send id attempt pc => exact SendPc.act_logs h
  | cancel id pc =>
    cases choice with
    | go => exact CancelPc.act_logs h
    | _ => cases h
  | reschedule id pc => exact ReschedulePc.act_logs h
  | providerEvent id status receivedAt pc => exact .silent (ProviderEventPc.act_log h)
  | sweep owner leaseSeconds limit pc => exact .silent (SweepPc.act_log h)

/-- Where an event of a longer log stands: in the old part or in the new one. -/
theorem append_eq_append_cons {α : Type} {l l' before after : List α} {e : α}
    (h : l ++ l' = before ++ e :: after) :
    (∃ m, l = before ++ e :: m ∧ after = m ++ l') ∨ ∃ m, before = l ++ m ∧ l' = m ++ e :: after := by
  rcases List.append_eq_append_iff.mp h with ⟨m, hb, hl⟩ | ⟨m, hl, ha⟩
  · exact Or.inr ⟨m, hb, hl⟩
  · cases m with
    | nil => exact Or.inr ⟨[], by simpa using hl.symm, ha.symm⟩
    | cons e' m =>
      obtain ⟨rfl, rfl⟩ := List.cons.inj ha
      exact Or.inl ⟨m, hl, rfl⟩

theorem Task.eq_send {task : Task} {id : String} (h : task.subject = .send id) :
    ∃ attempt pc, task = .send id attempt pc := by
  cases task with
  | send id' attempt pc =>
    obtain rfl : id' = id := by simpa [subject] using h
    exact ⟨attempt, pc, rfl⟩
  | _ => cases h

theorem Task.eq_cancel {task : Task} {id : String} (h : task.subject = .cancel id) :
    ∃ pc, task = .cancel id pc := by
  cases task with
  | cancel id' pc =>
    obtain rfl : id' = id := by simpa [subject] using h
    exact ⟨pc, rfl⟩
  | _ => cases h

end HayaSend
