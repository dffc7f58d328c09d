import HayaSend.Foundations.CappedWaits
import HayaSend.Services.AwsReschedule

/-!
# Delayed hops

A `send_email` message that is delivered before the email is due is put back by
`QueueEmailScheduler.rescheduleDelivery`, with a delay of at most 900 seconds. Each `processSend`
call of such a chain reads the email, compares its schedule with the clock, and either leaves the
message of the next hop or goes on to claim; the delay is computed from a later reading of the clock
than the comparison. The message is delivered when its delay is over or any time after.

The chain ends: every call finds less time left than the one before it, and after as many hops as
900 seconds fit into the 30 days of a schedule one goes on to claim. None claims early
(`chain_claims_in_time`).
-/

namespace HayaSend

/-! ## One call -/

/-- `QueueEmailScheduler.rescheduleDelivery`: the message, and the delay the queue is told. -/
def QueueEmailScheduler.rescheduleDelivery (job : Job) (scheduledAt now enqueuedAt : ℕ) :
    DelayedJob :=
  ⟨job, now, enqueuedAt, delaySecondsUntil (some scheduledAt) now⟩

/-- A `processSend` call of the chain: what it reads, and when it does what. -/
structure HopCall where
  attempt : ℕ
  store : MemoryStore
  readAt : ℕ
  /-- `secondsUntil` reads the clock, -/
  checkedAt : ℕ
  /-- and `rescheduleDelivery` reads it again. -/
  delayedFrom : ℕ
  enqueuedAt : ℕ
  claimedAt : ℕ

/-- The clock does not go back during a call. -/
structure HopCall.Ordered (call : HopCall) : Prop where
  checked : call.readAt ≤ call.checkedAt
  delayed : call.checkedAt ≤ call.delayedFrom
  enqueued : call.delayedFrom ≤ call.enqueuedAt
  claimed : call.checkedAt ≤ call.claimedAt

/-- How far a call of the chain gets. -/
inductive HopOutcome
  /-- It leaves a message for the next call. -/
  | hop (message : DelayedJob)
  | claim (record : EmailRecord) (time : ℕ)
  deriving DecidableEq, Repr

/-- The place within `processSend` where a step leads. -/
def Effect.sendPlace (eff : Effect) : Option SendPc :=
  match eff.next with
  | .goto (.send _ _ pc) => some pc
  | _ => none

namespace HopCall

/-- A step of the call. -/
def act (call : HopCall) (id : String) (now : ℕ) (pc : SendPc) (choice : Choice) :
    Option Effect :=
  pc.act id call.attempt now 0 [] call.store choice

/-- The call up to its hop or its claim, when no recipient is suppressed. -/
def outcome (call : HopCall) (id : String) : Option HopOutcome := do
  let read ← (← call.act id call.readAt .getEmail .go).sendPlace
  match read with
  | .delay record readAt =>
    let checked ← (← call.act id call.checkedAt (.delay record readAt) .go).sendPlace
    match checked with
    | .requeue =>
      let requeued ← call.act id call.enqueuedAt .requeue .go
      let job ← requeued.enqueued.head?
      let scheduledAt ← record.scheduledAt
      some (.hop (QueueEmailScheduler.rescheduleDelivery job scheduledAt call.delayedFrom
        call.enqueuedAt))
    | .findSuppressed record readAt =>
      let found ← (← call.act id call.checkedAt (.findSuppressed record readAt)
        (.suppressed false)).sendPlace
      match found with
      | .claim record _ => some (.claim record call.claimedAt)
      | _ => none
    | _ => none
  | _ => none

/-- The email as the call reads it is scheduled for this time and has no final status. -/
def Finds (call : HopCall) (id : String) (scheduledAt : ℕ) : Prop :=
  ∃ record, call.store.getEmail id = some record ∧ record.scheduledAt = some scheduledAt ∧
    record.status.isFinal = false

variable {call : HopCall} {id : String} {scheduledAt : ℕ}

/-- The call leaves a message exactly when the time is ahead. -/
theorem outcome_eq (h : call.Finds id scheduledAt) : ∃ record, call.outcome id =
    if call.checkedAt < scheduledAt then
      some (.hop (QueueEmailScheduler.rescheduleDelivery (.sendEmail id none) scheduledAt
        call.delayedFrom call.enqueuedAt))
    else some (.claim record call.claimedAt) := by
  obtain ⟨record, hget, hscheduled, hfinal⟩ := h
  refine ⟨record, ?_⟩
  by_cases hahead : call.checkedAt < scheduledAt
  · rw [if_pos hahead]
    simp [outcome, act, SendPc.act, Effect.sendPlace, hget, hfinal, hscheduled,
      secondsUntil_pos_iff, hahead]
  · rw [if_neg hahead]
    simp [outcome, act, SendPc.act, Effect.sendPlace, hget, hfinal, hscheduled,
      secondsUntil_pos_iff, hahead]

theorem outcome_of_lt (h : call.Finds id scheduledAt) (hlt : call.checkedAt < scheduledAt) :
    call.outcome id = some (.hop (QueueEmailScheduler.rescheduleDelivery (.sendEmail id none)
      scheduledAt call.delayedFrom call.enqueuedAt)) := by
  obtain ⟨_, heq⟩ := outcome_eq h
  rwa [if_pos hlt] at heq

theorem outcome_of_le (h : call.Finds id scheduledAt) (hle : scheduledAt ≤ call.checkedAt) :
    ∃ record, call.outcome id = some (.claim record call.claimedAt) := by
  obtain ⟨record, heq⟩ := outcome_eq h
  exact ⟨record, by rwa [if_neg hle.not_gt] at heq⟩

/-- A call that goes on to claim has found the time reached. -/
theorem le_of_outcome_claim (h : call.Finds id scheduledAt) (hordered : call.Ordered)
    {record : EmailRecord} {time : ℕ} (hclaim : call.outcome id = some (.claim record time)) :
    scheduledAt ≤ time := by
  obtain ⟨_, heq⟩ := outcome_eq h
  rw [hclaim] at heq
  split_ifs at heq with hlt
  · cases heq
  · obtain ⟨-, rfl⟩ := HopOutcome.claim.inj (Option.some.inj heq)
    exact (not_lt.mp hlt).trans hordered.claimed

end HopCall

/-! ## The chain -/

/-- The calls of a chain on an email whose schedule does not change. A message is delivered no
earlier than its delay allows. -/
structure IsHopChain (id : String) (scheduledAt start : ℕ) (calls : ℕ → HopCall) : Prop where
  start : start ≤ (calls 0).readAt
  finds : ∀ i, (calls i).Finds id scheduledAt
  ordered : ∀ i, (calls i).Ordered
  delivered : ∀ i message, (calls i).outcome id = some (.hop message) →
    message.dueAt ≤ (calls (i + 1)).readAt

theorem delaySecondsUntil_eq_cappedWait (scheduledAt now : ℕ) :
    delaySecondsUntil (some scheduledAt) now = cappedWait 1000 900 scheduledAt now := by
  rw [delaySecondsUntil, cappedWait, secondsUntil, Nat.ceilDiv_eq_add_pred_div]
  rfl

/-- The calls of a chain wait for the schedule in capped hops. -/
theorem IsHopChain.waits {id : String} {scheduledAt start : ℕ} {calls : ℕ → HopCall}
    (h : IsHopChain id scheduledAt start calls) :
    Waits 1000 900 scheduledAt fun i => (calls i).checkedAt := by
  intro i hlt
  have hdelivered := h.delivered i _ (HopCall.outcome_of_lt (h.finds i) hlt)
  refine ⟨(calls i).delayedFrom, (h.ordered i).delayed, ?_⟩
  rw [← delaySecondsUntil_eq_cappedWait]
  calc (calls i).delayedFrom + 1000 * delaySecondsUntil (some scheduledAt) (calls i).delayedFrom
      ≤ (calls i).enqueuedAt + 1000 * delaySecondsUntil (some scheduledAt) (calls i).delayedFrom :=
        Nat.add_le_add_right (h.ordered i).enqueued _
    _ ≤ (calls (i + 1)).readAt := hdelivered
    _ ≤ (calls (i + 1)).checkedAt := (h.ordered (i + 1)).checked

/-- **The chain ends, and is never early.** After at most 2880 hops a call goes on to claim, each
call before it leaves a message and finds more time left than the next one, and no call of the chain
claims before the schedule. -/
theorem chain_claims_in_time {value : Option ScheduleText} {now scheduledAt : ℕ}
    (hparsed : parseScheduledAt value now = .ok (some scheduledAt)) {id : String}
    {calls : ℕ → HopCall} (hchain : IsHopChain id scheduledAt now calls) :
    ∃ n ≤ 2880, (∃ record, (calls n).outcome id = some (.claim record (calls n).claimedAt)) ∧
      (∀ i < n, (∃ message, (calls i).outcome id = some (.hop message)) ∧
        scheduledAt - (calls (i + 1)).checkedAt < scheduledAt - (calls i).checkedAt) ∧
      ∀ i record time, (calls i).outcome id = some (.claim record time) → scheduledAt ≤ time := by
  have hbound : scheduledAt ≤ (calls 0).checkedAt + 2880 * (1000 * 900) := by
    have hmax := (parseScheduledAt_eq_ok hparsed).2
    have hstart := hchain.start.trans (hchain.ordered 0).checked
    rw [maxScheduleMs] at hmax
    omega
  obtain ⟨n, hn, hreached, hbefore⟩ :=
    hchain.waits.exists_reached (by decide) (by decide) hbound
  refine ⟨n, hn, HopCall.outcome_of_le (hchain.finds n) hreached, fun i hi => ?_,
    fun i record time hclaim =>
      HopCall.le_of_outcome_claim (hchain.finds i) (hchain.ordered i) hclaim⟩
  obtain ⟨hahead, hnext⟩ := hbefore i hi
  exact ⟨⟨_, HopCall.outcome_of_lt (hchain.finds i) hahead⟩, Nat.sub_lt_sub_left hahead hnext⟩

/-! ## An email due in half an hour and half a second -/

def delayedEmail : EmailRecord where
  id := "email_1"
  to_ := ["a@example.com"]
  scheduledAt := some 1800500
  status := .scheduled
  lastEvent := .status .scheduled
  createdAt := 0
  updatedAt := 0
  requestHash := "hash"
  attempts := 0

/-- A call that does everything at one time. -/
def instantCall (time : ℕ) : HopCall :=
  ⟨1, { emails := .ofList [("email_1", delayedEmail)] }, time, time, time, time, time⟩

/-- Two hops of 900 seconds, and one of a second for the half. -/
def punctualTime (i : ℕ) : ℕ := min (900000 * i) 1801000

theorem isHopChain_punctual :
    IsHopChain "email_1" 1800500 0 fun i => instantCall (punctualTime i) where
  start := le_rfl
  finds i := ⟨delayedEmail, rfl, rfl, rfl⟩
  ordered i := ⟨le_rfl, le_rfl, le_rfl, le_rfl⟩
  delivered i message hmessage := by
    have hfinds : (instantCall (punctualTime i)).Finds "email_1" 1800500 :=
      ⟨delayedEmail, rfl, rfl, rfl⟩
    obtain ⟨_, heq⟩ := HopCall.outcome_eq hfinds
    rw [hmessage] at heq
    split_ifs at heq with hahead
    · have hdue : message.dueAt =
          punctualTime i + 1000 * delaySecondsUntil (some 1800500) (punctualTime i) := by
        rw [HopOutcome.hop.inj (Option.some.inj heq)]
        rfl
      have hlt : punctualTime i < 1800500 := hahead
      have hnext : (instantCall (punctualTime (i + 1))).readAt = punctualTime (i + 1) := rfl
      rw [hdue, hnext, delaySecondsUntil, secondsUntil]
      simp only [punctualTime] at hlt ⊢
      omega
    · cases heq

theorem chain_claims_in_time_sample :
    parseScheduledAt (some (.date (some 1800500))) 0 = .ok (some 1800500) ∧
      ∃ n ≤ 2880, (∃ record, (instantCall (punctualTime n)).outcome "email_1" =
          some (.claim record (punctualTime n))) ∧
        (∀ i < n, (∃ message, (instantCall (punctualTime i)).outcome "email_1" =
            some (.hop message)) ∧
          1800500 - punctualTime (i + 1) < 1800500 - punctualTime i) ∧
        ∀ i record time, (instantCall (punctualTime i)).outcome "email_1" =
          some (.claim record time) → 1800500 ≤ time := by
  have hparsed : parseScheduledAt (some (.date (some 1800500))) 0 = .ok (some 1800500) := by
    decide
  exact ⟨hparsed, chain_claims_in_time hparsed isHopChain_punctual⟩

end HayaSend
