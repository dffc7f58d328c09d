import HayaSend.Adapters.LedgerRows
import HayaSend.Foundations.TransitionSystem
import HayaSend.Services.ProviderEvents
import HayaSend.Services.Suppressions
import HayaSend.Services.World

/-!
# The consumer of Cloudflare's email events

`consumeCloudflareEmailEventBatch` takes the events of a batch one after another: it finds the
message of the event, appends the event to the ledger of the message over the D1 store, in at most
eight rounds, and then puts the recipient of a hard failure on the suppression list. An error ends
the event before that. `shouldRetryOperationalError` decides from the error whether the event comes
back or is acknowledged.

`EventWorld` is the consumer with other writers on the same messages between its requests.
-/

namespace HayaSend

/-! ## Events -/

inductive CloudflareEventType
  | delivered
  | deferred
  | bounced
  | failed
  | rejected
  | complained
  deriving DecidableEq, Repr

/-- The body of an event, of the right shape. -/
structure CloudflareEvent where
  type : CloudflareEventType
  zoneId : String
  domain : String
  eventId : String
  messageId : String
  recipient : String
  terminal : Bool
  /-- `payload.delivery.status` -/
  status : CloudflareEventType
  accountId : String
  eventSubscriptionId : String
  eventSchemaVersion : ℤ
  eventTimestamp : ℕ
  deriving DecidableEq, Repr

namespace CloudflareEvent

def hasLength (lo hi : ℕ) (s : String) : Bool := lo ≤ s.toList.length && s.toList.length ≤ hi

/-- `cloudflareEmailSendingEventSchema` -/
def isValid (e : CloudflareEvent) : Bool :=
  hasLength 1 128 e.zoneId && hasLength 1 253 e.domain &&
    providerOpaqueIdSchema e.eventId && providerOpaqueIdSchema e.messageId &&
    isEmailAddress e.recipient && decide (e.recipient.toList.length ≤ 320) &&
    hasLength 1 128 e.accountId && hasLength 1 128 e.eventSubscriptionId &&
    decide (0 < e.eventSchemaVersion) && e.status == e.type

/-- `EVENT_NORMALIZATION` -/
def normalization : CloudflareEventType →
    WebhookEventType × ProviderEventType × Option DiagnosticCategory
  | .delivered => (.delivered, .delivered, none)
  | .deferred => (.deliveryDelayed, .delayed, some .providerUnavailable)
  | .bounced => (.bounced, .bounced, some .providerRejected)
  | .failed => (.failed, .failed, some .providerError)
  | .rejected => (.failed, .rejected, some .providerRejected)
  | .complained => (.complained, .complained, none)

/-- What the consumer gives to `applyProviderEvent`. -/
def normalized (e : CloudflareEvent) (receivedAt : ℕ) : NormalizedProviderEvent where
  providerEventId := e.eventId
  providerMessageId := e.messageId
  providerAt := e.eventTimestamp
  receivedAt := receivedAt
  recipientAddresses := [e.recipient]
  providerType := some (normalization e.type).2.1
  terminal := e.terminal
  diagnosticCategory := (normalization e.type).2.2

/-- Why the recipient goes on the suppression list, `none` when it does not. -/
def suppressionReason (e : CloudflareEvent) : Option SuppressionReason :=
  match (normalization e.type).2.1 with
  | .bounced => some .bounce
  | .complained => some .complaint
  | _ => none

end CloudflareEvent

/-- `shouldRetryOperationalError`, for the errors of the code: those of the API have a status below
500, and a plain error or that of a schema is an application error. -/
def Failure.isRetried : Failure → Bool
  | .error _ | .schema _ => true
  | .validation _ | .conflict _ | .invalidState _ | .notFound _ | .preconditionFailed _
  | .unauthorized _ | .forbidden _ => false

/-! ## The consumer -/

/-- What the consumer works on: an event, when it was received, and the message it found. -/
structure EventWork where
  event : CloudflareEvent
  receivedAt : ℕ
  messageId : String
  deriving DecidableEq, Repr

inductive ConsumerPc
  | receive
  | resolve (event : CloudflareEvent) (receivedAt : ℕ)
  | ledger (work : EventWork)
  | replay (work : EventWork) (record : ProviderEventRecord)
  | commit (work : EventWork) (record : ProviderEventRecord) (retries : ℕ)
  /-- A round came too late: was it the same event? -/
  | existing (work : EventWork) (record : ProviderEventRecord) (retries : ℕ)
  | publish (work : EventWork)
  | suppress (work : EventWork)
  deriving DecidableEq, Repr

/-- An event that was acknowledged: whether its recipient belonged to the message, and was on the
suppression list. -/
structure Acked where
  work : EventWork
  isMember : Bool
  isSuppressed : Bool
  deriving DecidableEq, Repr

/-- A message of the queue; `none` is a body of another shape. -/
structure QueueMessage where
  body : Option CloudflareEvent
  timestamp : ℕ
  deriving DecidableEq, Repr

structure EventWorld where
  now : ℕ
  /-- The rows of the messages. -/
  ledgers : OrderedMap String LedgerRows := ∅
  /-- `provider_events` -/
  events : OrderedMap String ProviderEventRecord := ∅
  suppressions : SuppressionStore := ∅
  batch : List QueueMessage := []
  pc : ConsumerPc := .receive
  read : LedgerRead := {}
  acked : List Acked := []
  deriving DecidableEq

/-- A write of another client. -/
inductive OtherWrite
  | request (messageId : String) (req : LedgerRequest)
  | claim (messageId : String) (attempt : ℕ)
  | event (record : ProviderEventRecord)
  | suppress (input : SuppressionInput)
  deriving DecidableEq, Repr

inductive EventLabel
  | tick (ms : ℕ)
  | batch (messages : List QueueMessage)
  | other (write : OtherWrite)
  | query (q : LedgerQuery)
  | go
  /-- A request of the consumer fails. -/
  | fails
  deriving DecidableEq, Repr

/-- The batch of `appendProviderEvent`: the rows it leaves, `none` when the revision has moved on or
the event is stored. -/
def LedgerRows.append (rows : LedgerRows) (events : OrderedMap String ProviderEventRecord)
    (record : ProviderEventRecord) (read : DeliveryLedgerState × ℕ) :
    Except Failure (Option (LedgerRows × OrderedMap String ProviderEventRecord)) := do
  let (plan, event) ← planProviderEvent read.1 record
  if read.2 = rows.revision && !events.has event.id then
    let write : PlannedWrite := { plan := plan.toDeliveryLedgerState }
    return (write.writeTo rows.ledger).map fun ledger =>
      (⟨ledger, rows.revision + 1⟩, events.set event.id event)
  else return none

namespace EventWorld

variable (p : Platform)

/-- Whether an address is on the suppression list. -/
def isSuppressed (w : EventWorld) (address : String) : Bool :=
  match normalizeMailbox p address with
  | .ok email => w.suppressions.has (p.sha256 email)
  | .error _ => false

def isMember (w : EventWorld) (work : EventWork) : Bool :=
  (w.ledgers.get work.messageId).any fun rows => isRecipientOf p rows.ledger work.event.recipient

def goto (w : EventWorld) (pc : ConsumerPc) : EventWorld := { w with pc := pc, read := {} }

/-- `message.ack()` -/
def ack (w : EventWorld) (work : EventWork) : EventWorld :=
  { w.goto .receive with
    acked := w.acked ++ [⟨work, w.isMember p work, w.isSuppressed p work.event.recipient⟩] }

/-- The `catch`: an event that is not acknowledged comes back with a later batch. -/
def caught (w : EventWorld) (work : EventWork) (e : Failure) : EventWorld :=
  if e.isRetried then w.goto .receive else w.ack p work

/-- `findMessageIdByProviderMessageId` -/
def findMessageId (w : EventWorld) (providerMessageId : String) : Option String :=
  (w.ledgers.entries.find? fun entry => entry.2.ledger.attempts.any fun attempt =>
    attempt.provider.name == "cloudflare-email" &&
      attempt.providerMessageId == some providerMessageId).map (·.1)

/-- `providerEventReplay` -/
def replayed (w : EventWorld) (work : EventWork) (existing record : ProviderEventRecord) :
    EventWorld :=
  if existing.isEquivalentReplay record then w.goto (.publish work)
  else w.caught p work (.conflict
    "Provider event identity is already used by a different normalized event.")

/-- A step of the consumer. -/
def act (w : EventWorld) : Option EventWorld :=
  match w.pc with
  | .receive =>
    match w.batch with
    | [] => none
    | message :: batch =>
      match message.body.filter CloudflareEvent.isValid with
      -- a `ValidationError`, which is acknowledged
      | none => some { w with batch := batch }
      | some event =>
        some { w.goto (.resolve event message.timestamp) with batch := batch }
  | .resolve event receivedAt =>
    match w.findMessageId event.messageId with
    -- an `AppError` of status 503, which is retried
    | none => some (w.goto .receive)
    | some messageId => some (w.goto (.ledger ⟨event, receivedAt, messageId⟩))
  | .ledger work =>
    -- the message of an attempt has a ledger
    w.read.state.map fun read =>
      match newProviderEvent p work.messageId (CloudflareEvent.normalization work.event.type).1
        (work.event.normalized work.receivedAt) read.1 with
      | .error e => w.caught p work e
      | .ok none => w.goto (.suppress work)
      | .ok (some record) => w.goto (.replay work record)
  | .replay work record =>
    match record.parse with
    | .error e => some (w.caught p work e)
    | .ok record =>
      match w.events.get record.id with
      | some existing => some (w.replayed p work existing record)
      | none => some (w.goto (.commit work record 0))
  | .commit work record retries =>
    (w.ledgers.get work.messageId).bind fun rows =>
      w.read.state.map fun read =>
        match rows.append w.events record read with
        | .error e => w.caught p work e
        | .ok (some (rows', events)) =>
          { w.goto (.publish work) with
            ledgers := w.ledgers.set work.messageId rows'
            events := events }
        | .ok none => w.goto (.existing work record retries)
  | .existing work record retries =>
    match w.events.get record.id with
    | some existing => some (w.replayed p work existing record)
    | none =>
      if retries + 1 < 8 then some (w.goto (.commit work record (retries + 1)))
      else some (w.caught p work
        (.conflict "Provider event could not be appended after concurrent updates."))
  | .publish work => some (w.goto (.suppress work))
  | .suppress work =>
    match work.event.suppressionReason with
    | none => some (w.ack p work)
    | some reason =>
      match w.suppressions.put p ⟨work.event.recipient, reason, some work.messageId, none⟩ w.now with
      | .error e => some (w.caught p work e)
      | .ok (suppressions, _) => some ({ w with suppressions := suppressions }.ack p work)

/-- The effect of another client's write. -/
def write (w : EventWorld) : OtherWrite → Option EventWorld
  | .request messageId req =>
    (w.ledgers.get messageId).bind fun rows =>
      match rows.batch req (rows.ledger, rows.revision) with
      | .written rows' => some { w with ledgers := w.ledgers.set messageId rows' }
      | _ => none
  | .claim messageId attempt =>
    (w.ledgers.get messageId).bind fun rows =>
      (rows.claimOver .d1 attempt w.now rows.ledger.email).map fun r =>
        { w with ledgers := w.ledgers.set messageId r.1 }
  | .event record =>
    (w.ledgers.get record.messageId).bind fun rows =>
      match rows.append w.events record (rows.ledger, rows.revision) with
      | .ok (some (rows', events)) =>
        some { w with ledgers := w.ledgers.set record.messageId rows', events := events }
      | _ => none
  | .suppress input =>
    match w.suppressions.put p input w.now with
    | .ok (suppressions, _) => some { w with suppressions := suppressions }
    | .error _ => none

/-- The message whose rows the consumer reads. -/
def reading (w : EventWorld) : Option String :=
  match w.pc with
  | .ledger work | .commit work _ _ => some work.messageId
  | _ => none

def step (w : EventWorld) : EventLabel → Option EventWorld
  | .tick ms => some { w with now := w.now + ms }
  | .batch messages =>
    if w.pc = .receive ∧ w.batch = [] then some { w with batch := messages } else none
  | .other other => w.write p other
  | .query q =>
    w.reading.bind fun messageId => (w.ledgers.get messageId).map fun rows =>
      { w with read := rows.query w.read q }
  | .go => w.act p
  | .fails => if w.pc = .receive then none else some (w.goto .receive)

/-- Any messages are stored, and any events and suppressions. -/
def system : TransitionSystem EventWorld EventLabel where
  init w := w.pc = .receive ∧ w.acked = []
  step := step p

/-- The recipient of a hard failure is on the suppression list when the event is acknowledged. -/
def HardFailuresSuppressed (w : EventWorld) : Prop :=
  ∀ a ∈ w.acked, a.work.event.suppressionReason.isSome = true → a.isMember = true →
    a.isSuppressed = true

/-- A hard failure of a recipient who is not on the suppression list yet. -/
def isAtStake (w : EventWorld) (work : EventWork) : Bool :=
  work.event.suppressionReason.isSome && w.isMember p work &&
    !w.isSuppressed p work.event.recipient

/-- The event correlates with the ledger that was read. -/
def correlates (work : EventWork) (ledger : DeliveryLedgerState) : Bool :=
  match newProviderEvent p work.messageId (CloudflareEvent.normalization work.event.type).1
    (work.event.normalized work.receivedAt) ledger with
  | .error e => e.isRetried
  | .ok _ => true

/-- Where a hard failure is at stake: the event correlates with its ledger, no other event is stored
under its id, and not all eight rounds come too late. -/
def isKept (w : EventWorld) : EventLabel → Bool
  | .go =>
    match w.pc with
    | .ledger work => !w.isAtStake p work || w.read.state.all fun read => correlates p work read.1
    | .replay work record =>
      !w.isAtStake p work || (w.events.get record.id).all (·.isEquivalentReplay record)
    | .existing work record retries =>
      !w.isAtStake p work || ((w.events.get record.id).map (·.isEquivalentReplay record)).getD
        (decide (retries + 1 < 8))
    | _ => true
  | _ => true

end EventWorld

/-! ## Errors that are retried -/

/-- The planner's errors are not those of the API. -/
theorem planProviderEvent_retried (state : DeliveryLedgerState) (event : ProviderEventRecord) :
    ThrowsOnly (fun e => e.isRetried = true) (planProviderEvent state event) := by
  have hparse : ∀ {α : Type} (issues : α → List Issue) (a : α),
      ThrowsOnly (fun e => e.isRetried = true) (parseWith issues a) := by
    intro α issues a
    unfold parseWith
    split_ifs
    · exact .ok a
    · exact .error rfl
  have hstate : ThrowsOnly (fun e => e.isRetried = true) (assertLedgerState state) :=
    .bind (hparse _ _) fun _ => .bind (.mapM fun r => hparse _ r) fun _ =>
      .bind (.mapM fun a => hparse _ a) fun _ => .bind (.throwIf rfl) fun _ => .ok _
  have hupdate : ∀ message recipients t,
      ThrowsOnly (fun e => e.isRetried = true) (updateMessage message recipients t) := by
    intro message recipients t
    refine .bind ?_ fun _ => hparse _ _
    unfold deriveDeliveryMessageStatus
    split_ifs
    · exact .error rfl
    · exact .ok _
  refine .bind hstate fun s => .bind (hparse _ _) fun e => .bind (.throwIf rfl) fun _ =>
    .bind (.mapM fun r => ?_) fun _ => .bind (hupdate _ _ _) fun _ => .ok _
  split_ifs
  · exact hparse _ _
  · exact .ok r

theorem LedgerRows.append_retried (rows : LedgerRows)
    (events : OrderedMap String ProviderEventRecord) (record : ProviderEventRecord)
    (read : DeliveryLedgerState × ℕ) :
    ThrowsOnly (fun e => e.isRetried = true) (rows.append events record read) := by
  refine .bind (planProviderEvent_retried _ _) fun plan => ?_
  dsimp only
  split_ifs
  · exact .ok _
  · exact .ok _

/-! ## Acknowledged hard failures -/

namespace EventWorld

variable {p : Platform} {w w' : EventWorld}

theorem HardFailuresSuppressed.ack (h : w.HardFailuresSuppressed) {work : EventWork}
    (hw : w.isAtStake p work = false) : (w.ack p work).HardFailuresSuppressed := by
  intro a ha hreason hmember
  rcases List.mem_append.mp ha with ha | ha
  · exact h a ha hreason hmember
  · obtain rfl := List.mem_singleton.mp ha
    replace hreason : work.event.suppressionReason.isSome = true := hreason
    replace hmember : w.isMember p work = true := hmember
    rwa [isAtStake, hreason, hmember, Bool.and_self, Bool.true_and, Bool.not_eq_false'] at hw

/-- An error acknowledges the event only where it is not retried. -/
theorem HardFailuresSuppressed.caught (h : w.HardFailuresSuppressed) {work : EventWork}
    {e : Failure} (hw : e.isRetried = true ∨ w.isAtStake p work = false) :
    (w.caught p work e).HardFailuresSuppressed := by
  unfold EventWorld.caught
  by_cases he : e.isRetried = true
  · rw [if_pos he]
    exact h
  · rw [if_neg he]
    exact h.ack (hw.resolve_left he)

theorem HardFailuresSuppressed.replayed (h : w.HardFailuresSuppressed) {work : EventWork}
    {existing record : ProviderEventRecord}
    (hw : existing.isEquivalentReplay record = true ∨ w.isAtStake p work = false) :
    (w.replayed p work existing record).HardFailuresSuppressed := by
  unfold EventWorld.replayed
  by_cases he : existing.isEquivalentReplay record = true
  · rw [if_pos he]
    exact h
  · rw [if_neg he]
    exact h.caught (Or.inr (hw.resolve_left he))

/-- A member's address is one the suppression list takes. -/
theorem isMember_normalizes {work : EventWork} (h : w.isMember p work = true) :
    ∃ email, normalizeMailbox p work.event.recipient = .ok email := by
  obtain ⟨rows, -, h⟩ := (Option.any_eq_true _ _).mp h
  unfold isRecipientOf at h
  split at h
  · rename_i normalized hn
    obtain ⟨email, hemail, -⟩ := bind_eq_ok.mp hn
    exact ⟨email, hemail⟩
  · cases h

theorem isSuppressed_put {suppressions : SuppressionStore} {record : SuppressionRecord}
    {input : SuppressionInput} {now : ℕ}
    (h : w.suppressions.put p input now = .ok (suppressions, record)) :
    ({ w with suppressions := suppressions } : EventWorld).isSuppressed p input.email = true := by
  obtain ⟨email, hemail, h⟩ := bind_eq_ok.mp h
  obtain ⟨rfl, -⟩ := Prod.mk.inj (Except.ok.inj h)
  simp only [isSuppressed, hemail, OrderedMap.has_eq_true_iff]
  exact ⟨_, OrderedMap.get_set_self _ _ _⟩

theorem HardFailuresSuppressed.act (h : w.HardFailuresSuppressed)
    (hkept : w.isKept p .go = true) (hs : w.act p = some w') : w'.HardFailuresSuppressed := by
  unfold EventWorld.act at hs
  split at hs
  · -- receive
    split at hs
    · cases hs
    · split at hs <;> (cases hs; exact h)
  · -- resolve
    split at hs <;> (cases hs; exact h)
  · -- ledger
    rename_i work hpc
    obtain ⟨read, hread, rfl⟩ := Option.map_eq_some_iff.mp hs
    simp only [isKept, hpc, Bool.or_eq_true, Bool.not_eq_true', hread, Option.all_some] at hkept
    split
    · rename_i e he
      refine h.caught ?_
      rcases hkept with hkept | hkept
      · exact Or.inr hkept
      · rw [correlates, he] at hkept
        exact Or.inl hkept
    · exact h
    · exact h
  · -- replay
    rename_i work record hpc
    simp only [isKept, hpc, Bool.or_eq_true, Bool.not_eq_true'] at hkept
    split at hs
    · rename_i e he
      cases hs
      refine h.caught (Or.inl ?_)
      unfold ProviderEventRecord.parse parseWith at he
      split_ifs at he
      cases he
      rfl
    · rename_i record' hparse
      obtain ⟨-, rfl⟩ := ProviderEventRecord.parse_eq_ok.mp hparse
      split at hs
      · rename_i existing hexisting
        cases hs
        rw [hexisting, Option.all_some] at hkept
        exact h.replayed hkept.symm
      · cases hs
        exact h
  · -- commit
    rename_i work record retries hpc
    obtain ⟨rows, -, hs⟩ := Option.bind_eq_some_iff.mp hs
    obtain ⟨read, -, rfl⟩ := Option.map_eq_some_iff.mp hs
    split
    · rename_i e he
      exact h.caught (Or.inl (LedgerRows.append_retried _ _ _ _ e he))
    · exact h
    · exact h
  · -- existing
    rename_i work record retries hpc
    simp only [isKept, hpc, Bool.or_eq_true, Bool.not_eq_true'] at hkept
    split at hs
    · rename_i existing hexisting
      cases hs
      rw [hexisting, Option.map_some, Option.getD_some] at hkept
      exact h.replayed hkept.symm
    · rename_i hnone
      rw [hnone, Option.map_none, Option.getD_none, decide_eq_true_eq] at hkept
      split_ifs at hs with hretries
      · cases hs
        exact h
      · cases hs
        exact h.caught (Or.inr (hkept.resolve_right hretries))
  · -- publish
    cases hs
    exact h
  · -- suppress
    rename_i work hpc
    split at hs
    · rename_i hreason
      cases hs
      refine h.ack ?_
      simp only [isAtStake, hreason, Option.isSome_none, Bool.false_and]
    · rename_i reason hreason
      split at hs
      · rename_i e he
        cases hs
        refine h.caught (Or.inr ?_)
        rw [isAtStake, Bool.and_eq_false_iff, Bool.and_eq_false_iff]
        refine Or.inl (Or.inr ?_)
        by_contra hmember
        obtain ⟨email, hemail⟩ := isMember_normalizes ((Bool.not_eq_false _).mp hmember)
        simp only [SuppressionStore.put, hemail] at he
        cases he
      · rename_i suppressions record hput
        cases hs
        have h' : ({ w with suppressions := suppressions } : EventWorld).HardFailuresSuppressed := h
        refine h'.ack ?_
        have hsuppressed := isSuppressed_put hput
        simp only [isAtStake, hsuppressed, Bool.not_true, Bool.and_false]

theorem HardFailuresSuppressed.step (h : w.HardFailuresSuppressed) {l : EventLabel}
    (hkept : w.isKept p l = true) (hs : step p w l = some w') : w'.HardFailuresSuppressed := by
  cases l with
  | tick ms =>
    obtain rfl : _ = w' := Option.some.inj hs
    exact h
  | batch messages =>
    simp only [EventWorld.step] at hs
    split_ifs at hs
    cases hs
    exact h
  | other write =>
    have hacked : w'.acked = w.acked := by
      cases write with
      | request messageId req =>
        obtain ⟨rows, -, hs⟩ := Option.bind_eq_some_iff.mp hs
        split at hs <;> cases hs
        rfl
      | claim messageId attempt =>
        obtain ⟨rows, -, hs⟩ := Option.bind_eq_some_iff.mp hs
        obtain ⟨r, -, rfl⟩ := Option.map_eq_some_iff.mp hs
        rfl
      | event record =>
        obtain ⟨rows, -, hs⟩ := Option.bind_eq_some_iff.mp hs
        split at hs <;> cases hs
        rfl
      | suppress input =>
        simp only [EventWorld.step, EventWorld.write] at hs
        split at hs <;> cases hs
        rfl
    unfold HardFailuresSuppressed
    rw [hacked]
    exact h
  | query q =>
    obtain ⟨messageId, -, hs⟩ := Option.bind_eq_some_iff.mp hs
    obtain ⟨rows, -, rfl⟩ := Option.map_eq_some_iff.mp hs
    exact h
  | go => exact h.act hkept hs
  | fails =>
    simp only [EventWorld.step] at hs
    split_ifs at hs
    cases hs
    exact h

end EventWorld

/-- **Every acknowledged hard failure reaches the suppression list**, in every run where the events
at stake correlate, keep their ids to themselves, and come through in one of their rounds. -/
theorem hard_failures_suppressed {p : Platform} {w : EventWorld}
    (h : (EventWorld.system p).ReachableWhere (fun w l => w.isKept p l = true) w) :
    w.HardFailuresSuppressed := by
  refine h.invariant ?_ fun w w' l _ hw hkept hs => hw.step hkept hs
  rintro w ⟨-, hacked⟩ a ha
  rw [hacked] at ha
  cases ha

/-! ## Runs -/

/-- A platform that knows the digest of one address. -/
def asciiPlatform : Platform where
  parseDate _ := none
  toLowerCase := String.toLower
  localeCompare a b := decide (a ≤ b)
  convertHtml html _ := html
  base64Length _ := none
  sha256 text :=
    if text = "ada@example.com" then
      "b5fc85e55755f9e0d030a10ab4429b6b2944855f9a0d60077fe832becbc41d72"
    else "0000000000000000000000000000000000000000000000000000000000000000"

def cloudflareProvider : ProviderReference := ⟨"cloudflare-email", "1.0.0", "1.0.0"⟩

/-- The attempt of the sample delivery. -/
def cloudflareAttempt : AttemptRecord where
  id := "attempt_0123456789abcdef012345"
  messageId := "email_0123456789abcdef"
  recipientIds := ["rcpt_000000000000000000000a"]
  sequence := 1
  provider := cloudflareProvider
  status := .submitting
  startedAt := 2000

/-- The sample delivery, accepted by Cloudflare. -/
def acceptedSample : DeliveryLedgerState :=
  let created : DeliveryLedgerState := ⟨sampleCommit.email,
    { sampleCommit.message with provider := cloudflareProvider }, sampleCommit.recipients, []⟩
  (created.started cloudflareAttempt).completed 0 cloudflareAttempt {
    messageId := "email_0123456789abcdef"
    attemptId := "attempt_0123456789abcdef012345"
    status := .accepted
    completedAt := 3000
    providerMessageId := some "provider-1" }

/-- An event of the sample delivery. -/
def cloudflareEvent (type : CloudflareEventType) (eventId : String) : CloudflareEvent where
  type := type
  zoneId := "zone"
  domain := "example.com"
  eventId := eventId
  messageId := "provider-1"
  recipient := "ada@example.com"
  terminal := true
  status := type
  accountId := "account"
  eventSubscriptionId := "subscription"
  eventSchemaVersion := 1
  eventTimestamp := 4000

namespace EventWorld

def accepted : EventWorld where
  now := 5000
  ledgers := OrderedMap.set ∅ "email_0123456789abcdef" { ledger := acceptedSample }

/-- The three queries of a read. -/
def readSteps : List EventLabel := [.query .header, .query .recipients, .query .attempts]

/-- The steps of an event up to its append. -/
def receiveSteps : List EventLabel := [.go, .go] ++ readSteps ++ [.go, .go]

/-- A first round that comes through, and the rest. -/
def appendSteps : List EventLabel := readSteps ++ [.go, .go, .go]

/-- An open of the email, appended by another consumer. -/
def openedEvent (eventId : String) : ProviderEventRecord where
  id := "provider-event:v1:cloudflare-email:id:" ++ eventId
  provider := cloudflareProvider
  source := .providerEventId eventId
  messageId := "email_0123456789abcdef"
  attemptId := some "attempt_0123456789abcdef012345"
  recipientIds := ["rcpt_000000000000000000000a"]
  providerMessageId := some "provider-1"
  type := .opened
  providerAt := 4500
  receivedAt := 4600
  terminal := false

/-- A round between whose read and batch another event is appended. -/
def lateRound (eventId : String) : List EventLabel :=
  readSteps ++ [.other (.event (openedEvent eventId)), .go, .go]

/-- A bounce all of whose rounds come too late. -/
def contendedBounce : List EventLabel :=
  [.batch [⟨some (cloudflareEvent .bounced "bounce-1"), 5000⟩]] ++ receiveSteps ++
    ["open-1", "open-2", "open-3", "open-4", "open-5", "open-6", "open-7", "open-8"].flatMap
      lateRound

/-- A delivery and a bounce under one event id. -/
def conflictingBounce : List EventLabel :=
  [.batch [⟨some (cloudflareEvent .delivered "event-1"), 5000⟩,
    ⟨some (cloudflareEvent .bounced "event-1"), 5000⟩]] ++
      receiveSteps ++ appendSteps ++ receiveSteps

/-- A hard failure was acknowledged whose recipient is not on the list. -/
def hasLostFailure (w : EventWorld) : Bool :=
  w.acked.any fun a => a.work.event.suppressionReason.isSome && a.isMember && !a.isSuppressed

/-- The record of the contended bounce. -/
def bounceRecord : ProviderEventRecord where
  id := "provider-event:v1:cloudflare-email:id:bounce-1"
  provider := cloudflareProvider
  source := .providerEventId "bounce-1"
  messageId := "email_0123456789abcdef"
  attemptId := some "attempt_0123456789abcdef012345"
  recipientIds := ["rcpt_000000000000000000000a"]
  providerMessageId := some "provider-1"
  type := .bounced
  providerAt := 4000
  receivedAt := 5000
  terminal := true
  diagnosticCategory := some .providerRejected

/-- Where the contended bounce is after the rounds of some opens. -/
def afterLateRounds (eventIds : List String) : EventWorld where
  now := 5000
  ledgers := OrderedMap.set ∅ "email_0123456789abcdef" {
    ledger := acceptedSample.observed (openedEvent "open-1")
    revision := eventIds.length }
  events := eventIds.foldl (fun events id => events.set (openedEvent id).id (openedEvent id)) ∅
  pc := .commit ⟨cloudflareEvent .bounced "bounce-1", 5000, "email_0123456789abcdef"⟩ bounceRecord
    eventIds.length

theorem run_contendedBounce : ((system asciiPlatform).run accepted contendedBounce).any
    (fun w => decide (w.events.keys.length = 8 ∧ w.hasLostFailure = true)) = true := by
  -- the rounds in three parts, which the kernel evaluates one after the other
  have hrounds : contendedBounce =
      [.batch [⟨some (cloudflareEvent .bounced "bounce-1"), 5000⟩]] ++ receiveSteps ++
        ["open-1", "open-2"].flatMap lateRound ++
        (["open-3", "open-4", "open-5"].flatMap lateRound ++
          ["open-6", "open-7", "open-8"].flatMap lateRound) := rfl
  have hfirst : (system asciiPlatform).run accepted
      ([.batch [⟨some (cloudflareEvent .bounced "bounce-1"), 5000⟩]] ++ receiveSteps ++
        ["open-1", "open-2"].flatMap lateRound) =
          some (afterLateRounds ["open-1", "open-2"]) := by
    decide +kernel
  have hmiddle : (system asciiPlatform).run (afterLateRounds ["open-1", "open-2"])
      (["open-3", "open-4", "open-5"].flatMap lateRound) =
        some (afterLateRounds ["open-1", "open-2", "open-3", "open-4", "open-5"]) := by
    decide +kernel
  rw [hrounds, TransitionSystem.run_append, hfirst, Option.bind_some,
    TransitionSystem.run_append, hmiddle, Option.bind_some]
  decide +kernel

theorem not_suppressed_of_lost {w : EventWorld} (h : w.hasLostFailure = true) :
    ¬ w.HardFailuresSuppressed := by
  intro hall
  obtain ⟨a, ha, hlost⟩ := List.any_eq_true.mp h
  rw [Bool.and_eq_true, Bool.and_eq_true, Bool.not_eq_true'] at hlost
  rw [hall a ha hlost.1.1 hlost.1.2] at hlost
  cases hlost.2

end EventWorld

theorem hard_failures_suppressed_sample : ∃ w, (EventWorld.system asciiPlatform).ReachableWhere
    (fun w l => w.isKept asciiPlatform l = true) w ∧ w.acked.length = 1 ∧
      w.HardFailuresSuppressed := by
  have hinit : (EventWorld.system asciiPlatform).init EventWorld.accepted := ⟨rfl, rfl⟩
  have hrun : ((EventWorld.system asciiPlatform).runWhere (EventWorld.isKept asciiPlatform)
      EventWorld.accepted ([.batch [⟨some (cloudflareEvent .bounced "bounce-1"), 5000⟩]] ++
        EventWorld.receiveSteps ++ EventWorld.appendSteps)).any
          (fun w => decide (w.acked.length = 1)) = true := by decide +kernel
  obtain ⟨w, hw, hacked⟩ := TransitionSystem.exists_reachableWhere_of_run hinit hrun
  exact ⟨w, hw, of_decide_eq_true hacked, hard_failures_suppressed hw⟩

/-- A bounce that is acknowledged and lost: after eight late rounds, and under the id of another
event. -/
theorem hard_failure_lost :
    (∃ w, (EventWorld.system asciiPlatform).Reachable w ∧ w.events.keys.length = 8 ∧
      ¬ w.HardFailuresSuppressed) ∧
    ∃ w, (EventWorld.system asciiPlatform).Reachable w ∧ w.events.keys.length = 1 ∧
      ¬ w.HardFailuresSuppressed := by
  have hinit : (EventWorld.system asciiPlatform).init EventWorld.accepted := ⟨rfl, rfl⟩
  have hconflicting : ((EventWorld.system asciiPlatform).run EventWorld.accepted
      EventWorld.conflictingBounce).any
        (fun w => decide (w.events.keys.length = 1 ∧ w.hasLostFailure = true)) = true := by
    decide +kernel
  obtain ⟨w, hw, h⟩ := TransitionSystem.exists_reachable_of_run hinit EventWorld.run_contendedBounce
  obtain ⟨w', hw', h'⟩ := TransitionSystem.exists_reachable_of_run hinit hconflicting
  obtain ⟨hevents, hlost⟩ := of_decide_eq_true h
  obtain ⟨hevents', hlost'⟩ := of_decide_eq_true h'
  exact ⟨⟨w, hw, hevents, EventWorld.not_suppressed_of_lost hlost⟩,
    w', hw', hevents', EventWorld.not_suppressed_of_lost hlost'⟩

end HayaSend
