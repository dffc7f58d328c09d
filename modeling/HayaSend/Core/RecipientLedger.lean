import HayaSend.Core.DeliveryCommit
import Mathlib.Data.List.Nodup
import Mathlib.Data.List.Lemmas

/-!
# The recipient ledger

The pure planners of the delivery ledger: starting an attempt, completing it, applying a provider
event and applying a local state (canceled or suppressed). Each checks the records it is given,
computes the new recipients and derives the status of the message and of the email from them. A
store reads the ledger of a message, plans, and writes the plan back.

Every planner has one lemma that takes a successful plan apart: the checks it passed, and the
records it returns as functions of those it was given.
-/

namespace HayaSend

structure DeliveryLedgerState where
  email : EmailRecord
  message : MessageRecord
  recipients : List RecipientRecord
  attempts : List AttemptRecord
  deriving DecidableEq, Repr

structure DeliveryLedgerPlan extends DeliveryLedgerState where
  changedRecipientIds : List String
  deriving DecidableEq, Repr

/-- How an attempt may complete. -/
inductive CompletionStatus
  | accepted
  | retryableFailed
  | permanentFailed
  deriving DecidableEq, Repr

def CompletionStatus.toAttemptStatus : CompletionStatus → AttemptStatus
  | .accepted => .accepted
  | .retryableFailed => .retryableFailed
  | .permanentFailed => .permanentFailed

structure AttemptCompletion where
  messageId : String
  attemptId : String
  status : CompletionStatus
  completedAt : ℕ
  providerMessageId : Option String := none
  diagnosticCategory : Option DiagnosticCategory := none
  publicError : Option String := none
  deriving DecidableEq, Repr

/-- The states the service applies without the provider. -/
inductive LocalStatus
  | canceled
  | suppressed
  deriving DecidableEq, Repr

def LocalStatus.toRecipientStatus : LocalStatus → RecipientStatus
  | .canceled => .canceled
  | .suppressed => .suppressed

/-! ## Status tables -/

/-- `DELIVERY_POSITIVE` -/
def RecipientStatus.isPositive : RecipientStatus → Bool
  | .delivered | .opened | .clicked => true
  | _ => false

/-- `DELIVERY_NEGATIVE` -/
def RecipientStatus.isNegative : RecipientStatus → Bool
  | .bounced | .rejected | .failed => true
  | _ => false

/-- `ENGAGEMENT_RANK` -/
def RecipientStatus.engagementRank : RecipientStatus → Option ℕ
  | .queued => some 0
  | .sending => some 1
  | .accepted => some 2
  | .deliveryDelayed => some 3
  | .delivered => some 4
  | .opened => some 5
  | .clicked => some 6
  | _ => none

/-- `EVENT_TARGET` -/
def ProviderEventType.target : ProviderEventType → RecipientStatus
  | .accepted => .accepted
  | .delivered => .delivered
  | .delayed => .deliveryDelayed
  | .bounced => .bounced
  | .complained => .complained
  | .rejected => .rejected
  | .opened => .opened
  | .clicked => .clicked
  | .failed => .failed

/-- `transitionRecipientStatus` -/
def transitionRecipientStatus (current : RecipientStatus) (eventType : ProviderEventType) :
    RecipientStatus :=
  let target := eventType.target
  if current = .suppressed then current
  else if eventType = .complained then .complained
  else if current = .complained ∨ current = .canceled then current
  else if eventType = .bounced then .bounced
  else if current = .bounced then current
  else if eventType = .rejected then if current.isPositive then current else .rejected
  else if current = .rejected then current
  else if eventType = .failed then if current.isPositive then current else .failed
  else if current = .failed then current
  else
    match current.engagementRank, target.engagementRank with
    | some currentRank, some targetRank => if currentRank < targetRank then target else current
    | _, _ => current

/-- The aggregate of the statuses of at least one recipient. -/
def aggregateStatus (statuses : List RecipientStatus) : MessageStatus :=
  let positiveCount := statuses.countP (·.isPositive)
  if statuses.contains .suppressed then .suppressed
  else if statuses.contains .complained then .complained
  else if 0 < positiveCount then
    if positiveCount = statuses.length then .delivered else .partiallyDelivered
  else if statuses.contains .bounced then .bounced
  else if statuses.any (·.isNegative) then .failed
  else if statuses.all (· == .canceled) then .canceled
  else if statuses.contains .deliveryDelayed then .deliveryDelayed
  else if statuses.contains .accepted then .accepted
  else if statuses.contains .sending then .sending
  else .queued

/-- `deriveDeliveryMessageStatus` -/
def deriveDeliveryMessageStatus (recipients : List RecipientRecord) :
    Except Failure MessageStatus :=
  if recipients = [] then .error (.error "A delivery message requires at least one recipient.")
  else .ok (aggregateStatus (recipients.map (·.status)))

/-- `derivePublicEmailStatus` -/
def derivePublicEmailStatus (aggregate : MessageStatus) (recipients : List RecipientRecord) :
    EmailStatus :=
  let has := fun s : RecipientStatus => recipients.any (·.status == s)
  match aggregate with
  | .accepted => .sent
  | .partiallyDelivered =>
    if has .bounced then .bounced
    else if has .rejected || has .failed then .failed
    else .delivered
  | .delivered =>
    if has .clicked then .clicked
    else if has .opened then .opened
    else .delivered
  | .queued => .queued
  | .scheduled => .scheduled
  | .sending => .sending
  | .deliveryDelayed => .deliveryDelayed
  | .bounced => .bounced
  | .complained => .complained
  | .failed => .failed
  | .canceled => .canceled
  | .suppressed => .suppressed

/-! ## Helpers of the planners -/

/-- The recipients in the order of the message; of two with one id the later one. -/
def orderRecipients (ids : List String) (recipients : List RecipientRecord) :
    List RecipientRecord :=
  ids.filterMap fun id => recipients.reverse.find? (·.id == id)

/-- `assertLedgerState` -/
def assertLedgerState (state : DeliveryLedgerState) : Except Failure DeliveryLedgerState := do
  let message ← state.message.parse
  let recipients ← state.recipients.mapM RecipientRecord.parse
  let attempts ← state.attempts.mapM AttemptRecord.parse
  let recipientIds := recipients.map (·.id)
  throwIf (state.email.id != message.id || recipients.length != message.recipientIds.length ||
      !message.recipientIds.all (recipientIds.contains ·) ||
      recipients.any (·.messageId != message.id) || !decide (attempts.map (·.id)).Nodup ||
      !decide (attempts.map (·.sequence)).Nodup ||
      attempts.any fun attempt => attempt.messageId != message.id ||
        attempt.provider != message.provider ||
        attempt.recipientIds.any (!recipientIds.contains ·))
    (.error "Delivery ledger records do not belong to one message.")
  return {
    email := state.email
    message := message
    recipients := orderRecipients message.recipientIds recipients
    attempts := attempts }

/-- `updateEmailForRecipients` -/
def updateEmailForRecipients (email : EmailRecord) (message : MessageRecord)
    (recipients : List RecipientRecord) (updatedAt : ℕ) (publicError : Option String) :
    EmailRecord :=
  let status := derivePublicEmailStatus message.status recipients
  { email with
    status := status
    lastEvent := .status status
    updatedAt := updatedAt
    sendLeaseUntil := none
    error := publicError }

/-- `updateMessage` -/
def updateMessage (message : MessageRecord) (recipients : List RecipientRecord) (updatedAt : ℕ) :
    Except Failure MessageRecord := do
  let status ← deriveDeliveryMessageStatus recipients
  { message with status := status, updatedAt := updatedAt }.parse

/-- `latestTimestamp` -/
def latestTimestamp (email message given : ℕ) : ℕ := max (max email message) given

/-- The largest sequence of the attempts, 0 when there is none. -/
def lastSequence (attempts : List AttemptRecord) : ℕ :=
  attempts.foldl (fun n attempt => max n attempt.sequence) 0

/-! ## The planners -/

/-- The check of a new attempt against the ledger. -/
def attemptMatches (state : DeliveryLedgerState) (attempt : AttemptRecord) : Bool :=
  attempt.messageId == state.message.id && attempt.provider == state.message.provider &&
    attempt.status == .submitting && attempt.completedAt.isNone &&
    attempt.recipientIds.length == state.message.recipientIds.length &&
    state.message.recipientIds.all (attempt.recipientIds.contains ·) &&
    !state.attempts.any (fun existing =>
      existing.id == attempt.id || existing.sequence == attempt.sequence) &&
    attempt.sequence == lastSequence state.attempts + 1

/-- A recipient at the start of an attempt. -/
def startRecipient (attempt : AttemptRecord) (r : RecipientRecord) : RecipientRecord :=
  { r with
    status := .sending
    latestAttemptId := some attempt.id
    updatedAt := attempt.startedAt }

/-- `planAttemptStart` -/
def planAttemptStart (inputState : DeliveryLedgerState) (inputAttempt : AttemptRecord) :
    Except Failure (DeliveryLedgerPlan × AttemptRecord) := do
  let state ← assertLedgerState inputState
  let attempt ← inputAttempt.parse
  throwIf (!attemptMatches state attempt)
    (.error "Provider submission attempt does not match the ledger.")
  throwIf (state.recipients.any (·.status != .queued))
    (.error "Only queued recipients can begin another attempt.")
  let recipients ← state.recipients.mapM fun r => (startRecipient attempt r).parse
  let message ← updateMessage state.message recipients attempt.startedAt
  return ({
    email := { state.email with
      status := .sending
      lastEvent := .status .sending
      updatedAt := attempt.startedAt }
    message := message
    recipients := recipients
    attempts := state.attempts ++ [attempt]
    changedRecipientIds := recipients.map (·.id) }, attempt)

/-- An optional text that is present and not empty. -/
def truthy (s : Option String) : Option String := s.filter (· != "")

/-- The attempt with the outcome recorded. -/
def completedAttempt (input : AttemptCompletion) (attempt : AttemptRecord) : AttemptRecord :=
  { attempt with
    status := input.status.toAttemptStatus
    completedAt := some input.completedAt
    providerMessageId := (truthy input.providerMessageId).or attempt.providerMessageId
    diagnosticCategory := input.diagnosticCategory.or attempt.diagnosticCategory }

/-- The status of the recipients of a completed attempt. -/
def completedRecipientStatus (input : AttemptCompletion) : RecipientStatus :=
  match input.status with
  | .accepted => .accepted
  | .retryableFailed => .queued
  | .permanentFailed =>
    if input.diagnosticCategory = some .providerRejected ∨
      input.diagnosticCategory = some .invalidData then .rejected else .failed

/-- Whether an attempt owns a recipient. -/
def AttemptRecord.owns (attempt : AttemptRecord) (r : RecipientRecord) : Bool :=
  attempt.recipientIds.contains r.id && r.latestAttemptId == some attempt.id

/-- `planAttemptCompletion` -/
def planAttemptCompletion (inputState : DeliveryLedgerState) (input : AttemptCompletion) :
    Except Failure (DeliveryLedgerPlan × AttemptRecord) := do
  let state ← assertLedgerState inputState
  let attemptIndex := state.attempts.findIdx fun attempt =>
    attempt.id == input.attemptId && attempt.messageId == input.messageId
  match state.attempts[attemptIndex]? with
  | none => .error (.error "Provider submission attempt is not active.")
  | some currentAttempt =>
    throwIf (currentAttempt.status != .submitting)
      (.error "Provider submission attempt is not active.")
    throwIf (state.recipients.any fun r => currentAttempt.recipientIds.contains r.id &&
        (r.status != .sending || r.latestAttemptId != some currentAttempt.id))
      (.error "Provider submission attempt does not own every sending recipient.")
    let attempt ← (completedAttempt input currentAttempt).parse
    let recipients ← state.recipients.mapM fun r =>
      if currentAttempt.owns r then
        { r with
          status := completedRecipientStatus input
          updatedAt := input.completedAt }.parse
      else .ok r
    let message ← updateMessage state.message recipients input.completedAt
    let email := updateEmailForRecipients state.email message recipients input.completedAt
      (if input.status = .accepted then none else input.publicError)
    let email := match input.status, truthy input.providerMessageId with
      | .accepted, some providerMessageId => { email with providerId := some providerMessageId }
      | .retryableFailed, _ => { email with lastEvent := .retrying }
      | _, _ => email
    return ({
      email := email
      message := message
      recipients := recipients
      attempts := state.attempts.set attemptIndex attempt
      changedRecipientIds := (state.recipients.filter currentAttempt.owns).map (·.id) }, attempt)

/-- The attempt an event names. -/
def eventAttempt (state : DeliveryLedgerState) (event : ProviderEventRecord) :
    Option AttemptRecord :=
  event.attemptId.bind fun id => state.attempts.find? (·.id == id)

/-- The check of an event against the ledger. -/
def eventCorrelates (state : DeliveryLedgerState) (event : ProviderEventRecord) : Bool :=
  let recipientIds := state.recipients.map (·.id)
  match eventAttempt state event with
  | none => false
  | some attempt =>
    event.messageId == state.message.id && event.provider == state.message.provider &&
      attempt.status == .accepted && attempt.provider == event.provider &&
      event.providerMessageId.all (fun pid =>
        let providerMatches := state.attempts.filter fun candidate =>
          candidate.status == .accepted && candidate.providerMessageId == some pid
        providerMatches.length == 1 && providerMatches.head?.any (·.id == attempt.id) &&
          attempt.providerMessageId == some pid) &&
      event.recipientIds.all fun id => recipientIds.contains id && attempt.recipientIds.contains id

/-- The status of a recipient after an event. -/
def eventStatus (event : ProviderEventRecord) (r : RecipientRecord) : RecipientStatus :=
  if event.recipientIds.contains r.id then transitionRecipientStatus r.status event.type
  else r.status

/-- `planProviderEvent` -/
def planProviderEvent (inputState : DeliveryLedgerState) (inputEvent : ProviderEventRecord) :
    Except Failure (DeliveryLedgerPlan × ProviderEventRecord) := do
  let state ← assertLedgerState inputState
  let event ← inputEvent.parse
  throwIf (!eventCorrelates state event)
    (.error "Provider event cannot be correlated to one accepted attempt.")
  let mutationTimestamp :=
    latestTimestamp state.email.updatedAt state.message.updatedAt event.receivedAt
  let changed := fun r : RecipientRecord => eventStatus event r != r.status
  let recipients ← state.recipients.mapM fun r =>
    if changed r then
      { r with status := eventStatus event r, updatedAt := mutationTimestamp }.parse
    else .ok r
  let message ← updateMessage state.message recipients mutationTimestamp
  return ({
    email := updateEmailForRecipients state.email message recipients mutationTimestamp none
    message := message
    recipients := recipients
    attempts := state.attempts
    changedRecipientIds := (state.recipients.filter changed).map (·.id) }, event)

/-- The status of a recipient after a local state. -/
def localStatus (status : LocalStatus) (r : RecipientRecord) : RecipientStatus :=
  if r.status = .complained ∨ r.status = .suppressed then r.status else status.toRecipientStatus

/-- `planLocalRecipientState` -/
def planLocalRecipientState (inputState : DeliveryLedgerState) (status : LocalStatus)
    (updatedAt : ℕ) : Except Failure DeliveryLedgerPlan := do
  let state ← assertLedgerState inputState
  throwIf (state.attempts.any (·.status == .submitting) ||
      state.recipients.any (·.status == .sending))
    (.error "Local recipient state cannot change during provider submission.")
  let timestamp := latestTimestamp state.email.updatedAt state.message.updatedAt updatedAt
  let changed := fun r : RecipientRecord => localStatus status r != r.status
  let recipients ← state.recipients.mapM fun r =>
    if changed r then { r with status := localStatus status r, updatedAt := timestamp }.parse
    else .ok r
  let message ← updateMessage state.message recipients timestamp
  return {
    email := updateEmailForRecipients state.email message recipients timestamp none
    message := message
    recipients := recipients
    attempts := state.attempts
    changedRecipientIds := (state.recipients.filter changed).map (·.id) }

/-! ## What the helpers establish -/

/-- What `assertLedgerState` checks. -/
structure DeliveryLedgerState.Consistent (s : DeliveryLedgerState) : Prop where
  message_valid : s.message.Valid
  recipients_valid : ∀ r ∈ s.recipients, r.Valid
  attempts_valid : ∀ a ∈ s.attempts, a.Valid
  email_id : s.email.id = s.message.id
  recipient_ids : (s.recipients.map (·.id)).Perm s.message.recipientIds
  recipient_message : ∀ r ∈ s.recipients, r.messageId = s.message.id
  attempt_ids : (s.attempts.map (·.id)).Nodup
  attempt_sequences : (s.attempts.map (·.sequence)).Nodup
  attempt_message : ∀ a ∈ s.attempts, a.messageId = s.message.id ∧ a.provider = s.message.provider
  attempt_recipients : ∀ a ∈ s.attempts, ∀ id ∈ a.recipientIds, id ∈ s.recipients.map (·.id)

/-- The recipients stand in the order of the message. -/
def DeliveryLedgerState.Ordered (s : DeliveryLedgerState) : Prop :=
  s.recipients.map (·.id) = s.message.recipientIds

theorem find?_reverse_id {rs : List RecipientRecord} (hn : (rs.map (·.id)).Nodup)
    {r : RecipientRecord} (hr : r ∈ rs) : rs.reverse.find? (·.id == r.id) = some r := by
  have hex : ∃ r' ∈ rs.reverse, (r'.id == r.id) = true := ⟨r, by simpa using hr, by simp⟩
  obtain ⟨r', hr'⟩ := Option.isSome_iff_exists.mp (List.find?_isSome.mpr hex)
  have hmem : r' ∈ rs := by simpa using List.mem_of_find?_eq_some hr'
  have hid : r'.id = r.id := by simpa using List.find?_some hr'
  rw [hr', List.inj_on_of_nodup_map hn hmem hr hid]

/-- Recipients that stand in the order of the message are left as they are. -/
theorem orderRecipients_map_id {rs : List RecipientRecord} (hn : (rs.map (·.id)).Nodup) :
    orderRecipients (rs.map (·.id)) rs = rs := by
  unfold orderRecipients
  rw [List.filterMap_map]
  have hself : ∀ r ∈ rs, (rs.reverse.find? (·.id == r.id)) = some r :=
    fun r hr => find?_reverse_id hn hr
  calc rs.filterMap (fun r => rs.reverse.find? (·.id == r.id))
      = rs.filterMap some := List.filterMap_congr hself
    _ = rs := List.filterMap_some

theorem map_id_orderRecipients {ids : List String} {rs : List RecipientRecord}
    (h : ∀ id ∈ ids, id ∈ rs.map (·.id)) : (orderRecipients ids rs).map (·.id) = ids := by
  induction ids with
  | nil => rfl
  | cons id ids ih =>
    obtain ⟨r, hr, hid⟩ := List.mem_map.mp (h id List.mem_cons_self)
    have hex : ∃ r' ∈ rs.reverse, (r'.id == id) = true := ⟨r, by simpa using hr, by simp [hid]⟩
    obtain ⟨r', hr'⟩ := Option.isSome_iff_exists.mp (List.find?_isSome.mpr hex)
    have hid' : r'.id = id := by simpa using List.find?_some hr'
    have ih := ih fun id' h' => h id' (List.mem_cons_of_mem _ h')
    unfold orderRecipients at ih ⊢
    rw [List.filterMap_cons, hr', List.map_cons, ih, hid']

theorem mapM_attempt_parse_eq_ok {as as' : List AttemptRecord} :
    as.mapM AttemptRecord.parse = .ok as' ↔ (∀ a ∈ as, a.Valid) ∧ as = as' := by
  rw [mapM_eq_ok_map fun _ _ _ => AttemptRecord.parse_eq_ok, List.map_id']

theorem assertLedgerState_eq_ok {s s' : DeliveryLedgerState} :
    assertLedgerState s = .ok s' ↔ s.Consistent ∧
      s' = { s with recipients := orderRecipients s.message.recipientIds s.recipients } := by
  unfold assertLedgerState
  constructor
  · intro h
    obtain ⟨message, hm, h⟩ := bind_eq_ok.mp h
    obtain ⟨recipients, hr, h⟩ := bind_eq_ok.mp h
    obtain ⟨attempts, ha, h⟩ := bind_eq_ok.mp h
    obtain ⟨hmv, rfl⟩ := MessageRecord.parse_eq_ok.mp hm
    obtain ⟨hrv, rfl⟩ := mapM_parse_eq_ok.mp hr
    obtain ⟨hav, rfl⟩ := mapM_attempt_parse_eq_ok.mp ha
    obtain ⟨_, hc, h⟩ := bind_eq_ok.mp h
    rw [pure_eq_ok] at h
    simp only [throwIf_eq_ok, Bool.or_eq_false_iff, bne_eq_false_iff_eq, Bool.not_eq_false',
      List.all_eq_true, List.any_eq_false, List.contains_iff_mem, decide_eq_true_eq,
      Bool.not_eq_true, Bool.not_eq_true'] at hc
    obtain ⟨⟨⟨⟨⟨⟨he, hlen⟩, hall⟩, hmsg⟩, hai⟩, has⟩, hat⟩ := hc
    have hsub : s.message.recipientIds.Subperm (s.recipients.map (·.id)) :=
      List.subperm_of_subset hmv.nodup hall
    exact ⟨⟨hmv, hrv, hav, he, (hsub.perm_of_length_le (by simp [hlen])).symm, hmsg, hai, has,
      fun a h => (hat a h).1, fun a h id hid => by simpa using (hat a h).2 id hid⟩, h.symm⟩
  · rintro ⟨h, rfl⟩
    refine bind_eq_ok.mpr ⟨_, MessageRecord.parse_eq_ok.mpr ⟨h.message_valid, rfl⟩, ?_⟩
    refine bind_eq_ok.mpr ⟨_, mapM_parse_eq_ok.mpr ⟨h.recipients_valid, rfl⟩, ?_⟩
    refine bind_eq_ok.mpr ⟨_, mapM_attempt_parse_eq_ok.mpr ⟨h.attempts_valid, rfl⟩, ?_⟩
    refine bind_eq_ok.mpr ⟨(), ?_, rfl⟩
    simp only [throwIf_eq_ok, Bool.or_eq_false_iff, bne_eq_false_iff_eq, Bool.not_eq_false',
      List.all_eq_true, List.any_eq_false, List.contains_iff_mem, decide_eq_true_eq,
      Bool.not_eq_true, Bool.not_eq_true']
    have hlen : s.recipients.length = s.message.recipientIds.length := by
      simpa using h.recipient_ids.length_eq
    exact ⟨⟨⟨⟨⟨⟨h.email_id, hlen⟩, fun id hid => h.recipient_ids.mem_iff.mpr hid⟩,
      h.recipient_message⟩, h.attempt_ids⟩, h.attempt_sequences⟩,
      fun a ha => ⟨h.attempt_message a ha, fun id hid => by
        simpa using h.attempt_recipients a ha id hid⟩⟩

/-- On recipients in the order of the message the assertion changes nothing. -/
theorem assertLedgerState_of_ordered {s s' : DeliveryLedgerState} (ho : s.Ordered) :
    assertLedgerState s = .ok s' ↔ s.Consistent ∧ s = s' := by
  rw [assertLedgerState_eq_ok]
  refine and_congr_right fun h => ?_
  have hn : (s.recipients.map (·.id)).Nodup := ho ▸ h.message_valid.nodup
  rw [← ho, orderRecipients_map_id hn]
  exact eq_comm

theorem mapM_parseIf_eq_ok {c : RecipientRecord → Bool} {f : RecipientRecord → RecipientRecord}
    {rs rs' : List RecipientRecord} :
    (rs.mapM fun r => if c r then (f r).parse else .ok r) = .ok rs' ↔
      (∀ r ∈ rs, c r = true → (f r).Valid) ∧ rs.map (fun r => if c r then f r else r) = rs' := by
  refine mapM_eq_ok_map fun r _ r' => ?_
  cases hc : c r with
  | true => simp [RecipientRecord.parse_eq_ok]
  | false => simp

/-- The message with its status derived from `recipients`. -/
def deriveMessage (message : MessageRecord) (recipients : List RecipientRecord) (updatedAt : ℕ) :
    MessageRecord :=
  { message with status := aggregateStatus (recipients.map (·.status)), updatedAt := updatedAt }

theorem updateMessage_eq_ok {message message' : MessageRecord} {recipients : List RecipientRecord}
    {updatedAt : ℕ} : updateMessage message recipients updatedAt = .ok message' ↔
      recipients ≠ [] ∧ (deriveMessage message recipients updatedAt).Valid ∧
        message' = deriveMessage message recipients updatedAt := by
  unfold updateMessage deriveDeliveryMessageStatus
  split_ifs with hr
  · simp [hr]
  · rw [ok_bind, MessageRecord.parse_eq_ok]
    exact ⟨fun ⟨hv, he⟩ => ⟨hr, hv, he.symm⟩, fun ⟨_, hv, he⟩ => ⟨hv, he.symm⟩⟩

/-! ## What the planners return -/

/-- The ledger with `recipients` in place of its own and both statuses derived from them. -/
def DeliveryLedgerState.restate (s : DeliveryLedgerState) (recipients : List RecipientRecord)
    (updatedAt : ℕ) (publicError : Option String) : DeliveryLedgerState where
  email := updateEmailForRecipients s.email (deriveMessage s.message recipients updatedAt)
    recipients updatedAt publicError
  message := deriveMessage s.message recipients updatedAt
  recipients := recipients
  attempts := s.attempts

/-- The ledger after the start of an attempt. -/
def DeliveryLedgerState.started (s : DeliveryLedgerState) (a : AttemptRecord) :
    DeliveryLedgerState where
  email := { s.email with
    status := .sending
    lastEvent := .status .sending
    updatedAt := a.startedAt }
  message := deriveMessage s.message (s.recipients.map (startRecipient a)) a.startedAt
  recipients := s.recipients.map (startRecipient a)
  attempts := s.attempts ++ [a]

theorem planAttemptStart_eq_ok {s : DeliveryLedgerState} (ho : s.Ordered)
    {a a' : AttemptRecord} {p : DeliveryLedgerPlan} (h : planAttemptStart s a = .ok (p, a')) :
    s.Consistent ∧ a.Valid ∧ attemptMatches s a = true ∧
      (∀ r ∈ s.recipients, r.status = .queued) ∧ a' = a ∧
      p.toDeliveryLedgerState = s.started a := by
  obtain ⟨s', hs, h⟩ := bind_eq_ok.mp h
  obtain ⟨hc, rfl⟩ := (assertLedgerState_of_ordered ho).mp hs
  obtain ⟨b, hb, h⟩ := bind_eq_ok.mp h
  obtain ⟨hav, rfl⟩ := AttemptRecord.parse_eq_ok.mp hb
  obtain ⟨_, hm, h⟩ := bind_eq_ok.mp h
  obtain ⟨_, hq, h⟩ := bind_eq_ok.mp h
  obtain ⟨rs, hrs, h⟩ := bind_eq_ok.mp h
  obtain ⟨m, hm', h⟩ := bind_eq_ok.mp h
  rw [mapM_eq_ok_map fun _ _ _ => RecipientRecord.parse_eq_ok] at hrs
  obtain ⟨-, rfl⟩ := hrs
  obtain ⟨-, -, rfl⟩ := updateMessage_eq_ok.mp hm'
  rw [pure_eq_ok, Prod.mk.injEq] at h
  obtain ⟨rfl, rfl⟩ := h
  refine ⟨hc, hav, by simpa using hm, ?_, rfl, rfl⟩
  simpa using hq

/-- A recipient after the completion of an attempt. -/
def completeRecipient (a : AttemptRecord) (input : AttemptCompletion) (r : RecipientRecord) :
    RecipientRecord :=
  if a.owns r then
    { r with status := completedRecipientStatus input, updatedAt := input.completedAt }
  else r

/-- The email after a completion: what the recipients say, the provider id of an accepted attempt
and `retrying` as the last event of one to be retried. -/
def completeEmail (email : EmailRecord) (input : AttemptCompletion) : EmailRecord :=
  match input.status, truthy input.providerMessageId with
  | .accepted, some providerMessageId => { email with providerId := some providerMessageId }
  | .retryableFailed, _ => { email with lastEvent := .retrying }
  | _, _ => email

@[simp] theorem completeEmail_status (email : EmailRecord) (input : AttemptCompletion) :
    (completeEmail email input).status = email.status := by
  unfold completeEmail
  split <;> rfl

@[simp] theorem completeEmail_id (email : EmailRecord) (input : AttemptCompletion) :
    (completeEmail email input).id = email.id := by
  unfold completeEmail
  split <;> rfl

@[simp] theorem completeEmail_scheduledAt (email : EmailRecord) (input : AttemptCompletion) :
    (completeEmail email input).scheduledAt = email.scheduledAt := by
  unfold completeEmail
  split <;> rfl

@[simp] theorem completeEmail_updatedAt (email : EmailRecord) (input : AttemptCompletion) :
    (completeEmail email input).updatedAt = email.updatedAt := by
  unfold completeEmail
  split <;> rfl

/-- The ledger after the completion of its attempt at index `i`. -/
def DeliveryLedgerState.completed (s : DeliveryLedgerState) (i : ℕ) (a : AttemptRecord)
    (input : AttemptCompletion) : DeliveryLedgerState :=
  let next := s.restate (s.recipients.map (completeRecipient a input)) input.completedAt
    (if input.status = .accepted then none else input.publicError)
  { next with
    email := completeEmail next.email input
    attempts := s.attempts.set i (completedAttempt input a) }

theorem planAttemptCompletion_eq_ok {s : DeliveryLedgerState} (ho : s.Ordered)
    {input : AttemptCompletion} {a' : AttemptRecord} {p : DeliveryLedgerPlan}
    (h : planAttemptCompletion s input = .ok (p, a')) :
    ∃ i a, s.Consistent ∧ s.attempts[i]? = some a ∧ a.id = input.attemptId ∧
      a.messageId = input.messageId ∧ a.status = .submitting ∧
      (∀ r ∈ s.recipients, r.id ∈ a.recipientIds →
        r.status = .sending ∧ r.latestAttemptId = some a.id) ∧
      a' = completedAttempt input a ∧ p.toDeliveryLedgerState = s.completed i a input := by
  obtain ⟨s', hs, h⟩ := bind_eq_ok.mp h
  obtain ⟨hc, rfl⟩ := (assertLedgerState_of_ordered ho).mp hs
  simp only at h
  split at h
  · cases h
  · rename_i a ha
    obtain ⟨_, hsub, h⟩ := bind_eq_ok.mp h
    obtain ⟨_, hown, h⟩ := bind_eq_ok.mp h
    obtain ⟨b, hb, h⟩ := bind_eq_ok.mp h
    obtain ⟨-, rfl⟩ := AttemptRecord.parse_eq_ok.mp hb
    obtain ⟨rs, hrs, h⟩ := bind_eq_ok.mp h
    obtain ⟨-, rfl⟩ := mapM_parseIf_eq_ok.mp hrs
    obtain ⟨m, hm, h⟩ := bind_eq_ok.mp h
    obtain ⟨-, -, rfl⟩ := updateMessage_eq_ok.mp hm
    rw [pure_eq_ok, Prod.mk.injEq] at h
    obtain ⟨rfl, rfl⟩ := h
    obtain ⟨hlt, hget⟩ := List.getElem?_eq_some_iff.mp ha
    have hfound := List.findIdx_getElem (w := hlt)
    rw [hget] at hfound
    simp only [Bool.and_eq_true, beq_iff_eq] at hfound
    refine ⟨_, a, hc, ha, hfound.1, hfound.2, by simpa using hsub, ?_, rfl, rfl⟩
    intro r hr hid
    simp only [throwIf_eq_ok, List.any_eq_false, Bool.and_eq_true, List.contains_iff_mem,
      Bool.or_eq_true, bne_iff_ne, not_and, not_or, not_not] at hown
    exact hown r hr hid

/-- Write a status into a recipient; one that has it is kept as it is. -/
def RecipientRecord.withStatus (r : RecipientRecord) (status : RecipientStatus) (updatedAt : ℕ) :
    RecipientRecord :=
  if status != r.status then { r with status := status, updatedAt := updatedAt } else r

@[simp] theorem RecipientRecord.withStatus_status (r : RecipientRecord) (status : RecipientStatus)
    (updatedAt : ℕ) : (r.withStatus status updatedAt).status = status := by
  unfold withStatus
  split_ifs with h
  · rfl
  · exact (by simpa using h : status = r.status).symm

@[simp] theorem RecipientRecord.withStatus_id (r : RecipientRecord) (status : RecipientStatus)
    (updatedAt : ℕ) : (r.withStatus status updatedAt).id = r.id := by
  unfold withStatus
  split_ifs <;> rfl

/-- The ledger after a provider event. -/
def DeliveryLedgerState.observed (s : DeliveryLedgerState) (e : ProviderEventRecord) :
    DeliveryLedgerState :=
  let t := latestTimestamp s.email.updatedAt s.message.updatedAt e.receivedAt
  s.restate (s.recipients.map fun r => r.withStatus (eventStatus e r) t) t none

theorem planProviderEvent_eq_ok {s : DeliveryLedgerState} (ho : s.Ordered)
    {e e' : ProviderEventRecord} {p : DeliveryLedgerPlan}
    (h : planProviderEvent s e = .ok (p, e')) :
    s.Consistent ∧ e.Valid ∧ eventCorrelates s e = true ∧ e' = e ∧
      p.toDeliveryLedgerState = s.observed e := by
  obtain ⟨s', hs, h⟩ := bind_eq_ok.mp h
  obtain ⟨hc, rfl⟩ := (assertLedgerState_of_ordered ho).mp hs
  obtain ⟨f, hf, h⟩ := bind_eq_ok.mp h
  obtain ⟨hev, rfl⟩ := ProviderEventRecord.parse_eq_ok.mp hf
  obtain ⟨_, hcorr, h⟩ := bind_eq_ok.mp h
  obtain ⟨rs, hrs, h⟩ := bind_eq_ok.mp h
  obtain ⟨-, rfl⟩ := mapM_parseIf_eq_ok.mp hrs
  obtain ⟨m, hm, h⟩ := bind_eq_ok.mp h
  obtain ⟨-, -, rfl⟩ := updateMessage_eq_ok.mp hm
  rw [pure_eq_ok, Prod.mk.injEq] at h
  obtain ⟨rfl, rfl⟩ := h
  exact ⟨hc, hev, by simpa using hcorr, rfl, rfl⟩

/-- The ledger after a local state. -/
def DeliveryLedgerState.localized (s : DeliveryLedgerState) (status : LocalStatus)
    (updatedAt : ℕ) : DeliveryLedgerState :=
  let t := latestTimestamp s.email.updatedAt s.message.updatedAt updatedAt
  s.restate (s.recipients.map fun r => r.withStatus (localStatus status r) t) t none

theorem planLocalRecipientState_eq_ok {s : DeliveryLedgerState} (ho : s.Ordered)
    {status : LocalStatus} {updatedAt : ℕ} {p : DeliveryLedgerPlan}
    (h : planLocalRecipientState s status updatedAt = .ok p) :
    s.Consistent ∧ (∀ a ∈ s.attempts, a.status ≠ .submitting) ∧
      (∀ r ∈ s.recipients, r.status ≠ .sending) ∧
      p.toDeliveryLedgerState = s.localized status updatedAt := by
  obtain ⟨s', hs, h⟩ := bind_eq_ok.mp h
  obtain ⟨hc, rfl⟩ := (assertLedgerState_of_ordered ho).mp hs
  obtain ⟨_, hidle, h⟩ := bind_eq_ok.mp h
  obtain ⟨rs, hrs, h⟩ := bind_eq_ok.mp h
  obtain ⟨-, rfl⟩ := mapM_parseIf_eq_ok.mp hrs
  obtain ⟨m, hm, h⟩ := bind_eq_ok.mp h
  obtain ⟨-, -, rfl⟩ := updateMessage_eq_ok.mp hm
  rw [pure_eq_ok] at h
  subst h
  simp only [throwIf_eq_ok, Bool.or_eq_false_iff, List.any_eq_false, beq_iff_eq] at hidle
  exact ⟨hc, hidle.1, hidle.2, rfl⟩

end HayaSend
