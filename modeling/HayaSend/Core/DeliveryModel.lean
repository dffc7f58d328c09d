import HayaSend.Core.Types

/-!
# The delivery records and their schemas

Messages, recipients, attempts, provider events and outbox items, with the check each schema makes
on a record. A parse either returns the record as it is or fails with the issues found: the field
formats first and, where these pass, the refinements across fields. `Valid` names the records a
parse accepts.
-/

namespace HayaSend

/-! ## Text formats -/

/-- `[A-Za-z0-9_-]` -/
def isIdChar (c : Char) : Bool := c.isAlphanum || c == '_' || c == '-'

/-- `^start[A-Za-z0-9_-]{lo,hi}$` -/
def isOpaqueId (start : String) (lo hi : ℕ) (s : String) : Bool :=
  let cs := s.toList
  let tail := cs.drop start.length
  start.toList.isPrefixOf cs && tail.all isIdChar && lo ≤ tail.length && tail.length ≤ hi

/-- `messageIdSchema` -/
def messageIdSchema (s : String) : Bool := isOpaqueId "email_" 16 128 s

/-- `recipientIdSchema` -/
def recipientIdSchema (s : String) : Bool := isOpaqueId "rcpt_" 22 128 s

/-- `attemptIdSchema` -/
def attemptIdSchema (s : String) : Bool := isOpaqueId "attempt_" 22 128 s

/-- `^[a-f0-9]{64}$` -/
def sha256Schema (s : String) : Bool :=
  s.toList.all (fun c => c.isDigit || ('a' ≤ c && c ≤ 'f')) && s.toList.length == 64

/-- `^[a-z][a-z0-9-]{1,63}$` -/
def providerNameSchema (s : String) : Bool :=
  match s.toList with
  | [] => false
  | c :: cs =>
    c.isLower && cs.all (fun c => c.isLower || c.isDigit || c == '-') &&
      1 ≤ cs.length && cs.length ≤ 63

/-- Read `0|[1-9]\d*` off the front. -/
def numericIdentifier (cs : List Char) : Option (List Char) :=
  let digits := cs.takeWhile Char.isDigit
  if digits == ['0'] || digits.head?.any (· != '0') then some (cs.dropWhile Char.isDigit)
  else none

/-- Read a dot off the front. -/
def dot : List Char → Option (List Char)
  | '.' :: cs => some cs
  | _ => none

/-- `^(0|[1-9]\d*)\.(0|[1-9]\d*)\.(0|[1-9]\d*)(?:-[0-9A-Za-z.-]+)?$` -/
def semanticVersionSchema (s : String) : Bool :=
  match numericIdentifier s.toList >>= dot >>= numericIdentifier >>= dot >>= numericIdentifier with
  | some [] => true
  | some ('-' :: cs) => !cs.isEmpty && cs.all fun c => c.isAlphanum || c == '.' || c == '-'
  | _ => false

/-- `^[\x21-\x7E]+$`, of length 1 to 512. -/
def providerMessageIdSchema (s : String) : Bool :=
  s.toList.all (fun c => 0x21 ≤ c.toNat && c.toNat ≤ 0x7E) &&
    1 ≤ s.toList.length && s.toList.length ≤ 512

/-- `^[\x21-\x3F\x41-\x7E]+$`, of length 1 to 512: visible ASCII without `@`. -/
def providerOpaqueIdSchema (s : String) : Bool :=
  providerMessageIdSchema s && s.toList.all (· != '@')

/-- The address pattern of the schema library: a local part without a leading dot, a double dot
or a trailing dot, and a domain of at least two labels, the last alphabetic. -/
def isEmailAddress (s : String) : Bool :=
  match s.toList.splitOn '@' with
  | [localPart, domain] =>
    let localChar := fun c : Char => c.isAlphanum || c == '_' || c == '\'' || c == '+' || c == '-'
    let label := fun l : List Char =>
      l.head?.any Char.isAlphanum && l.all fun c => c.isAlphanum || c == '-'
    let labels := domain.splitOn '.'
    (localPart.splitOn '.').all (fun part => !part.isEmpty && part.all localChar) &&
      localPart.getLast?.any (fun c => localChar c && c != '\'') &&
      2 ≤ labels.length && labels.all label &&
      labels.getLast?.any fun l => l.all Char.isAlpha && 2 ≤ l.length
  | _ => false

/-- `encodeURIComponent` -/
def identitySegment (s : String) : String :=
  let hex := fun n : ℕ => (Nat.digitChar n).toUpper
  String.ofList (s.toList.flatMap fun c =>
    if c.isAlphanum || "-_.!~*'()".toList.contains c then [c]
    else (String.utf8EncodeChar c).flatMap fun b => ['%', hex (b.toNat / 16), hex (b.toNat % 16)])

/-! ## Enumerations -/

inductive EnvelopeRole
  | to_
  | cc
  | bcc
  deriving DecidableEq, Repr

inductive DiagnosticCategory
  | applicationError
  | invalidData
  | networkDns
  | networkRefused
  | networkReset
  | providerError
  | providerRejected
  | providerThrottled
  | providerUnavailable
  | timeout
  deriving DecidableEq, Repr

inductive MessageStatus
  | queued
  | scheduled
  | sending
  | accepted
  | partiallyDelivered
  | delivered
  | deliveryDelayed
  | bounced
  | complained
  | failed
  | canceled
  | suppressed
  deriving DecidableEq, Repr

inductive RecipientStatus
  | queued
  | sending
  | accepted
  | deliveryDelayed
  | delivered
  | opened
  | clicked
  | bounced
  | complained
  | rejected
  | failed
  | suppressed
  | canceled
  deriving DecidableEq, Repr

inductive AttemptStatus
  | pending
  | submitting
  | accepted
  | ambiguous
  | retryableFailed
  | permanentFailed
  deriving DecidableEq, Repr

inductive ProviderEventType
  | accepted
  | delivered
  | delayed
  | bounced
  | complained
  | rejected
  | opened
  | clicked
  | failed
  deriving DecidableEq, Repr

inductive OutboxJobType
  | dispatchMessage
  | wakeScheduledMessage
  | reconcileMessage
  deriving DecidableEq, Repr

/-- The text of a job type in an outbox identity. -/
def OutboxJobType.text : OutboxJobType → String
  | .dispatchMessage => "dispatch-message"
  | .wakeScheduledMessage => "wake-scheduled-message"
  | .reconcileMessage => "reconcile-message"

inductive ProviderEventSource
  | providerEventId (value : String)
  | normalizedEventDigest (value : String)
  deriving DecidableEq, Repr

/-! ## Records -/

structure ProviderReference where
  name : String
  adapterVersion : String
  capabilityVersion : String
  deriving DecidableEq, Repr

structure MessageRecord where
  id : String
  provider : ProviderReference
  intentDigest : String
  recipientIds : List String
  status : MessageStatus
  createdAt : ℕ
  updatedAt : ℕ
  scheduledAt : Option ℕ := none
  deriving DecidableEq, Repr

structure RecipientRecord where
  id : String
  messageId : String
  role : EnvelopeRole
  ordinal : ℕ
  address : String
  status : RecipientStatus
  latestAttemptId : Option String := none
  createdAt : ℕ
  updatedAt : ℕ
  deriving DecidableEq, Repr

structure AttemptRecord where
  id : String
  messageId : String
  recipientIds : List String
  sequence : ℕ
  provider : ProviderReference
  status : AttemptStatus
  providerMessageId : Option String := none
  diagnosticCategory : Option DiagnosticCategory := none
  startedAt : ℕ
  completedAt : Option ℕ := none
  deriving DecidableEq, Repr

structure ProviderEventRecord where
  id : String
  provider : ProviderReference
  source : ProviderEventSource
  messageId : String
  attemptId : Option String := none
  recipientIds : List String
  providerMessageId : Option String := none
  type : ProviderEventType
  providerAt : ℕ
  receivedAt : ℕ
  terminal : Bool
  diagnosticCategory : Option DiagnosticCategory := none
  deriving DecidableEq, Repr

structure OutboxItemRecord where
  id : String
  messageId : String
  jobType : OutboxJobType
  generation : ℕ
  dueAt : ℕ
  attempts : ℕ
  leaseOwner : Option String := none
  leaseExpiresAt : Option ℕ := none
  dispatchedAt : Option ℕ := none
  lastDiagnosticCategory : Option DiagnosticCategory := none
  createdAt : ℕ
  updatedAt : ℕ
  deriving DecidableEq, Repr

/-! ## Schema checks -/

/-- One issue when a check fails. -/
def issueUnless (ok : Bool) (path : List String) (code : IssueCode) : List Issue :=
  if ok then [] else [⟨path, code⟩]

@[simp] theorem issueUnless_eq_nil (ok : Bool) (path : List String) (code : IssueCode) :
    issueUnless ok path code = [] ↔ ok = true := by
  cases ok <;> simp [issueUnless]

/-- The refinements run only on a record whose fields pass. -/
def refineIssues (fields refinements : List Issue) : List Issue :=
  if fields = [] then refinements else fields

@[simp] theorem refineIssues_eq_nil (fields refinements : List Issue) :
    refineIssues fields refinements = [] ↔ fields = [] ∧ refinements = [] := by
  unfold refineIssues
  split_ifs with h
  · simp [h]
  · simp [h]

/-- Return a record without issues, fail with the issues otherwise. -/
def parseWith {α : Type} (issues : α → List Issue) (a : α) : Except Failure α :=
  if issues a = [] then .ok a else .error (.schema (issues a))

theorem parseWith_eq_ok {α : Type} {issues : α → List Issue} {a b : α} :
    parseWith issues a = .ok b ↔ issues a = [] ∧ a = b := by
  unfold parseWith
  split_ifs with h <;> simp [h]

def ProviderReference.issues (p : ProviderReference) : List Issue :=
  issueUnless (providerNameSchema p.name) ["provider", "name"] .invalidFormat ++
  issueUnless (semanticVersionSchema p.adapterVersion) ["provider", "adapter_version"]
    .invalidFormat ++
  issueUnless (semanticVersionSchema p.capabilityVersion) ["provider", "capability_version"]
    .invalidFormat

/-- `validateUpdatedAt` -/
def validateUpdatedAt (createdAt updatedAt : ℕ) : List Issue :=
  issueUnless (decide (createdAt ≤ updatedAt)) ["updated_at"]
    (.custom "updated_at cannot be before created_at")

/-- The refinement shared by the records that list recipients. -/
def uniqueRecipientIds (ids : List String) : List Issue :=
  issueUnless (decide ids.Nodup) ["recipient_ids"] (.custom "recipient_ids must be unique")

namespace MessageRecord

def issues (m : MessageRecord) : List Issue :=
  refineIssues
    (issueUnless (messageIdSchema m.id) ["id"] .invalidFormat ++ m.provider.issues ++
      issueUnless (sha256Schema m.intentDigest) ["intent_digest"] .invalidFormat ++
      issueUnless (!m.recipientIds.isEmpty) ["recipient_ids"] .tooSmall ++
      issueUnless (m.recipientIds.all recipientIdSchema) ["recipient_ids"] .invalidFormat)
    (validateUpdatedAt m.createdAt m.updatedAt ++ uniqueRecipientIds m.recipientIds)

/-- The records `deliveryMessageRecordSchema` accepts. -/
def Valid (m : MessageRecord) : Prop := m.issues = []

instance : DecidablePred Valid := fun m => inferInstanceAs (Decidable (m.issues = []))

/-- `deliveryMessageRecordSchema.parse` -/
def parse (m : MessageRecord) : Except Failure MessageRecord := parseWith issues m

theorem parse_eq_ok {m m' : MessageRecord} : m.parse = .ok m' ↔ m.Valid ∧ m = m' :=
  parseWith_eq_ok

theorem Valid.nodup {m : MessageRecord} (h : m.Valid) : m.recipientIds.Nodup := by
  simp only [Valid, issues, refineIssues_eq_nil, uniqueRecipientIds, List.append_eq_nil_iff,
    issueUnless_eq_nil, decide_eq_true_eq] at h
  exact h.2.2

theorem Valid.ne_nil {m : MessageRecord} (h : m.Valid) : m.recipientIds ≠ [] := by
  simp only [Valid, issues, refineIssues_eq_nil, List.append_eq_nil_iff, issueUnless_eq_nil,
    Bool.not_eq_true', List.isEmpty_eq_false_iff] at h
  exact h.1.1.2

theorem Valid.created_le {m : MessageRecord} (h : m.Valid) : m.createdAt ≤ m.updatedAt := by
  simp only [Valid, issues, refineIssues_eq_nil, validateUpdatedAt, List.append_eq_nil_iff,
    issueUnless_eq_nil, decide_eq_true_eq] at h
  exact h.2.1

/-- The check reads neither the status nor the schedule, and of the update time only that it is
not before the creation. -/
theorem Valid.update {m m' : MessageRecord} (h : m.Valid) (hid : m'.id = m.id)
    (hp : m'.provider = m.provider) (hd : m'.intentDigest = m.intentDigest)
    (hr : m'.recipientIds = m.recipientIds) (hu : m'.createdAt ≤ m'.updatedAt) : m'.Valid := by
  simp only [Valid, issues, refineIssues_eq_nil, validateUpdatedAt, List.append_eq_nil_iff,
    issueUnless_eq_nil, decide_eq_true_eq] at h ⊢
  rw [hid, hp, hd, hr]
  exact ⟨h.1, hu, h.2.2⟩

end MessageRecord

namespace RecipientRecord

def issues (r : RecipientRecord) : List Issue :=
  refineIssues
    (issueUnless (recipientIdSchema r.id) ["id"] .invalidFormat ++
      issueUnless (messageIdSchema r.messageId) ["message_id"] .invalidFormat ++
      issueUnless (isEmailAddress r.address) ["address"] .invalidFormat ++
      issueUnless (decide (r.address.toList.length ≤ 320)) ["address"] .tooBig ++
      issueUnless (r.latestAttemptId.all attemptIdSchema) ["latest_attempt_id"] .invalidFormat)
    (validateUpdatedAt r.createdAt r.updatedAt)

/-- The records `recipientRecordSchema` accepts. -/
def Valid (r : RecipientRecord) : Prop := r.issues = []

instance : DecidablePred Valid := fun r => inferInstanceAs (Decidable (r.issues = []))

/-- `recipientRecordSchema.parse` -/
def parse (r : RecipientRecord) : Except Failure RecipientRecord := parseWith issues r

theorem parse_eq_ok {r r' : RecipientRecord} : r.parse = .ok r' ↔ r.Valid ∧ r = r' :=
  parseWith_eq_ok

theorem Valid.created_le {r : RecipientRecord} (h : r.Valid) : r.createdAt ≤ r.updatedAt := by
  simp only [Valid, issues, refineIssues_eq_nil, validateUpdatedAt, issueUnless_eq_nil,
    decide_eq_true_eq] at h
  exact h.2

/-- A recipient stays valid under a new status, attempt and update time. -/
theorem Valid.update {r : RecipientRecord} (h : r.Valid) (s : RecipientStatus)
    {a : Option String} (ha : a.all attemptIdSchema = true) {t : ℕ}
    (ht : r.createdAt ≤ t) :
    Valid { r with status := s, latestAttemptId := a, updatedAt := t } := by
  simp only [Valid, issues, refineIssues_eq_nil, validateUpdatedAt, List.append_eq_nil_iff,
    issueUnless_eq_nil, decide_eq_true_eq] at h ⊢
  exact ⟨⟨h.1.1, ha⟩, ht⟩

theorem Valid.latestAttemptId {r : RecipientRecord} (h : r.Valid) :
    r.latestAttemptId.all attemptIdSchema = true := by
  simp only [Valid, issues, refineIssues_eq_nil, List.append_eq_nil_iff, issueUnless_eq_nil] at h
  exact h.1.2

end RecipientRecord

/-- An attempt is complete unless it is pending or submitting. -/
def AttemptStatus.isComplete (s : AttemptStatus) : Bool := s != .pending && s != .submitting

/-- The failures an attempt classifies. -/
def AttemptStatus.isFailure (s : AttemptStatus) : Bool :=
  s == .retryableFailed || s == .permanentFailed

namespace AttemptRecord

def issues (a : AttemptRecord) : List Issue :=
  refineIssues
    (issueUnless (attemptIdSchema a.id) ["id"] .invalidFormat ++
      issueUnless (messageIdSchema a.messageId) ["message_id"] .invalidFormat ++
      issueUnless (!a.recipientIds.isEmpty) ["recipient_ids"] .tooSmall ++
      issueUnless (a.recipientIds.all recipientIdSchema) ["recipient_ids"] .invalidFormat ++
      issueUnless (decide (0 < a.sequence)) ["sequence"] .tooSmall ++ a.provider.issues ++
      issueUnless (a.providerMessageId.all providerMessageIdSchema) ["provider_message_id"]
        .invalidFormat)
    (uniqueRecipientIds a.recipientIds ++
      issueUnless (a.status.isComplete == a.completedAt.isSome) ["completed_at"]
        (.custom "completed_at is required exactly when an attempt has completed") ++
      issueUnless (a.completedAt.all fun t => decide (a.startedAt ≤ t)) ["completed_at"]
        (.custom "completed_at cannot be before started_at") ++
      issueUnless (a.status.isFailure == a.diagnosticCategory.isSome) ["diagnostic_category"]
        (.custom "diagnostic_category is required exactly for classified failures"))

/-- The records `deliveryAttemptRecordSchema` accepts. -/
def Valid (a : AttemptRecord) : Prop := a.issues = []

instance : DecidablePred Valid := fun a => inferInstanceAs (Decidable (a.issues = []))

/-- `deliveryAttemptRecordSchema.parse` -/
def parse (a : AttemptRecord) : Except Failure AttemptRecord := parseWith issues a

theorem parse_eq_ok {a a' : AttemptRecord} : a.parse = .ok a' ↔ a.Valid ∧ a = a' :=
  parseWith_eq_ok

theorem Valid.id {a : AttemptRecord} (h : a.Valid) : attemptIdSchema a.id = true := by
  simp only [Valid, issues, refineIssues_eq_nil, List.append_eq_nil_iff, issueUnless_eq_nil] at h
  exact h.1.1.1.1.1.1.1

end AttemptRecord

/-! ## Identities -/

/-- `createProviderEventIdentity` -/
def createProviderEventIdentity (provider : String) (source : ProviderEventSource) :
    Except Failure String :=
  let kind := match source with
    | .providerEventId _ => "id"
    | .normalizedEventDigest _ => "digest"
  let value := match source with
    | .providerEventId value => value
    | .normalizedEventDigest value => value
  let sourceOk := match source with
    | .providerEventId value => providerOpaqueIdSchema value
    | .normalizedEventDigest value => sha256Schema value
  let identity :=
    "provider-event:v1:" ++ identitySegment provider ++ ":" ++ kind ++ ":" ++ identitySegment value
  let issues := issueUnless (providerNameSchema provider) [] .invalidFormat ++
    issueUnless sourceOk ["value"] .invalidFormat ++
    issueUnless (decide (identity.toList.length ≤ 2048)) [] .tooBig
  if issues = [] then .ok identity else .error (.schema issues)

/-- `createOutboxIdentity` -/
def createOutboxIdentity (messageId : String) (jobType : OutboxJobType) (generation : ℕ) :
    Except Failure String :=
  let identity := "outbox:v1:" ++ identitySegment messageId ++ ":" ++ jobType.text ++ ":" ++
    toString generation
  let issues := issueUnless (messageIdSchema messageId) [] .invalidFormat ++
    issueUnless (decide (identity.toList.length ≤ 512)) [] .tooBig
  if issues = [] then .ok identity else .error (.schema issues)

namespace ProviderEventRecord

def issues (e : ProviderEventRecord) : List Issue :=
  refineIssues
    (e.provider.issues ++
      issueUnless (messageIdSchema e.messageId) ["message_id"] .invalidFormat ++
      issueUnless (e.attemptId.all attemptIdSchema) ["attempt_id"] .invalidFormat ++
      issueUnless (e.recipientIds.all recipientIdSchema) ["recipient_ids"] .invalidFormat ++
      issueUnless (e.providerMessageId.all providerMessageIdSchema) ["provider_message_id"]
        .invalidFormat)
    (uniqueRecipientIds e.recipientIds ++
      issueUnless (createProviderEventIdentity e.provider.name e.source matches .ok _) ["source"]
        .invalidFormat ++
      issueUnless (match createProviderEventIdentity e.provider.name e.source with
          | .ok identity => e.id == identity
          | .error _ => true) ["id"]
        (.custom "provider event identity does not match provider and source"))

/-- The records `providerEventRecordSchema` accepts. -/
def Valid (e : ProviderEventRecord) : Prop := e.issues = []

instance : DecidablePred Valid := fun e => inferInstanceAs (Decidable (e.issues = []))

/-- `providerEventRecordSchema.parse` -/
def parse (e : ProviderEventRecord) : Except Failure ProviderEventRecord := parseWith issues e

theorem parse_eq_ok {e e' : ProviderEventRecord} : e.parse = .ok e' ↔ e.Valid ∧ e = e' :=
  parseWith_eq_ok

/-- `isEquivalentProviderEventReplay`: equal up to the time of receipt. -/
def isEquivalentReplay (left right : ProviderEventRecord) : Bool :=
  { left with receivedAt := 0 } == { right with receivedAt := 0 }

end ProviderEventRecord

namespace OutboxItemRecord

def issues (o : OutboxItemRecord) : List Issue :=
  refineIssues
    (issueUnless (messageIdSchema o.messageId) ["message_id"] .invalidFormat ++
      issueUnless (o.leaseOwner.all providerOpaqueIdSchema) ["lease_owner"] .invalidFormat)
    (validateUpdatedAt o.createdAt o.updatedAt ++
      issueUnless (match createOutboxIdentity o.messageId o.jobType o.generation with
          | .ok identity => o.id == identity
          | .error _ => false) ["id"]
        (.custom "outbox identity does not match message, job type, and generation") ++
      issueUnless (o.leaseOwner.isNone == o.leaseExpiresAt.isNone) ["lease_owner"]
        (.custom "lease owner and expiry must be present together") ++
      issueUnless (o.dispatchedAt.isNone || o.leaseOwner.isNone) ["dispatched_at"]
        (.custom "a dispatched item cannot retain a lease"))

/-- The records `outboxItemRecordSchema` accepts. -/
def Valid (o : OutboxItemRecord) : Prop := o.issues = []

instance : DecidablePred Valid := fun o => inferInstanceAs (Decidable (o.issues = []))

/-- `outboxItemRecordSchema.parse` -/
def parse (o : OutboxItemRecord) : Except Failure OutboxItemRecord := parseWith issues o

theorem parse_eq_ok {o o' : OutboxItemRecord} : o.parse = .ok o' ↔ o.Valid ∧ o = o' :=
  parseWith_eq_ok

end OutboxItemRecord

end HayaSend
