import HayaSend.Adapters.MemoryStore
import HayaSend.Services.Suppressions

/-!
# Creating an email

`EmailService.create`: `prepareEmail` resolves the template, validates the input, derives the
text, parses the schedule, resolves the attachments, looks the recipients up in the suppression
list and digests the canonical request; `commitPreparedEmail` hands the delivery to the store.

The template and attachment services are those of a `Collaborators` record, which also holds what
a call finds in their stores. The ids of a call come from a supply of random hexadecimal texts.
-/

namespace HayaSend

/-! ## Requests -/

structure EmailTag where
  name : String
  value : String
  deriving DecidableEq, Repr

structure AttachmentPresentation where
  contentType : Option String := none
  contentId : Option String := none
  contentDisposition : Option String := none
  deriving DecidableEq, Repr

inductive EmailAttachmentInput
  | ofContent (filename content : String) (presentation : AttachmentPresentation)
  | uploaded (attachmentId : String) (filename : Option String)
      (presentation : AttachmentPresentation)
  deriving DecidableEq, Repr

structure EmailAttachment extends AttachmentPresentation where
  filename : String
  content : Option String := none
  attachmentId : Option String := none
  objectKey : Option String := none
  sizeBytes : Option ℕ := none
  checksumSha256 : Option String := none
  deriving DecidableEq, Repr

structure AttachmentUploadRecord where
  id : String
  filename : String
  contentType : String
  sizeBytes : ℕ
  checksumSha256 : String
  objectKey : String
  expiresAt : ℕ
  deriving DecidableEq, Repr

/-- A number is given by its text. -/
inductive TemplateValue
  | text (value : String)
  | number (value : String)
  deriving DecidableEq, Repr

structure TemplateReference where
  id : String
  variables_ : Option (List (String × TemplateValue)) := none
  deriving DecidableEq, Repr

structure SendEmailInput where
  from_ : Option String := none
  to_ : List String
  subject : Option String := none
  html : Option String := none
  text : Option String := none
  template : Option TemplateReference := none
  cc : Option (List String) := none
  bcc : Option (List String) := none
  replyTo : Option (List String) := none
  headers : Option (List (String × String)) := none
  tags : Option (List EmailTag) := none
  attachments : Option (List EmailAttachmentInput) := none
  scheduledAt : Option String := none
  deriving DecidableEq, Repr

/-! ## Requests as JSON -/

def AttachmentPresentation.fields (a : AttachmentPresentation) : List (String × Option Json) :=
  [("content_type", a.contentType.map .str), ("content_id", a.contentId.map .str),
    ("content_disposition", a.contentDisposition.map .str)]

def EmailAttachmentInput.toJson : EmailAttachmentInput → Json
  | ofContent filename content presentation => Json.ofFields
      (presentation.fields ++ [("filename", some (.str filename)), ("content", some (.str content))])
  | uploaded attachmentId filename presentation => Json.ofFields
      (presentation.fields ++
        [("attachment_id", some (.str attachmentId)), ("filename", filename.map .str)])

def EmailAttachment.toJson (a : EmailAttachment) : Json :=
  Json.ofFields (a.toAttachmentPresentation.fields ++
    [("filename", some (.str a.filename)), ("content", a.content.map .str),
      ("attachment_id", a.attachmentId.map .str), ("object_key", a.objectKey.map .str),
      ("size_bytes", a.sizeBytes.map fun n => .num (toString n)),
      ("checksum_sha256", a.checksumSha256.map .str)])

def TemplateValue.toJson : TemplateValue → Json
  | text value => .str value
  | number value => .num value

def TemplateReference.toJson (t : TemplateReference) : Json :=
  Json.ofFields [("id", some (.str t.id)),
    ("variables", t.variables_.map fun vs => .obj (vs.map fun v => (v.1, v.2.toJson)))]

def EmailTag.toJson (t : EmailTag) : Json :=
  Json.ofFields [("name", some (.str t.name)), ("value", some (.str t.value))]

/-- A request with the given attachments in place of its own. -/
def SendEmailInput.toJson (input : SendEmailInput) (attachments : Option (List Json)) : Json :=
  let texts := fun values : List String => Json.arr (values.map .str)
  Json.ofFields [("from", input.from_.map .str), ("to", some (texts input.to_)),
    ("subject", input.subject.map .str), ("html", input.html.map .str),
    ("text", input.text.map .str), ("template", input.template.map TemplateReference.toJson),
    ("cc", input.cc.map texts), ("bcc", input.bcc.map texts), ("reply_to", input.replyTo.map texts),
    ("headers", input.headers.map fun hs => .obj (hs.map fun h => (h.1, .str h.2))),
    ("tags", input.tags.map fun ts => .arr (ts.map EmailTag.toJson)),
    ("attachments", attachments.map .arr), ("scheduled_at", input.scheduledAt.map .str)]

/-- The text `requestHash` digests. -/
def canonicalText (p : Platform) (request : Json) : String :=
  (request.canonicalize p.localeCompare).stringify

/-- `requestHash` -/
def requestHash (p : Platform) (request : Json) : String := p.sha256 (canonicalText p request)

/-! ## Validation -/

def maxSerializedEmailBytes : ℕ := 9 * 1024 * 1024

/-- `ensureSafeHeaderValue` -/
def ensureSafeHeaderValue (label value : String) : Except Failure Unit := do
  throwIf (value.toList.any fun c => c == '\r' || c == '\n')
    (.validation (label ++ " must not contain line breaks."))
  throwIf (decide (998 < value.utf8ByteSize))
    (.validation (label ++ " must not exceed 998 bytes."))

def SendEmailInput.recipients (input : SendEmailInput) : List String :=
  input.to_ ++ input.cc.getD [] ++ input.bcc.getD []

/-- A field that is absent or empty is falsy. -/
def isSet (field : Option String) : Bool := field.any (· != "")

/-- `validateInput` -/
def validateInput (input : SendEmailInput) : Except Failure Unit := do
  throwIf input.template.isSome (.validation "Template input must be resolved before sending.")
  throwIf (!isSet input.from_ || !isSet input.subject)
    (.validation "from and subject are required.")
  throwIf (!isSet input.html && !isSet input.text)
    (.validation "Either html or text is required.")
  throwIf (input.recipients.isEmpty || decide (50 < input.recipients.length))
    (.validation "An email must have between 1 and 50 recipients.")
  ensureSafeHeaderValue "from" (input.from_.getD "")
  ensureSafeHeaderValue "subject" (input.subject.getD "")
  input.recipients.forM (ensureSafeHeaderValue "recipient")
  (input.replyTo.getD []).forM (ensureSafeHeaderValue "reply_to")
  (input.headers.getD []).forM fun header => do
    throwIf (header.1.toLower == "message-id")
      (.validation "Message-ID is assigned by the delivery provider.")
    ensureSafeHeaderValue "header name" header.1
    ensureSafeHeaderValue ("header " ++ header.1) header.2
  throwIf (decide (maxSerializedEmailBytes < (input.toJson (input.attachments.map
      (·.map EmailAttachmentInput.toJson))).stringify.utf8ByteSize))
    (.validation "The serialized request must not exceed 9 MiB.")

/-- `normalizeEnvelopeAddress` -/
def normalizeEnvelopeAddress (p : Platform) (value : String) : Except Failure String := do
  let normalized ← normalizeMailbox p value
  throwIf (!(isEmailAddress normalized && decide (normalized.toList.length ≤ 320)))
    (.validation ("Invalid email address: " ++ value))
  return normalized

/-- `collect` of `normalizeRecipients`: the values whose address was not seen yet, and the addresses
seen then. -/
def collectRecipients (p : Platform) (seen : List String) :
    List String → Except Failure (List String × List String)
  | [] => .ok ([], seen)
  | value :: values => do
    let address ← normalizeEnvelopeAddress p value
    if seen.contains address then collectRecipients p seen values
    else do
      let (kept, seen) ← collectRecipients p (address :: seen) values
      return (value :: kept, seen)

/-- `normalizeRecipients`, merged into the input: a list left empty does not replace the input's. -/
def normalizeRecipients (p : Platform) (input : SendEmailInput) :
    Except Failure SendEmailInput := do
  let (to_, seen) ← collectRecipients p [] input.to_
  let (cc, seen) ← collectRecipients p seen (input.cc.getD [])
  let (bcc, _) ← collectRecipients p seen (input.bcc.getD [])
  return { input with
    to_ := to_
    cc := if cc.isEmpty then input.cc else some cc
    bcc := if bcc.isEmpty then input.bcc else some bcc }

/-! ## Templates and attachments -/

/-- What `renderTemplateVersion` returns. -/
structure RenderedTemplate where
  from_ : Option String := none
  subject : Option String := none
  html : String
  text : String
  replyTo : Option (List String) := none
  deriving DecidableEq, Repr

/-- What a call finds in the stores of the services it uses, and how these answer. -/
structure Collaborators where
  /-- The published version of a template, rendered with the sender, subject and reply addresses of
  a request; there may be no template service. -/
  renderPublished : Option (TemplateReference → Option String → Option String →
    Option (List String) → Except Failure RenderedTemplate)
  attachmentUpload : String → Option AttachmentUploadRecord
  verifyAttachment : AttachmentUploadRecord → Except Failure Unit
  suppressions : SuppressionStore
  /-- Whether publishing a webhook event succeeds. -/
  publish : EmailStatus → Except Failure Unit

/-- `resolveForSend`, of a request with a template. -/
def resolveForSend (c : Collaborators) (input : SendEmailInput) (template : TemplateReference) :
    Except Failure SendEmailInput := do
  match c.renderPublished with
  | none => .error (.validation "Hosted templates are unavailable.")
  | some render =>
    let rendered ← render template (input.from_.filter (· != "")) (input.subject.filter (· != ""))
      input.replyTo
    throwIf (!isSet rendered.from_)
      (.validation "from is required because the template has no default sender.")
    throwIf (!isSet rendered.subject)
      (.validation "subject is required because the template has no default subject.")
    return { input with
      template := none
      from_ := rendered.from_
      subject := rendered.subject
      html := some rendered.html
      text := some rendered.text
      replyTo := rendered.replyTo }

def maxAttachmentBytes : ℕ := 25 * 1024 * 1024
def maxEstimatedMessageBytes : ℕ := 39 * 1024 * 1024

/-- One attachment of `AttachmentService.resolve`. -/
def resolveAttachment (p : Platform) (c : Collaborators) (now : ℕ) :
    EmailAttachmentInput → Except Failure EmailAttachment
  | .ofContent filename content presentation =>
    match p.base64Length content with
    | none => .error (.validation
        ("Attachment " ++ filename ++ " content must be canonical base64."))
    | some size => .ok {
        toAttachmentPresentation := presentation
        filename := filename
        content := some content
        sizeBytes := some size }
  | .uploaded attachmentId filename presentation => do
    match (c.attachmentUpload attachmentId).filter (fun record => decide (now < record.expiresAt)) with
    | none => .error (.validation ("Attachment " ++ attachmentId ++ " is invalid or expired."))
    | some record => do
      c.verifyAttachment record
      return {
        attachmentId := some record.id
        filename := filename.getD record.filename
        contentType := some (presentation.contentType.getD record.contentType)
        contentId := presentation.contentId.filter (· != "")
        contentDisposition := presentation.contentDisposition.filter (· != "")
        objectKey := some record.objectKey
        sizeBytes := some record.sizeBytes
        checksumSha256 := some record.checksumSha256 }

/-- `AttachmentService.resolve`; the expansion of 1.37 is counted in hundredths. -/
def resolveAttachments (p : Platform) (c : Collaborators)
    (attachments : Option (List EmailAttachmentInput)) (bodyBytes now : ℕ) :
    Except Failure (Option (List EmailAttachment)) := do
  match attachments with
  | none => return none
  | some attachments =>
    let resolved ← attachments.mapM (resolveAttachment p c now)
    let attachmentBytes := (resolved.map fun a => a.sizeBytes.getD 0).sum
    throwIf (decide (maxAttachmentBytes < attachmentBytes))
      (.validation "Decoded attachment content must not exceed 25 MiB.")
    throwIf (decide (maxEstimatedMessageBytes * 100 <
        (bodyBytes + attachmentBytes) * 137 + resolved.length * 2048 * 100))
      (.validation "The estimated MIME message size must remain below 39 MiB.")
    return some resolved

/-- `idempotencyAttachments`: what is specific to one upload is left out. -/
def idempotencyAttachments (attachments : List EmailAttachment) : List EmailAttachment :=
  attachments.map fun a =>
    if isSet a.attachmentId then { a with attachmentId := none, objectKey := none, content := none }
    else a

/-! ## Preparing an email -/

structure EmailServiceOptions where
  provider : ProviderReference
  /-- `pre_commit_validator`; those of the runtimes read the content of the record. -/
  preCommitValidator : SendEmailInput → Option (List EmailAttachment) → Except Failure Unit

/-- The request with its template resolved. -/
def resolveTemplate (c : Collaborators) (input : SendEmailInput) : Except Failure SendEmailInput :=
  match input.template with
  | some template => resolveForSend c input template
  | none => .ok input

/-- The content that is sent, before its recipients are normalized. -/
def resolveContent (p : Platform) (c : Collaborators) (input : SendEmailInput) :
    Except Failure SendEmailInput := do
  let resolved ← resolveTemplate c input
  validateInput resolved
  return match resolved.html, resolved.text with
    | some html, none => { resolved with text := some (p.convertHtml html maxSerializedEmailBytes) }
    | _, _ => resolved

/-- The request that is digested: the template request as it came, or the normalized content with
the text of its schedule. -/
def stableRequest (input content : SendEmailInput) (attachments : Option (List EmailAttachment)) :
    Json :=
  let stable := attachments.map fun as => (idempotencyAttachments as).map EmailAttachment.toJson
  match input.template with
  | some _ => input.toJson stable
  | none => content.toJson stable

structure PreparedEmail where
  record : EmailRecord
  content : SendEmailInput
  attachments : Option (List EmailAttachment)
  idempotency : Option IdempotencyClaim
  suppressedRecipients : List SuppressionRecord
  deriving DecidableEq, Repr

/-- The status an email starts with. -/
def initialStatus (suppressed : List SuppressionRecord) (scheduledAt : Option ℕ) : EmailStatus :=
  if !suppressed.isEmpty then .suppressed
  else if scheduledAt.isSome then .scheduled
  else .queued

def SendEmailInput.bodyBytes (input : SendEmailInput) : ℕ :=
  (input.html.getD "").utf8ByteSize + (input.text.getD "").utf8ByteSize

def SendEmailInput.uniqueReplyTo (input : SendEmailInput) : SendEmailInput :=
  { input with replyTo := input.replyTo.map List.eraseDups }

/-- The record of an email and its claim. -/
def assembleEmail (p : Platform) (emailId : String) (input normalized : SendEmailInput)
    (scheduledAt : Option ℕ) (attachments : Option (List EmailAttachment))
    (suppressed : List SuppressionRecord) (idempotencyKey : Option String) (now : ℕ) :
    PreparedEmail :=
  let hash := requestHash p (stableRequest input normalized attachments)
  let status := initialStatus suppressed scheduledAt
  { record := {
      id := emailId
      to_ := normalized.to_
      cc := normalized.cc
      bcc := normalized.bcc
      scheduledAt := scheduledAt
      status := status
      lastEvent := .status status
      createdAt := now
      updatedAt := now
      requestHash := hash
      attempts := 0 }
    content := normalized
    attachments := attachments
    idempotency := (idempotencyKey.filter (· != "")).map fun key => {
      keyHash := p.sha256 key
      requestHash := hash
      expiresAt := epochSeconds now + 86400 }
    suppressedRecipients := suppressed }

/-- `prepareEmail` -/
def prepareEmail (p : Platform) (options : EmailServiceOptions) (c : Collaborators)
    (emailId : String) (input : SendEmailInput) (idempotencyKey : Option String) (now : ℕ) :
    Except Failure PreparedEmail := do
  let content ← resolveContent p c input
  let scheduledAt ← parseScheduledAt (content.scheduledAt.map (readSchedule p)) now
  let attachments ← resolveAttachments p c content.attachments
    content.bodyBytes now
  let suppressed ← c.suppressions.findSuppressed p content.recipients
  let recipients ← normalizeRecipients p content
  options.preCommitValidator recipients.uniqueReplyTo attachments
  return assembleEmail p emailId input recipients.uniqueReplyTo scheduledAt attachments suppressed
    idempotencyKey now

/-! ## Committing it -/

/-- The addresses of an email, each with its place on the envelope. -/
def EmailRecord.envelope (record : EmailRecord) : List (EnvelopeRole × ℕ × String) :=
  (record.to_.mapIdx fun ordinal address => (.to_, ordinal, address)) ++
    ((record.cc.getD []).mapIdx fun ordinal address => (.cc, ordinal, address)) ++
    (record.bcc.getD []).mapIdx fun ordinal address => (.bcc, ordinal, address)

/-- The recipients of a new email; `recipientId` supplies their ids. -/
def newRecipients (record : EmailRecord) (recipientId : ℕ → String)
    (places : List (EnvelopeRole × ℕ × String)) : List RecipientRecord :=
  places.mapIdx fun i place => {
    id := recipientId i
    messageId := record.id
    role := place.1
    ordinal := place.2.1
    address := place.2.2
    status := record.status.initialRecipientStatus
    createdAt := record.createdAt
    updatedAt := record.createdAt }

/-- The addresses of an email as the ledger keeps them. -/
def EmailRecord.places (p : Platform) (record : EmailRecord) :
    Except Failure (List (EnvelopeRole × ℕ × String)) :=
  record.envelope.mapM fun place => do
    let address ← normalizeEnvelopeAddress p place.2.2
    return (place.1, place.2.1, address)

/-- The records of a new delivery. -/
def newDelivery (options : EmailServiceOptions) (record : EmailRecord)
    (recipients : List RecipientRecord) (outboxId : String)
    (idempotency : Option IdempotencyClaim) : DeliveryCommit where
  email := record
  message := {
    id := record.id
    provider := options.provider
    intentDigest := record.requestHash
    recipientIds := recipients.map (·.id)
    status := record.status.initialMessageStatus.getD .queued
    createdAt := record.createdAt
    updatedAt := record.createdAt
    scheduledAt := record.scheduledAt }
  recipients := recipients
  outbox := {
    id := outboxId
    messageId := record.id
    jobType := .dispatchMessage
    generation := 0
    dueAt := record.scheduledAt.getD record.createdAt
    attempts := 0
    dispatchedAt := if record.status = .suppressed then some record.createdAt else none
    createdAt := record.createdAt
    updatedAt := record.createdAt }
  idempotency := idempotency

/-- The delivery `commitPreparedEmail` hands to the store. -/
def PreparedEmail.delivery (p : Platform) (options : EmailServiceOptions)
    (recipientId : ℕ → String) (prepared : PreparedEmail) : Except Failure DeliveryCommit := do
  let places ← prepared.record.places p
  let outboxId ← createOutboxIdentity prepared.record.id .dispatchMessage 0
  return newDelivery options prepared.record (newRecipients prepared.record recipientId places)
    outboxId prepared.idempotency

/-- What a call does besides writing the store. -/
inductive CreateEffect
  /-- `webhooks.publish` of the event with the name of the status. -/
  | publish (event : EmailStatus) (email : EmailRecord)
  /-- `scheduler.schedule`, whose failures are only counted. -/
  | schedule (emailId : String) (scheduledAt : Option ℕ) (outboxId : String)
  deriving DecidableEq, Repr

structure CreateEmailResult where
  record : EmailRecord
  replayed : Bool
  deriving DecidableEq, Repr

structure CreateOutcome where
  store : MemoryStore
  effects : List CreateEffect := []
  result : Except Failure CreateEmailResult

/-- What follows the commit. -/
def afterCommit (c : Collaborators) (record : EmailRecord) (created : DeliveryCommitResult) :
    List CreateEffect × Except Failure CreateEmailResult :=
  let result : CreateEmailResult := ⟨created.email, created.replayed⟩
  if created.replayed then
    let isWaiting := created.outbox.dispatchedAt.isNone && (created.email.status == .queued ||
      (created.email.status == .scheduled && created.email.scheduledAt.isSome))
    (if isWaiting then
        [.schedule created.email.id created.email.scheduledAt created.outbox.id]
      else [], .ok result)
  else if record.status = .suppressed then
    ([.publish .suppressed record], (c.publish .suppressed).map fun _ => result)
  else
    let wake := CreateEffect.schedule record.id record.scheduledAt created.outbox.id
    if record.scheduledAt.isSome then
      ([wake, .publish .scheduled record], (c.publish .scheduled).map fun _ => result)
    else ([wake], .ok result)

/-- `createId`, of a random UUID without its dashes. -/
def createId (start uuid : String) : String := start ++ "_" ++ uuid

/-- The delivery of a request: the id of the email is drawn first, then those of its recipients. -/
def prepareDelivery (p : Platform) (options : EmailServiceOptions) (c : Collaborators)
    (uuid : ℕ → String) (input : SendEmailInput) (idempotencyKey : Option String) (now : ℕ) :
    Except Failure DeliveryCommit := do
  let prepared ← prepareEmail p options c (createId "email" (uuid 0)) input idempotencyKey now
  prepared.delivery p options fun i => createId "rcpt" (uuid (i + 1))

/-- `create` -/
def EmailService.create (p : Platform) (options : EmailServiceOptions) (c : Collaborators)
    (uuid : ℕ → String) (s : MemoryStore) (input : SendEmailInput)
    (idempotencyKey : Option String) (now : ℕ) : CreateOutcome :=
  match prepareDelivery p options c uuid input idempotencyKey now with
  | .error e => { store := s, result := .error e }
  | .ok delivery =>
    match s.commitDelivery delivery (epochSeconds now) with
    | .error e => { store := s, result := .error e }
    | .ok (s', created) =>
      { store := s'
        effects := (afterCommit c delivery.email created).1
        result := (afterCommit c delivery.email created).2 }

end HayaSend
