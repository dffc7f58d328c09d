import HayaSend.Services.EmailIntake
import HayaSend.Services.TemplateVersions

/-!
# Received emails

The record of a received email, as `ReceivedEmailService.ingest` builds it from the event of the
provider and the parsed message. Of the structured content only whether it was cut is kept, and of
the attachments their sizes: the bytes go to the object storage, which nothing here reads back.
-/

namespace HayaSend

/-! ## Events and parsed messages -/

/-- The event of a message that came in; its verdicts are not read. -/
structure InboundEmailEvent where
  providerMessageId : String
  source : String
  destinations : List String
  timestamp : String
  deriving DecidableEq, Repr

structure Mailbox where
  name : String
  address : String
  deriving DecidableEq, Repr

/-- An address of a header: a mailbox, or a group of mailboxes. -/
inductive Address
  | mailbox (mailbox : Mailbox)
  | group (members : Option (List Mailbox))
  deriving DecidableEq, Repr

/-- The content of an attachment: a text, a text in base64 or bytes. Of the last two the number of
bytes is kept, `none` for a text that is not base64. -/
inductive AttachmentContent
  | text (content : String)
  | base64 (byteLength : Option ℕ)
  | buffer (byteLength : ℕ)
  deriving DecidableEq, Repr

structure ParsedAttachment where
  filename : Option String
  mimeType : String
  disposition : Option String
  contentId : Option String
  content : AttachmentContent
  deriving DecidableEq, Repr

/-- A parsed message. -/
structure ParsedEmail where
  from_ : Option Address
  to_ : Option (List Address)
  cc : Option (List Address)
  bcc : Option (List Address)
  replyTo : Option (List Address)
  subject : Option String
  messageId : Option String
  html : Option String
  text : Option String
  headers : List (String × String)
  attachments : List ParsedAttachment
  deriving DecidableEq, Repr

/-! ## Records -/

structure ReceivedEmailAttachment where
  id : String
  filename : String
  size : ℕ
  contentType : String
  contentDisposition : Option String
  contentId : Option String
  objectKey : String
  deriving DecidableEq, Repr

structure ReceivedEmailRecord where
  id : String
  providerMessageId : String
  messageId : String
  from_ : String
  to_ : List String
  receivedFor : List String
  bcc : List String
  cc : List String
  replyTo : List String
  subject : String
  createdAt : String
  rawObjectKey : String
  contentObjectKey : String
  attachments : List ReceivedEmailAttachment
  contentTruncated : Bool
  expiresAt : String
  webhookQueuedAt : Option String := none
  deriving DecidableEq, Repr

/-- The record up to `webhook_queued_at`. -/
def ReceivedEmailRecord.unmarked (record : ReceivedEmailRecord) : ReceivedEmailRecord :=
  { record with webhookQueuedAt := none }

/-- The record with the time its job was accepted. -/
def ReceivedEmailRecord.marked (record : ReceivedEmailRecord) (webhookQueuedAt : String) :
    ReceivedEmailRecord :=
  { record with webhookQueuedAt := some webhookQueuedAt }

@[simp] theorem ReceivedEmailRecord.unmarked_marked (record : ReceivedEmailRecord)
    (webhookQueuedAt : String) : (record.marked webhookQueuedAt).unmarked = record.unmarked := rfl

/-! ## Texts -/

/-- `slice(0, maximum)`, in UTF-16 code units; a surrogate pair that is cut in two is left out. -/
def sliceChars : ℕ → List Char → List Char
  | _, [] => []
  | maximum, c :: cs =>
    let width := if c.toNat < 0x10000 then 1 else 2
    if width ≤ maximum then c :: sliceChars (maximum - width) cs else []

/-- `value.replace(/[\r\n]+/g, " ")` -/
def joinLines : List Char → List Char
  | [] => []
  | c :: cs =>
    if c = '\r' ∨ c = '\n' then
      if cs.head?.any fun d => d = '\r' ∨ d = '\n' then joinLines cs else ' ' :: joinLines cs
    else c :: joinLines cs

def safeText (value : String) (maximum : ℕ) : String :=
  String.ofList (sliceChars maximum (trim (joinLines value.toList)))

example : safeText " a\r\n b\n\n\r" 998 = "a  b" := by decide +kernel
example : safeText "a\n\nb" 2 = "a " := by decide +kernel

/-- `stableId` -/
def stableId (p : Platform) (start value : String) : String :=
  start ++ "_" ++ String.ofList ((p.sha256 value).toList.take 32)

/-- `value || fallback` -/
def orElse (value fallback : String) : String := if value = "" then fallback else value

def formatMailbox (mailbox : Mailbox) : String :=
  let address := safeText mailbox.address 998
  let name := safeText mailbox.name 998
  if name = "" then address else name ++ " <" ++ address ++ ">"

def flattenAddress : Address → List Mailbox
  | .mailbox mailbox => [mailbox]
  | .group members => members.getD []

def formatAddresses (addresses : Option (List Address)) : List String :=
  (((addresses.getD []).flatMap flattenAddress).map formatMailbox).filter (· != "") |>.eraseDups

/-- `<([^<>]+)>$` -/
def bracketed (cs : List Char) : Option (List Char) :=
  match cs.reverse with
  | '>' :: before =>
    let inner := before.takeWhile fun c => c != '<' && c != '>'
    if inner ≠ [] ∧ (before.drop inner.length).head? = some '<' then some inner.reverse else none
  | _ => none

def addressOnly (p : Platform) (value : String) : String :=
  p.toLowerCase (String.ofList (trim ((bracketed value.toList).getD value.toList)))

/-- `[a-z0-9!#$&^_.+-]`, in either case. -/
def isMimeChar (c : Char) : Bool := c.isAlphanum || "!#$&^_.+-".toList.contains c

def isMimePart : List Char → Bool
  | [] => false
  | c :: cs => c.isAlphanum && cs.all isMimeChar

def safeMimeType (value : String) : String :=
  match value.toList.splitOn '/' with
  | [type, subtype] =>
    if isMimePart type && isMimePart subtype then value else "application/octet-stream"
  | _ => "application/octet-stream"

/-! ## The record of a message -/

structure ReceivedEmailOptions where
  rawPrefix : String
  retentionDays : ℕ
  maxMessageBytes : ℕ
  deriving DecidableEq, Repr

def maxReceivedAttachments : ℕ := 50
def maxStructuredBodyBytes : ℕ := 5 * 1024 * 1024
def maxHeaderValueBytes : ℕ := 64 * 1024
def processingLeaseSeconds : ℕ := 150

/-- One to 512 code units without control characters. -/
def validProviderMessageId (value : String) : Bool :=
  1 ≤ utf16Length value && utf16Length value ≤ 512 &&
    value.toList.all fun c => !(c.toNat ≤ 0x1F || c.toNat == 0x7F)

/-- The id of the record of a provider's message. -/
def receivedId (p : Platform) (event : InboundEmailEvent) : String :=
  stableId p "recv" event.providerMessageId

/-- `attachmentBytes(attachment).byteLength` -/
def AttachmentContent.size : AttachmentContent → Except Failure ℕ
  | .text content => .ok content.utf8ByteSize
  | .base64 (some size) | .buffer size => .ok size
  | .base64 none => .error (.error "The string to be decoded is not correctly encoded.")

/-- The attachment at an index of the message, under the record `id`. -/
def receivedAttachment (p : Platform) (id : String) (index : ℕ) (attachment : ParsedAttachment) :
    Except Failure ReceivedEmailAttachment := do
  let fallback := "attachment-" ++ toString (index + 1)
  let filename := orElse (safeText (attachment.filename.getD fallback) 255) fallback
  let attachmentId := stableId p "att"
    (id ++ ":" ++ toString index ++ ":" ++ filename ++ ":" ++ attachment.contentId.getD "")
  let size ← attachment.content.size
  return {
    id := attachmentId
    filename := filename
    size := size
    contentType := safeMimeType (orElse attachment.mimeType "application/octet-stream")
    contentDisposition := attachment.disposition
    contentId := (attachment.contentId.filter (· != "")).map (safeText · 998)
    objectKey := "inbound/attachments/" ++ id ++ "/" ++ attachmentId }

/-- `truncateUtf8(value, limit).truncated` -/
def isTruncated (value : Option String) (limit : ℕ) : Bool :=
  value.any fun text => limit < text.utf8ByteSize

/-- `structuredContent(email).truncated` -/
def contentTruncated (parsed : ParsedEmail) : Bool :=
  isTruncated parsed.html (maxStructuredBodyBytes / 2) ||
    isTruncated parsed.text (maxStructuredBodyBytes / 2) ||
    parsed.headers.any fun header =>
      !(["__proto__", "constructor", "prototype"].contains header.1) &&
        isTruncated (some header.2) maxHeaderValueBytes

/-- The record of a message; `now` is the time it is built, `expiresAt` an expiry in seconds. -/
def receivedRecord (p : Platform) (options : ReceivedEmailOptions) (event : InboundEmailEvent)
    (parsed : ParsedEmail) (attachments : List ReceivedEmailAttachment) (expiresAt now : ℕ) :
    ReceivedEmailRecord :=
  let id := receivedId p event
  let to_ := formatAddresses parsed.to_
  let cc := formatAddresses parsed.cc
  let visibleRecipients := (to_ ++ cc).map (addressOnly p)
  let envelopeBcc := event.destinations.filter fun destination =>
    !visibleRecipients.contains (addressOnly p destination)
  { id := id
    providerMessageId := event.providerMessageId
    messageId := orElse (safeText (parsed.messageId.getD event.providerMessageId) 998)
      event.providerMessageId
    from_ := (formatAddresses (parsed.from_.map fun address => [address])).head?.getD
      (safeText event.source 998)
    to_ := if to_ ≠ [] then to_ else event.destinations.eraseDups
    receivedFor := event.destinations.eraseDups
    bcc := (formatAddresses parsed.bcc ++ envelopeBcc).eraseDups
    cc := cc
    replyTo := formatAddresses parsed.replyTo
    subject := safeText (parsed.subject.getD "") 998
    createdAt := toISOString ((p.parseDate event.timestamp).getD now)
    rawObjectKey := options.rawPrefix ++ event.providerMessageId
    contentObjectKey := "inbound/content/" ++ id ++ ".json"
    attachments := attachments
    contentTruncated := contentTruncated parsed
    expiresAt := toISOString (expiresAt * 1000) }

end HayaSend
