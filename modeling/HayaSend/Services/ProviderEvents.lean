import HayaSend.Services.EmailIntake
import HayaSend.Services.WebhookService

/-!
# Events of the provider

`EmailService.applyProviderEvent` turns an event of the provider into a record for the ledger of
its message: it finds the accepted attempt under the provider's message id and the recipients
under their addresses. What it cannot correlate it refuses with an `InvalidStateError`.
-/

namespace HayaSend

/-- `NormalizedProviderEvent`, with the ids that the ingress of the provider supplies. -/
structure NormalizedProviderEvent where
  providerEventId : String
  providerMessageId : String
  providerAt : ℕ
  receivedAt : ℕ
  recipientAddresses : List String
  providerType : Option ProviderEventType := none
  terminal : Bool
  diagnosticCategory : Option DiagnosticCategory := none
  deriving DecidableEq, Repr

/-- `providerTypeByEvent` -/
def WebhookEventType.providerType : WebhookEventType → Option ProviderEventType
  | .sent => some .accepted
  | .delivered => some .delivered
  | .deliveryDelayed => some .delayed
  | .opened => some .opened
  | .clicked => some .clicked
  | .bounced => some .bounced
  | .complained => some .complained
  | .failed | .suppressed => some .failed
  | .scheduled | .received => none

/-- The accepted attempts under the message id of the provider. -/
def correlatedAttempts (ledger : DeliveryLedgerState) (providerMessageId : String) :
    List AttemptRecord :=
  ledger.attempts.filter fun attempt =>
    attempt.status == .accepted && attempt.providerMessageId == some providerMessageId

/-- `recipientByAddress`: of two recipients with one address the later. -/
def recipientByAddress (recipients : List (String × String)) (address : String) : Option String :=
  (recipients.reverse.find? (·.1 == address)).map (·.2)

/-- The record `applyProviderEvent` appends, `none` when the event is of no concern. -/
def newProviderEvent (p : Platform) (id : String) (type : WebhookEventType)
    (input : NormalizedProviderEvent) (ledger : DeliveryLedgerState) :
    Except Failure (Option ProviderEventRecord) := do
  throwIf (input.providerMessageId == "")
    (.invalidState ("Provider event for " ++ id ++ " is missing its provider message ID."))
  match correlatedAttempts ledger input.providerMessageId with
  | [attempt] => do
    let byAddress ← ledger.recipients.mapM fun recipient => do
      let address ← normalizeEnvelopeAddress p recipient.address
      return (address, recipient.id)
    let requestedAddresses ← input.recipientAddresses.mapM (normalizeEnvelopeAddress p)
    let requestedAddresses := requestedAddresses.eraseDups
    let correlated := requestedAddresses.map (recipientByAddress byAddress)
    throwIf (correlated.any (·.isNone))
      (.invalidState ("Provider event for " ++ id ++ " contains an unknown recipient."))
    let recipientIds := match requestedAddresses, ledger.recipients with
      | [], [recipient] => [recipient.id]
      | _, _ => correlated.filterMap fun recipientId => recipientId
    throwIf (recipientIds.any fun recipientId => !attempt.recipientIds.contains recipientId)
      (.invalidState
        ("Provider event for " ++ id ++ " targets a recipient outside its attempt."))
    match input.providerType.or type.providerType with
    | none => return none
    | some providerType => do
      let source := ProviderEventSource.providerEventId input.providerEventId
      let eventId ← createProviderEventIdentity ledger.message.provider.name source
      return some {
        id := eventId
        provider := ledger.message.provider
        source := source
        messageId := id
        attemptId := some attempt.id
        recipientIds := recipientIds
        providerMessageId := some input.providerMessageId
        type := providerType
        providerAt := input.providerAt
        receivedAt := input.receivedAt
        terminal := input.terminal
        diagnosticCategory := input.diagnosticCategory }
  | _ => .error (.invalidState
      ("Provider event for " ++ id ++ " does not correlate to exactly one accepted attempt."))

/-- Whether an address is that of a recipient of the message. -/
def isRecipientOf (p : Platform) (ledger : DeliveryLedgerState) (address : String) : Bool :=
  match normalizeEnvelopeAddress p address with
  | .ok normalized => ledger.recipients.any fun recipient =>
    match normalizeEnvelopeAddress p recipient.address with
    | .ok stored => stored == normalized
    | .error _ => false
  | .error _ => false

end HayaSend
