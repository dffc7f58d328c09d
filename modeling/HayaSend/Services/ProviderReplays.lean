import HayaSend.Services.LedgerSteps
import HayaSend.Services.ProviderEvents
import Mathlib.Data.String.Basic

/-!
# Replays of provider events without an id

An event that carries no usable id of the provider is named by a digest of its content, in which
the recipients stand sorted. The record keeps them in the order of the request. The two disagree
when a provider repeats an event with its recipients in another order: the names are equal, the
records are not, and the repetition is refused as a conflict (`permuted_replay_refused`).
`replayed_iff` says for which repetitions of an event that does not happen.
-/

namespace HayaSend

/-! ## The digest of an event -/

def ProviderEventType.text : ProviderEventType → String
  | .accepted => "accepted"
  | .delivered => "delivered"
  | .delayed => "delayed"
  | .bounced => "bounced"
  | .complained => "complained"
  | .rejected => "rejected"
  | .opened => "opened"
  | .clicked => "clicked"
  | .failed => "failed"

def DiagnosticCategory.text : DiagnosticCategory → String
  | .applicationError => "application_error"
  | .invalidData => "invalid_data"
  | .networkDns => "network_dns"
  | .networkRefused => "network_refused"
  | .networkReset => "network_reset"
  | .providerError => "provider_error"
  | .providerRejected => "provider_rejected"
  | .providerThrottled => "provider_throttled"
  | .providerUnavailable => "provider_unavailable"
  | .timeout => "timeout"

/-- `NormalizedProviderEvent`, with the fields that may be missing. -/
structure ProviderEventInput where
  providerEventId : Option String := none
  providerMessageId : Option String := none
  providerAt : ℕ
  receivedAt : Option ℕ := none
  recipientAddresses : Option (List String) := none
  providerType : Option ProviderEventType := none
  terminal : Option Bool := none
  diagnosticCategory : Option DiagnosticCategory := none
  deriving DecidableEq, Repr

/-- The event names itself. -/
def ProviderEventInput.isNamed (input : ProviderEventInput) : Bool :=
  input.providerEventId.any providerOpaqueIdSchema

/-- `digestInput`. The ids of recipients are ASCII. -/
def digestInput (ledger : DeliveryLedgerState) (input : ProviderEventInput)
    (type : ProviderEventType) (recipientIds : List String) : Json :=
  .ofFields [
    ("provider", some (.str ledger.message.provider.name)),
    ("provider_message_id", input.providerMessageId.map .str),
    ("provider_at", some (.str (toISOString input.providerAt))),
    ("recipient_ids", some (.arr ((recipientIds.insertionSort (· ≤ ·)).map .str))),
    ("type", some (.str type.text)),
    ("terminal", some (.bool (input.terminal.getD false))),
    ("diagnostic_category", input.diagnosticCategory.map fun category => .str category.text)]

/-- `source` -/
def eventSource (p : Platform) (ledger : DeliveryLedgerState) (input : ProviderEventInput)
    (type : ProviderEventType) (recipientIds : List String) : ProviderEventSource :=
  match input.providerEventId.filter providerOpaqueIdSchema with
  | some value => .providerEventId value
  | none => .normalizedEventDigest
      (p.sha256 (digestInput ledger input type recipientIds).stringify)

/-! ## `applyProviderEvent` -/

/-- `requestedAddresses` -/
def requestedAddresses (p : Platform) (addresses : Option (List String)) :
    Except Failure (List String) := do
  let addresses ← (addresses.getD []).mapM (normalizeEnvelopeAddress p)
  return addresses.eraseDups

/-- The recipients of a ledger under their normalized addresses. -/
def normalizedRecipients (p : Platform) (ledger : DeliveryLedgerState) :
    Except Failure (List (String × String)) :=
  ledger.recipients.mapM fun recipient => do
    let address ← normalizeEnvelopeAddress p recipient.address
    return (address, recipient.id)

/-- `recipientIds` -/
def eventRecipientIds (recipients : List RecipientRecord) (byAddress : List (String × String))
    (requested : List String) : List String :=
  match requested, recipients with
  | [], [recipient] => [recipient.id]
  | _, _ => (requested.map (recipientByAddress byAddress)).filterMap fun recipientId => recipientId

/-- The attempt of an event, and the ids of its recipients. -/
def correlateEvent (p : Platform) (id : String) (input : ProviderEventInput)
    (ledger : DeliveryLedgerState) : Except Failure (AttemptRecord × List String) := do
  throwIf (input.providerMessageId.all (· == ""))
    (.invalidState ("Provider event for " ++ id ++ " is missing its provider message ID."))
  match correlatedAttempts ledger (input.providerMessageId.getD "") with
  | [attempt] => do
    let byAddress ← normalizedRecipients p ledger
    let requested ← requestedAddresses p input.recipientAddresses
    let correlated := requested.map (recipientByAddress byAddress)
    throwIf (correlated.any (·.isNone))
      (.invalidState ("Provider event for " ++ id ++ " contains an unknown recipient."))
    let recipientIds := eventRecipientIds ledger.recipients byAddress requested
    throwIf (recipientIds.any fun recipientId => !attempt.recipientIds.contains recipientId)
      (.invalidState
        ("Provider event for " ++ id ++ " targets a recipient outside its attempt."))
    return (attempt, recipientIds)
  | _ => .error (.invalidState
      ("Provider event for " ++ id ++ " does not correlate to exactly one accepted attempt."))

/-- `event` -/
def eventRecord (id : String) (input : ProviderEventInput) (ledger : DeliveryLedgerState)
    (now : ℕ) (attempt : AttemptRecord) (recipientIds : List String) (type : ProviderEventType)
    (source : ProviderEventSource) (eventId : String) : ProviderEventRecord where
  id := eventId
  provider := ledger.message.provider
  source := source
  messageId := id
  attemptId := some attempt.id
  recipientIds := recipientIds
  providerMessageId := input.providerMessageId
  type := type
  providerAt := input.providerAt
  receivedAt := input.receivedAt.getD now
  terminal := input.terminal.getD false
  diagnosticCategory := input.diagnosticCategory

/-- The record an event is turned into, `none` when the event is of no concern. -/
def normalizeEvent (p : Platform) (id : String) (type : WebhookEventType)
    (input : ProviderEventInput) (ledger : DeliveryLedgerState) (now : ℕ) :
    Except Failure (Option ProviderEventRecord) := do
  let (attempt, recipientIds) ← correlateEvent p id input ledger
  match input.providerType.or type.providerType with
  | none => return none
  | some providerType => do
    let source := eventSource p ledger input providerType recipientIds
    let eventId ← createProviderEventIdentity ledger.message.provider.name source
    return some (eventRecord id input ledger now attempt recipientIds providerType source eventId)

/-- `statusByEvent` -/
def WebhookEventType.emailStatus : WebhookEventType → Option EmailStatus
  | .sent => some .sent
  | .delivered => some .delivered
  | .deliveryDelayed => some .deliveryDelayed
  | .opened => some .opened
  | .clicked => some .clicked
  | .bounced => some .bounced
  | .complained => some .complained
  | .failed => some .failed
  | .suppressed => some .suppressed
  | .scheduled | .received => none

/-- `EmailService.applyProviderEvent`, up to what it publishes: the store after it and the result of
the ledger. -/
def applyProviderEvent (p : Platform) (s : MemoryStore) (id : String) (type : WebhookEventType)
    (input : ProviderEventInput) (now : ℕ) :
    Except Failure (MemoryStore × Option DeliveryLedgerMutationResult) :=
  match type.emailStatus with
  | none => .ok (s, none)
  | some status =>
    match s.getDeliveryLedger id with
    | none =>
      match s.updateEmail id (localUpdates status (input.receivedAt.getD now)) none with
      | none => .ok (s, none)
      | some (s', _) => .ok (s', none)
    | some ledger => do
      let event ← normalizeEvent p id type input ledger.toDeliveryLedgerState now
      match event with
      | none => return (s, none)
      | some event => s.appendProviderEvent event

/-! ## The recipients that addresses name -/

/-- The normalized addresses, each where it first stands. -/
def mentions (p : Platform) (addresses : Option (List String)) : List String :=
  ((addresses.getD []).filterMap fun address =>
    (normalizeEnvelopeAddress p address).toOption).eraseDups

/-- The normalizer takes each address of `xs` for one of `ys`. -/
def NamesOnly (p : Platform) (xs ys : Option (List String)) : Prop :=
  ∀ x ∈ xs.getD [], ∃ y ∈ ys.getD [],
    normalizeEnvelopeAddress p x = normalizeEnvelopeAddress p y

/-- The same addresses, permuted, repeated or spelled in another case. -/
structure Respelled (p : Platform) (xs ys : Option (List String)) : Prop where
  left : NamesOnly p xs ys
  right : NamesOnly p ys xs

theorem requestedAddresses_eq_ok {p : Platform} {xs : Option (List String)} {l : List String} :
    requestedAddresses p xs = .ok l ↔
      (∀ x ∈ xs.getD [], ∃ a, normalizeEnvelopeAddress p x = .ok a) ∧ mentions p xs = l := by
  unfold requestedAddresses mentions
  rw [bind_eq_ok]
  constructor
  · rintro ⟨as, has, h⟩
    rw [pure_eq_ok] at h
    obtain ⟨hall, rfl⟩ := mapM_eq_ok_filterMap.mp has
    exact ⟨hall, h⟩
  · rintro ⟨hall, rfl⟩
    exact ⟨_, mapM_eq_ok_filterMap.mpr ⟨hall, rfl⟩, rfl⟩

theorem mem_mentions {p : Platform} {xs : Option (List String)} {a : String} :
    a ∈ mentions p xs ↔ ∃ x ∈ xs.getD [], normalizeEnvelopeAddress p x = .ok a := by
  unfold mentions
  simp only [List.mem_eraseDups, List.mem_filterMap, toOption_eq_some]

theorem NamesOnly.mem_mentions {p : Platform} {xs ys : Option (List String)}
    (h : NamesOnly p xs ys) {a : String} (ha : a ∈ mentions p xs) : a ∈ mentions p ys := by
  obtain ⟨x, hx, hax⟩ := HayaSend.mem_mentions.mp ha
  obtain ⟨y, hy, hxy⟩ := h x hx
  exact HayaSend.mem_mentions.mpr ⟨y, hy, hxy ▸ hax⟩

/-- Respelled addresses name the same recipients, perhaps in another order. -/
theorem Respelled.perm_mentions {p : Platform} {xs ys : Option (List String)}
    (h : Respelled p xs ys) : (mentions p xs).Perm (mentions p ys) :=
  (List.perm_ext_iff_of_nodup (nodup_eraseDups _) (nodup_eraseDups _)).mpr fun _ =>
    ⟨h.left.mem_mentions, h.right.mem_mentions⟩

theorem Respelled.requestedAddresses {p : Platform} {xs ys : Option (List String)}
    (h : Respelled p xs ys) {l : List String} (hl : requestedAddresses p xs = .ok l) :
    requestedAddresses p ys = .ok (mentions p ys) := by
  obtain ⟨hall, -⟩ := requestedAddresses_eq_ok.mp hl
  refine requestedAddresses_eq_ok.mpr ⟨fun y hy => ?_, rfl⟩
  obtain ⟨x, hx, hyx⟩ := h.right y hy
  rw [hyx]
  exact hall x hx

/-! ## The recipients of an event -/

/-- What correlates an event. -/
structure CorrelatedBy (p : Platform) (input : ProviderEventInput) (ledger : DeliveryLedgerState)
    (attempt : AttemptRecord) (byAddress : List (String × String)) (requested : List String) :
    Prop where
  named : input.providerMessageId.all (· == "") = false
  attempts : correlatedAttempts ledger (input.providerMessageId.getD "") = [attempt]
  recipients : normalizedRecipients p ledger = .ok byAddress
  addresses : requestedAddresses p input.recipientAddresses = .ok requested
  known : ∀ a ∈ requested, recipientByAddress byAddress a ≠ none
  inside : ∀ recipientId ∈ eventRecipientIds ledger.recipients byAddress requested,
    recipientId ∈ attempt.recipientIds

theorem correlateEvent_eq_ok {p : Platform} {id : String} {input : ProviderEventInput}
    {ledger : DeliveryLedgerState} {attempt : AttemptRecord} {ids : List String} :
    correlateEvent p id input ledger = .ok (attempt, ids) ↔
      ∃ byAddress requested, CorrelatedBy p input ledger attempt byAddress requested ∧
        ids = eventRecipientIds ledger.recipients byAddress requested := by
  unfold correlateEvent
  constructor
  · intro h
    obtain ⟨_, hnamed, h⟩ := bind_eq_ok.mp h
    rw [throwIf_eq_ok] at hnamed
    split at h
    · rename_i a hattempts
      obtain ⟨byAddress, hby, h⟩ := bind_eq_ok.mp h
      obtain ⟨requested, hreq, h⟩ := bind_eq_ok.mp h
      obtain ⟨_, hknown, h⟩ := bind_eq_ok.mp h
      obtain ⟨_, hinside, h⟩ := bind_eq_ok.mp h
      rw [throwIf_eq_ok] at hknown hinside
      rw [pure_eq_ok, Prod.mk.injEq] at h
      obtain ⟨rfl, rfl⟩ := h
      refine ⟨byAddress, requested, ⟨hnamed, hattempts, hby, hreq, ?_, ?_⟩, rfl⟩
      · simpa [List.any_eq_false] using hknown
      · simpa [List.any_eq_false] using hinside
    · cases h
  · rintro ⟨byAddress, requested, h, rfl⟩
    refine bind_eq_ok.mpr ⟨(), by rw [throwIf_eq_ok, h.named], ?_⟩
    rw [h.attempts]
    refine bind_eq_ok.mpr ⟨_, h.recipients, bind_eq_ok.mpr ⟨_, h.addresses, ?_⟩⟩
    refine bind_eq_ok.mpr ⟨(), ?_, bind_eq_ok.mpr ⟨(), ?_, rfl⟩⟩
    · rw [throwIf_eq_ok]
      simpa [List.any_eq_false] using h.known
    · rw [throwIf_eq_ok]
      simpa [List.any_eq_false] using h.inside

theorem normalizedRecipients_ids {p : Platform} {ledger : DeliveryLedgerState}
    {byAddress : List (String × String)} (h : normalizedRecipients p ledger = .ok byAddress) :
    byAddress.map (·.2) = ledger.recipients.map (·.id) := by
  unfold normalizedRecipients at h
  generalize ledger.recipients = rs at h ⊢
  induction rs generalizing byAddress with
  | nil =>
    cases h
    rfl
  | cons r rs ih =>
    rw [List.mapM_cons] at h
    obtain ⟨y, hy, h⟩ := bind_eq_ok.mp h
    obtain ⟨ys, hys, h⟩ := bind_eq_ok.mp h
    obtain ⟨a, -, hy⟩ := bind_eq_ok.mp hy
    rw [pure_eq_ok] at hy h
    subst hy h
    rw [List.map_cons, List.map_cons, ih hys]

theorem mem_of_recipientByAddress {byAddress : List (String × String)} {a id : String}
    (h : recipientByAddress byAddress a = some id) : (a, id) ∈ byAddress := by
  obtain ⟨x, hx, rfl⟩ := Option.map_eq_some_iff.mp h
  have hmem := List.mem_reverse.mp (List.mem_of_find?_eq_some hx)
  have ha : x.1 = a := by simpa using List.find?_some hx
  rwa [← ha]

/-- Recipients with distinct ids are found under one address each. -/
theorem recipientByAddress_inj {byAddress : List (String × String)}
    (hn : (byAddress.map (·.2)).Nodup) {a b : String} (hab : recipientByAddress byAddress a =
      recipientByAddress byAddress b) (ha : recipientByAddress byAddress a ≠ none) : a = b := by
  obtain ⟨id, hid⟩ := Option.ne_none_iff_exists'.mp ha
  have hb := mem_of_recipientByAddress (hab ▸ hid)
  have heq := List.inj_on_of_nodup_map hn (mem_of_recipientByAddress hid) hb rfl
  exact congrArg Prod.fst heq

section Recipients

variable {rs : List RecipientRecord} {byAddress : List (String × String)} {l l' : List String}

theorem eventRecipientIds_of_ne_nil (hne : l ≠ []) : eventRecipientIds rs byAddress l =
    (l.map (recipientByAddress byAddress)).filterMap fun recipientId => recipientId := by
  cases l with
  | nil => exact absurd rfl hne
  | cons a l => rfl

theorem eventRecipientIds_perm (h : l.Perm l') :
    (eventRecipientIds rs byAddress l).Perm (eventRecipientIds rs byAddress l') := by
  by_cases hne : l = []
  · subst hne
    rw [h.nil_eq]
  · have hne' : l' ≠ [] := fun h' => hne (h' ▸ h).eq_nil
    rw [eventRecipientIds_of_ne_nil hne, eventRecipientIds_of_ne_nil hne']
    exact (h.map _).filterMap _

theorem map_some_filterMap {xs : List (Option String)} (h : ∀ x ∈ xs, x ≠ none) :
    (xs.filterMap fun x => x).map some = xs := by
  induction xs with
  | nil => rfl
  | cons x xs ih =>
    obtain ⟨hx, hxs⟩ := List.forall_mem_cons.mp h
    obtain ⟨y, rfl⟩ := Option.ne_none_iff_exists'.mp hx
    have hcons : (some y :: xs).filterMap (fun x => x) = y :: xs.filterMap fun x => x := rfl
    rw [hcons, List.map_cons, ih hxs]

theorem eq_of_map_recipientByAddress (hn : (byAddress.map (·.2)).Nodup)
    (hl : ∀ a ∈ l, recipientByAddress byAddress a ≠ none)
    (h : l.map (recipientByAddress byAddress) = l'.map (recipientByAddress byAddress)) :
    l = l' := by
  induction l generalizing l' with
  | nil => exact (List.map_eq_nil_iff.mp h.symm).symm
  | cons a l ih =>
    cases l' with
    | nil => cases h
    | cons b l' =>
      obtain ⟨ha, hl⟩ := List.forall_mem_cons.mp hl
      rw [List.map_cons, List.map_cons, List.cons.injEq] at h
      rw [recipientByAddress_inj hn h.1 ha, ih hl h.2]

/-- **The recipients of an event stand in the order of its addresses.** -/
theorem eventRecipientIds_inj (hn : (byAddress.map (·.2)).Nodup) (hp : l.Perm l')
    (hl : ∀ a ∈ l, recipientByAddress byAddress a ≠ none)
    (h : eventRecipientIds rs byAddress l = eventRecipientIds rs byAddress l') : l = l' := by
  by_cases hne : l = []
  · subst hne
    exact hp.nil_eq
  · have hne' : l' ≠ [] := fun h' => hne (h' ▸ hp).eq_nil
    rw [eventRecipientIds_of_ne_nil hne, eventRecipientIds_of_ne_nil hne'] at h
    refine eq_of_map_recipientByAddress hn hl ?_
    have hl' : ∀ x ∈ l'.map (recipientByAddress byAddress), x ≠ none := by
      rw [List.forall_mem_map]
      exact fun a ha => hl a (hp.mem_iff.mpr ha)
    rw [← map_some_filterMap (List.forall_mem_map.mpr hl), h, map_some_filterMap hl']

end Recipients

/-- Respelled addresses correlate alike. -/
theorem CorrelatedBy.respelled {p : Platform} {input : ProviderEventInput}
    {ledger : DeliveryLedgerState} {attempt : AttemptRecord} {byAddress : List (String × String)}
    {requested : List String} (h : CorrelatedBy p input ledger attempt byAddress requested)
    {ys : Option (List String)} (hsame : Respelled p input.recipientAddresses ys) :
    CorrelatedBy p { input with recipientAddresses := ys } ledger attempt byAddress
      (mentions p ys) := by
  obtain ⟨-, rfl⟩ := requestedAddresses_eq_ok.mp h.addresses
  have hperm := hsame.perm_mentions
  refine ⟨h.named, h.attempts, h.recipients, hsame.requestedAddresses h.addresses, ?_, ?_⟩
  · exact fun a ha => h.known a (hperm.mem_iff.mpr ha)
  · exact fun recipientId hid =>
      h.inside recipientId ((eventRecipientIds_perm hperm).mem_iff.mpr hid)

/-- An event leaves the addresses of the recipients as they were. -/
theorem normalizedRecipients_observed (p : Platform) (ledger : DeliveryLedgerState)
    (e : ProviderEventRecord) :
    normalizedRecipients p (ledger.observed e) = normalizedRecipients p ledger := by
  unfold normalizedRecipients DeliveryLedgerState.observed DeliveryLedgerState.restate
  rw [List.mapM_map]
  refine congrArg (fun f => ledger.recipients.mapM f) (funext fun r => ?_)
  have haddress : ∀ status t, (r.withStatus status t).address = r.address := by
    intro status t
    unfold RecipientRecord.withStatus
    split_ifs <;> rfl
  rw [Function.comp_apply, haddress, RecipientRecord.withStatus_id]

theorem eventRecipientIds_observed (ledger : DeliveryLedgerState) (e : ProviderEventRecord)
    (byAddress : List (String × String)) (requested : List String) :
    eventRecipientIds (ledger.observed e).recipients byAddress requested =
      eventRecipientIds ledger.recipients byAddress requested := by
  unfold DeliveryLedgerState.observed DeliveryLedgerState.restate
  cases requested with
  | cons a requested => rfl
  | nil =>
    rcases ledger.recipients with _ | ⟨r, _ | ⟨r', rs⟩⟩
    · rfl
    · show [(r.withStatus _ _).id] = [r.id]
      rw [RecipientRecord.withStatus_id]
    · rfl

/-- An event leaves the recipients and the attempts where they were. -/
theorem CorrelatedBy.observed {p : Platform} {input : ProviderEventInput}
    {ledger : DeliveryLedgerState} {attempt : AttemptRecord} {byAddress : List (String × String)}
    {requested : List String} (h : CorrelatedBy p input ledger attempt byAddress requested)
    (e : ProviderEventRecord) :
    CorrelatedBy p input (ledger.observed e) attempt byAddress requested where
  named := h.named
  attempts := h.attempts
  recipients := (normalizedRecipients_observed p ledger e).trans h.recipients
  addresses := h.addresses
  known := h.known
  inside := by
    rw [eventRecipientIds_observed]
    exact h.inside

/-! ## The record of an event -/

theorem normalizeEvent_eq_ok {p : Platform} {id : String} {type : WebhookEventType}
    {input : ProviderEventInput} {ledger : DeliveryLedgerState} {now : ℕ}
    {providerType : ProviderEventType} (ht : input.providerType.or type.providerType =
      some providerType) {e : Option ProviderEventRecord} :
    normalizeEvent p id type input ledger now = .ok e ↔
      ∃ attempt ids eventId, correlateEvent p id input ledger = .ok (attempt, ids) ∧
        createProviderEventIdentity ledger.message.provider.name
          (eventSource p ledger input providerType ids) = .ok eventId ∧
        e = some (eventRecord id input ledger now attempt ids providerType
          (eventSource p ledger input providerType ids) eventId) := by
  unfold normalizeEvent
  rw [ht]
  constructor
  · intro h
    obtain ⟨⟨attempt, ids⟩, hcorr, h⟩ := bind_eq_ok.mp h
    obtain ⟨eventId, hid, h⟩ := bind_eq_ok.mp h
    rw [pure_eq_ok] at h
    exact ⟨attempt, ids, eventId, hcorr, hid, h.symm⟩
  · rintro ⟨attempt, ids, eventId, hcorr, hid, rfl⟩
    exact bind_eq_ok.mpr ⟨_, hcorr, bind_eq_ok.mpr ⟨_, hid, rfl⟩⟩

/-- The digest does not see the order of the recipients. -/
theorem eventSource_perm {p : Platform} {ledger ledger' : DeliveryLedgerState}
    (hprovider : ledger'.message.provider = ledger.message.provider) {input : ProviderEventInput}
    {type : ProviderEventType} {ids ids' : List String} (h : ids.Perm ids')
    (addresses : Option (List String)) :
    eventSource p ledger' { input with recipientAddresses := addresses } type ids' =
      eventSource p ledger input type ids := by
  have hsort : ids'.insertionSort (· ≤ ·) = ids.insertionSort (· ≤ ·) := by
    refine List.Perm.eq_of_pairwise (fun a b _ _ => le_antisymm)
      (List.pairwise_insertionSort _ ids') (List.pairwise_insertionSort _ ids) ?_
    exact ((List.perm_insertionSort _ ids').trans h.symm).trans
      (List.perm_insertionSort _ ids).symm
  unfold eventSource digestInput
  rw [hsort, hprovider]

/-- The store has the event, and the ledger of its message is as before or has observed it. -/
theorem MemoryStore.Inv.appendProviderEvent_known {s s' : MemoryStore} (h : s.Inv)
    {e : ProviderEventRecord} {st : DeliveryLedgerState} (hst : s.ledgerState e.messageId = some st)
    {r : Option DeliveryLedgerMutationResult} (ha : s.appendProviderEvent e = .ok (s', r)) :
    s'.Knows e ∧ (s'.ledgerState e.messageId = some st ∨
      s'.ledgerState e.messageId = some (st.observed e)) := by
  obtain ⟨b, hp, ha'⟩ := bind_eq_ok.mp ha
  obtain ⟨hv, rfl⟩ := ProviderEventRecord.parse_eq_ok.mp hp
  split at ha'
  · rename_i e₀ he₀
    obtain ⟨_, hrep, ha'⟩ := bind_eq_ok.mp ha'
    rw [pure_eq_ok, Prod.mk.injEq] at ha'
    rw [← ha'.1]
    exact ⟨⟨hv, e₀, he₀, by simpa using hrep⟩, Or.inl hst⟩
  · split at ha'
    · rename_i hnone
      rw [ledgerState, hnone] at hst
      cases hst
    · rename_i snap hl
      obtain ⟨⟨plan, e'⟩, hplan, ha'⟩ := bind_eq_ok.mp ha'
      rw [pure_eq_ok, Prod.mk.injEq] at ha'
      obtain ⟨rfl, -⟩ := ha'
      rw [ledgerState_of_deliveryLedger hl, Option.some.injEq] at hst
      subst hst
      have hst := ledgerState_of_deliveryLedger hl
      obtain ⟨-, -, hc, rfl, hs⟩ := planProviderEvent_eq_ok (h.ledger _ _ hst).ordered hplan
      rw [hs]
      have hw : s.Writes e'.messageId (snap.observed e') none (some e') :=
        writes_none h hst (by rfl) (some e')
      refine ⟨⟨hv, e', OrderedMap.get_set_self _ _ _, ?_⟩, Or.inr ?_⟩
      · simp [ProviderEventRecord.isEquivalentReplay]
      · exact (h.ledgerStep_commit hst (.observed e' hc) hw).after

/-- The record the store has under the id of an event decides whether the event is a replay. -/
theorem MemoryStore.appendProviderEvent_of_get {s : MemoryStore} {e e₀ : ProviderEventRecord}
    (he₀ : s.providerEvents.get e.id = some e₀) (hv : e.Valid) :
    s.appendProviderEvent e = if e₀.isEquivalentReplay e then
      .ok (s, s.deliveryLedgerResult e₀.messageId true [] none e₀)
    else .error (.conflict
      "Provider event identity is already used by a different normalized event.") := by
  unfold appendProviderEvent
  rw [ProviderEventRecord.parse_eq_ok.mpr ⟨hv, rfl⟩, ok_bind, he₀]
  dsimp only
  cases e₀.isEquivalentReplay e with
  | true => rfl
  | false => rfl

/-! ## Repeated events -/

theorem ProviderEventRecord.eq_of_isEquivalentReplay {e e' : ProviderEventRecord}
    (h : e.isEquivalentReplay e' = true) :
    { e with receivedAt := 0 } = { e' with receivedAt := 0 } := by
  simpa [isEquivalentReplay] using h

/-- Every type of event with a status has a type for the ledger. -/
theorem WebhookEventType.exists_providerType {type : WebhookEventType}
    (h : type.emailStatus ≠ none) (given : Option ProviderEventType) :
    ∃ providerType, given.or type.providerType = some providerType := by
  cases given with
  | some t => exact ⟨t, rfl⟩
  | none =>
    cases type
    all_goals first
      | exact absurd rfl h
      | exact ⟨_, rfl⟩

/-- The outcome of an event that is recognised as a replay: the store is as before, and unless the
event is of no concern its result says so. -/
def IsReplay (type : WebhookEventType) (s : MemoryStore)
    (outcome : Except Failure (MemoryStore × Option DeliveryLedgerMutationResult)) : Prop :=
  ∃ r, outcome = .ok (s, r) ∧
    (type.emailStatus ≠ none → ∃ m : DeliveryLedgerMutationResult, r = some m ∧ m.replayed = true)

section Repeated

variable {p : Platform} {s s₁ : MemoryStore} {id : String} {type : WebhookEventType}
  {input : ProviderEventInput} {now : ℕ} {r₁ : Option DeliveryLedgerMutationResult}

/-- What a delivery of an event of concern leaves behind: the event, as a second reading of the
ledger would record it. -/
theorem applyProviderEvent_eq_ok (hs : s.Inv) (htype : type.emailStatus ≠ none)
    {snap : DeliveryLedgerSnapshot} (hsnap : s.getDeliveryLedger id = some snap)
    (h : applyProviderEvent p s id type input now = .ok (s₁, r₁)) :
    ∃ (providerType : ProviderEventType) (attempt : AttemptRecord)
      (byAddress : List (String × String)) (snap₁ : DeliveryLedgerSnapshot) (ids : List String)
      (eventId : String), input.providerType.or type.providerType = some providerType ∧
      s₁.getDeliveryLedger id = some snap₁ ∧
      (byAddress.map (·.2)).Nodup ∧
      CorrelatedBy p input snap₁.toDeliveryLedgerState attempt byAddress
        (mentions p input.recipientAddresses) ∧
      ids = eventRecipientIds snap₁.recipients byAddress (mentions p input.recipientAddresses) ∧
      createProviderEventIdentity snap₁.message.provider.name
        (eventSource p snap₁.toDeliveryLedgerState input providerType ids) = .ok eventId ∧
      s₁.Knows (eventRecord id input snap₁.toDeliveryLedgerState now attempt ids providerType
        (eventSource p snap₁.toDeliveryLedgerState input providerType ids) eventId) := by
  have hst : s.ledgerState id = some snap.toDeliveryLedgerState :=
    MemoryStore.ledgerState_of_deliveryLedger hsnap
  obtain ⟨status, hstatus⟩ := Option.ne_none_iff_exists'.mp htype
  obtain ⟨providerType, ht⟩ := type.exists_providerType htype input.providerType
  unfold applyProviderEvent at h
  rw [hstatus] at h
  dsimp only at h
  rw [hsnap] at h
  obtain ⟨e, hnormal, happend⟩ := bind_eq_ok.mp h
  obtain ⟨attempt, ids, eventId, hfound, hid, rfl⟩ := (normalizeEvent_eq_ok ht).mp hnormal
  obtain ⟨byAddress, requested, hcorr, rfl⟩ := correlateEvent_eq_ok.mp hfound
  obtain ⟨-, rfl⟩ := requestedAddresses_eq_ok.mp hcorr.addresses
  have hnodup : (byAddress.map (·.2)).Nodup := by
    have hinv := hs.ledger _ _ hst
    rw [normalizedRecipients_ids hcorr.recipients, hinv.ordered]
    exact hinv.recipient_ids_nodup
  obtain ⟨hknows, hledger⟩ := hs.appendProviderEvent_known hst happend
  rcases hledger with hledger | hledger
  · obtain ⟨snap₁, hsnap₁, heq⟩ := Option.map_eq_some_iff.mp hledger
    refine ⟨providerType, attempt, byAddress, snap₁, eventRecipientIds snap.recipients byAddress
      (mentions p input.recipientAddresses), eventId, ht, hsnap₁, hnodup, ?_⟩
    rw [heq]
    exact ⟨hcorr, rfl, hid, hknows⟩
  · obtain ⟨snap₁, hsnap₁, heq⟩ := Option.map_eq_some_iff.mp hledger
    refine ⟨providerType, attempt, byAddress, snap₁, eventRecipientIds snap.recipients byAddress
      (mentions p input.recipientAddresses), eventId, ht, hsnap₁, hnodup, ?_⟩
    rw [heq, eventRecipientIds_observed]
    exact ⟨hcorr.observed _, rfl, hid, hknows⟩

/-- **Which repetitions are recognised**: those that name the recipients in the order of the first
delivery. -/
theorem replayed_iff_of_inv (hs : s.Inv)
    {snap : DeliveryLedgerSnapshot} (hsnap : s.getDeliveryLedger id = some snap)
    (h : applyProviderEvent p s id type input now = .ok (s₁, r₁)) {ys : Option (List String)}
    (hsame : Respelled p input.recipientAddresses ys) (later : ℕ) :
    IsReplay type s₁
        (applyProviderEvent p s₁ id type { input with recipientAddresses := ys } later) ↔
      type.emailStatus = none ∨ mentions p input.recipientAddresses = mentions p ys := by
  by_cases htype : type.emailStatus = none
  · refine iff_of_true ⟨none, ?_, fun hne => absurd htype hne⟩ (Or.inl htype)
    unfold applyProviderEvent
    rw [htype]
  obtain ⟨providerType, attempt, byAddress, snap₁, ids, eventId, ht, hsnap₁, hnodup, hcorr, rfl, hid,
    hv, e₀, he₀, hrep₀⟩ := applyProviderEvent_eq_ok hs htype hsnap h
  have hcorr₂ := hcorr.respelled hsame
  -- the second event has the id of the first
  have hperm := hsame.perm_mentions
  have hids : (eventRecipientIds snap₁.recipients byAddress
      (mentions p input.recipientAddresses)).Perm
        (eventRecipientIds snap₁.recipients byAddress (mentions p ys)) :=
    eventRecipientIds_perm hperm
  have hsource : eventSource p snap₁.toDeliveryLedgerState
      { input with recipientAddresses := ys } providerType
        (eventRecipientIds snap₁.recipients byAddress (mentions p ys)) =
      eventSource p snap₁.toDeliveryLedgerState input providerType
        (eventRecipientIds snap₁.recipients byAddress (mentions p input.recipientAddresses)) :=
    eventSource_perm rfl hids ys
  set source := eventSource p snap₁.toDeliveryLedgerState input providerType
    (eventRecipientIds snap₁.recipients byAddress (mentions p input.recipientAddresses))
  set e₁ := eventRecord id input snap₁.toDeliveryLedgerState now attempt
    (eventRecipientIds snap₁.recipients byAddress (mentions p input.recipientAddresses))
    providerType source eventId
  set e₂ := eventRecord id { input with recipientAddresses := ys } snap₁.toDeliveryLedgerState later
    attempt (eventRecipientIds snap₁.recipients byAddress (mentions p ys)) providerType source
    eventId with he₂
  have he₀ : s₁.providerEvents.get e₂.id = some e₀ := he₀
  have happend : applyProviderEvent p s₁ id type { input with recipientAddresses := ys } later =
      s₁.appendProviderEvent e₂ := by
    obtain ⟨status, hstatus⟩ := Option.ne_none_iff_exists'.mp htype
    have hnormal : normalizeEvent p id type { input with recipientAddresses := ys }
        snap₁.toDeliveryLedgerState later = .ok (some e₂) := by
      have ht₂ : ({ input with recipientAddresses := ys } : ProviderEventInput).providerType.or
          type.providerType = some providerType := ht
      refine (normalizeEvent_eq_ok ht₂).mpr ⟨attempt, _, eventId, correlateEvent_eq_ok.mpr
        ⟨byAddress, _, hcorr₂, rfl⟩, ?_, ?_⟩
      · rw [hsource]
        exact hid
      · rw [hsource]
    unfold applyProviderEvent
    rw [hstatus]
    dsimp only
    rw [hsnap₁]
    dsimp only
    rw [hnormal, ok_bind]
  rw [happend]
  constructor
  · rintro ⟨r, hr, -⟩
    obtain ⟨b, hparse, -⟩ := bind_eq_ok.mp hr
    have hv₂ := (ProviderEventRecord.parse_eq_ok.mp hparse).1
    rw [MemoryStore.appendProviderEvent_of_get he₀ hv₂] at hr
    split_ifs at hr with hrep
    have heq := (ProviderEventRecord.eq_of_isEquivalentReplay hrep₀).symm.trans
      (ProviderEventRecord.eq_of_isEquivalentReplay hrep)
    have horder : eventRecipientIds snap₁.recipients byAddress
        (mentions p input.recipientAddresses) =
          eventRecipientIds snap₁.recipients byAddress (mentions p ys) :=
      congrArg (·.recipientIds) heq
    exact Or.inr (eventRecipientIds_inj hnodup hperm hcorr.known horder)
  · rintro (hnone | hsameOrder)
    · exact absurd hnone htype
    · have hrep₁ : e₁.isEquivalentReplay e₂ = true := by
        rw [he₂, ← hsameOrder]
        exact beq_iff_eq.mpr rfl
      have hrep := ProviderEventRecord.isEquivalentReplay_trans hrep₀ hrep₁
      have hv₂ := ProviderEventRecord.valid_of_isEquivalentReplay hrep₁ hv
      have hmessage : e₀.messageId = id :=
        congrArg (·.messageId) (ProviderEventRecord.eq_of_isEquivalentReplay hrep₀)
      rw [MemoryStore.appendProviderEvent_of_get he₀ hv₂, if_pos hrep, hmessage,
        MemoryStore.deliveryLedgerResult, show s₁.deliveryLedger id = some snap₁ from hsnap₁]
      exact ⟨_, rfl, fun _ => ⟨_, rfl, rfl⟩⟩

end Repeated

/-- **Replays of a provider event.** An event that was delivered once and is delivered again with
its addresses permuted, repeated or respelled is recognised as a replay, which changes nothing,
exactly when the addresses name the recipients in the order of the first delivery (or its type is of
no concern). It does not matter how the event is named. -/
theorem replayed_iff {w : World} (hw : World.system.Reachable w) {p : Platform} {id : String}
    {type : WebhookEventType} {input : ProviderEventInput} {now : ℕ}
    {snap : DeliveryLedgerSnapshot} (hsnap : w.store.getDeliveryLedger id = some snap)
    {s₁ : MemoryStore} {r₁ : Option DeliveryLedgerMutationResult}
    (h : applyProviderEvent p w.store id type input now = .ok (s₁, r₁))
    {ys : Option (List String)} (hsame : Respelled p input.recipientAddresses ys) (later : ℕ) :
    IsReplay type s₁
        (applyProviderEvent p s₁ id type { input with recipientAddresses := ys } later) ↔
      type.emailStatus = none ∨ mentions p input.recipientAddresses = mentions p ys :=
  replayed_iff_of_inv (World.reachable_inv hw).store hsnap h hsame later

/-! ## Runs -/

/-- A platform that knows the digest of one event. -/
def digestPlatform : Platform where
  parseDate _ := none
  toLowerCase := String.toLower
  localeCompare a b := decide (a ≤ b)
  convertHtml html _ := html
  base64Length _ := none
  sha256 text :=
    if text = "\x7b\"provider\":\"aws-ses\",\"provider_message_id\":\"provider-1\"," ++
        "\"provider_at\":\"1970-01-01T00:00:04.000Z\"," ++
        "\"recipient_ids\":[\"rcpt_000000000000000000000a\",\"rcpt_000000000000000000000b\"]," ++
        "\"type\":\"delivered\",\"terminal\":false\x7d" then
      "0d099da1ddb2f6d8301c739c5a8e280fa1369379950e1abe1c3a3b18d8f30a5c"
    else "0000000000000000000000000000000000000000000000000000000000000000"

/-- The sample delivery, to two recipients. -/
def pairCommit : DeliveryCommit :=
  { sampleCommit with
    email := { sampleCommit.email with to_ := ["ada@example.com", "bob@example.com"] }
    message := { sampleCommit.message with
      recipientIds := ["rcpt_000000000000000000000a", "rcpt_000000000000000000000b"] }
    recipients := sampleCommit.recipients ++ [{
      id := "rcpt_000000000000000000000b"
      messageId := "email_0123456789abcdef"
      role := .to_
      ordinal := 1
      address := "bob@example.com"
      status := .queued
      createdAt := 1000
      updatedAt := 1000 }] }

/-- The provider accepts it. -/
def acceptPair : List Label :=
  [.call (.create (.commit pairCommit 1)), .act 0 .go,
    .enqueue (.sendEmail "email_0123456789abcdef" none), .deliver 0 1 "worker" 60 100] ++
  World.sendSample ++ [.act 1 (.providerId "provider-1"), .act 1 .go]

/-- An event of both recipients, without an id. -/
def pairEvent : ProviderEventInput where
  providerMessageId := some "provider-1"
  providerAt := 4000
  recipientAddresses := some ["ada@example.com", "bob@example.com"]

/-- The attempt that the provider accepts. -/
def pairAttempt : AttemptRecord where
  id := "attempt_0123456789abcdef012345"
  messageId := "email_0123456789abcdef"
  recipientIds := pairCommit.message.recipientIds
  sequence := 1
  provider := pairCommit.message.provider
  status := .accepted
  providerMessageId := some "provider-1"
  startedAt := 2000
  completedAt := some 2000

/-- The record of the event. -/
def pairRecord : ProviderEventRecord where
  id := "provider-event:v1:aws-ses:digest:" ++
    "0d099da1ddb2f6d8301c739c5a8e280fa1369379950e1abe1c3a3b18d8f30a5c"
  provider := pairCommit.message.provider
  source := .normalizedEventDigest
    "0d099da1ddb2f6d8301c739c5a8e280fa1369379950e1abe1c3a3b18d8f30a5c"
  messageId := "email_0123456789abcdef"
  attemptId := some "attempt_0123456789abcdef012345"
  recipientIds := pairCommit.message.recipientIds
  providerMessageId := some "provider-1"
  type := .delivered
  providerAt := 4000
  receivedAt := 5000
  terminal := false

/-- The store of the sample delivery with its statuses and events. -/
def pairStore (email : EmailStatus) (message : MessageStatus) (recipient : RecipientStatus)
    (updatedAt : ℕ) (events : OrderedMap String ProviderEventRecord) : MemoryStore where
  emails := OrderedMap.set ∅ "email_0123456789abcdef" { pairCommit.email with
    status := email
    lastEvent := .status email
    updatedAt := updatedAt
    providerId := some "provider-1"
    attempts := 1 }
  deliveryMessages := OrderedMap.set ∅ "email_0123456789abcdef" { pairCommit.message with
    status := message
    updatedAt := updatedAt }
  deliveryRecipients := OrderedMap.setAll (·.id) ∅ (pairCommit.recipients.map fun r => { r with
    status := recipient
    latestAttemptId := some pairAttempt.id
    updatedAt := updatedAt })
  deliveryAttempts := OrderedMap.set ∅ pairAttempt.id pairAttempt
  providerEvents := events
  outboxItems := OrderedMap.set ∅ pairCommit.outbox.id pairCommit.outbox
  outboxByMessage := OrderedMap.set ∅ "email_0123456789abcdef" pairCommit.outbox.id

def acceptedPair : MemoryStore := pairStore .sent .accepted .accepted 2000 ∅

def deliveredPair : MemoryStore :=
  pairStore .delivered .delivered .delivered 5000 (OrderedMap.set ∅ pairRecord.id pairRecord)

theorem acceptPair_refused : ∃ w, World.system.Reachable w ∧ ∃ snap s₁ r₁,
    w.store.getDeliveryLedger "email_0123456789abcdef" = some snap ∧
    applyProviderEvent digestPlatform w.store "email_0123456789abcdef" .delivered pairEvent 5000 =
      .ok (s₁, r₁) ∧
    applyProviderEvent digestPlatform s₁ "email_0123456789abcdef" .delivered
        { pairEvent with recipientAddresses := some ["bob@example.com", "ada@example.com"] } 6000 =
      .error (.conflict
        "Provider event identity is already used by a different normalized event.") := by
  have hrun : (World.system.run { now := 2000 } acceptPair).any
      (fun w => decide (w.store = acceptedPair)) = true := by
    decide +kernel
  have hledger : (acceptedPair.getDeliveryLedger "email_0123456789abcdef").isSome = true := by
    decide +kernel
  have htakes : (applyProviderEvent digestPlatform acceptedPair "email_0123456789abcdef"
      .delivered pairEvent 5000).toOption.map (·.1) = some deliveredPair := by
    decide +kernel
  have hagain : applyProviderEvent digestPlatform deliveredPair "email_0123456789abcdef"
      .delivered { pairEvent with
        recipientAddresses := some ["bob@example.com", "ada@example.com"] } 6000 =
        .error (.conflict
          "Provider event identity is already used by a different normalized event.") := by
    decide +kernel
  obtain ⟨w, hw, hstore⟩ :=
    TransitionSystem.exists_reachable_of_run (T := World.system) ⟨2000, rfl⟩ hrun
  have hstore : w.store = acceptedPair := of_decide_eq_true hstore
  obtain ⟨snap, hsnap⟩ := Option.isSome_iff_exists.mp hledger
  obtain ⟨⟨s₁, r₁⟩, hfirst, hs₁⟩ := Option.map_eq_some_iff.mp htakes
  obtain rfl : s₁ = deliveredPair := hs₁
  rw [toOption_eq_some] at hfirst
  exact ⟨w, hw, snap, deliveredPair, r₁, by rw [hstore, hsnap], by rw [hstore, hfirst], hagain⟩

/-- **A permuted replay is refused.** The event names no id, so its digest names it, and the digest
is that of the first delivery; the addresses are those of the first delivery too. -/
theorem permuted_replay_refused : ∃ w, World.system.Reachable w ∧ ∃ snap s₁ r₁,
    w.store.getDeliveryLedger "email_0123456789abcdef" = some snap ∧
    pairEvent.isNamed = false ∧
    applyProviderEvent digestPlatform w.store "email_0123456789abcdef" .delivered pairEvent 5000 =
      .ok (s₁, r₁) ∧
    Respelled digestPlatform pairEvent.recipientAddresses
      (some ["bob@example.com", "ada@example.com"]) ∧
    applyProviderEvent digestPlatform s₁ "email_0123456789abcdef" .delivered
        { pairEvent with recipientAddresses := some ["bob@example.com", "ada@example.com"] } 6000 =
      .error (.conflict
        "Provider event identity is already used by a different normalized event.") := by
  obtain ⟨w, hw, snap, s₁, r₁, hsnap, hfirst, hagain⟩ := acceptPair_refused
  have hsame : Respelled digestPlatform pairEvent.recipientAddresses
      (some ["bob@example.com", "ada@example.com"]) :=
    ⟨fun x hx => ⟨x, (List.Perm.swap _ _ []).mem_iff.mp hx, rfl⟩,
      fun x hx => ⟨x, (List.Perm.swap _ _ []).mem_iff.mp hx, rfl⟩⟩
  exact ⟨w, hw, snap, s₁, r₁, hsnap, rfl, hfirst, hsame, hagain⟩

theorem replayed_iff_sample : ∃ w s₁, World.system.Reachable w ∧ IsReplay .delivered s₁
    (applyProviderEvent digestPlatform s₁ "email_0123456789abcdef" .delivered
      { pairEvent with
        recipientAddresses := some ["Ada@example.com", "bob@example.com", "ada@example.com"] }
      6000) := by
  obtain ⟨w, hw, snap, s₁, r₁, hsnap, hfirst, -⟩ := acceptPair_refused
  have hsame : Respelled digestPlatform pairEvent.recipientAddresses
      (some ["Ada@example.com", "bob@example.com", "ada@example.com"]) := by
    refine ⟨fun x hx => ⟨x, ?_, rfl⟩, fun y hy => ?_⟩
    · have hx : x = "ada@example.com" ∨ x = "bob@example.com" := by simpa [pairEvent] using hx
      rcases hx with rfl | rfl
      · simp
      · simp
    · have hy : y = "Ada@example.com" ∨ y = "bob@example.com" ∨ y = "ada@example.com" := by
        simpa using hy
      rcases hy with rfl | rfl | rfl
      · exact ⟨"ada@example.com", by simp [pairEvent], by decide +kernel⟩
      · exact ⟨"bob@example.com", by simp [pairEvent], rfl⟩
      · exact ⟨"ada@example.com", by simp [pairEvent], rfl⟩
  have horder : mentions digestPlatform pairEvent.recipientAddresses =
      mentions digestPlatform
        (some ["Ada@example.com", "bob@example.com", "ada@example.com"]) := by decide +kernel
  exact ⟨w, s₁, hw, (replayed_iff hw hsnap hfirst hsame 6000).mpr (Or.inr horder)⟩

end HayaSend
