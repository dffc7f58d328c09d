import HayaSend.Adapters.MemoryStoreOutbox
import HayaSend.Adapters.MemoryStoreRetention
import HayaSend.Services.EmailIntake

/-!
# Creating an email again

A create with an idempotency key prepares its input anew before the store looks at the claim.
Everything the preparation does comes out as before while the template and the attachments still
resolve, except that a date in the input must be ahead of the clock: a create is replayed exactly
while the date it asks for has not passed (`create_replays_iff`).
-/

namespace HayaSend

/-! ## Ids -/

/-- The texts of the random UUIDs a call draws, one for the email and one for each of at most 50
recipients: 32 hexadecimal digits, never the same twice. -/
structure RandomIds (uuid : ℕ → String) : Prop where
  length : ∀ i ≤ 50, (uuid i).toList.length = 32
  hex : ∀ i ≤ 50, ∀ c ∈ (uuid i).toList, c.isDigit = true ∨ 'a' ≤ c ∧ c ≤ 'f'
  injective : ∀ i ≤ 50, ∀ j ≤ 50, uuid i = uuid j → i = j

theorem isIdChar_of_hex {c : Char} (h : c.isDigit = true ∨ 'a' ≤ c ∧ c ≤ 'f') :
    isIdChar c = true := by
  have hal : c.isAlphanum = true := by
    rcases h with h | ⟨h₁, h₂⟩
    · exact isAlphanum_of_isDigit h
    · have hlower : c.isLower = true := Bool.and_eq_true_iff.mpr
        ⟨decide_eq_true h₁, decide_eq_true (UInt32.le_trans (b := 'f'.val) h₂ (by decide))⟩
      exact isAlphanum_of_isLower hlower
  rw [isIdChar, hal, Bool.true_or, Bool.true_or]

/-- A prefix and random digits make an id of the schema. -/
theorem isOpaqueId_createId (start : String) {lo : ℕ} {uuid : String} (hlo : lo ≤ 32)
    (hlen : uuid.toList.length = 32)
    (hhex : ∀ c ∈ uuid.toList, c.isDigit = true ∨ 'a' ≤ c ∧ c ≤ 'f') :
    isOpaqueId (start ++ "_") lo 128 (createId start uuid) = true := by
  have hlist : (createId start uuid).toList = (start ++ "_").toList ++ uuid.toList := by
    rw [createId, String.toList_append]
  have hdrop : (createId start uuid).toList.drop (start ++ "_").length = uuid.toList := by
    rw [hlist, ← String.length_toList, List.drop_left]
  simp only [isOpaqueId, hdrop, hlen, Bool.and_eq_true, List.isPrefixOf_iff_prefix,
    List.all_eq_true, decide_eq_true_eq]
  refine ⟨⟨⟨?_, fun c hc => isIdChar_of_hex (hhex c hc)⟩, hlo⟩, by decide⟩
  rw [hlist]
  exact List.prefix_append _ _

namespace RandomIds

variable {uuid : ℕ → String}

theorem messageId (h : RandomIds uuid) : messageIdSchema (createId "email" (uuid 0)) = true :=
  isOpaqueId_createId "email" (by decide) (h.length 0 (by decide)) (h.hex 0 (by decide))

theorem recipientId (h : RandomIds uuid) {i : ℕ} (hi : i < 50) :
    recipientIdSchema (createId "rcpt" (uuid (i + 1))) = true :=
  isOpaqueId_createId "rcpt" (by decide) (h.length _ hi) (h.hex _ hi)

/-- The ids of the recipients are distinct. -/
theorem nodup_recipientIds (h : RandomIds uuid) {n : ℕ} (hn : n ≤ 50) :
    ((List.range n).map fun i => createId "rcpt" (uuid (i + 1))).Nodup := by
  refine List.Nodup.map_on (fun i hi j hj hij => ?_) List.nodup_range
  rw [List.mem_range] at hi hj
  have hlist := congrArg String.toList hij
  simp only [createId, String.toList_append, List.append_cancel_left_eq] at hlist
  have := h.injective (i + 1) (by omega) (j + 1) (by omega) (String.toList_injective hlist)
  omega

/-- The first outbox item of a message has an identity. -/
theorem outboxIdentity (h : RandomIds uuid) : ∃ id,
    createOutboxIdentity (createId "email" (uuid 0)) .dispatchMessage 0 = .ok id := by
  have hid := h.messageId
  have hlen : (createId "email" (uuid 0)).toList.length = 38 := by
    rw [createId, String.toList_append, List.length_append, h.length 0 (by decide)]
    rfl
  simp only [createOutboxIdentity, identitySegment_eq_self hid, hid]
  refine ⟨_, if_pos ?_⟩
  simp only [List.append_eq_nil_iff, issueUnless_eq_nil, decide_eq_true_eq, true_and,
    String.toList_append, List.length_append, hlen]
  decide

end RandomIds

/-! ## The records of a new delivery -/

theorem newRecipients_map_id (record : EmailRecord) (recipientId : ℕ → String)
    (places : List (EnvelopeRole × ℕ × String)) :
    (newRecipients record recipientId places).map (·.id) =
      (List.range places.length).map recipientId := by
  refine List.ext_getElem (by simp [newRecipients]) fun i h₁ h₂ => ?_
  simp [newRecipients]

theorem newRecipients_map_place (record : EmailRecord) (recipientId : ℕ → String)
    (places : List (EnvelopeRole × ℕ × String)) :
    (newRecipients record recipientId places).map (fun r => (r.role, r.ordinal, r.address)) =
      places := by
  refine List.ext_getElem (by simp [newRecipients]) fun i h₁ h₂ => ?_
  simp [newRecipients]

theorem mem_newRecipients {record : EmailRecord} {recipientId : ℕ → String}
    {places : List (EnvelopeRole × ℕ × String)} {r : RecipientRecord} :
    r ∈ newRecipients record recipientId places ↔ ∃ i, ∃ h : i < places.length, r = {
      id := recipientId i
      messageId := record.id
      role := places[i].1
      ordinal := places[i].2.1
      address := places[i].2.2
      status := record.status.initialRecipientStatus
      createdAt := record.createdAt
      updatedAt := record.createdAt } := by
  simp only [newRecipients, List.mem_mapIdx, eq_comm]

/-- The checks of a new delivery that depend on the request only, not on the ids, the time or the
status. -/
structure Deliverable (options : EmailServiceOptions) (hash : String)
    (places : List (EnvelopeRole × ℕ × String)) : Prop where
  provider : options.provider.issues = []
  hash : sha256Schema hash = true
  nonempty : places ≠ []
  address : ∀ place ∈ places, isEmailAddress place.2.2 = true ∧ place.2.2.toList.length ≤ 320
  addresses : (places.map (·.2.2.toLower)).Nodup
  positions : (places.map fun place => (place.1, place.2.1)).Nodup

/-- A record as `prepareEmail` makes it. -/
structure EmailRecord.IsNew (record : EmailRecord) : Prop where
  status : record.status.initialMessageStatus ≠ none
  updated : record.updatedAt = record.createdAt

namespace Deliverable

variable {options : EmailServiceOptions} {record : EmailRecord} {recipientId : ℕ → String}
  {places : List (EnvelopeRole × ℕ × String)} {outboxId : String}
  {idempotency : Option IdempotencyClaim} {now : ℕ}

theorem of_validate {c : DeliveryCommit} (h : validateDeliveryCommit (newDelivery options record
    (newRecipients record recipientId places) outboxId idempotency) now = .ok c) :
    Deliverable options record.requestHash places := by
  obtain ⟨haddresses, hpositions⟩ := validateDeliveryCommit_unique h
  obtain ⟨rfl, hcons⟩ := validateDeliveryCommit_eq_ok h
  have hplaces := newRecipients_map_place record recipientId places
  have hmessage := hcons.message_valid
  simp only [newDelivery, MessageRecord.Valid, MessageRecord.issues, refineIssues_eq_nil,
    List.append_eq_nil_iff, issueUnless_eq_nil] at hmessage
  obtain ⟨⟨⟨⟨⟨-, hprovider⟩, hhash⟩, hne⟩, -⟩, -⟩ := hmessage
  refine ⟨hprovider, hhash, ?_, fun place hplace => ?_, ?_, ?_⟩
  · rintro rfl
    simp [newRecipients] at hne
  · rw [← hplaces] at hplace
    obtain ⟨r, hr, rfl⟩ := List.mem_map.mp hplace
    have hvalid := hcons.recipients_valid r hr
    simp only [RecipientRecord.Valid, RecipientRecord.issues, refineIssues_eq_nil,
      List.append_eq_nil_iff, issueUnless_eq_nil, decide_eq_true_eq] at hvalid
    exact ⟨hvalid.1.1.1.2, hvalid.1.1.2⟩
  · rw [← hplaces, List.map_map]
    exact haddresses
  · rw [← hplaces, List.map_map]
    exact hpositions

/-- Under a new id, time and status the delivery passes as well. -/
theorem validate {hash : String} (h : Deliverable options hash places)
    (hhash : record.requestHash = hash) (hnew : record.IsNew)
    {uuid : ℕ → String} (hu : RandomIds uuid) (hlen : places.length ≤ 50)
    (hid : record.id = createId "email" (uuid 0))
    (hout : createOutboxIdentity record.id .dispatchMessage 0 = .ok outboxId)
    (hclaim : ∀ claim, idempotency = some claim →
      claim.requestHash = record.requestHash ∧ now < claim.expiresAt)
    {rs : List RecipientRecord}
    (hrs : rs = newRecipients record (fun i => createId "rcpt" (uuid (i + 1))) places) :
    validateDeliveryCommit (newDelivery options record rs outboxId idempotency) now =
      .ok (newDelivery options record rs outboxId idempotency) := by
  have hnewId : messageIdSchema record.id = true := hid ▸ hu.messageId
  obtain ⟨status, hstatus⟩ := Option.ne_none_iff_exists'.mp hnew.status
  have hids : rs.map (·.id) =
      (List.range places.length).map fun i => createId "rcpt" (uuid (i + 1)) :=
    hrs ▸ newRecipients_map_id _ _ _
  have hplaces : rs.map (fun r => (r.role, r.ordinal, r.address)) = places :=
    hrs ▸ newRecipients_map_place _ _ _
  have hidsNodup : (rs.map (·.id)).Nodup := by
    rw [hids]
    exact hu.nodup_recipientIds hlen
  have hne : rs ≠ [] := fun h0 => h.nonempty (by rw [← hplaces, h0]; rfl)
  have hall : (rs.map (·.id)).all recipientIdSchema = true := by
    rw [hids, List.all_map, List.all_eq_true]
    exact fun i hi => hu.recipientId (lt_of_lt_of_le (List.mem_range.mp hi) hlen)
  have hfields : ∀ r ∈ rs, recipientIdSchema r.id = true ∧ r.messageId = record.id ∧
      r.status = record.status.initialRecipientStatus ∧ r.latestAttemptId = none ∧
      r.createdAt = record.createdAt ∧ r.updatedAt = record.createdAt := by
    intro r hr
    obtain ⟨i, hi, rfl⟩ := mem_newRecipients.mp (hrs ▸ hr)
    exact ⟨hu.recipientId (lt_of_lt_of_le hi hlen), rfl, rfl, rfl, rfl, rfl⟩
  refine DeliveryCommit.Consistent.validate ⟨?_, fun r hr => ?_, ?_, ?_, ?_, ?_⟩ hnew.status hclaim
    ?_ ?_
  · simp [newDelivery, MessageRecord.Valid, MessageRecord.issues, validateUpdatedAt,
      uniqueRecipientIds, hnewId, h.provider, hhash, h.hash, hne, hall, hidsNodup]
  · obtain ⟨hrid, hmid, -, hattempt, hcreated, hupdated⟩ := hfields r hr
    have haddress := h.address (r.role, r.ordinal, r.address)
      (hplaces ▸ List.mem_map_of_mem (f := fun r : RecipientRecord => (r.role, r.ordinal, r.address))
        hr)
    simp [RecipientRecord.Valid, RecipientRecord.issues, validateUpdatedAt, hrid, hmid, hnewId,
      haddress, hattempt, hcreated, hupdated]
  · simp [newDelivery, OutboxItemRecord.Valid, OutboxItemRecord.issues, validateUpdatedAt, hnewId,
      hout]
  · simp [newDelivery, DeliveryCommit.recordsMatch, hnew.updated, hstatus]
  · simp only [newDelivery, DeliveryCommit.recipientsMatch, Bool.and_eq_true, Bool.not_eq_true',
      List.isEmpty_eq_false_iff, beq_iff_eq, List.length_map, List.all_eq_true,
      List.contains_iff_mem]
    refine ⟨⟨⟨⟨hne, decide_eq_true hidsNodup⟩, trivial⟩, fun id hid => hid⟩, fun r hr => ?_⟩
    obtain ⟨-, hmid, hstatus, hattempt, hcreated, hupdated⟩ := hfields r hr
    exact ⟨⟨⟨⟨hmid, hstatus⟩, hattempt⟩, hcreated⟩, hupdated⟩
  · simp [newDelivery, DeliveryCommit.outboxMatches, hnew.updated]
  · have haddresses := h.addresses
    rw [← hplaces, List.map_map] at haddresses
    exact haddresses
  · have hpositions := h.positions
    rw [← hplaces, List.map_map] at hpositions
    exact hpositions

end Deliverable

/-! ## Preparing again -/

/-- The uploads an input refers to. -/
def SendEmailInput.uploads (input : SendEmailInput) : List String :=
  (input.attachments.getD []).filterMap fun
    | .ofContent _ _ _ => none
    | .uploaded attachmentId _ _ => some attachmentId

/-- The template of an input renders as before, and its uploads can still be attached. -/
structure StillResolvable (c c' : Collaborators) (input : SendEmailInput) (later : ℕ) : Prop where
  template : ∀ t, input.template = some t → resolveForSend c' input t = resolveForSend c input t
  upload : ∀ id ∈ input.uploads, c'.attachmentUpload id = c.attachmentUpload id
  available : ∀ id ∈ input.uploads, ∀ record, c'.attachmentUpload id = some record →
    later < record.expiresAt ∧ c'.verifyAttachment record = .ok ()

/-- The canonical request of an input. -/
def canonicalRequest (p : Platform) (c : Collaborators) (input : SendEmailInput) (now : ℕ) :
    Except Failure String := do
  let content ← resolveContent p c input
  let attachments ← resolveAttachments p c content.attachments content.bodyBytes now
  let recipients ← normalizeRecipients p content
  return canonicalText p (stableRequest input recipients.uniqueReplyTo attachments)

section Preparation

variable {p : Platform} {options : EmailServiceOptions} {c c' : Collaborators}
  {input : SendEmailInput} {key : Option String} {now later : ℕ}

/-- The stages of `prepareEmail`. -/
theorem prepareEmail_eq_ok {emailId : String} {prepared : PreparedEmail} :
    prepareEmail p options c emailId input key now = .ok prepared ↔
      ∃ content at_ attachments suppressed recipients,
        resolveContent p c input = .ok content ∧
        parseScheduledAt (content.scheduledAt.map (readSchedule p)) now = .ok at_ ∧
        resolveAttachments p c content.attachments content.bodyBytes now = .ok attachments ∧
        c.suppressions.findSuppressed p content.recipients = .ok suppressed ∧
        normalizeRecipients p content = .ok recipients ∧
        options.preCommitValidator recipients.uniqueReplyTo attachments = .ok () ∧
        prepared = assembleEmail p emailId input recipients.uniqueReplyTo at_ attachments
          suppressed key now := by
  simp only [prepareEmail, bind_eq_ok, pure_eq_ok]
  constructor
  · rintro ⟨content, hc, at_, hat, attachments, ha, suppressed, hs, recipients, hr, _, hv, rfl⟩
    exact ⟨content, at_, attachments, suppressed, recipients, hc, hat, ha, hs, hr, hv, rfl⟩
  · rintro ⟨content, at_, attachments, suppressed, recipients, hc, hat, ha, hs, hr, hv, rfl⟩
    exact ⟨content, hc, at_, hat, attachments, ha, suppressed, hs, recipients, hr, (), hv, rfl⟩

/-- Resolving changes only what a template has. -/
theorem resolveContent_eq {content : SendEmailInput} (h : resolveContent p c input = .ok content) :
    ∃ template from_ subject html text replyTo, content = { input with
      template := template
      from_ := from_
      subject := subject
      html := html
      text := text
      replyTo := replyTo } := by
  obtain ⟨resolved, hresolved, h⟩ := bind_eq_ok.mp h
  obtain ⟨_, -, h⟩ := bind_eq_ok.mp h
  have hfields : ∃ template from_ subject html text replyTo, resolved = { input with
      template := template
      from_ := from_
      subject := subject
      html := html
      text := text
      replyTo := replyTo } := by
    unfold resolveTemplate at hresolved
    split at hresolved
    · unfold resolveForSend at hresolved
      split at hresolved
      · cases hresolved
      · obtain ⟨_, -, hresolved⟩ := bind_eq_ok.mp hresolved
        obtain ⟨_, -, hresolved⟩ := bind_eq_ok.mp hresolved
        obtain ⟨_, -, hresolved⟩ := bind_eq_ok.mp hresolved
        rw [pure_eq_ok] at hresolved
        exact ⟨_, _, _, _, _, _, hresolved.symm⟩
    · rw [← Except.ok.inj hresolved]
      exact ⟨_, _, _, _, _, _, rfl⟩
  rw [pure_eq_ok] at h
  obtain ⟨template, from_, subject, html, text, replyTo, rfl⟩ := hfields
  split at h
  · exact ⟨_, _, _, _, _, _, h.symm⟩
  · exact ⟨_, _, _, _, _, _, h.symm⟩

/-- The content keeps the attachments and the schedule of the input. -/
theorem resolveContent_fields {content : SendEmailInput}
    (h : resolveContent p c input = .ok content) :
    content.attachments = input.attachments ∧ content.scheduledAt = input.scheduledAt := by
  obtain ⟨_, _, _, _, _, _, rfl⟩ := resolveContent_eq h
  exact ⟨rfl, rfl⟩

theorem resolveContent_again (h : StillResolvable c c' input later) :
    resolveContent p c' input = resolveContent p c input := by
  have htemplate : resolveTemplate c' input = resolveTemplate c input := by
    unfold resolveTemplate
    split
    · rename_i t ht
      exact h.template t ht
    · rfl
  rw [resolveContent, resolveContent, htemplate]

theorem resolveAttachment_again {a : EmailAttachmentInput} {r : EmailAttachment}
    (ha : a ∈ input.attachments.getD []) (hs : StillResolvable c c' input later)
    (h : resolveAttachment p c now a = .ok r) : resolveAttachment p c' later a = .ok r := by
  cases a with
  | ofContent filename content presentation => exact h
  | uploaded attachmentId filename presentation =>
    have hid : attachmentId ∈ input.uploads :=
      List.mem_filterMap.mpr ⟨.uploaded attachmentId filename presentation, ha, rfl⟩
    simp only [resolveAttachment] at h ⊢
    split at h
    · cases h
    · rename_i record hrecord
      obtain ⟨hrecord, -⟩ := Option.filter_eq_some_iff.mp hrecord
      have hrecord' : c'.attachmentUpload attachmentId = some record :=
        (hs.upload attachmentId hid).trans hrecord
      obtain ⟨hlater, hverify⟩ := hs.available attachmentId hid record hrecord'
      obtain ⟨_, -, h⟩ := bind_eq_ok.mp h
      rw [hrecord', Option.filter_some, if_pos (decide_eq_true hlater)]
      dsimp only
      rw [hverify]
      exact h

theorem resolveAttachments_again {bodyBytes : ℕ} {r : Option (List EmailAttachment)}
    (hs : StillResolvable c c' input later)
    (h : resolveAttachments p c input.attachments bodyBytes now = .ok r) :
    resolveAttachments p c' input.attachments bodyBytes later = .ok r := by
  unfold resolveAttachments at h ⊢
  split at h
  · exact h
  · rename_i attachments hattachments
    obtain ⟨resolved, hresolved, h⟩ := bind_eq_ok.mp h
    refine bind_eq_ok.mpr ⟨resolved, ?_, h⟩
    refine mapM_eq_ok_of_imp hresolved fun a ha r hr => resolveAttachment_again ?_ hs hr
    rw [hattachments]
    exact ha

/-- The digest of an email is that of its canonical request. -/
theorem canonicalRequest_of_prepareEmail {emailId : String} {prepared : PreparedEmail}
    (h : prepareEmail p options c emailId input key now = .ok prepared) :
    ∃ text, canonicalRequest p c input now = .ok text ∧
      prepared.record.requestHash = p.sha256 text := by
  obtain ⟨content, at_, attachments, suppressed, recipients, hc, -, ha, -, hr, -, rfl⟩ :=
    prepareEmail_eq_ok.mp h
  exact ⟨_, bind_eq_ok.mpr ⟨content, hc, bind_eq_ok.mpr ⟨attachments, ha,
    bind_eq_ok.mpr ⟨recipients, hr, rfl⟩⟩⟩, rfl⟩

/-- Dropping repeated addresses makes no list longer. -/
theorem collectRecipients_length {seen seen' values kept : List String}
    (h : collectRecipients p seen values = .ok (kept, seen')) : kept.length ≤ values.length := by
  induction values generalizing seen kept with
  | nil =>
    cases h
    exact le_rfl
  | cons value values ih =>
    unfold collectRecipients at h
    obtain ⟨address, -, h⟩ := bind_eq_ok.mp h
    split_ifs at h
    · exact (ih h).trans (Nat.le_succ _)
    · obtain ⟨⟨kept', seen''⟩, hkept, h⟩ := bind_eq_ok.mp h
      rw [pure_eq_ok, Prod.mk.injEq] at h
      obtain ⟨rfl, rfl⟩ := h
      exact Nat.succ_le_succ (ih hkept)

theorem normalizeRecipients_length {recipients : SendEmailInput}
    (h : normalizeRecipients p input = .ok recipients) :
    recipients.recipients.length ≤ input.recipients.length := by
  obtain ⟨⟨to_, seen⟩, hto, h⟩ := bind_eq_ok.mp h
  obtain ⟨⟨cc, seen'⟩, hcc, h⟩ := bind_eq_ok.mp h
  obtain ⟨⟨bcc, seen''⟩, hbcc, h⟩ := bind_eq_ok.mp h
  rw [pure_eq_ok] at h
  subst h
  have hto := collectRecipients_length hto
  have hcc := collectRecipients_length hcc
  have hbcc := collectRecipients_length hbcc
  have hkeep : ∀ (kept : List String) (values : Option (List String)),
      kept.length ≤ (values.getD []).length →
        ((if kept.isEmpty then values else some kept).getD []).length ≤ (values.getD []).length := by
    intro kept values hle
    split_ifs
    · exact le_rfl
    · exact hle
  have hcc' := hkeep cc input.cc hcc
  have hbcc' := hkeep bcc input.bcc hbcc
  simp only [SendEmailInput.recipients, List.length_append]
  omega

/-- A valid email has between 1 and 50 recipients. -/
theorem resolveContent_recipients {content : SendEmailInput}
    (h : resolveContent p c input = .ok content) :
    content.recipients ≠ [] ∧ content.recipients.length ≤ 50 := by
  obtain ⟨resolved, -, h⟩ := bind_eq_ok.mp h
  obtain ⟨_, hvalid, h⟩ := bind_eq_ok.mp h
  obtain ⟨_, -, hvalid⟩ := bind_eq_ok.mp hvalid
  obtain ⟨_, -, hvalid⟩ := bind_eq_ok.mp hvalid
  obtain ⟨_, -, hvalid⟩ := bind_eq_ok.mp hvalid
  obtain ⟨_, hcount, -⟩ := bind_eq_ok.mp hvalid
  rw [throwIf_eq_ok, Bool.or_eq_false_iff, decide_eq_false_iff_not, not_lt,
    List.isEmpty_eq_false_iff] at hcount
  rw [pure_eq_ok] at h
  split at h
  · exact h ▸ hcount
  · exact h ▸ hcount

theorem places_length {emailId : String} {prepared : PreparedEmail}
    {places : List (EnvelopeRole × ℕ × String)}
    (h : prepareEmail p options c emailId input key now = .ok prepared)
    (hplaces : prepared.record.places p = .ok places) : places.length ≤ 50 := by
  obtain ⟨content, _, _, _, recipients, hc, -, -, -, hr, -, rfl⟩ := prepareEmail_eq_ok.mp h
  have hlen := (mapM_eq_ok.mp hplaces).length_eq
  have henvelope : places.length = recipients.recipients.length := by
    rw [← hlen]
    simp [EmailRecord.envelope, assembleEmail, SendEmailInput.uniqueReplyTo,
      SendEmailInput.recipients]
  rw [henvelope]
  exact (normalizeRecipients_length hr).trans (resolveContent_recipients hc).2

/-- The claim of an email is for its key and its digest. -/
theorem assembleEmail_idempotency (emailId : String) (normalized : SendEmailInput)
    (at_ : Option ℕ) (attachments : Option (List EmailAttachment))
    (suppressed : List SuppressionRecord) {idempotencyKey : String} (hkey : idempotencyKey ≠ "") :
    (assembleEmail p emailId input normalized at_ attachments suppressed (some idempotencyKey)
      now).idempotency = some {
        keyHash := p.sha256 idempotencyKey
        requestHash := requestHash p (stableRequest input normalized attachments)
        expiresAt := epochSeconds now + 86400 } := by
  simp only [assembleEmail, Option.filter_some, bne_iff_ne.mpr hkey, if_true, Option.map_some]

theorem assembleEmail_isNew (emailId : String) (normalized : SendEmailInput) (at_ : Option ℕ)
    (attachments : Option (List EmailAttachment)) (suppressed : List SuppressionRecord) :
    (assembleEmail p emailId input normalized at_ attachments suppressed key now).record.IsNew := by
  refine ⟨?_, rfl⟩
  show (initialStatus suppressed at_).initialMessageStatus ≠ none
  unfold initialStatus
  split_ifs <;> decide

/-- The stages of `prepareDelivery`. -/
theorem prepareDelivery_eq_ok {uuid : ℕ → String} {d : DeliveryCommit} :
    prepareDelivery p options c uuid input key now = .ok d ↔
      ∃ prepared places outboxId,
        prepareEmail p options c (createId "email" (uuid 0)) input key now = .ok prepared ∧
        prepared.record.places p = .ok places ∧
        createOutboxIdentity prepared.record.id .dispatchMessage 0 = .ok outboxId ∧
        d = newDelivery options prepared.record (newRecipients prepared.record
          (fun i => createId "rcpt" (uuid (i + 1))) places) outboxId prepared.idempotency := by
  simp only [prepareDelivery, PreparedEmail.delivery, bind_eq_ok, pure_eq_ok]
  constructor
  · rintro ⟨prepared, hp, places, hplaces, outboxId, hout, rfl⟩
    exact ⟨prepared, places, outboxId, hp, hplaces, hout, rfl⟩
  · rintro ⟨prepared, places, outboxId, hp, hplaces, hout, rfl⟩
    exact ⟨prepared, hp, places, hplaces, outboxId, hout, rfl⟩

/-- The schedule of the input is one that a later create still accepts. -/
def ScheduleAhead (p : Platform) (input : SendEmailInput) (later : ℕ) : Prop :=
  ∀ text, input.scheduledAt = some text → (readSchedule p text).Ahead later

/-- What a preparation at a later time has in common with the first one. -/
theorem prepareEmail_again {emailId idempotencyKey : String} {prepared : PreparedEmail}
    (emailId' : String)
    (h : prepareEmail p options c emailId input (some idempotencyKey) now = .ok prepared)
    (hkey : idempotencyKey ≠ "") (hs : StillResolvable c c' input later) (hle : now ≤ later)
    (hahead : ScheduleAhead p input later) :
    ∃ prepared', prepareEmail p options c' emailId' input (some idempotencyKey) later =
        .ok prepared' ∧
      prepared'.record.id = emailId' ∧ prepared'.record.IsNew ∧
      prepared'.record.requestHash = prepared.record.requestHash ∧
      prepared'.record.places p = prepared.record.places p ∧
      prepared'.idempotency = some {
        keyHash := p.sha256 idempotencyKey
        requestHash := prepared.record.requestHash
        expiresAt := epochSeconds later + 86400 } := by
  obtain ⟨content, at_, attachments, suppressed, recipients, hc, hat, ha, hsup, hr, hval, rfl⟩ :=
    prepareEmail_eq_ok.mp h
  obtain ⟨hattachments, hschedule⟩ := resolveContent_fields hc
  obtain ⟨at', hat', -⟩ := (parseScheduledAt_later hat hle).mpr fun read hread => by
    rw [hschedule] at hread
    obtain ⟨text, htext, rfl⟩ := Option.map_eq_some_iff.mp hread
    exact hahead text htext
  obtain ⟨suppressed', hsup'⟩ := SuppressionStore.findSuppressed_ok hsup c'.suppressions
  have ha' : resolveAttachments p c' content.attachments content.bodyBytes later =
      .ok attachments := by
    rw [hattachments] at ha ⊢
    exact resolveAttachments_again hs ha
  refine ⟨_, prepareEmail_eq_ok.mpr ⟨content, at', attachments, suppressed', recipients,
    (resolveContent_again hs).trans hc, hat', ha', hsup', hr, hval, rfl⟩, rfl,
    assembleEmail_isNew _ _ _ _ _, rfl, rfl, assembleEmail_idempotency _ _ _ _ _ hkey⟩

/-- **A delivery that was accepted is prepared and accepted again**, with the same digest, while
its schedule is ahead. -/
theorem prepareDelivery_again {uuid uuid' : ℕ → String} {d : DeliveryCommit}
    {idempotencyKey : String}
    (h : prepareDelivery p options c uuid input (some idempotencyKey) now = .ok d)
    (hv : validateDeliveryCommit d (epochSeconds now) = .ok d) (hkey : idempotencyKey ≠ "")
    (hu' : RandomIds uuid') (hs : StillResolvable c c' input later) (hle : now ≤ later)
    (hahead : ScheduleAhead p input later) :
    ∃ d', prepareDelivery p options c' uuid' input (some idempotencyKey) later = .ok d' ∧
      validateDeliveryCommit d' (epochSeconds later) = .ok d' ∧
      d'.idempotency = some {
        keyHash := p.sha256 idempotencyKey
        requestHash := d.email.requestHash
        expiresAt := epochSeconds later + 86400 } := by
  obtain ⟨prepared, places, outboxId, hp, hplaces, -, rfl⟩ := prepareDelivery_eq_ok.mp h
  have hdeliverable := Deliverable.of_validate hv
  obtain ⟨prepared', hp', hid, hnew, hhash, hplaces', hclaim⟩ :=
    prepareEmail_again (createId "email" (uuid' 0)) hp hkey hs hle hahead
  obtain ⟨outboxId', hout'⟩ := hu'.outboxIdentity
  rw [← hid] at hout'
  refine ⟨_, prepareDelivery_eq_ok.mpr
    ⟨prepared', places, outboxId', hp', hplaces'.trans hplaces, hout', rfl⟩, ?_, hclaim⟩
  refine hdeliverable.validate hhash hnew hu' (places_length hp hplaces) hid hout'
    (fun claim hi => ?_) rfl
  rw [hclaim] at hi
  obtain rfl := Option.some.inj hi
  exact ⟨hhash.symm, Nat.lt_add_of_pos_right (by decide)⟩

/-- The claim of a delivery is for its key and for the digest of its canonical request. -/
theorem prepareDelivery_claim {uuid : ℕ → String} {d : DeliveryCommit} {idempotencyKey : String}
    (h : prepareDelivery p options c uuid input (some idempotencyKey) now = .ok d)
    (hkey : idempotencyKey ≠ "") :
    ∃ text claim, canonicalRequest p c input now = .ok text ∧ d.idempotency = some claim ∧
      claim.keyHash = p.sha256 idempotencyKey ∧ claim.requestHash = p.sha256 text ∧
      d.email.requestHash = p.sha256 text := by
  obtain ⟨prepared, places, outboxId, hp, -, -, rfl⟩ := prepareDelivery_eq_ok.mp h
  obtain ⟨text, htext, hhash⟩ := canonicalRequest_of_prepareEmail hp
  obtain ⟨_, at_, attachments, suppressed, recipients, -, -, -, -, -, -, rfl⟩ :=
    prepareEmail_eq_ok.mp hp
  exact ⟨text, _, htext, assembleEmail_idempotency (createId "email" (uuid 0))
    recipients.uniqueReplyTo at_ attachments suppressed hkey, rfl, hhash, hhash⟩

/-- An input that `create` would accept without a key: its delivery is prepared and passes the
checks of the commit. -/
def Acceptable (p : Platform) (options : EmailServiceOptions) (c : Collaborators)
    (uuid : ℕ → String) (input : SendEmailInput) (idempotencyKey : String) (now : ℕ) : Prop :=
  ∃ d, prepareDelivery p options c uuid input (some idempotencyKey) now = .ok d ∧
    validateDeliveryCommit d (epochSeconds now) = .ok d

end Preparation

/-! ## Replays -/

/-- What calling `create` again under a key does: the same input is answered with the email of the
given id, any other acceptable input is refused, and the store stays as it is. -/
structure Replays (p : Platform) (options : EmailServiceOptions) (c : Collaborators)
    (uuid : ℕ → String) (s : MemoryStore) (input : SendEmailInput) (key : String) (now : ℕ)
    (emailId request : String) : Prop where
  replay : ∃ effects record, EmailService.create p options c uuid s input (some key) now =
      { store := s, effects := effects, result := .ok ⟨record, true⟩ } ∧ record.id = emailId
  conflict : ∀ other, Acceptable p options c uuid other key now →
    canonicalRequest p c other now ≠ .ok request →
    EmailService.create p options c uuid s other (some key) now =
      { store := s, result := .error keyConflict }

namespace EmailService

variable {p : Platform} {options : EmailServiceOptions} {c c' : Collaborators}
  {uuid uuid' : ℕ → String} {input : SendEmailInput} {key : String} {now later : ℕ}

/-- Where what follows the commit succeeds, the record of the commit is returned. -/
theorem afterCommit_eq_ok {record : EmailRecord} {created : DeliveryCommitResult}
    {result : CreateEmailResult} (h : (afterCommit c record created).2 = .ok result) :
    result = ⟨created.email, created.replayed⟩ := by
  have hpublish : ∀ published : Except Failure Unit,
      (published.map fun _ => CreateEmailResult.mk created.email created.replayed) = .ok result →
        result = ⟨created.email, created.replayed⟩ := by
    intro published hp
    cases published with
    | error e => cases hp
    | ok u => exact (Except.ok.inj hp).symm
  unfold afterCommit at h
  split_ifs at h
  · exact (Except.ok.inj h).symm
  · exact hpublish _ h
  · exact hpublish _ h
  · exact (Except.ok.inj h).symm

theorem create_eq_ok {s : MemoryStore} {key : Option String} {out : CreateOutcome}
    {result : CreateEmailResult} (h : create p options c uuid s input key now = out)
    (hr : out.result = .ok result) :
    ∃ d created, prepareDelivery p options c uuid input key now = .ok d ∧
      s.commitDelivery d (epochSeconds now) = .ok (out.store, created) ∧
      result = ⟨created.email, created.replayed⟩ := by
  subst h
  unfold create at hr ⊢
  split at hr
  · cases hr
  · rename_i d hd
    split at hr
    · cases hr
    · rename_i s' created hc
      refine ⟨d, created, hd, ?_, afterCommit_eq_ok hr⟩
      simp only [hc]

theorem create_of_commit_error {s : MemoryStore} {key : Option String} {d : DeliveryCommit}
    {e : Failure} (hd : prepareDelivery p options c uuid input key now = .ok d)
    (he : s.commitDelivery d (epochSeconds now) = .error e) :
    create p options c uuid s input key now = { store := s, result := .error e } := by
  rw [create, hd]
  simp only [he]

theorem create_of_replay {s : MemoryStore} {key : Option String} {d : DeliveryCommit}
    {r : DeliveryCommitResult} (hd : prepareDelivery p options c uuid input key now = .ok d)
    (hr : s.commitDelivery d (epochSeconds now) = .ok (s, r)) (hreplayed : r.replayed = true) :
    ∃ effects, create p options c uuid s input key now =
      { store := s, effects := effects, result := .ok ⟨r.email, true⟩ } := by
  rw [create, hd]
  simp only [hr, afterCommit, hreplayed, if_true]
  exact ⟨_, rfl⟩

/-- A date that has passed makes the preparation fail. -/
theorem scheduleAhead_of_prepared {emailId : String} {key : Option String}
    {prepared : PreparedEmail}
    (h : prepareEmail p options c emailId input key now = .ok prepared) :
    ScheduleAhead p input now := by
  obtain ⟨content, at_, _, _, _, hc, hat, -, -, -, -, -⟩ := prepareEmail_eq_ok.mp h
  obtain ⟨-, hschedule⟩ := resolveContent_fields hc
  refine fun text htext => (parseScheduledAt_later hat le_rfl).mp ⟨at_, hat, rfl⟩ _ ?_
  rw [hschedule, htext, Option.map_some]

end EmailService

open MemoryStore in
/-- **When a create is replayed**: let `create` accept an input under a key, let any operations
follow, and call it again before the claim expires, while the input's template and attachments
still resolve. The same input is answered with the same email and any other is refused exactly
when the input's schedule still lies ahead. -/
theorem create_replays_iff {p : Platform} {options : EmailServiceOptions} {c c' : Collaborators}
    {uuid uuid' : ℕ → String} {input : SendEmailInput} {key request : String} {now later : ℕ}
    {s₀ s₂ : MemoryStore} {first : CreateOutcome} {result : CreateEmailResult}
    {entry : IdempotencyEntry}
    (hreach : Relation.ReflTransGen (Operation (epochSeconds later)) {} s₀)
    (hcreate : EmailService.create p options c uuid s₀ input (some key) now = first)
    (hresult : first.result = .ok result)
    (hops : Relation.ReflTransGen (Operation (epochSeconds later)) first.store s₂)
    (hle : now ≤ later) (hkey : key ≠ "") (hu' : RandomIds uuid')
    (hentry : first.store.idempotency.get (p.sha256 key) = some entry)
    (hlive : epochSeconds later < entry.expiresAt)
    (hstill : StillResolvable c c' input later)
    (hrequest : canonicalRequest p c input now = .ok request)
    (hdigest : ∀ text, p.sha256 text = p.sha256 request → text = request) :
    Replays p options c' uuid' s₂ input key later result.record.id request ↔
      ScheduleAhead p input later := by
  obtain ⟨d, created, hd, hcommit, rfl⟩ := EmailService.create_eq_ok hcreate hresult
  obtain ⟨text, claim, htext, hclaim, hclaimKey, hclaimHash, hemailHash⟩ :=
    prepareDelivery_claim hd hkey
  obtain rfl : text = request := Except.ok.inj (htext.symm.trans hrequest)
  have hv : validateDeliveryCommit d (epochSeconds now) = .ok d := by
    obtain ⟨v, hv, -⟩ := bind_eq_ok.mp hcommit
    exact (validateDeliveryCommit_eq_ok hv).1 ▸ hv
  -- the claim of the first call is still there, and its delivery can be read
  have hreadable := (retains_of_operations readable_empty hreach).readable
  have hretains := retains_of_operations
    (hreadable.retains_commit hcommit (Nat.div_le_div_right hle)).readable hops
  obtain ⟨entry', hentry', hentryHash, hentryId, hmessage⟩ := hreadable.claimed hcommit hclaim
  rw [hclaimKey, hentry] at hentry'
  obtain rfl := Option.some.inj hentry'
  have hstored := hretains.claim _ _ hentry hlive
  obtain ⟨replay, hreplay, hreplayId, hreplayed⟩ :=
    hretains.readable.deliveryResult (hretains.message _ hmessage) true
  constructor
  · intro hreplays
    obtain ⟨effects, record, hcall, -⟩ := hreplays.replay
    obtain ⟨d', _, hd', -, -⟩ := EmailService.create_eq_ok hcall rfl
    obtain ⟨_, _, _, hp', -, -, -⟩ := prepareDelivery_eq_ok.mp hd'
    exact EmailService.scheduleAhead_of_prepared hp'
  · intro hahead
    refine ⟨?_, fun other hother hne => ?_⟩
    · obtain ⟨d', hd', hv', hclaim'⟩ := prepareDelivery_again hd hv hkey hu' hstill hle hahead
      have hcommit' := commitDelivery_live hv' hclaim' hstored hlive
      rw [if_neg (by rw [hentryHash, hclaimHash, hemailHash]; exact not_not.mpr rfl), hreplay]
        at hcommit'
      obtain ⟨effects, heffects⟩ := EmailService.create_of_replay hd' hcommit' hreplayed
      exact ⟨effects, _, heffects, hreplayId.trans hentryId⟩
    · obtain ⟨d', hd', hv'⟩ := hother
      obtain ⟨text', claim', htext', hclaim', hkey', hhash', -⟩ := prepareDelivery_claim hd' hkey
      have hcommit' := commitDelivery_live hv' hclaim' (by rw [hkey']; exact hstored) hlive
      refine EmailService.create_of_commit_error hd' (hcommit'.trans (if_pos ?_))
      -- the digests differ as the canonical requests do
      rw [hentryHash, hclaimHash, hhash']
      exact fun heq => hne (htext'.trans (congrArg _ (hdigest _ heq.symm)))

/-! ## A report on a date -/

/-- A report to be sent at the start of 2030. -/
def datedReport : SendEmailInput where
  from_ := some "reports@example.com"
  to_ := ["team@example.com"]
  subject := some "Report"
  text := some "All well."
  scheduledAt := some "2030-01-01T00:00:00Z"

def datedReportRequest : String :=
  "\x7b\"from\":\"reports@example.com\",\"scheduled_at\":\"2030-01-01T00:00:00Z\"," ++
    "\"subject\":\"Report\",\"text\":\"All well.\",\"to\":[\"team@example.com\"]\x7d"

/-- A platform that knows one date and whose digest tells one request from all other texts. -/
def samplePlatform : Platform where
  parseDate text := if text = "2030-01-01T00:00:00Z" then some 1893456000000 else none
  toLowerCase := String.toLower
  localeCompare a b := decide (a ≤ b)
  convertHtml html _ := html
  base64Length _ := none
  sha256 text := String.ofList (List.replicate 64 (if text = datedReportRequest then 'a' else 'b'))

def sampleOptions : EmailServiceOptions where
  provider := { name := "aws-ses", adapterVersion := "0.1.0", capabilityVersion := "1.0.0" }
  preCommitValidator _ _ := .ok ()

def sampleCollaborators : Collaborators where
  renderPublished := none
  attachmentUpload _ := none
  verifyAttachment _ := .ok ()
  suppressions := ∅
  publish _ := .ok ()

def sampleUuid (i : ℕ) : String :=
  String.ofList (List.replicate 30 '0' ++ [Nat.digitChar (i / 10), Nat.digitChar (i % 10)])

theorem digitChar_inj {a b : ℕ} (ha : a < 10) (hb : b < 10)
    (h : Nat.digitChar a = Nat.digitChar b) : a = b := by
  have hdigits : ∀ a < 10, ∀ b < 10, Nat.digitChar a = Nat.digitChar b → a = b := by decide
  exact hdigits a ha b hb h

theorem randomIds_sampleUuid : RandomIds sampleUuid := by
  refine ⟨fun i _ => by simp [sampleUuid], fun i hi c hc => Or.inl ?_, fun i hi j hj h => ?_⟩
  · rw [sampleUuid, String.toList_ofList, List.mem_append] at hc
    rcases hc with hc | hc
    · rw [List.eq_of_mem_replicate hc]
      rfl
    · simp only [List.mem_cons, List.not_mem_nil, or_false] at hc
      rcases hc with rfl | rfl <;> rw [Nat.isDigit_digitChar, decide_eq_true_eq] <;> omega
  · have hlist := List.append_cancel_left (String.ofList_injective h)
    simp only [List.cons.injEq, and_true] at hlist
    have htens := digitChar_inj (by omega) (by omega) hlist.1
    have hones := digitChar_inj (by omega) (by omega) hlist.2
    omega

/-- The report created ten seconds ahead of its date. -/
def firstReport : CreateOutcome :=
  EmailService.create samplePlatform sampleOptions sampleCollaborators sampleUuid {} datedReport
    (some "report-1") 1893455990000

theorem firstReport_result : ∃ result, firstReport.result = .ok result ∧
    result.record.id = createId "email" (sampleUuid 0) := by
  have h : firstReport.result.toOption.map (·.record.id) = some (createId "email" (sampleUuid 0)) := by
    decide +kernel
  obtain ⟨result, hresult, hid⟩ := Option.map_eq_some_iff.mp h
  exact ⟨result, toOption_eq_some.mp hresult, hid⟩

theorem firstReport_entry : ∃ entry,
    firstReport.store.idempotency.get (samplePlatform.sha256 "report-1") = some entry ∧
      1893456010 < entry.expiresAt := by
  have h : (firstReport.store.idempotency.get (samplePlatform.sha256 "report-1")).any
      (fun entry => decide (1893456010 < entry.expiresAt)) = true := by
    decide +kernel
  obtain ⟨entry, hentry, hl⟩ := (Option.any_eq_true _ _).mp h
  exact ⟨entry, hentry, of_decide_eq_true hl⟩

/-- Five seconds later, the same create is replayed. -/
theorem create_replays_sample : Replays samplePlatform sampleOptions sampleCollaborators sampleUuid
    firstReport.store datedReport "report-1" 1893455995000 (createId "email" (sampleUuid 0))
    datedReportRequest := by
  obtain ⟨result, hresult, hid⟩ := firstReport_result
  obtain ⟨entry, hentry, hlive⟩ := firstReport_entry
  have hread : readSchedule samplePlatform "2030-01-01T00:00:00Z" = .date (some 1893456000000) := by
    decide
  have hlive : epochSeconds 1893455995000 < entry.expiresAt :=
    lt_trans (by decide +kernel) hlive
  have hcreate : EmailService.create samplePlatform sampleOptions sampleCollaborators sampleUuid {}
      datedReport (some "report-1") 1893455990000 = firstReport := rfl
  have hlater : 1893455990000 ≤ 1893455995000 := by omega
  rw [← hid]
  refine (create_replays_iff .refl hcreate hresult .refl hlater (by decide) randomIds_sampleUuid
    hentry hlive ⟨fun _ ht => (by cases ht), fun _ _ => rfl, fun _ h => (by cases h)⟩
    (by decide +kernel) ?_).mpr ?_
  · intro text htext
    by_contra hne
    have hlist := String.ofList_injective htext
    rw [if_neg hne, if_pos rfl] at hlist
    revert hlist
    decide
  · intro text htext
    obtain rfl := Option.some.inj htext
    rw [hread]
    intro at_ hdate
    obtain rfl := Option.some.inj hdate
    decide

/-- Ten seconds after the date, the same create fails, although its claim is live. -/
theorem past_date_not_replayed : (∃ result, firstReport.result = .ok result) ∧
    (∃ entry, firstReport.store.idempotency.get (samplePlatform.sha256 "report-1") = some entry ∧
      epochSeconds 1893456010000 < entry.expiresAt) ∧
    EmailService.create samplePlatform sampleOptions sampleCollaborators sampleUuid
      firstReport.store datedReport (some "report-1") 1893456010000 =
        { store := firstReport.store
          result := .error (.validation "scheduled_at must be in the future.") } := by
  refine ⟨firstReport_result.imp fun _ h => h.1, firstReport_entry, ?_⟩
  have h : prepareDelivery samplePlatform sampleOptions sampleCollaborators sampleUuid datedReport
      (some "report-1") 1893456010000 =
        .error (.validation "scheduled_at must be in the future.") := by
    decide +kernel
  rw [EmailService.create, h]

end HayaSend
