import HayaSend.Foundations.Segments
import HayaSend.Services.RequestHashes

/-!
# Job envelopes

A job on its way through a queue, as JSON. A job without an id of its own is identified by the hash
of its canonical form, which the consumer computes again from what came back, with the members of
every object in the order in which the queue returns them. The envelope is accepted, with the job it
was made for, exactly where the job has its own id or its keys that the comparison does not tell
apart come back in their order (`roundTrips_iff`).
-/

namespace HayaSend

namespace Json

/-! ## Reading members -/

/-- A member of an object; `none` for `undefined`. -/
def memberAt : Json → String → Option Json
  | obj members, key => (members.find? (·.1 == key)).map (·.2)
  | _, _ => none

/-- `typeof value === "string"` -/
def asString : Json → Option String
  | str value => some value
  | _ => none

/-- `value !== null && typeof value === "object"` -/
def isObject : Json → Bool
  | arr _ | obj _ => true
  | _ => false

/-- A member that is a text. -/
def textMember (j : Json) (key : String) : Option String := (j.memberAt key).bind asString

/-- A member that is undefined or a text. -/
def optionalText (j : Json) (key : String) : Bool := (j.memberAt key).all (·.asString.isSome)

section Alike

variable {related : List String → List String → Prop} {v w : Json}

theorem mem_of_member {members : List (String × Json)} {key : String} {a : Json}
    (h : (obj members).memberAt key = some a) : (key, a) ∈ members := by
  obtain ⟨⟨found, b⟩, hfind, rfl⟩ := Option.map_eq_some_iff.mp h
  have hkey := List.find?_some hfind
  obtain rfl : found = key := beq_iff_eq.mp hkey
  exact List.mem_of_find?_eq_some hfind

theorem member_isSome_iff {members : List (String × Json)} {key : String} :
    ((obj members).memberAt key).isSome ↔ key ∈ members.map Prod.fst := by
  rw [memberAt, Option.isSome_map, List.find?_isSome, List.mem_map]
  simp

theorem Valid.of_member {key : String} {a : Json} (h : Valid v) (ha : v.memberAt key = some a) :
    Valid a := by
  cases h with
  | obj _ hmembers => exact hmembers _ (mem_of_member ha)
  | _ => cases ha

/-- Members of values that are alike. -/
theorem Alike.member (h : Alike related v w) (key : String) :
    (v.memberAt key = none ∧ w.memberAt key = none) ∨
      ∃ a b, v.memberAt key = some a ∧ w.memberAt key = some b ∧ Alike related a b := by
  cases h with
  | @obj members members' hkeys _ hmembers =>
    have hiff : ((Json.obj members).memberAt key).isSome ↔
        ((Json.obj members').memberAt key).isSome := by
      rw [member_isSome_iff, member_isSome_iff, hkeys.mem_iff]
    cases ha : (Json.obj members).memberAt key with
    | none =>
      rw [ha] at hiff
      exact .inl ⟨rfl, Option.not_isSome_iff_eq_none.mp fun hb => nomatch hiff.mpr hb⟩
    | some a =>
      rw [ha] at hiff
      obtain ⟨b, hb⟩ := Option.isSome_iff_exists.mp (hiff.mp rfl)
      exact .inr ⟨a, b, rfl, hb, hmembers key a b (mem_of_member ha) (mem_of_member hb)⟩
  | _ => exact .inl ⟨rfl, rfl⟩

theorem Alike.asString_eq (h : Alike related v w) : v.asString = w.asString := by
  cases h <;> rfl

theorem Alike.isObject_eq (h : Alike related v w) : v.isObject = w.isObject := by
  cases h <;> rfl

theorem Alike.textMember_eq (h : Alike related v w) (key : String) :
    v.textMember key = w.textMember key := by
  rw [textMember, textMember]
  obtain ⟨hv, hw⟩ | ⟨a, b, hv, hw, hab⟩ := h.member key
  · rw [hv, hw]
  · rw [hv, hw, Option.bind_some, Option.bind_some, hab.asString_eq]

theorem Alike.optionalText_eq (h : Alike related v w) (key : String) :
    v.optionalText key = w.optionalText key := by
  rw [optionalText, optionalText]
  obtain ⟨hv, hw⟩ | ⟨a, b, hv, hw, hab⟩ := h.member key
  · rw [hv, hw]
  · rw [hv, hw, Option.all_some, Option.all_some, hab.asString_eq]

end Alike

end Json

namespace JobEnvelopes

open Json

/-! ## Identities -/

def maxJobEnvelopeBytes : ℕ := 128000
def maxJobIdBytes : ℕ := 2048

/-- `type.replaceAll("_", "-")` -/
def dashed (type : String) : String :=
  String.ofList (type.toList.map fun c => if c = '_' then '-' else c)

def isJob (value : Json) : Bool :=
  match value.textMember "type" with
  | some "send_email" => (value.textMember "email_id").isSome && value.optionalText "job_id"
  | some "reconcile_outbox" => value.optionalText "outbox_id"
  | some "publish_received_email" => (value.textMember "email_id").isSome
  | some "deliver_webhook" => (value.textMember "webhook_id").isSome &&
      value.optionalText "delivery_id" && (value.memberAt "event").any isObject
  | _ => false

/-- The id that a job brings. -/
def suppliedId (job : Json) : Option String :=
  match job.textMember "type" with
  | some "send_email" => job.textMember "job_id"
  | some "reconcile_outbox" => job.textMember "outbox_id"
  | some "deliver_webhook" => job.textMember "delivery_id"
  | _ => none

def jobIdentity (p : Platform) (job : Json) : String :=
  "job:v1:" ++ dashed ((job.textMember "type").getD "") ++ ":" ++
    (suppliedId job).getD (requestHash p job)

/-! ## Envelopes -/

/-- `createJobEnvelope`, at the time `now`. -/
def createJobEnvelope (p : Platform) (job : Json) (now : ℕ) : Except Failure Json := do
  let id := jobIdentity p job
  let envelope := obj [("schema_version", str "1.0.0"), ("id", str id),
    ("created_at", str (toISOString now)), ("job", job)]
  throwIf (maxJobIdBytes < id.utf8ByteSize) (.error "Queue job IDs must not exceed 2048 bytes.")
  throwIf (maxJobEnvelopeBytes < envelope.stringify.utf8ByteSize)
    (.error "Queue messages must not exceed 128000 bytes.")
  return envelope

/-- The checks of `parseJobEnvelope` on the fields. -/
def isDeterministicJob (p : Platform) (envelope : Json) : Bool :=
  match envelope.textMember "id", envelope.textMember "created_at", envelope.memberAt "job" with
  | some id, some createdAt, some job =>
    envelope.textMember "schema_version" == some "1.0.0" && decide (id.utf8ByteSize ≤ maxJobIdBytes) &&
      (p.parseDate createdAt).isSome && isJob job && id == jobIdentity p job
  | _, _, _ => false

def parseJobEnvelope (p : Platform) (value : Json) : Except Failure Json := do
  throwIf (!value.isObject) (.error "Queue payload is not an object.")
  throwIf (!isDeterministicJob p value)
    (.error "Queue payload is not a valid deterministic job.")
  throwIf (maxJobEnvelopeBytes < value.stringify.utf8ByteSize)
    (.error "Queue messages must not exceed 128000 bytes.")
  return value

/-! ## What stays when members are reordered -/

section Alike

variable {related : List String → List String → Prop} {job job' : Json}

theorem isJob_eq (h : Alike related job job') : isJob job = isJob job' := by
  have hevent : (job.memberAt "event").any isObject = (job'.memberAt "event").any isObject := by
    obtain ⟨hv, hw⟩ | ⟨a, b, hv, hw, hab⟩ := h.member "event"
    · rw [hv, hw]
    · rw [hv, hw, Option.any_some, Option.any_some, hab.isObject_eq]
  simp only [isJob, h.textMember_eq, h.optionalText_eq, hevent]

theorem suppliedId_eq (h : Alike related job job') : suppliedId job = suppliedId job' := by
  simp only [suppliedId, h.textMember_eq]

end Alike

variable {p : Platform} {job job' envelope returned value : Json} {now : ℕ}

/-- The job keeps its identity: it has its own id, or its keys that the comparison does not tell
apart come in one order. -/
def KeepsIdentity (p : Platform) (job job' : Json) : Prop :=
  suppliedId job ≠ none ∨ Alike (TiesKept p.localeCompare) job job'

/-- A job and its reordered copy have one identity exactly when it keeps it. -/
theorem jobIdentity_eq_iff (hlocale : KeyPreorder p.localeCompare)
    (hsha256 : Function.Injective p.sha256) (hv : job.Valid) (hv' : job'.Valid)
    (hsame : job.EqualUpToOrder job') :
    jobIdentity p job = jobIdentity p job' ↔ KeepsIdentity p job job' := by
  have htype : job.textMember "type" = job'.textMember "type" := Alike.textMember_eq hsame _
  have hsupplied : suppliedId job = suppliedId job' := suppliedId_eq hsame
  rw [jobIdentity, jobIdentity, ← htype, ← hsupplied, String.append_right_inj, KeepsIdentity]
  cases suppliedId job with
  | some id => simp
  | none =>
    rw [Option.getD_none, Option.getD_none, ← canonicalize_eq_iff hlocale hv hv']
    simp only [ne_eq, not_true_eq_false, false_or]
    exact ⟨fun h => eq_of_stringify hv.canonicalize hv'.canonicalize (hsha256 h), fun h => by
      rw [requestHash, requestHash, canonicalText, canonicalText, h]⟩

/-! ## Round trips -/

theorem createJobEnvelope_eq_ok (h : createJobEnvelope p job now = .ok envelope) :
    envelope = obj [("schema_version", str "1.0.0"), ("id", str (jobIdentity p job)),
      ("created_at", str (toISOString now)), ("job", job)] ∧
    (jobIdentity p job).utf8ByteSize ≤ maxJobIdBytes ∧
    envelope.stringify.utf8ByteSize ≤ maxJobEnvelopeBytes := by
  obtain ⟨_, hid, h⟩ := bind_eq_ok.mp h
  obtain ⟨_, hsize, h⟩ := bind_eq_ok.mp h
  obtain rfl := (pure_eq_ok _ _).mp h
  exact ⟨rfl, not_lt.mp (of_decide_eq_false (throwIf_eq_ok.mp hid)),
    not_lt.mp (of_decide_eq_false (throwIf_eq_ok.mp hsize))⟩

theorem parseJobEnvelope_eq_ok : parseJobEnvelope p value = .ok envelope ↔
    value = envelope ∧ value.isObject = true ∧ isDeterministicJob p value = true ∧
      value.stringify.utf8ByteSize ≤ maxJobEnvelopeBytes := by
  rw [parseJobEnvelope]
  constructor
  · intro h
    obtain ⟨_, hobject, h⟩ := bind_eq_ok.mp h
    obtain ⟨_, hvalid, h⟩ := bind_eq_ok.mp h
    obtain ⟨_, hsize, h⟩ := bind_eq_ok.mp h
    have hobject : (!value.isObject) = false := throwIf_eq_ok.mp hobject
    have hvalid : (!isDeterministicJob p value) = false := throwIf_eq_ok.mp hvalid
    exact ⟨(pure_eq_ok _ _).mp h, by simpa using hobject, by simpa using hvalid,
      not_lt.mp (of_decide_eq_false (throwIf_eq_ok.mp hsize))⟩
  · rintro ⟨rfl, hobject, hvalid, hsize⟩
    refine bind_eq_ok.mpr ⟨(), throwIf_eq_ok.mpr ?_, bind_eq_ok.mpr ⟨(), throwIf_eq_ok.mpr ?_,
      bind_eq_ok.mpr ⟨(), throwIf_eq_ok.mpr ?_, rfl⟩⟩⟩
    · rw [hobject]
      rfl
    · rw [hvalid]
      rfl
    · exact decide_eq_false hsize.not_gt

theorem isDeterministicJob_iff : isDeterministicJob p value = true ↔
    ∃ id createdAt job, value.textMember "id" = some id ∧
      value.textMember "created_at" = some createdAt ∧ value.memberAt "job" = some job ∧
      value.textMember "schema_version" = some "1.0.0" ∧ id.utf8ByteSize ≤ maxJobIdBytes ∧
      (p.parseDate createdAt).isSome ∧ isJob job = true ∧ id = jobIdentity p job := by
  rw [isDeterministicJob]
  cases value.textMember "id" with
  | none => simp
  | some id =>
    cases value.textMember "created_at" with
    | none => simp
    | some createdAt =>
      cases value.memberAt "job" with
      | none => simp
      | some job =>
        simp only [Bool.and_eq_true, beq_iff_eq, decide_eq_true_eq, and_assoc]
        constructor
        · exact fun h => ⟨id, createdAt, job, rfl, rfl, rfl, h⟩
        · rintro ⟨_, _, _, ⟨⟩, ⟨⟩, ⟨⟩, h⟩
          exact h

theorem valid_envelope {id createdAt : String} (hv : job.Valid) :
    (obj [("schema_version", str "1.0.0"), ("id", str id), ("created_at", str createdAt),
      ("job", job)]).Valid := by
  have hkeys : ["schema_version", "id", "created_at", "job"].Nodup := by decide
  refine .obj hkeys fun member hmember => ?_
  simp only [List.mem_cons, List.not_mem_nil, or_false] at hmember
  rcases hmember with rfl | rfl | rfl | rfl
  · exact .str _
  · exact .str _
  · exact .str _
  · exact hv

/-- The job of an envelope. -/
def jobOf (envelope : Json) : Json := (envelope.memberAt "job").getD null

/-- What comes back is accepted, with the id, the time and the job of the envelope. -/
structure RoundTrips (p : Platform) (envelope returned : Json) : Prop where
  accepted : parseJobEnvelope p returned = .ok returned
  id : returned.textMember "id" = envelope.textMember "id"
  createdAt : returned.textMember "created_at" = envelope.textMember "created_at"
  job : (jobOf envelope).EqualUpToOrder (jobOf returned)

/-- **When a job survives its queue**: exactly when it keeps its identity. -/
theorem roundTrips_iff (hlocale : KeyPreorder p.localeCompare)
    (hsha256 : Function.Injective p.sha256) (hdate : (p.parseDate (toISOString now)).isSome)
    (hjob : isJob job = true) (hv : job.Valid) (hv' : returned.Valid)
    (hcreated : createJobEnvelope p job now = .ok envelope)
    (hreturned : envelope.EqualUpToOrder returned) :
    RoundTrips p envelope returned ↔ KeepsIdentity p job (jobOf returned) := by
  obtain ⟨rfl, hid, hsize⟩ := createJobEnvelope_eq_ok hcreated
  have htext (key : String) := (Alike.textMember_eq hreturned key).symm
  obtain ⟨job', hjob', hsame⟩ : ∃ job', returned.memberAt "job" = some job' ∧
      job.EqualUpToOrder job' := by
    obtain ⟨hnone, -⟩ | ⟨a, b, ha, hb, hab⟩ := Alike.member hreturned "job"
    · cases hnone
    · obtain rfl := Option.some.inj ha
      exact ⟨b, hb, hab⟩
  have hreturnedJob : jobOf returned = job' := by
    rw [jobOf, hjob', Option.getD_some]
  have hvjob' : job'.Valid := hv'.of_member hjob'
  rw [hreturnedJob, ← jobIdentity_eq_iff hlocale hsha256 hv hvjob' hsame]
  constructor
  · intro h
    obtain ⟨-, -, hvalid, -⟩ := parseJobEnvelope_eq_ok.mp h.accepted
    obtain ⟨id, createdAt, found, hid', -, hfound, -, -, -, -, hidentity⟩ :=
      isDeterministicJob_iff.mp hvalid
    obtain rfl := Option.some.inj (hjob'.symm.trans hfound)
    rw [htext] at hid'
    exact (Option.some.inj hid').trans hidentity
  · intro hidentity
    refine ⟨parseJobEnvelope_eq_ok.mpr ⟨rfl, ?_, ?_, ?_⟩, htext "id", htext "created_at", ?_⟩
    · exact (Alike.isObject_eq hreturned).symm
    · refine isDeterministicJob_iff.mpr ⟨jobIdentity p job, toISOString now, job', ?_, ?_, hjob', ?_,
        hid, hdate, (isJob_eq hsame).symm.trans hjob, hidentity⟩
      · rw [htext]
        rfl
      · rw [htext]
        rfl
      · rw [htext]
        rfl
    · rwa [← hreturned.utf8ByteSize_stringify (valid_envelope hv)]
    · rw [hreturnedJob]
      exact hsame

/-! ## Ids and types -/

/-- An envelope: created for a job, or accepted. -/
def IsEnvelope (p : Platform) (envelope : Json) : Prop :=
  (∃ job now, isJob job = true ∧ createJobEnvelope p job now = .ok envelope) ∨
    parseJobEnvelope p envelope = .ok envelope

/-- An envelope has the identity of its job, within the limits. -/
theorem IsEnvelope.identity (h : IsEnvelope p envelope) :
    isJob (jobOf envelope) = true ∧
      envelope.textMember "id" = some (jobIdentity p (jobOf envelope)) ∧
      (jobIdentity p (jobOf envelope)).utf8ByteSize ≤ maxJobIdBytes ∧
      envelope.stringify.utf8ByteSize ≤ maxJobEnvelopeBytes := by
  obtain ⟨job, now, hjob, hcreated⟩ | hparsed := h
  · obtain ⟨rfl, hid, hsize⟩ := createJobEnvelope_eq_ok hcreated
    exact ⟨hjob, rfl, hid, hsize⟩
  · obtain ⟨-, -, hvalid, hsize⟩ := parseJobEnvelope_eq_ok.mp hparsed
    obtain ⟨id, createdAt, job, hid, -, hjob, -, hbytes, -, hisJob, rfl⟩ :=
      isDeterministicJob_iff.mp hvalid
    rw [jobOf, hjob, Option.getD_some]
    exact ⟨hisJob, hid, hbytes, hsize⟩

/-- The types of jobs. -/
def jobTypes : List String :=
  ["send_email", "reconcile_outbox", "publish_received_email", "deliver_webhook"]

theorem mem_jobTypes {job : Json} (h : isJob job = true) :
    ∃ type ∈ jobTypes, job.textMember "type" = some type := by
  rw [isJob] at h
  split at h
  · exact ⟨"send_email", by decide, ‹_›⟩
  · exact ⟨"reconcile_outbox", by decide, ‹_›⟩
  · exact ⟨"publish_received_email", by decide, ‹_›⟩
  · exact ⟨"deliver_webhook", by decide, ‹_›⟩
  · cases h

/-- An identity says the type of its job. -/
theorem type_eq_of_jobIdentity (h : isJob job = true) (h' : isJob job' = true)
    (heq : jobIdentity p job = jobIdentity p job') :
    job.textMember "type" = job'.textMember "type" := by
  obtain ⟨type, htype, hjob⟩ := mem_jobTypes h
  obtain ⟨type', htype', hjob'⟩ := mem_jobTypes h'
  rw [jobIdentity, jobIdentity, hjob, hjob', Option.getD_some, Option.getD_some] at heq
  have hchars := congrArg String.toList heq
  simp only [String.toList_append, List.append_assoc] at hchars
  have hcolon : ∀ type ∈ jobTypes, ':' ∉ (dashed type).toList := by decide
  have hdashed : ∀ type ∈ jobTypes, ∀ type' ∈ jobTypes,
      (dashed type).toList = (dashed type').toList → type = type' := by decide
  rw [hjob, hjob', hdashed type htype type' htype' (append_sep_inj_left (hcolon type htype)
    (hcolon type' htype') (List.append_cancel_left hchars)).1]

/-- What was accepted, and was made again for its job, has the same id. -/
theorem id_eq_of_recreated (h : parseJobEnvelope p value = .ok value) {envelope : Json} {now : ℕ}
    (hcreated : createJobEnvelope p (jobOf value) now = .ok envelope) :
    envelope.textMember "id" = value.textMember "id" := by
  obtain ⟨-, hid, -⟩ := IsEnvelope.identity (.inr h)
  obtain ⟨rfl, -⟩ := createJobEnvelope_eq_ok hcreated
  exact hid.symm

/-- **Job envelopes**: what comes back of an envelope, with its members in any order, is accepted as
the same job exactly when the job keeps its identity; an id has one type; and what is accepted has
the identity of its job, within the limits, and keeps it when it is made again. -/
theorem job_envelopes (hlocale : KeyPreorder p.localeCompare)
    (hsha256 : Function.Injective p.sha256) :
    (∀ (job : JsonValue) (now : ℕ) (envelope returned : Json), isJob job.defined = true →
      job.defined.Valid → returned.Valid → (p.parseDate (toISOString now)).isSome →
      createJobEnvelope p job.defined now = .ok envelope → envelope.EqualUpToOrder returned →
      (RoundTrips p envelope returned ↔ KeepsIdentity p job.defined (jobOf returned))) ∧
    (∀ envelope envelope', IsEnvelope p envelope → IsEnvelope p envelope' →
      envelope.textMember "id" = envelope'.textMember "id" →
      (jobOf envelope).textMember "type" = (jobOf envelope').textMember "type") ∧
    ∀ value parsed, parseJobEnvelope p value = .ok parsed → parsed = value ∧
      value.textMember "id" = some (jobIdentity p (jobOf value)) ∧
      (jobIdentity p (jobOf value)).utf8ByteSize ≤ maxJobIdBytes ∧
      value.stringify.utf8ByteSize ≤ maxJobEnvelopeBytes ∧
      ∀ now envelope, createJobEnvelope p (jobOf value) now = .ok envelope →
        envelope.textMember "id" = value.textMember "id" := by
  refine ⟨?_, ?_, ?_⟩
  · intro job now envelope returned hjob hv hv' hdate hcreated hreturned
    exact roundTrips_iff hlocale hsha256 hdate hjob hv hv' hcreated hreturned
  · intro envelope envelope' h h' hid
    obtain ⟨hjob, hidentity, -⟩ := h.identity
    obtain ⟨hjob', hidentity', -⟩ := h'.identity
    rw [hidentity, hidentity'] at hid
    exact type_eq_of_jobIdentity hjob hjob' (Option.some.inj hid)
  · intro value parsed h
    obtain ⟨rfl, -⟩ := parseJobEnvelope_eq_ok.mp h
    obtain ⟨-, hid, hbytes, hsize⟩ := IsEnvelope.identity (.inr h)
    exact ⟨rfl, hid, hbytes, hsize, fun now envelope => id_eq_of_recreated h⟩

/-! ## A delivery without an id -/

/-- A platform that reads one date and compares keys as they are decomposed. -/
def datedPlatform : Platform :=
  { decomposingPlatform with
    parseDate := fun text => if text = "2030-01-01T00:00:00.000Z" then some 1893456000000 else none }

/-- An envelope of the first of 2030. -/
def envelopeAt (p : Platform) (job returned : Json) : Json :=
  obj ([("schema_version", str "1.0.0"), ("id", str (jobIdentity p job)),
    ("created_at", str "2030-01-01T00:00:00.000Z")] ++ [("job", returned)])

theorem createJobEnvelope_of_le (hid : (jobIdentity p job).utf8ByteSize ≤ maxJobIdBytes)
    (hsize : (envelopeAt p job job).stringify.utf8ByteSize ≤ maxJobEnvelopeBytes) :
    createJobEnvelope p job 1893456000000 = .ok (envelopeAt p job job) := by
  have hdate : toISOString 1893456000000 = "2030-01-01T00:00:00.000Z" := by decide +kernel
  rw [createJobEnvelope, hdate]
  exact bind_eq_ok.mpr ⟨(), throwIf_eq_ok.mpr (decide_eq_false hid.not_gt),
    bind_eq_ok.mpr ⟨(), throwIf_eq_ok.mpr (decide_eq_false hsize.not_gt), rfl⟩⟩

theorem equal_envelopeAt (hv : job.Valid) (h : job.EqualUpToOrder job') :
    (envelopeAt p job job).EqualUpToOrder (envelopeAt p job job') :=
  EqualUpToOrder.of_last (valid_envelope hv) h

/-- A job whose fields are texts. -/
def textJob (fields : List (String × String)) : JsonValue :=
  .obj (fields.map fun field => (field.1, some (.str field.2)))

/-- A job with its own id comes back in another order. -/
theorem job_envelopes_outbox :
    RoundTrips datedPlatform
      (envelopeAt datedPlatform
        (textJob [("type", "reconcile_outbox"), ("outbox_id", "out_1")]).defined
        (textJob [("type", "reconcile_outbox"), ("outbox_id", "out_1")]).defined)
      (envelopeAt datedPlatform
        (textJob [("type", "reconcile_outbox"), ("outbox_id", "out_1")]).defined
        (textJob [("outbox_id", "out_1"), ("type", "reconcile_outbox")]).defined) := by
  have hlocale : KeyPreorder datedPlatform.localeCompare := keyPreorder_decomposing
  have hn : ([("type", "reconcile_outbox"), ("outbox_id", "out_1")].map Prod.fst).Nodup := by decide
  have hn' : ([("outbox_id", "out_1"), ("type", "reconcile_outbox")].map Prod.fst).Nodup := by
    decide
  have hsame : (textJob [("type", "reconcile_outbox"), ("outbox_id", "out_1")]).defined.EqualUpToOrder
      (textJob [("outbox_id", "out_1"), ("type", "reconcile_outbox")]).defined :=
    EqualUpToOrder.of_perm (valid_headers hn) (List.Perm.swap _ _ [])
  have hv : (textJob [("type", "reconcile_outbox"), ("outbox_id", "out_1")]).defined.Valid :=
    valid_headers hn
  have hv' : (textJob [("outbox_id", "out_1"), ("type", "reconcile_outbox")]).defined.Valid :=
    valid_headers hn'
  refine ((job_envelopes hlocale Function.injective_id).1
    (textJob [("type", "reconcile_outbox"), ("outbox_id", "out_1")]) 1893456000000 _ _ ?_ hv
    (valid_envelope hv') ?_ (createJobEnvelope_of_le ?_ ?_) (equal_envelopeAt hv hsame)).mpr
    (.inl ?_)
  · decide +kernel
  · decide +kernel
  · decide +kernel
  · decide +kernel
  · decide +kernel

/-- The delivery of an event with these data. -/
def webhookJob (data : List (String × String)) : Json :=
  obj ([("type", str "deliver_webhook"), ("webhook_id", str "wh_1")] ++
    [("event", obj (data.map fun entry => (entry.1, str entry.2)))])

theorem valid_webhookJob {data : List (String × String)} (hn : (data.map Prod.fst).Nodup) :
    (webhookJob data).Valid := by
  have hkeys : ["type", "webhook_id", "event"].Nodup := by decide
  refine .obj hkeys fun member hmember => ?_
  simp only [List.mem_append, List.mem_cons, List.not_mem_nil, or_false] at hmember
  rcases hmember with (rfl | rfl) | rfl
  · exact .str _
  · exact .str _
  · exact valid_headers hn

/-- **A delivery without an id** is refused when two spellings of a key come back in another
order. -/
theorem equivalent_keys_refused :
    ∃ envelope returned, isJob (webhookJob [("\u00E9", "1"), ("e\u0301", "2")]) = true ∧
      createJobEnvelope datedPlatform (webhookJob [("\u00E9", "1"), ("e\u0301", "2")])
        1893456000000 = .ok envelope ∧
      envelope.EqualUpToOrder returned ∧ ¬RoundTrips datedPlatform envelope returned := by
  have hdata : ([("\u00E9", "1"), ("e\u0301", "2")].map Prod.fst).Nodup := by decide
  have hsame : (webhookJob [("\u00E9", "1"), ("e\u0301", "2")]).EqualUpToOrder
      (webhookJob [("e\u0301", "2"), ("\u00E9", "1")]) :=
    EqualUpToOrder.of_last (valid_webhookJob hdata)
      (EqualUpToOrder.of_perm (valid_headers hdata) (List.Perm.swap _ _ []))
  refine ⟨_, _, by decide +kernel,
    createJobEnvelope_of_le (by decide +kernel) (by decide +kernel),
    equal_envelopeAt (valid_webhookJob hdata) hsame, fun h => ?_⟩
  have hvalid := (parseJobEnvelope_eq_ok.mp h.accepted).2.2.1
  exact absurd hvalid (by decide +kernel)

end JobEnvelopes

end HayaSend
