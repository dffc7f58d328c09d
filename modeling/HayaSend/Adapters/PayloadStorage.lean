import HayaSend.Adapters.LedgerRows
import HayaSend.Foundations.TransitionSystem
import HayaSend.Services.EmailIntake

/-!
# Email payloads in R2

`D1DeliveryStore` keeps the content of an email as an object of its own, which the row of the email
names. The object is stored before the row, so one may be left over; a scheduled sweep deletes the
objects that no row names. It reads the rows, takes the time and lists the objects one after the
other, while emails are stored and rows rewritten. As long as a row is committed within half the
retention of its upload, and a sweep takes no longer than that, it deletes no object that a row
names, or comes to name (`sweep_keeps_payloads`).
-/

namespace HayaSend

/-! ## Objects -/

inductive ManagedKind
  | attachment
  | emailPayload
  deriving DecidableEq, Repr

/-- An object of the bucket: its size, the metadata the storage writes, of which the retention is
`none` when it is absent or no date, and the time of its upload. -/
structure R2Object where
  size : ℕ
  isManaged : Bool
  kind : Option ManagedKind
  sha256 : String
  retainUntil : Option ℕ
  uploaded : ℕ
  deriving DecidableEq, Repr

structure R2PayloadStorageOptions where
  maxPayloadBytes : ℕ := 25 * 1024 * 1024
  orphanRetentionSeconds : ℕ := 24 * 60 * 60
  deriving DecidableEq, Repr

/-- The retention in milliseconds. -/
def R2PayloadStorageOptions.retention (options : R2PayloadStorageOptions) : ℕ :=
  options.orphanRetentionSeconds * 1000

structure PutManagedObject where
  key : String
  size : ℕ
  kind : ManagedKind
  retainUntil : ℕ
  checksumSha256 : String
  deriving DecidableEq, Repr

/-- `putManagedObject`. An object that is stored is never written over. -/
def putManagedObject (options : R2PayloadStorageOptions) (bucket : OrderedMap String R2Object)
    (now : ℕ) (input : PutManagedObject) : Except Failure (OrderedMap String R2Object) :=
  if options.maxPayloadBytes < input.size then
    .error (.validation ("Cloudflare payloads must not exceed " ++
      toString options.maxPayloadBytes ++ " bytes."))
  else match bucket.get input.key with
    | none => .ok (bucket.set input.key {
        size := input.size
        isManaged := true
        kind := some input.kind
        sha256 := input.checksumSha256
        retainUntil := some input.retainUntil
        uploaded := now })
    | some existing =>
      if existing.size ≠ input.size ∨ existing.sha256 ≠ input.checksumSha256 then
        .error (.conflict ("R2 object " ++ input.key ++ " already exists with different content."))
      else .ok bucket

/-- The object of an email, from the text of its payload and the `randomUUID` of its key. -/
def payloadObject (p : Platform) (options : R2PayloadStorageOptions) (record : EmailRecord)
    (payload uuid : String) : PutManagedObject where
  key := "emails/" ++ record.id ++ "/" ++ uuid ++ ".json"
  size := payload.utf8ByteSize
  kind := .emailPayload
  retainUntil := record.createdAt + options.retention
  checksumSha256 := p.sha256 payload

/-- The object of an upload of an attachment. -/
def attachmentObject (record : AttachmentUploadRecord) : PutManagedObject where
  key := record.objectKey
  size := record.sizeBytes
  kind := .attachment
  retainUntil := record.expiresAt
  checksumSha256 := record.checksumSha256

/-- `metadataRecord` -/
def metadataRecord (record : EmailRecord) (key : String) : EmailRecord :=
  { record with payloadRef := some key }

/-- `externalizeEmail` -/
def externalizeEmail (p : Platform) (options : R2PayloadStorageOptions)
    (bucket : OrderedMap String R2Object) (now : ℕ) (record : EmailRecord) (payload uuid : String) :
    Except Failure (OrderedMap String R2Object × EmailRecord) := do
  let object := payloadObject p options record payload uuid
  let bucket ← putManagedObject options bucket now object
  return (bucket, metadataRecord record object.key)

/-- The condition of `sweepOrphans` on an object. -/
def isOrphan (options : R2PayloadStorageOptions) (referencedKeys : List String) (now : ℕ)
    (key : String) (object : R2Object) : Bool :=
  object.isManaged && !referencedKeys.contains key && object.uploaded + options.retention ≤ now &&
    object.retainUntil.all (· ≤ now)

/-- The keys a sweep deletes, of those on the page it lists. -/
def orphansOf (options : R2PayloadStorageOptions) (bucket : OrderedMap String R2Object)
    (referencedKeys : List String) (now : ℕ) (page : List String) : List String :=
  page.filter fun key => (bucket.get key).any (isOrphan options referencedKeys now key)

/-! ## The rows of the emails -/

/-- `listReferencedPayloadKeys` -/
def listReferencedPayloadKeys (emails : OrderedMap String EmailRecord) : List String :=
  emails.values.filterMap (·.payloadRef)

/-- The rows of a message that a ledger operation reads beside that of the email. -/
structure LedgerRest where
  message : MessageRecord
  recipients : List RecipientRecord
  attempts : List AttemptRecord
  deriving DecidableEq, Repr

/-- What rewrites the row of an email after reading it. -/
inductive EmailWrite
  | claim (attempt now : ℕ)
  | update (updates : EmailUpdates) (fromStatuses : Option (List EmailStatus))
  | reschedule (scheduledAt now : ℕ)
  | ledger (request : LedgerRequest) (rest : LedgerRest)
  | providerEvent (event : ProviderEventRecord) (rest : LedgerRest)

namespace EmailWrite

/-- The row a writer makes of the one it read, if it writes. -/
def next (current : EmailRecord) : EmailWrite → Option EmailRecord
  | claim attempt now =>
    if current.claimable now then
      some (current.claimed (StoreKind.d1.claimCounter attempt current.attempts) now)
    else none
  | update updates fromStatuses =>
    if current.updatable fromStatuses then some (updates.applyTo current) else none
  | reschedule scheduledAt now =>
    if current.status.isPending then some (current.rescheduled scheduledAt now) else none
  | ledger request rest =>
    match request.plan ⟨current, rest.message, rest.recipients, rest.attempts⟩ with
    | .ok (some write) => some write.plan.email
    | .ok none | .error _ => none
  | providerEvent event rest =>
    match planProviderEvent ⟨current, rest.message, rest.recipients, rest.attempts⟩ event with
    | .ok (plan, _) => some plan.email
    | .error _ => none

/-- A claim, an update and a reschedule write over the row they read; a ledger batch is guarded by
the revision of the ledger instead. -/
def isConditional : EmailWrite → Bool
  | claim _ _ | update _ _ | reschedule _ _ => true
  | ledger _ _ | providerEvent _ _ => false

/-- The `UPDATE emails` of a writer. -/
def run (emails : OrderedMap String EmailRecord) (current : EmailRecord) (write : EmailWrite) :
    OrderedMap String EmailRecord :=
  match write.next current with
  | none => emails
  | some updated =>
    emails.updateWhere
      (fun id row => id == updated.id && (!write.isConditional || row == current)) fun _ => updated

end EmailWrite

/-! ## Runs -/

/-- An email whose payload was uploaded, and the time of the upload. -/
structure PendingEmail where
  email : EmailRecord
  uploaded : ℕ
  deriving DecidableEq, Repr

/-- Where a sweep stands after it read the rows: before it takes the time, before it lists the
objects, and while it deletes. -/
inductive SweepStage
  | read
  | timed (now : ℕ)
  | deleting (keys : List String)
  deriving DecidableEq, Repr

structure OrphanSweep where
  referencedKeys : List String
  readAt : ℕ
  stage : SweepStage := .read
  deriving DecidableEq, Repr

/-- The clock in milliseconds, the bucket and the rows of the emails; the emails that may be
committed, the rows that have been read, the sweeps, and the keys under which an object was ever
stored. -/
structure PayloadWorld where
  clock : ℕ := 0
  bucket : OrderedMap String R2Object := ∅
  emails : OrderedMap String EmailRecord := ∅
  pending : List PendingEmail := []
  rows : List EmailRecord := []
  sweeps : List OrphanSweep := []
  stored : List String := []

inductive PayloadLabel
  | clock (now : ℕ)
  | uploadEmail (record : EmailRecord) (payload uuid : String)
  | uploadAttachment (record : AttachmentUploadRecord)
  /-- The batch of `commitDelivery` is run. One that fails, or that a replay makes needless, leaves
  everything as it is. -/
  | commit (pending : ℕ)
  | readRow (id : String)
  | writeRow (row : ℕ) (write : EmailWrite)
  | readReferences
  | takeTime (sweep : ℕ)
  | list (sweep : ℕ) (page : List String)
  /-- The next object of a sweep is deleted. -/
  | deleteNext (sweep : ℕ)

/-- A sweep goes on. -/
def PayloadWorld.setStage (w : PayloadWorld) (i : ℕ) (sweep : OrphanSweep) (stage : SweepStage) :
    PayloadWorld :=
  { w with sweeps := w.sweeps.set i { sweep with stage := stage } }

/-- A sweep finds the orphans on a page of the bucket. -/
def PayloadWorld.listPage (options : R2PayloadStorageOptions) (w : PayloadWorld) (i : ℕ)
    (sweep : OrphanSweep) (page : List String) : Option PayloadWorld :=
  match sweep.stage with
  | .timed now => some (w.setStage i sweep
      (.deleting (orphansOf options w.bucket sweep.referencedKeys now page)))
  | .read | .deleting _ => none

/-- A sweep deletes the next of the orphans it found. -/
def PayloadWorld.deleteNext (w : PayloadWorld) (i : ℕ) (sweep : OrphanSweep) :
    Option PayloadWorld :=
  match sweep.stage with
  | .deleting (key :: keys) =>
    some { w.setStage i sweep (.deleting keys) with bucket := w.bucket.erase key }
  | .read | .timed _ | .deleting [] => none

/-- Uploads, commits, rewrites and sweeps, in any interleaving; each may stop at any point. The key
of an email is none under which an object was ever stored. -/
def payloadSystem (p : Platform) (options : R2PayloadStorageOptions) :
    TransitionSystem PayloadWorld PayloadLabel where
  init w := w = {}
  step w
    | .clock now => some { w with clock := now }
    | .uploadEmail record payload uuid => do
      let key := (payloadObject p options record payload uuid).key
      guard (key ∉ w.stored)
      let (bucket, email) ←
        (externalizeEmail p options w.bucket w.clock record payload uuid).toOption
      return { w with
        bucket := bucket
        pending := w.pending ++ [⟨email, w.clock⟩]
        stored := w.stored ++ [key] }
    | .uploadAttachment record => do
      let bucket ← (putManagedObject options w.bucket w.clock (attachmentObject record)).toOption
      return { w with
        bucket := bucket
        stored := w.stored ++ [record.objectKey] }
    | .commit j => do
      let upload ← w.pending[j]?
      let emails ← w.emails.insertRow upload.email.id upload.email
      return { w with emails := emails }
    | .readRow id => do
      let row ← w.emails.get id
      return { w with rows := w.rows ++ [row] }
    | .writeRow j write => do
      let row ← w.rows[j]?
      return { w with emails := write.run w.emails row }
    | .readReferences => some { w with
        sweeps := w.sweeps ++ [⟨listReferencedPayloadKeys w.emails, w.clock, .read⟩] }
    | .takeTime i => do
      let sweep ← w.sweeps[i]?
      guard (sweep.stage = .read)
      return w.setStage i sweep (.timed w.clock)
    | .list i page => do
      let sweep ← w.sweeps[i]?
      w.listPage options i sweep page
    | .deleteNext i => do
      let sweep ← w.sweeps[i]?
      w.deleteNext i sweep

/-- The clock does not go back, an email is committed less than half the retention after its
upload, and a sweep is done within half the retention of its read. -/
def InTime (options : R2PayloadStorageOptions) (w : PayloadWorld) : PayloadLabel → Prop
  | .clock now => w.clock ≤ now
  | .commit j => ∀ upload, w.pending[j]? = some upload →
      2 * w.clock < 2 * upload.uploaded + options.retention
  | .takeTime i | .list i _ | .deleteNext i => ∀ sweep, w.sweeps[i]? = some sweep →
      2 * w.clock ≤ 2 * sweep.readAt + options.retention
  | _ => True

/-! ## Writers keep the reference -/

/-- A rewrite of an email under its id, with its payload. -/
def EmailRecord.SamePayload (e e' : EmailRecord) : Prop :=
  e'.id = e.id ∧ e'.payloadRef = e.payloadRef

section Writers

variable {s : DeliveryLedgerState} {e : EmailRecord}

theorem planAttemptStart_samePayload {a a' : AttemptRecord} {plan : DeliveryLedgerPlan}
    (h : planAttemptStart s a = .ok (plan, a')) : s.email.SamePayload plan.email := by
  obtain ⟨s', hs, h⟩ := bind_eq_ok.mp h
  obtain ⟨-, rfl⟩ := assertLedgerState_eq_ok.mp hs
  obtain ⟨_, -, h⟩ := bind_eq_ok.mp h
  obtain ⟨_, -, h⟩ := bind_eq_ok.mp h
  obtain ⟨_, -, h⟩ := bind_eq_ok.mp h
  obtain ⟨_, -, h⟩ := bind_eq_ok.mp h
  obtain ⟨_, -, h⟩ := bind_eq_ok.mp h
  rw [pure_eq_ok, Prod.mk.injEq] at h
  obtain ⟨rfl, -⟩ := h
  exact ⟨rfl, rfl⟩

theorem planAttemptCompletion_samePayload {input : AttemptCompletion} {a : AttemptRecord}
    {plan : DeliveryLedgerPlan} (h : planAttemptCompletion s input = .ok (plan, a)) :
    s.email.SamePayload plan.email := by
  obtain ⟨s', hs, h⟩ := bind_eq_ok.mp h
  obtain ⟨-, rfl⟩ := assertLedgerState_eq_ok.mp hs
  dsimp only at h
  split at h
  · cases h
  · obtain ⟨_, -, h⟩ := bind_eq_ok.mp h
    obtain ⟨_, -, h⟩ := bind_eq_ok.mp h
    obtain ⟨_, -, h⟩ := bind_eq_ok.mp h
    obtain ⟨_, -, h⟩ := bind_eq_ok.mp h
    obtain ⟨_, -, h⟩ := bind_eq_ok.mp h
    rw [pure_eq_ok, Prod.mk.injEq] at h
    obtain ⟨rfl, -⟩ := h
    split <;> exact ⟨rfl, rfl⟩

theorem planProviderEvent_samePayload {event event' : ProviderEventRecord}
    {plan : DeliveryLedgerPlan} (h : planProviderEvent s event = .ok (plan, event')) :
    s.email.SamePayload plan.email := by
  obtain ⟨s', hs, h⟩ := bind_eq_ok.mp h
  obtain ⟨-, rfl⟩ := assertLedgerState_eq_ok.mp hs
  obtain ⟨_, -, h⟩ := bind_eq_ok.mp h
  obtain ⟨_, -, h⟩ := bind_eq_ok.mp h
  obtain ⟨_, -, h⟩ := bind_eq_ok.mp h
  obtain ⟨_, -, h⟩ := bind_eq_ok.mp h
  rw [pure_eq_ok, Prod.mk.injEq] at h
  obtain ⟨rfl, -⟩ := h
  exact ⟨rfl, rfl⟩

theorem planLocalRecipientState_samePayload {status : LocalStatus} {updatedAt : ℕ}
    {plan : DeliveryLedgerPlan} (h : planLocalRecipientState s status updatedAt = .ok plan) :
    s.email.SamePayload plan.email := by
  obtain ⟨s', hs, h⟩ := bind_eq_ok.mp h
  obtain ⟨-, rfl⟩ := assertLedgerState_eq_ok.mp hs
  obtain ⟨_, -, h⟩ := bind_eq_ok.mp h
  obtain ⟨_, -, h⟩ := bind_eq_ok.mp h
  obtain ⟨_, -, h⟩ := bind_eq_ok.mp h
  rw [pure_eq_ok] at h
  subst h
  exact ⟨rfl, rfl⟩

theorem LedgerRequest.plan_samePayload {request : LedgerRequest} {write : PlannedWrite}
    (h : request.plan s = .ok (some write)) : s.email.SamePayload write.plan.email := by
  cases request with
  | begin input =>
    obtain ⟨attempt, -, h⟩ := bind_eq_ok.mp h
    split at h
    · obtain ⟨_, -, h⟩ := bind_eq_ok.mp h
      cases h
    · obtain ⟨⟨plan, a⟩, hplan, h⟩ := bind_eq_ok.mp h
      rw [pure_eq_ok, Option.some.injEq] at h
      subst h
      exact planAttemptStart_samePayload hplan
  | complete input =>
    simp only [LedgerRequest.plan] at h
    split at h
    · cases h
    · split_ifs at h
      · obtain ⟨_, -, h⟩ := bind_eq_ok.mp h
        cases h
      · obtain ⟨⟨plan, a⟩, hplan, h⟩ := bind_eq_ok.mp h
        rw [pure_eq_ok, Option.some.injEq] at h
        subst h
        exact planAttemptCompletion_samePayload hplan
  | localState status updatedAt =>
    obtain ⟨plan, hplan, h⟩ := bind_eq_ok.mp h
    rw [pure_eq_ok, Option.some.injEq] at h
    subst h
    exact planLocalRecipientState_samePayload hplan

/-- **Every writer** keeps the id of the email and its reference to the payload. -/
theorem EmailWrite.next_samePayload {write : EmailWrite} {updated : EmailRecord}
    (h : write.next e = some updated) : e.SamePayload updated := by
  cases write with
  | claim attempt now =>
    simp only [EmailWrite.next] at h
    split_ifs at h
    obtain rfl := Option.some.inj h
    exact ⟨rfl, rfl⟩
  | update updates fromStatuses =>
    simp only [EmailWrite.next] at h
    split_ifs at h
    obtain rfl := Option.some.inj h
    exact ⟨rfl, rfl⟩
  | reschedule scheduledAt now =>
    simp only [EmailWrite.next] at h
    split_ifs at h
    obtain rfl := Option.some.inj h
    exact ⟨rfl, rfl⟩
  | ledger request rest =>
    simp only [EmailWrite.next] at h
    split at h
    · rename_i write hplan
      obtain rfl := Option.some.inj h
      exact LedgerRequest.plan_samePayload hplan
    · cases h
    · cases h
  | providerEvent event rest =>
    simp only [EmailWrite.next] at h
    split at h
    · rename_i plan _ hplan
      obtain rfl := Option.some.inj h
      exact planProviderEvent_samePayload hplan
    · cases h

end Writers

/-! ## What holds in every state -/

variable {p : Platform} {options : R2PayloadStorageOptions} {w w' : PayloadWorld}

/-- What a put does: it stores an object where there was none, and changes no other. -/
theorem putManagedObject_spec {bucket bucket' : OrderedMap String R2Object} {now : ℕ}
    {input : PutManagedObject} (h : putManagedObject options bucket now input = .ok bucket') :
    (∀ key object, bucket.get key = some object → bucket'.get key = some object) ∧
      (∀ key object, bucket'.get key = some object →
        bucket.get key = some object ∨ key = input.key) ∧
      (bucket.get input.key = none →
        ∃ object, bucket'.get input.key = some object ∧ object.uploaded = now) := by
  unfold putManagedObject at h
  split_ifs at h
  split at h
  · rename_i hnone
    obtain rfl := Except.ok.inj h
    refine ⟨fun key object hkey => ?_, fun key object hkey => ?_, fun _ => ?_⟩
    · have hne : key ≠ input.key := by
        rintro rfl
        rw [hnone] at hkey
        cases hkey
      rw [OrderedMap.get_set_ne _ _ hne, hkey]
    · rw [OrderedMap.get_set] at hkey
      split_ifs at hkey with hk
      · exact .inr hk
      · exact .inl hkey
    · exact ⟨_, OrderedMap.get_set_self _ _ _, rfl⟩
  · rename_i existing hexisting
    split_ifs at h
    obtain rfl := Except.ok.inj h
    refine ⟨fun _ _ hkey => hkey, fun _ _ hkey => .inl hkey, fun hnone => ?_⟩
    rw [hexisting] at hnone
    cases hnone

/-- A sweep will not delete the object that is stored under a key. -/
def OrphanSweep.Spares (options : R2PayloadStorageOptions) (sweep : OrphanSweep) (key : String)
    (object : R2Object) : Prop :=
  match sweep.stage with
  | .read => key ∈ sweep.referencedKeys ∨ 2 * sweep.readAt < 2 * object.uploaded + options.retention
  | .timed now => key ∈ sweep.referencedKeys ∨ now < object.uploaded + options.retention
  | .deleting keys => key ∉ keys

/-- The times a sweep took are not ahead, and it deletes what was stored. -/
def OrphanSweep.Sound (w : PayloadWorld) (sweep : OrphanSweep) : Prop :=
  sweep.readAt ≤ w.clock ∧
    match sweep.stage with
    | .read => True
    | .timed now => now ≤ w.clock
    | .deleting keys => keys ⊆ w.stored

/-- Within the retention of its upload, the payload of an email that waits to be committed is
stored, and no sweep has it among those to delete. -/
def PendingEmail.Stored (options : R2PayloadStorageOptions) (w : PayloadWorld)
    (upload : PendingEmail) : Prop :=
  ∃ key, upload.email.payloadRef = some key ∧ key ∈ w.stored ∧
    (w.clock < upload.uploaded + options.retention →
      (∃ object, w.bucket.get key = some object ∧ object.uploaded = upload.uploaded) ∧
      ∀ sweep ∈ w.sweeps, ∀ keys, sweep.stage = .deleting keys → key ∉ keys)

/-- The payload of an email that is committed is stored, and every sweep spares it. -/
def PayloadWorld.Live (options : R2PayloadStorageOptions) (w : PayloadWorld) (key : String) :
    Prop :=
  ∃ object, w.bucket.get key = some object ∧ ∀ sweep ∈ w.sweeps, sweep.Spares options key object

structure PayloadInvariant (options : R2PayloadStorageOptions) (w : PayloadWorld) : Prop where
  stored : ∀ key object, w.bucket.get key = some object → key ∈ w.stored
  filed : ∀ id email, w.emails.get id = some email → email.id = id
  rows : ∀ row ∈ w.rows, ∃ email, w.emails.get row.id = some email ∧ row.SamePayload email
  sweeps : ∀ sweep ∈ w.sweeps, sweep.Sound w
  pending : ∀ upload ∈ w.pending, upload.Stored options w
  live : ∀ id email key, w.emails.get id = some email → email.payloadRef = some key →
    w.Live options key

namespace PayloadInvariant

/-! ### Uploads -/

/-- Storing an object takes nothing from the others. -/
theorem put {bucket : OrderedMap String R2Object} {input : PutManagedObject}
    (h : PayloadInvariant options w)
    (hput : putManagedObject options w.bucket w.clock input = .ok bucket) :
    PayloadInvariant options { w with
      bucket := bucket
      stored := w.stored ++ [input.key] } := by
  obtain ⟨hkept, hold, -⟩ := putManagedObject_spec hput
  refine ⟨fun key object hkey => ?_, h.filed, h.rows, fun sweep hsweep => ?_,
    fun upload hupload => ?_, fun id email key hid hkey => ?_⟩
  · rcases hold key object hkey with hkey | rfl
    · exact List.mem_append_left _ (h.stored key object hkey)
    · exact List.mem_append_right _ (List.mem_singleton_self _)
  · obtain ⟨hread, hstage⟩ := h.sweeps sweep hsweep
    refine ⟨hread, ?_⟩
    split
    · trivial
    · rename_i now hnow
      simpa only [hnow] using hstage
    · rename_i keys hkeys
      simp only [hkeys] at hstage
      exact fun key hkey => List.mem_append_left _ (hstage hkey)
  · obtain ⟨key, href, hkey, hwaiting⟩ := h.pending upload hupload
    refine ⟨key, href, List.mem_append_left _ hkey, fun hclock => ?_⟩
    obtain ⟨⟨object, hobject, huploaded⟩, hspared⟩ := hwaiting hclock
    exact ⟨⟨object, hkept key object hobject, huploaded⟩, hspared⟩
  · obtain ⟨object, hobject, hspared⟩ := h.live id email key hid hkey
    exact ⟨object, hkept key object hobject, hspared⟩

/-- An email whose payload was just stored under a new key waits to be committed. -/
theorem uploadEmail {bucket : OrderedMap String R2Object} {email record : EmailRecord}
    {payload uuid : String} (h : PayloadInvariant options w)
    (hfresh : (payloadObject p options record payload uuid).key ∉ w.stored)
    (hupload : externalizeEmail p options w.bucket w.clock record payload uuid =
      .ok (bucket, email)) :
    PayloadInvariant options { w with
      bucket := bucket
      pending := w.pending ++ [⟨email, w.clock⟩]
      stored := w.stored ++ [(payloadObject p options record payload uuid).key] } := by
  obtain ⟨bucket', hput, hemail⟩ := bind_eq_ok.mp hupload
  rw [pure_eq_ok, Prod.mk.injEq] at hemail
  obtain ⟨rfl, rfl⟩ := hemail
  have hstored := h.put hput
  have hnone : w.bucket.get (payloadObject p options record payload uuid).key = none := by
    rw [Option.eq_none_iff_forall_ne_some]
    exact fun object hobject => hfresh (h.stored _ object hobject)
  refine ⟨hstored.stored, h.filed, h.rows, hstored.sweeps, fun upload hmem => ?_, hstored.live⟩
  rcases List.mem_append.mp hmem with hmem | hmem
  · exact hstored.pending upload hmem
  · rw [List.mem_singleton.mp hmem]
    refine ⟨_, rfl, List.mem_append_right _ (List.mem_singleton_self _), fun _ =>
      ⟨(putManagedObject_spec hput).2.2 hnone, fun sweep hsweep keys hkeys hmem => ?_⟩⟩
    have hsound := (h.sweeps sweep hsweep).2
    simp only [hkeys] at hsound
    exact hfresh (hsound hmem)

/-! ### Rows -/

/-- The payload of an email that is committed in time is live. -/
theorem live_of_pending {upload : PendingEmail} {key : String} (h : PayloadInvariant options w)
    (hupload : upload ∈ w.pending) (hkey : upload.email.payloadRef = some key)
    (htime : 2 * w.clock < 2 * upload.uploaded + options.retention) : w.Live options key := by
  obtain ⟨key', hkey', -, hwaiting⟩ := h.pending upload hupload
  obtain rfl : key' = key := Option.some.inj (hkey'.symm.trans hkey)
  obtain ⟨⟨object, hobject, huploaded⟩, hspared⟩ := hwaiting (by omega)
  refine ⟨object, hobject, fun sweep hsweep => ?_⟩
  obtain ⟨hread, hstage⟩ := h.sweeps sweep hsweep
  unfold OrphanSweep.Spares
  split
  · exact .inr (by omega)
  · rename_i now hnow
    simp only [hnow] at hstage
    exact .inr (by omega)
  · rename_i keys hkeys
    exact hspared sweep hsweep keys hkeys

theorem commit {upload : PendingEmail} {emails : OrderedMap String EmailRecord}
    (h : PayloadInvariant options w) (hupload : upload ∈ w.pending)
    (htime : 2 * w.clock < 2 * upload.uploaded + options.retention)
    (hinsert : w.emails.insertRow upload.email.id upload.email = some emails) :
    PayloadInvariant options { w with emails := emails } := by
  cases hget : w.emails.get upload.email.id with
  | some email =>
    rw [OrderedMap.insertRow_of_present hget] at hinsert
    cases hinsert
  | none =>
    rw [OrderedMap.insertRow_of_absent hget, Option.some.injEq] at hinsert
    subst hinsert
    refine ⟨h.stored, fun id email hid => ?_, fun row hrow => ?_, h.sweeps, h.pending,
      fun id email key hid hkey => ?_⟩
    · rw [OrderedMap.get_set] at hid
      split_ifs at hid with hk
      · rw [← Option.some.inj hid, hk]
      · exact h.filed id email hid
    · obtain ⟨email, hemail, hsame⟩ := h.rows row hrow
      have hne : row.id ≠ upload.email.id := by
        intro heq
        rw [heq, hget] at hemail
        cases hemail
      exact ⟨email, by rw [OrderedMap.get_set_ne _ _ hne, hemail], hsame⟩
    · rw [OrderedMap.get_set] at hid
      split_ifs at hid
      · obtain rfl := Option.some.inj hid
        exact h.live_of_pending hupload hkey htime
      · exact h.live id email key hid hkey

theorem readRow {id : String} {row : EmailRecord} (h : PayloadInvariant options w)
    (hrow : w.emails.get id = some row) :
    PayloadInvariant options { w with rows := w.rows ++ [row] } := by
  refine ⟨h.stored, h.filed, fun other hother => ?_, h.sweeps, h.pending, h.live⟩
  rcases List.mem_append.mp hother with hother | hother
  · exact h.rows other hother
  · rw [List.mem_singleton.mp hother]
    exact ⟨row, by rw [h.filed id row hrow, hrow], rfl, rfl⟩

/-- A row that is written has the payload of the row that it replaces. -/
theorem writeRow {row : EmailRecord} {write : EmailWrite} (h : PayloadInvariant options w)
    (hrow : row ∈ w.rows) : PayloadInvariant options { w with emails := write.run w.emails row } := by
  cases hnext : write.next row with
  | none => simpa only [EmailWrite.run, hnext] using h
  | some updated =>
    have hsame := EmailWrite.next_samePayload hnext
    obtain ⟨stored, hstored, hstoredSame⟩ := h.rows row hrow
    -- every row is still there, with its id and its payload
    have hget : ∀ id, ∃ f : EmailRecord → EmailRecord,
        (write.run w.emails row).get id = (w.emails.get id).map f ∧
          ∀ email, w.emails.get id = some email → email.SamePayload (f email) := by
      intro id
      refine ⟨_, by simp only [EmailWrite.run, hnext]; exact OrderedMap.get_updateWhere _ _ _ _,
        fun email hemail => ?_⟩
      split_ifs with hselected
      · have hid : id = updated.id := by
          rw [Bool.and_eq_true, beq_iff_eq] at hselected
          exact hselected.1
        rw [hid, hsame.1, hstored, Option.some.injEq] at hemail
        subst hemail
        exact ⟨hsame.1.trans hstoredSame.1.symm, hsame.2.trans hstoredSame.2.symm⟩
      · exact ⟨rfl, rfl⟩
    have hback : ∀ id email, (write.run w.emails row).get id = some email →
        ∃ old, w.emails.get id = some old ∧ old.SamePayload email := by
      intro id email hemail
      obtain ⟨f, hf, hkept⟩ := hget id
      rw [hf, Option.map_eq_some_iff] at hemail
      obtain ⟨old, hold, rfl⟩ := hemail
      exact ⟨old, hold, hkept old hold⟩
    refine ⟨h.stored, fun id email hid => ?_, fun other hother => ?_, h.sweeps, h.pending,
      fun id email key hid hkey => ?_⟩
    · obtain ⟨old, hold, holdSame⟩ := hback id email hid
      exact holdSame.1.trans (h.filed id old hold)
    · obtain ⟨email, hemail, hotherSame⟩ := h.rows other hother
      obtain ⟨f, hf, hkept⟩ := hget other.id
      have hfSame := hkept email hemail
      exact ⟨f email, by rw [hf, hemail]; rfl, hfSame.1.trans hotherSame.1,
        hfSame.2.trans hotherSame.2⟩
    · obtain ⟨old, hold, holdSame⟩ := hback id email hid
      exact h.live id old key hold (holdSame.2.symm.trans hkey)

/-! ### Sweeps -/

/-- A sweep that begins knows every key that a row names. -/
theorem readReferences (h : PayloadInvariant options w) :
    PayloadInvariant options { w with
      sweeps := w.sweeps ++ [⟨listReferencedPayloadKeys w.emails, w.clock, .read⟩] } := by
  refine ⟨h.stored, h.filed, h.rows, fun sweep hsweep => ?_, fun upload hupload => ?_,
    fun id email key hid hkey => ?_⟩
  · rcases List.mem_append.mp hsweep with hsweep | hsweep
    · exact h.sweeps sweep hsweep
    · rw [List.mem_singleton.mp hsweep]
      exact ⟨le_rfl, trivial⟩
  · obtain ⟨key, hkey, hstored, hwaiting⟩ := h.pending upload hupload
    refine ⟨key, hkey, hstored, fun hclock => ⟨(hwaiting hclock).1, fun sweep hsweep keys hkeys => ?_⟩⟩
    rcases List.mem_append.mp hsweep with hsweep | hsweep
    · exact (hwaiting hclock).2 sweep hsweep keys hkeys
    · rw [List.mem_singleton.mp hsweep] at hkeys
      cases hkeys
  · obtain ⟨object, hobject, hspared⟩ := h.live id email key hid hkey
    refine ⟨object, hobject, fun sweep hsweep => ?_⟩
    rcases List.mem_append.mp hsweep with hsweep | hsweep
    · exact hspared sweep hsweep
    · rw [List.mem_singleton.mp hsweep]
      refine .inl (List.mem_filterMap.mpr ⟨email, ?_, hkey⟩)
      exact List.mem_map.mpr ⟨(id, email), (OrderedMap.get_eq_some_iff _ _ _).mp hid, rfl⟩

/-- A sweep goes on: what it deletes at its new stage has been stored, is past the retention, and is
spared if a row names it. -/
theorem setStage {i : ℕ} {sweep : OrphanSweep} {stage : SweepStage}
    (h : PayloadInvariant options w)
    (hsound : ({ sweep with stage := stage } : OrphanSweep).Sound w)
    (hpending : ∀ upload ∈ w.pending, ∀ key object, upload.email.payloadRef = some key →
      w.clock < upload.uploaded + options.retention → w.bucket.get key = some object →
      object.uploaded = upload.uploaded → ∀ keys, stage = .deleting keys → key ∉ keys)
    (hspares : ∀ key object, w.bucket.get key = some object → sweep.Spares options key object →
      ({ sweep with stage := stage } : OrphanSweep).Spares options key object)
    (hsweep : w.sweeps[i]? = some sweep) :
    PayloadInvariant options (w.setStage i sweep stage) := by
  have hmem := List.mem_of_getElem? hsweep
  refine ⟨h.stored, h.filed, h.rows, fun other hother => ?_, fun upload hupload => ?_,
    fun id email key hid hkey => ?_⟩
  · rcases List.mem_or_eq_of_mem_set hother with hother | rfl
    · exact h.sweeps other hother
    · exact hsound
  · obtain ⟨key, hkey, hstored, hwaiting⟩ := h.pending upload hupload
    refine ⟨key, hkey, hstored, fun hclock => ?_⟩
    obtain ⟨⟨object, hobject, huploaded⟩, hspared⟩ := hwaiting hclock
    refine ⟨⟨object, hobject, huploaded⟩, fun other hother keys hkeys => ?_⟩
    rcases List.mem_or_eq_of_mem_set hother with hother | rfl
    · exact hspared other hother keys hkeys
    · exact hpending upload hupload key object hkey hclock hobject huploaded keys hkeys
  · obtain ⟨object, hobject, hspared⟩ := h.live id email key hid hkey
    refine ⟨object, hobject, fun other hother => ?_⟩
    rcases List.mem_or_eq_of_mem_set hother with hother | rfl
    · exact hspared other hother
    · exact hspares key object hobject (hspared sweep hmem)

/-- Taking the time within half the retention spares what the read came too early for. -/
theorem takeTime {i : ℕ} {sweep : OrphanSweep} (h : PayloadInvariant options w)
    (hsweep : w.sweeps[i]? = some sweep) (hstage : sweep.stage = .read)
    (htime : 2 * w.clock ≤ 2 * sweep.readAt + options.retention) :
    PayloadInvariant options (w.setStage i sweep (.timed w.clock)) := by
  refine h.setStage ⟨(h.sweeps sweep (List.mem_of_getElem? hsweep)).1, le_rfl⟩ ?_
    (fun key object _ hspares => ?_) hsweep
  · intro upload _ key object _ _ _ _ keys hkeys
    cases hkeys
  · simp only [OrphanSweep.Spares, hstage] at hspares
    exact hspares.imp id fun hread => by omega

theorem mem_orphansOf {referencedKeys page : List String} {now : ℕ} {key : String}
    {object : R2Object} (hkey : key ∈ orphansOf options w.bucket referencedKeys now page)
    (hobject : w.bucket.get key = some object) :
    key ∉ referencedKeys ∧ object.uploaded + options.retention ≤ now := by
  have horphan := (List.mem_filter.mp hkey).2
  rw [hobject, Option.any_some] at horphan
  simp only [isOrphan, Bool.and_eq_true, Bool.not_eq_true', List.contains_eq_mem,
    decide_eq_false_iff_not, decide_eq_true_eq] at horphan
  exact ⟨horphan.1.1.2, horphan.1.2⟩

theorem list {i now : ℕ} {sweep : OrphanSweep} {page : List String}
    (h : PayloadInvariant options w) (hsweep : w.sweeps[i]? = some sweep)
    (hstage : sweep.stage = .timed now) :
    PayloadInvariant options (w.setStage i sweep
      (.deleting (orphansOf options w.bucket sweep.referencedKeys now page))) := by
  obtain ⟨hread, hnow⟩ := h.sweeps sweep (List.mem_of_getElem? hsweep)
  simp only [hstage] at hnow
  refine h.setStage ⟨hread, fun key hkey => ?_⟩ ?_ (fun key object hobject hspares hkey => ?_)
    hsweep
  · obtain ⟨object, hobject, -⟩ := (Option.any_eq_true _ _).mp (List.mem_filter.mp hkey).2
    exact h.stored key object hobject
  · intro upload _ key object _ hclock hobject huploaded keys hkeys hkey
    obtain rfl := SweepStage.deleting.inj hkeys
    obtain ⟨-, hold⟩ := mem_orphansOf hkey hobject
    omega
  · obtain ⟨hunreferenced, hold⟩ := mem_orphansOf hkey hobject
    simp only [OrphanSweep.Spares, hstage] at hspares
    rcases hspares with href | hnew
    · exact hunreferenced href
    · omega

/-- Deleting the next orphan takes no payload that waits to be committed in time, and no live
one. -/
theorem deleteNext {i : ℕ} {sweep : OrphanSweep} {key : String} {keys : List String}
    (h : PayloadInvariant options w) (hsweep : w.sweeps[i]? = some sweep)
    (hstage : sweep.stage = .deleting (key :: keys)) :
    PayloadInvariant options
      { w.setStage i sweep (.deleting keys) with bucket := w.bucket.erase key } := by
  have hmem := List.mem_of_getElem? hsweep
  obtain ⟨hread, hstored⟩ := h.sweeps sweep hmem
  simp only [hstage] at hstored
  have hstaged : PayloadInvariant options (w.setStage i sweep (.deleting keys)) := by
    refine h.setStage ⟨hread, fun other hother => hstored (List.mem_cons_of_mem _ hother)⟩ ?_
      (fun other object _ hspares hother => ?_) hsweep
    · intro upload hupload other object hother hclock _ _ keys' hkeys' hmem'
      obtain rfl := SweepStage.deleting.inj hkeys'
      obtain ⟨other', hother', -, hwaiting⟩ := h.pending upload hupload
      obtain rfl : other' = other := Option.some.inj (hother'.symm.trans hother)
      exact (hwaiting hclock).2 sweep hmem _ hstage (List.mem_cons_of_mem _ hmem')
    · simp only [OrphanSweep.Spares, hstage] at hspares
      exact hspares (List.mem_cons_of_mem _ hother)
  have herase : ∀ other, other ≠ key → (w.bucket.erase key).get other = w.bucket.get other :=
    fun other hne => by rw [OrderedMap.get_erase, if_neg hne]
  refine ⟨fun other object hother => ?_, hstaged.filed, hstaged.rows, hstaged.sweeps,
    fun upload hupload => ?_, fun id email other hid hother => ?_⟩
  · rw [OrderedMap.get_erase] at hother
    split_ifs at hother
    exact h.stored other object hother
  · obtain ⟨other, hother, hotherStored, hwaiting⟩ := hstaged.pending upload hupload
    refine ⟨other, hother, hotherStored, fun hclock => ?_⟩
    obtain ⟨⟨object, hobject, huploaded⟩, hspared⟩ := hwaiting hclock
    have hne : other ≠ key := by
      rintro rfl
      obtain ⟨other', hother', -, hwaiting'⟩ := h.pending upload hupload
      obtain rfl : other' = other := Option.some.inj (hother'.symm.trans hother)
      exact (hwaiting' hclock).2 sweep hmem _ hstage List.mem_cons_self
    exact ⟨⟨object, (herase other hne).trans hobject, huploaded⟩, hspared⟩
  · obtain ⟨object, hobject, hspared⟩ := hstaged.live id email other hid hother
    obtain ⟨object', -, hspared'⟩ := h.live id email other hid hother
    have hne : other ≠ key := by
      rintro rfl
      have hspares := hspared' sweep hmem
      simp only [OrphanSweep.Spares, hstage] at hspares
      exact hspares List.mem_cons_self
    exact ⟨object, (herase other hne).trans hobject, hspared⟩

/-! ### Runs -/

theorem clock {now : ℕ} (h : PayloadInvariant options w) (hnow : w.clock ≤ now) :
    PayloadInvariant options { w with clock := now } := by
  refine ⟨h.stored, h.filed, h.rows, fun sweep hsweep => ?_, fun upload hupload => ?_, h.live⟩
  · obtain ⟨hread, hstage⟩ := h.sweeps sweep hsweep
    refine ⟨hread.trans hnow, ?_⟩
    split
    · trivial
    · rename_i taken htaken
      simp only [htaken] at hstage
      exact hstage.trans hnow
    · rename_i keys hkeys
      simpa only [hkeys] using hstage
  · obtain ⟨key, hkey, hstored, hwaiting⟩ := h.pending upload hupload
    exact ⟨key, hkey, hstored, fun hclock => hwaiting (hnow.trans_lt hclock)⟩

theorem step {l : PayloadLabel} (h : PayloadInvariant options w) (hl : InTime options w l)
    (hs : (payloadSystem p options).step w l = some w') : PayloadInvariant options w' := by
  cases l with
  | clock now =>
    obtain rfl := Option.some.inj hs
    exact h.clock hl
  | uploadEmail record payload uuid =>
    obtain ⟨_, hfresh, hs⟩ := Option.bind_eq_some_iff.mp hs
    obtain ⟨⟨bucket, email⟩, hupload, hs⟩ := Option.bind_eq_some_iff.mp hs
    obtain rfl := Option.some.inj hs
    exact h.uploadEmail (by simpa using hfresh) (toOption_eq_some.mp hupload)
  | uploadAttachment record =>
    obtain ⟨bucket, hput, hs⟩ := Option.bind_eq_some_iff.mp hs
    obtain rfl := Option.some.inj hs
    exact h.put (toOption_eq_some.mp hput)
  | commit j =>
    obtain ⟨upload, hupload, hs⟩ := Option.bind_eq_some_iff.mp hs
    obtain ⟨emails, hinsert, hs⟩ := Option.bind_eq_some_iff.mp hs
    obtain rfl := Option.some.inj hs
    exact h.commit (List.mem_of_getElem? hupload) (hl upload hupload) hinsert
  | readRow id =>
    obtain ⟨row, hrow, hs⟩ := Option.bind_eq_some_iff.mp hs
    obtain rfl := Option.some.inj hs
    exact h.readRow hrow
  | writeRow j write =>
    obtain ⟨row, hrow, hs⟩ := Option.bind_eq_some_iff.mp hs
    obtain rfl := Option.some.inj hs
    exact h.writeRow (List.mem_of_getElem? hrow)
  | readReferences =>
    obtain rfl := Option.some.inj hs
    exact h.readReferences
  | takeTime i =>
    obtain ⟨sweep, hsweep, hs⟩ := Option.bind_eq_some_iff.mp hs
    obtain ⟨_, hstage, hs⟩ := Option.bind_eq_some_iff.mp hs
    obtain rfl := Option.some.inj hs
    exact h.takeTime hsweep (by simpa using hstage) (hl sweep hsweep)
  | list i page =>
    obtain ⟨sweep, hsweep, hs⟩ := Option.bind_eq_some_iff.mp hs
    unfold PayloadWorld.listPage at hs
    split at hs
    · rename_i now hstage
      obtain rfl := Option.some.inj hs
      exact h.list hsweep hstage
    · cases hs
    · cases hs
  | deleteNext i =>
    obtain ⟨sweep, hsweep, hs⟩ := Option.bind_eq_some_iff.mp hs
    unfold PayloadWorld.deleteNext at hs
    split at hs
    · rename_i key keys hstage
      obtain rfl := Option.some.inj hs
      exact h.deleteNext hsweep hstage
    · cases hs
    · cases hs
    · cases hs

end PayloadInvariant

theorem payloadInvariant_of_reachable
    (h : (payloadSystem p options).ReachableWhere (InTime options) w) :
    PayloadInvariant options w := by
  refine h.invariant (fun w h₀ => ?_) fun _ _ _ _ hi hl hs => hi.step hl hs
  obtain rfl := h₀
  exact ⟨by simp, by simp, by simp, by simp, by simp, by simp⟩

/-- What a step does to a stored object: nothing, unless a sweep deletes it. -/
theorem step_get_bucket {l : PayloadLabel} (hs : (payloadSystem p options).step w l = some w')
    {key : String} {object : R2Object} (hobject : w.bucket.get key = some object) :
    w'.bucket.get key = some object ∨
      ∃ sweep ∈ w.sweeps, ∃ keys, sweep.stage = .deleting (key :: keys) := by
  cases l with
  | clock now =>
    obtain rfl := Option.some.inj hs
    exact .inl hobject
  | uploadEmail record payload uuid =>
    obtain ⟨_, -, hs⟩ := Option.bind_eq_some_iff.mp hs
    obtain ⟨⟨bucket, email⟩, hupload, hs⟩ := Option.bind_eq_some_iff.mp hs
    obtain rfl := Option.some.inj hs
    obtain ⟨bucket', hput, hemail⟩ := bind_eq_ok.mp (toOption_eq_some.mp hupload)
    rw [pure_eq_ok, Prod.mk.injEq] at hemail
    obtain ⟨rfl, -⟩ := hemail
    exact .inl ((putManagedObject_spec hput).1 key object hobject)
  | uploadAttachment record =>
    obtain ⟨bucket, hput, hs⟩ := Option.bind_eq_some_iff.mp hs
    obtain rfl := Option.some.inj hs
    exact .inl ((putManagedObject_spec (toOption_eq_some.mp hput)).1 key object hobject)
  | commit j =>
    obtain ⟨_, -, hs⟩ := Option.bind_eq_some_iff.mp hs
    obtain ⟨_, -, hs⟩ := Option.bind_eq_some_iff.mp hs
    obtain rfl := Option.some.inj hs
    exact .inl hobject
  | readRow id =>
    obtain ⟨_, -, hs⟩ := Option.bind_eq_some_iff.mp hs
    obtain rfl := Option.some.inj hs
    exact .inl hobject
  | writeRow j write =>
    obtain ⟨_, -, hs⟩ := Option.bind_eq_some_iff.mp hs
    obtain rfl := Option.some.inj hs
    exact .inl hobject
  | readReferences =>
    obtain rfl := Option.some.inj hs
    exact .inl hobject
  | takeTime i =>
    obtain ⟨_, -, hs⟩ := Option.bind_eq_some_iff.mp hs
    obtain ⟨_, -, hs⟩ := Option.bind_eq_some_iff.mp hs
    obtain rfl := Option.some.inj hs
    exact .inl hobject
  | list i page =>
    obtain ⟨sweep, -, hs⟩ := Option.bind_eq_some_iff.mp hs
    unfold PayloadWorld.listPage at hs
    split at hs
    · obtain rfl := Option.some.inj hs
      exact .inl hobject
    · cases hs
    · cases hs
  | deleteNext i =>
    obtain ⟨sweep, hsweep, hs⟩ := Option.bind_eq_some_iff.mp hs
    unfold PayloadWorld.deleteNext at hs
    split at hs
    · rename_i other keys hstage
      obtain rfl := Option.some.inj hs
      by_cases hkey : key = other
      · subst hkey
        exact .inr ⟨sweep, List.mem_of_getElem? hsweep, keys, hstage⟩
      · refine .inl ?_
        change (w.bucket.erase other).get key = some object
        rw [OrderedMap.get_erase, if_neg hkey, hobject]
    · cases hs
    · cases hs
    · cases hs

/-- **The sweep never deletes a live payload.** In every state of every run in time, the object
that the row of an email names is stored, and it is the same object after whatever step comes
next. -/
theorem sweep_keeps_payloads (h : (payloadSystem p options).ReachableWhere (InTime options) w)
    {id key : String} {email : EmailRecord} (hemail : w.emails.get id = some email)
    (hkey : email.payloadRef = some key) :
    ∃ object, w.bucket.get key = some object ∧
      ∀ l w', (payloadSystem p options).step w l = some w' → w'.bucket.get key = some object := by
  obtain ⟨object, hobject, hspared⟩ :=
    (payloadInvariant_of_reachable h).live id email key hemail hkey
  refine ⟨object, hobject, fun l w' hs => ?_⟩
  rcases step_get_bucket hs hobject with hkept | ⟨sweep, hsweep, keys, hstage⟩
  · exact hkept
  · have hspares := hspared sweep hsweep
    simp only [OrphanSweep.Spares, hstage] at hspares
    exact absurd List.mem_cons_self hspares

/-! ## A run -/

/-- An email that was just accepted. -/
def queuedEmail (id : String) : EmailRecord where
  id := id
  to_ := ["ada@example.com"]
  status := .queued
  lastEvent := .status .queued
  createdAt := 0
  updatedAt := 0
  requestHash := ""
  attempts := 0

/-- A platform that knows the digest of an empty payload. -/
def payloadPlatform : Platform where
  parseDate _ := none
  toLowerCase := String.toLower
  localeCompare a b := decide (a ≤ b)
  convertHtml html _ := html
  base64Length _ := none
  sha256 text :=
    if text = "\x7b\x7d" then "44136fa355b3678a1146ad16f7e8649e94fb4fc21fe77e8310c060f61caaff8a"
    else "0000000000000000000000000000000000000000000000000000000000000000"

/-- Two payloads are uploaded and one email is committed; after the retention its row is claimed
while a sweep deletes the other payload. -/
def sweptOrphan : List PayloadLabel :=
  [.uploadEmail (queuedEmail "a") "\x7b\x7d" "1", .uploadEmail (queuedEmail "b") "\x7b\x7d" "2",
    .commit 0, .readRow "a", .clock 86400000, .readReferences, .writeRow 0 (.claim 1 86400000),
    .takeTime 0, .list 0 ["emails/a/1.json", "emails/b/2.json"], .deleteNext 0]

instance (w : PayloadWorld) (l : PayloadLabel) : Decidable (InTime options w l) := by
  cases l <;> unfold InTime <;> infer_instance

theorem sweep_keeps_payloads_sample : ∃ w : PayloadWorld,
    w.bucket.has "emails/b/2.json" = false ∧
      (w.emails.get "a").map (·.status) = some .sending ∧
      ∃ object, w.bucket.get "emails/a/1.json" = some object := by
  have hrun : ((payloadSystem payloadPlatform {}).runWhere
      (fun w l => decide (InTime {} w l)) {} sweptOrphan).any (fun w =>
        decide (w.bucket.has "emails/b/2.json" = false ∧
          (w.emails.get "a").map (·.status) = some .sending ∧
          (w.emails.get "a").bind (·.payloadRef) = some "emails/a/1.json")) = true := by
    decide +kernel
  obtain ⟨w, hw, hends⟩ := TransitionSystem.exists_reachableWhere_of_run rfl hrun
  obtain ⟨hgone, hclaimed, href⟩ := of_decide_eq_true hends
  obtain ⟨email, hemail, hkey⟩ := Option.bind_eq_some_iff.mp href
  obtain ⟨object, hobject, -⟩ :=
    sweep_keeps_payloads (hw.mono fun _ _ h => of_decide_eq_true h) hemail hkey
  exact ⟨w, hgone, hclaimed, object, hobject⟩

end HayaSend
