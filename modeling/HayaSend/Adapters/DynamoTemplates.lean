import HayaSend.Foundations.ConditionalWrites
import HayaSend.Services.TemplateService

/-!
# Templates in DynamoDB

`DynamoStore` keeps a template, the owners of its aliases and its publications as items of one
table. A write puts or deletes all items it concerns in one transaction, on the condition that the
template has the revision that was read (`Commits`); `publishTemplate` and `deleteTemplate` list the
publications before.
-/

namespace HayaSend

/-! ## The table -/

inductive TemplateKey
  /-- `TEMPLATE#id` -/
  | template (id : String)
  /-- `TEMPLATE_ALIAS#alias` -/
  | draftAlias (alias_ : String)
  /-- `TEMPLATE_PUBLISHED_ALIAS#alias` -/
  | publishedAlias (alias_ : String)
  /-- `TEMPLATE_VERSION#templateId`, `TEMPLATE_VERSION#versionId` -/
  | version (templateId versionId : String)
  deriving DecidableEq, Repr

/-- The key of an item of the template, or of an alias. -/
def TemplateKey.IsOf (id : String) : TemplateKey → Prop
  | .template k => k = id
  | .version k _ => k = id
  | .draftAlias _ | .publishedAlias _ => True

inductive TemplateItem
  | template (record : TemplateRecord)
  | owner (templateId : String)
  | publication (record : TemplatePublicationRecord)
  deriving DecidableEq, Repr

abbrev TemplateTable := OrderedMap TemplateKey TemplateItem

abbrev TemplateWrite := ConditionalWrite TemplateKey TemplateItem

/-- What a listing shows of a publication: its key and its `GSI1SK`. -/
structure VersionKey where
  versionId : String
  sortKey : String
  deriving DecidableEq, Repr

/-- The `GSI1SK` of a publication. -/
def TemplatePublicationRecord.sortKey (publication : TemplatePublicationRecord) : String :=
  toISOString publication.publishedAt ++ "#" ++ publication.id

namespace TemplateTable

def getRecord (t : TemplateTable) (id : String) : Option TemplateRecord :=
  match t.get (.template id) with
  | some (.template record) => some record
  | _ => none

def getOwner (t : TemplateTable) (alias_ : String) : Option String :=
  match t.get (.draftAlias alias_) with
  | some (.owner templateId) => some templateId
  | _ => none

/-- `getTemplateVersion` -/
def getTemplateVersion (t : TemplateTable) (templateId versionId : String) :
    Option TemplatePublicationRecord :=
  match t.get (.version templateId versionId) with
  | some (.publication record) => some record
  | _ => none

/-! ## Conditions -/

/-- `attribute_not_exists(PK)` -/
def isFree (item : Option TemplateItem) : Bool := item.isNone

/-- `attribute_exists(PK) AND entity.#revision = :expected_revision` -/
def hasRevision (revision : ℕ) : Option TemplateItem → Bool
  | some (.template record) => record.revision == revision
  | _ => false

/-- `template_id = :template_id` -/
def isOwnedBy (id : String) : Option TemplateItem → Bool
  | some (.owner templateId) => templateId == id
  | _ => false

/-- `attribute_not_exists(PK) OR template_id = :template_id` -/
def isFreeOrOwnedBy (id : String) (item : Option TemplateItem) : Bool :=
  isFree item || isOwnedBy id item

/-! ## Transactions -/

/-- The put of a template over the revision that was read. -/
def putRecord (record : TemplateRecord) (expectedRevision : ℕ) : TemplateWrite :=
  ⟨.template record.id, hasRevision expectedRevision, some (.template record)⟩

def createWrites (record : TemplateRecord) : List TemplateWrite :=
  ⟨.template record.id, isFree, some (.template record)⟩ ::
    record.draftAlias.toList.map fun a => ⟨.draftAlias a, isFree, some (.owner record.id)⟩

def replaceWrites (record : TemplateRecord) (previousAlias : Option String)
    (expectedRevision : ℕ) : List TemplateWrite :=
  [putRecord record expectedRevision] ++
    ((previousAlias.filter fun a => record.draftAlias != some a).toList.map fun a =>
      ⟨.draftAlias a, isOwnedBy record.id, none⟩) ++
    ((record.draftAlias.filter fun a => previousAlias != some a).toList.map fun a =>
      ⟨.draftAlias a, isFreeOrOwnedBy record.id, some (.owner record.id)⟩)

/-- The publications `publishTemplate` removes: all but the first `historyLimit - 1` listed. -/
def prune (p : Platform) (historyLimit : ℕ) (listing : List VersionKey) : List VersionKey :=
  (listing.insertionSort fun left right => p.localeCompare right.sortKey left.sortKey = true).drop
    (historyLimit - 1)

def removeVersions (templateId : String) (versions : List VersionKey) : List TemplateWrite :=
  versions.map fun version =>
    { key := .version templateId version.versionId, value := none }

def publishWrites (record : TemplateRecord) (publication : TemplatePublicationRecord)
    (pruned : List VersionKey) (previousPublishedAlias : Option String) (expectedRevision : ℕ) :
    List TemplateWrite :=
  [putRecord record expectedRevision,
    ⟨.version publication.templateId publication.id, isFree, some (.publication publication)⟩] ++
    removeVersions record.id pruned ++
    ((previousPublishedAlias.filter fun a => record.publishedAlias != some a).toList.map fun a =>
      ⟨.publishedAlias a, isFreeOrOwnedBy record.id, none⟩) ++
    (record.publishedAlias.toList.map fun a =>
      ⟨.publishedAlias a, isFreeOrOwnedBy record.id, some (.owner record.id)⟩)

def deleteWrites (record : TemplateRecord) (versions : List VersionKey) (expectedRevision : ℕ) :
    List TemplateWrite :=
  [⟨.template record.id, hasRevision expectedRevision, none⟩] ++
    (record.draftAlias.toList.map fun a => ⟨.draftAlias a, isOwnedBy record.id, none⟩) ++
    (record.publishedAlias.toList.map fun a =>
      ⟨.publishedAlias a, isFreeOrOwnedBy record.id, none⟩) ++
    removeVersions record.id versions

/-- `TransactWriteCommand`, of at most 100 items. -/
def send (t : TemplateTable) (interferes : Bool) (writes : List TemplateWrite) :
    Except TransactError TemplateTable :=
  OrderedMap.transact 100 interferes t writes

def validationException : Failure := .error "ValidationException"

/-- `createTemplate`; without an alias it is one put, with which no transaction interferes. -/
def createTemplate (t : TemplateTable) (interferes : Bool) (record : TemplateRecord) :
    Except Failure TemplateTable :=
  match t.send (interferes && record.draftAlias.isSome) (createWrites record) with
  | .ok t' => .ok t'
  | .error .canceled => .error aliasConflict
  | .error .invalid => .error validationException

/-- `replaceTemplate` -/
def replaceTemplate (t : TemplateTable) (interferes : Bool) (record : TemplateRecord)
    (previousAlias : Option String) (expectedRevision : ℕ) : Except Failure TemplateTable :=
  match t.send interferes (replaceWrites record previousAlias expectedRevision) with
  | .ok t' => .ok t'
  | .error .canceled => .error (.conflict
      "Template alias is already in use or the template changed concurrently.")
  | .error .invalid => .error validationException

/-- A transaction of `publishTemplate` or `deleteTemplate`, with what the service makes of it. -/
def sendOrConflict (t : TemplateTable) (interferes : Bool) (limit action : String)
    (writes : List TemplateWrite) : Except Failure TemplateTable :=
  if 100 < writes.length then
    .error (.conflict ("Template history exceeds the configured " ++ limit ++ " limit."))
  else match t.send interferes writes with
    | .ok t' => .ok t'
    | .error .canceled => .error (changedConcurrently action)
    | .error .invalid => .error validationException

/-- `publishTemplate`, after the listing. -/
def publishTemplate (p : Platform) (t : TemplateTable) (interferes : Bool)
    (record : TemplateRecord) (publication : TemplatePublicationRecord)
    (listing : List VersionKey) (previousPublishedAlias : Option String)
    (expectedRevision historyLimit : ℕ) : Except Failure TemplateTable :=
  t.sendOrConflict interferes "retention" "publish" (publishWrites record publication
    (prune p historyLimit listing) previousPublishedAlias expectedRevision)

/-- `deleteTemplate`, after the listing. -/
def deleteTemplate (t : TemplateTable) (interferes : Bool) (record : TemplateRecord)
    (listing : List VersionKey) (expectedRevision : ℕ) : Except Failure TemplateTable :=
  t.sendOrConflict interferes "deletion" "deletion" (deleteWrites record listing expectedRevision)

/-! ## What a transaction does -/

/-- **A write of one template**: it had the revision, and no other template or publication is
touched. -/
structure Commits (t t' : TemplateTable) (id : String) (revision : ℕ)
    (next : Option TemplateRecord) : Prop where
  found : ∃ r, t.getRecord id = some r ∧ r.revision = revision
  record : t'.getRecord id = next
  others : ∀ k, k ≠ id → t'.getRecord k = t.getRecord k
  versions : ∀ k, k ≠ id → ∀ v, t'.getTemplateVersion k v = t.getTemplateVersion k v

section Send

variable {t t' : TemplateTable} {interferes : Bool} {writes : List TemplateWrite} {id : String}
  {revision : ℕ} {record : TemplateRecord}

/-- A transaction that succeeds would succeed alone. -/
theorem send_alone (h : t.send interferes writes = .ok t') : t.send false writes = .ok t' := by
  obtain ⟨hvalid, -, hall, hwrites⟩ := OrderedMap.transact_eq_ok.mp h
  exact OrderedMap.transact_eq_ok.mpr ⟨hvalid, rfl, hall, hwrites⟩

theorem getRecord_send_of_notMem (h : t.send interferes writes = .ok t') {k : String}
    (hk : ∀ w ∈ writes, w.key ≠ .template k) : t'.getRecord k = t.getRecord k := by
  obtain ⟨-, -, -, rfl⟩ := OrderedMap.transact_eq_ok.mp h
  rw [getRecord, getRecord, OrderedMap.get_writeAll_of_notMem]
  intro hmem
  obtain ⟨w, hw, hkey⟩ := List.mem_map.mp hmem
  exact hk w hw hkey

theorem getTemplateVersion_send_of_notMem (h : t.send interferes writes = .ok t') {k v : String}
    (hk : ∀ w ∈ writes, w.key ≠ .version k v) :
    t'.getTemplateVersion k v = t.getTemplateVersion k v := by
  obtain ⟨-, -, -, rfl⟩ := OrderedMap.transact_eq_ok.mp h
  rw [getTemplateVersion, getTemplateVersion, OrderedMap.get_writeAll_of_notMem]
  intro hmem
  obtain ⟨w, hw, hkey⟩ := List.mem_map.mp hmem
  exact hk w hw hkey

theorem commits_of_send (h : t.send interferes writes = .ok t') {next : Option TemplateRecord}
    (hmem : ⟨.template id, hasRevision revision, next.map .template⟩ ∈ writes)
    (hof : ∀ w ∈ writes, w.key.IsOf id) : t.Commits t' id revision next := by
  refine ⟨?_, ?_, fun k hk => getRecord_send_of_notMem h fun w hw hkey => ?_,
    fun k hk v => getTemplateVersion_send_of_notMem h fun w hw hkey => ?_⟩
  · obtain ⟨-, -, hall, -⟩ := OrderedMap.transact_eq_ok.mp h
    have hcond := hall _ hmem
    simp only [getRecord]
    cases hget : t.get (.template id) with
    | none =>
      rw [hget] at hcond
      cases hcond
    | some item =>
      rw [hget] at hcond
      cases item with
      | template r => exact ⟨r, rfl, beq_iff_eq.mp hcond⟩
      | owner _ => cases hcond
      | publication _ => cases hcond
  · obtain ⟨⟨-, hnodup⟩, -, -, rfl⟩ := OrderedMap.transact_eq_ok.mp h
    have hget : (t.writeAll writes).get (.template id) = next.map .template :=
      OrderedMap.get_writeAll_of_mem hnodup hmem
    rw [getRecord, hget]
    cases next <;> rfl
  · have := hof w hw
    rw [hkey] at this
    exact hk this
  · have := hof w hw
    rw [hkey] at this
    exact hk this

/-- The revision that was read is replaced by the next record. -/
theorem replaceTemplate_spec {previousAlias : Option String}
    (h : t.replaceTemplate interferes record previousAlias revision = .ok t') :
    t.Commits t' record.id revision (some record) ∧
      (∀ k v, t'.getTemplateVersion k v = t.getTemplateVersion k v) ∧
      t.replaceTemplate false record previousAlias revision = .ok t' := by
  have hsend : t.send interferes (replaceWrites record previousAlias revision) = .ok t' := by
    unfold replaceTemplate at h
    split at h
    · rename_i t'' hsend
      exact hsend.trans (congrArg _ (Except.ok.inj h))
    · cases h
    · cases h
  refine ⟨commits_of_send hsend (List.mem_append_left _ (List.mem_append_left _
    (List.mem_singleton_self _))) ?_, fun k v => getTemplateVersion_send_of_notMem hsend ?_, ?_⟩
  · intro w hw
    simp only [replaceWrites, List.mem_append, List.mem_singleton, List.mem_map] at hw
    rcases hw with (rfl | ⟨a, -, rfl⟩) | ⟨a, -, rfl⟩
    · rfl
    · trivial
    · trivial
  · intro w hw
    simp only [replaceWrites, List.mem_append, List.mem_singleton, List.mem_map] at hw
    rcases hw with (rfl | ⟨a, -, rfl⟩) | ⟨a, -, rfl⟩ <;> nofun
  · rw [replaceTemplate, send_alone hsend]

theorem sendOrConflict_eq_ok {limit action : String}
    (h : t.sendOrConflict interferes limit action writes = .ok t') :
    t.send interferes writes = .ok t' ∧ t.sendOrConflict false limit action writes = .ok t' := by
  unfold sendOrConflict at h
  split_ifs at h with hlen
  split at h
  · rename_i t'' hsend
    have hsend := hsend.trans (congrArg _ (Except.ok.inj h))
    refine ⟨hsend, ?_⟩
    rw [sendOrConflict, if_neg hlen, send_alone hsend]
  · cases h
  · cases h

theorem publishTemplate_spec {p : Platform} {publication : TemplatePublicationRecord}
    {listing : List VersionKey} {previousPublishedAlias : Option String} {limit : ℕ}
    (hid : publication.templateId = record.id)
    (h : t.publishTemplate p interferes record publication listing previousPublishedAlias revision
      limit = .ok t') :
    t.Commits t' record.id revision (some record) ∧
      t'.getTemplateVersion record.id publication.id = some publication ∧
      t.publishTemplate p false record publication listing previousPublishedAlias revision limit =
        .ok t' := by
  obtain ⟨hsend, halone⟩ := sendOrConflict_eq_ok h
  refine ⟨commits_of_send hsend ?_ ?_, ?_, halone⟩
  · simp [publishWrites, putRecord]
  · intro w hw
    simp only [publishWrites, removeVersions, List.mem_append, List.mem_cons, List.mem_map,
      List.not_mem_nil, or_false] at hw
    rcases hw with (((rfl | rfl) | ⟨v, -, rfl⟩) | ⟨a, -, rfl⟩) | ⟨a, -, rfl⟩
    · rfl
    · exact hid
    · rfl
    · trivial
    · trivial
  · obtain ⟨⟨-, hnodup⟩, -, -, rfl⟩ := OrderedMap.transact_eq_ok.mp hsend
    have hget := OrderedMap.get_writeAll_of_mem (m := t) hnodup
      (w := ⟨.version publication.templateId publication.id, isFree,
        some (.publication publication)⟩) (by simp [publishWrites])
    rw [getTemplateVersion, ← hid, hget]

theorem deleteTemplate_spec {listing : List VersionKey}
    (h : t.deleteTemplate interferes record listing revision = .ok t') :
    t.Commits t' record.id revision none ∧
      t.deleteTemplate false record listing revision = .ok t' := by
  obtain ⟨hsend, halone⟩ := sendOrConflict_eq_ok h
  refine ⟨commits_of_send hsend ?_ ?_, halone⟩
  · simp [deleteWrites]
  · intro w hw
    simp only [deleteWrites, removeVersions, List.mem_append, List.mem_singleton,
      List.mem_map] at hw
    rcases hw with ((rfl | ⟨a, -, rfl⟩) | ⟨a, -, rfl⟩) | ⟨v, -, rfl⟩
    · rfl
    · trivial
    · trivial
    · rfl

/-- A template is created under a free id. -/
theorem createTemplate_spec (h : t.createTemplate interferes record = .ok t') :
    (t'.getRecord record.id = some record ∧
      ∀ k, k ≠ record.id → t'.getRecord k = t.getRecord k) ∧
      (∀ k v, t'.getTemplateVersion k v = t.getTemplateVersion k v) ∧
      t.createTemplate false record = .ok t' := by
  have hsend : t.send (interferes && record.draftAlias.isSome) (createWrites record) = .ok t' := by
    unfold createTemplate at h
    split at h
    · rename_i t'' hsend
      exact hsend.trans (congrArg _ (Except.ok.inj h))
    · cases h
    · cases h
  refine ⟨⟨?_, fun k hk => getRecord_send_of_notMem hsend ?_⟩,
    fun k v => getTemplateVersion_send_of_notMem hsend ?_, ?_⟩
  · obtain ⟨⟨-, hnodup⟩, -, -, rfl⟩ := OrderedMap.transact_eq_ok.mp hsend
    have hget := OrderedMap.get_writeAll_of_mem (m := t) hnodup
      (w := ⟨.template record.id, isFree, some (.template record)⟩) List.mem_cons_self
    rw [getRecord, hget]
  · intro w hw
    simp only [createWrites, List.mem_cons, List.mem_map] at hw
    rcases hw with rfl | ⟨a, -, rfl⟩
    · exact fun hkey => hk (TemplateKey.template.inj hkey).symm
    · nofun
  · intro w hw
    simp only [createWrites, List.mem_cons, List.mem_map] at hw
    rcases hw with rfl | ⟨a, -, rfl⟩ <;> nofun
  · rw [createTemplate, Bool.false_and, send_alone hsend]

end Send

end TemplateTable

end HayaSend
