import HayaSend.Foundations.SecondaryIndex
import HayaSend.Services.TemplateVersions

/-!
# Templates in the in-memory store

The template maps of `MemoryStore` and their operations. Each map of aliases is a secondary index
of the templates: `templateAliases` of the aliases of the drafts, `publishedTemplateAliases` of
those of the published versions (`TemplateStore.Registered`). A write is given the alias that its
caller read, and keeps the indexes exact when that is the alias of the stored template.
-/

namespace HayaSend

inductive TemplatePublicationSource
  | api
  | cli
  deriving DecidableEq, Repr

structure TemplatePublicationActor where
  id : String
  name : String
  deriving DecidableEq, Repr

structure TemplatePublicationRecord where
  id : String
  templateId : String
  version : TemplateVersion
  publishedAt : ℕ
  expiresAt : ℕ
  actor : TemplatePublicationActor
  source : TemplatePublicationSource
  sourceVersionId : Option String := none
  deriving DecidableEq, Repr

/-- The template maps of `MemoryStore`. -/
structure TemplateStore where
  templates : OrderedMap String TemplateRecord := ∅
  templateAliases : OrderedMap String String := ∅
  publishedTemplateAliases : OrderedMap String String := ∅
  templateVersions : OrderedMap String (OrderedMap String TemplatePublicationRecord) := ∅
  deriving DecidableEq

namespace TemplateRecord

/-- `draft.alias` -/
def draftAlias (record : TemplateRecord) : Option String := record.draft.alias_

/-- `published?.alias` -/
def publishedAlias (record : TemplateRecord) : Option String := record.published.bind (·.alias_)

/-! ## Records that were read

Templates are looked up by `get`, before and after a write by `get'`. -/

/-- What a template that was read knows of the stored one. -/
def Snapshot (r : TemplateRecord) (get : String → Option TemplateRecord) : Prop :=
  ∀ current, get r.id = some current →
    r.revision ≤ current.revision ∧ (current.revision = r.revision → current = r)

/-- The templates after a write: stored before, of a later revision, or under the given id. -/
def Evolves (get get' : String → Option TemplateRecord) (fresh : String) : Prop :=
  ∀ k r', get' k = some r' → get k = some r' ∨
    (∃ r, get k = some r ∧ r.revision < r'.revision) ∨ k = fresh

section Snapshot

variable {get get' : String → Option TemplateRecord} {r : TemplateRecord} {fresh : String}

theorem Evolves.refl : Evolves get get fresh := fun _ _ h => .inl h

/-- A template that is stored is a snapshot of itself. -/
theorem Snapshot.of_get (h : get r.id = some r) : Snapshot r get := by
  intro current hcurrent
  obtain rfl := Option.some.inj (h.symm.trans hcurrent)
  exact ⟨le_rfl, fun _ => rfl⟩

/-- A snapshot of another template, or of an earlier one, stays one. -/
theorem Snapshot.evolves (h : Snapshot r get) (he : Evolves get get' fresh) (hid : r.id ≠ fresh) :
    Snapshot r get' := by
  intro current hcurrent
  rcases he _ _ hcurrent with hsame | ⟨earlier, hearlier, hlt⟩ | hfresh
  · exact h current hsame
  · have hle := (h earlier hearlier).1
    exact ⟨by omega, by omega⟩
  · exact absurd hfresh hid

end Snapshot

end TemplateRecord

/-! ## Publications -/

def aliasConflict : Failure := .conflict "Template alias is already in use."

/-- Whether a publication stands before another one in the history: the later one first, and the
one with the later id first among those of one time. -/
def publishedBefore (p : Platform) (left right : TemplatePublicationRecord) : Bool :=
  let leftTime := toISOString left.publishedAt
  let rightTime := toISOString right.publishedAt
  if p.localeCompare rightTime leftTime && p.localeCompare leftTime rightTime then
    p.localeCompare right.id left.id
  else p.localeCompare rightTime leftTime

/-- The history in its order. -/
def sortPublications (p : Platform) (versions : List TemplatePublicationRecord) :
    List TemplatePublicationRecord :=
  versions.insertionSort fun left right => publishedBefore p left right = true

namespace TemplateStore

/-! ## Operations -/

/-- Another template has the alias. -/
def ownedByOther (aliases : OrderedMap String String) (alias_ : Option String) (id : String) :
    Bool :=
  ((alias_.bind aliases.get).any (· != id))

/-- `createTemplate` -/
def createTemplate (s : TemplateStore) (record : TemplateRecord) : Except Failure TemplateStore :=
  if s.templates.has record.id || record.draftAlias.any s.templateAliases.has then
    .error aliasConflict
  else .ok { s with
    templates := s.templates.set record.id record
    templateAliases := s.templateAliases.reindex none record.draftAlias record.id }

/-- `getTemplate` -/
def getTemplate (s : TemplateStore) (identifier : String) : Option TemplateRecord :=
  let id := if s.templates.has identifier then some identifier
    else s.templateAliases.get identifier
  (id.filter (· != "")).bind s.templates.get

/-- `getPublishedTemplate` -/
def getPublishedTemplate (s : TemplateStore) (identifier : String) : Option TemplateRecord :=
  let id := if s.templates.has identifier then some identifier
    else s.publishedTemplateAliases.get identifier
  let draftCandidate :=
    ((s.templateAliases.get identifier).filter (· != "")).bind s.templates.get
  ((id.filter (· != "")).bind s.templates.get).or
    ((draftCandidate.filter fun candidate =>
        candidate.published.isNone || candidate.publishedAlias == some identifier).or
      (s.templates.values.find? fun candidate => candidate.publishedAlias == some identifier))

/-- `replaceTemplate` -/
def replaceTemplate (s : TemplateStore) (record : TemplateRecord) (previousAlias : Option String)
    (expectedRevision : ℕ) : Except Failure (TemplateStore × Bool) :=
  match s.templates.get record.id with
  | none => .ok (s, false)
  | some current =>
    if current.revision ≠ expectedRevision then .ok (s, false)
    else if ownedByOther s.templateAliases record.draftAlias record.id then .error aliasConflict
    else .ok ({ s with
      templates := s.templates.set record.id record
      templateAliases := s.templateAliases.reindex previousAlias record.draftAlias record.id },
      true)

/-- The history of a template. -/
def versionsOf (s : TemplateStore) (templateId : String) :
    OrderedMap String TemplatePublicationRecord :=
  (s.templateVersions.get templateId).getD ∅

/-- `publishTemplate` -/
def publishTemplate (p : Platform) (s : TemplateStore) (record : TemplateRecord)
    (publication : TemplatePublicationRecord) (previousPublishedAlias : Option String)
    (expectedRevision historyLimit : ℕ) : Except Failure (TemplateStore × Bool) :=
  match s.templates.get record.id with
  | none => .ok (s, false)
  | some current =>
    if current.revision ≠ expectedRevision ∨ publication.templateId ≠ record.id ∨
        publication.id ≠ publication.version.id then .ok (s, false)
    else if (s.versionsOf record.id).has publication.id then .ok (s, false)
    else if ownedByOther s.publishedTemplateAliases record.publishedAlias record.id then
      .error aliasConflict
    else
      let retained := (sortPublications p ((s.versionsOf record.id).values ++ [publication])).take
        historyLimit
      .ok ({ s with
        templates := s.templates.set record.id record
        publishedTemplateAliases := s.publishedTemplateAliases.reindex previousPublishedAlias
          record.publishedAlias record.id
        templateVersions := s.templateVersions.set record.id
          (OrderedMap.ofList (retained.map fun version => (version.id, version))) }, true)

/-- `getTemplateVersion` -/
def getTemplateVersion (s : TemplateStore) (templateId versionId : String) :
    Option TemplatePublicationRecord :=
  (s.versionsOf templateId).get versionId

/-- `deleteTemplate` -/
def deleteTemplate (s : TemplateStore) (record : TemplateRecord) (expectedRevision : ℕ) :
    TemplateStore × Bool :=
  match s.templates.get record.id with
  | none => (s, false)
  | some current =>
    if current.revision ≠ expectedRevision then (s, false)
    else ({
      templates := s.templates.erase record.id
      templateAliases := s.templateAliases.reindex current.draftAlias none record.id
      publishedTemplateAliases :=
        s.publishedTemplateAliases.reindex current.publishedAlias none record.id
      templateVersions := s.templateVersions.erase record.id }, true)

/-! ## The indexes -/

/-- An identifier that the service draws for a template. -/
def IsTemplateId (id : String) : Prop := "tmpl_".toList <+: id.toList

/-- A template with its own kind of id and valid aliases. -/
structure WellFormed (r : TemplateRecord) : Prop where
  id : IsTemplateId r.id
  draft : ∀ a, r.draftAlias = some a → isAlias a = true
  published : ∀ a, r.publishedAlias = some a → isAlias a = true

/-- The templates of the stores before and after a write. -/
def EvolvesTo (s s' : TemplateStore) (fresh : String) : Prop :=
  TemplateRecord.Evolves s.templates.get s'.templates.get fresh

/-- Both maps of aliases are exact. -/
structure Registered (s : TemplateStore) : Prop where
  stored : ∀ k r, s.templates.get k = some r → r.id = k ∧ WellFormed r
  drafts : s.templates.IsIndex TemplateRecord.draftAlias s.templateAliases
  published : s.templates.IsIndex TemplateRecord.publishedAlias s.publishedTemplateAliases

variable {s s' : TemplateStore} {record r : TemplateRecord} {fresh : String}

theorem registered_empty : Registered {} :=
  ⟨fun _ _ h => (by cases h), .empty, .empty⟩

theorem not_isAlias_of_isTemplateId {id : String} (h : IsTemplateId id) : isAlias id = false := by
  have hprefix : "tmpl_".toList.isPrefixOf id.toList = true := List.isPrefixOf_iff_prefix.mpr h
  rw [isAlias, hprefix, Bool.not_true, Bool.false_and, Bool.false_and, Bool.false_and]

theorem ne_empty_of_isTemplateId {id : String} (h : IsTemplateId id) : (id != "") = true := by
  rw [bne_iff_ne]
  rintro rfl
  exact absurd (List.prefix_nil.mp h) (by decide)

/-- An alias with no other owner is free or the template's own. -/
theorem free_of_not_ownedByOther {aliases : OrderedMap String String} {alias_ : Option String}
    {id : String} (h : ownedByOther aliases alias_ id = false) (a : String) (ha : alias_ = some a)
    (k : String) (hk : aliases.get a = some k) : k = id := by
  simpa [ownedByOther, ha, hk] using h

namespace Registered

/-- The draft index after a template is written. -/
theorem write (h : s.Registered) (hrecord : WellFormed record)
    {aliases publishedAliases : OrderedMap String String}
    (hdrafts : (s.templates.set record.id record).IsIndex TemplateRecord.draftAlias aliases)
    (hpublished : (s.templates.set record.id record).IsIndex TemplateRecord.publishedAlias
      publishedAliases)
    {versions : OrderedMap String (OrderedMap String TemplatePublicationRecord)} :
    Registered ⟨s.templates.set record.id record, aliases, publishedAliases, versions⟩ := by
  refine ⟨fun k r hr => ?_, hdrafts, hpublished⟩
  rw [OrderedMap.get_set] at hr
  split_ifs at hr with hk
  · obtain rfl := Option.some.inj hr
    exact ⟨hk.symm, hrecord⟩
  · exact h.stored k r hr

/-- **A template is created.** -/
theorem createTemplate (h : s.Registered) (hrecord : WellFormed record)
    (hunpublished : record.published = none) (hs : s.createTemplate record = .ok s') :
    s'.Registered ∧ s.EvolvesTo s' record.id := by
  unfold TemplateStore.createTemplate at hs
  split_ifs at hs with hused
  rw [Except.ok.injEq] at hs
  subst hs
  simp only [Bool.or_eq_true, not_or, Bool.not_eq_true] at hused
  obtain ⟨hid, halias⟩ := hused
  rw [← OrderedMap.get_eq_none_iff] at hid
  have hdrafts := h.drafts.set (r := record) (k := record.id) (by rw [hid, Option.bind_none])
      fun a ha k hk => by
    rw [ha, Option.any_some, ← OrderedMap.get_eq_none_iff, hk] at halias
    cases halias
  have hpublished := h.published.set (r := record) (k := record.id)
    (by rw [hid, Option.bind_none]) fun a ha => by
      rw [TemplateRecord.publishedAlias, hunpublished] at ha
      cases ha
  have hnone : record.publishedAlias = none := by rw [TemplateRecord.publishedAlias, hunpublished]; rfl
  rw [hnone] at hpublished
  refine ⟨h.write hrecord hdrafts hpublished, fun k r' hr' => ?_⟩
  rw [OrderedMap.get_set] at hr'
  split_ifs at hr' with hk
  · exact .inr (.inr hk)
  · exact .inl hr'

/-- A write of the next revision of a stored template. -/
theorem evolves_set {current : TemplateRecord}
    (hcurrent : s.templates.get record.id = some current)
    (hrevision : record.revision = current.revision + 1)
    (hs : s'.templates = s.templates.set record.id record) : s.EvolvesTo s' fresh := by
  intro k r' hr'
  rw [hs, OrderedMap.get_set] at hr'
  split_ifs at hr' with hk
  · obtain rfl := Option.some.inj hr'
    exact .inr (.inl ⟨current, hk ▸ hcurrent, by omega⟩)
  · exact .inl hr'

/-- **A draft is replaced** by a caller that read the template. -/
theorem replaceTemplate (h : s.Registered) (hr : r.Snapshot s.templates.get)
    (hrecord : WellFormed record) (hid : record.id = r.id) (hpublished : record.published = r.published)
    (hrevision : record.revision = r.revision + 1)
    (hs : s.replaceTemplate record r.draftAlias r.revision = .ok (s', true)) :
    s'.Registered ∧ s.EvolvesTo s' fresh := by
  unfold TemplateStore.replaceTemplate at hs
  split at hs
  · cases hs
  · rename_i current hcurrent
    split_ifs at hs with hstale howned
    · cases hs
    · rw [Except.ok.injEq, Prod.mk.injEq] at hs
      obtain ⟨rfl, -⟩ := hs
      obtain rfl := (hr current (hid ▸ hcurrent)).2 (not_not.mp hstale)
      have hdrafts := h.drafts.set (r := record) (by rw [hcurrent, Option.bind_some])
        (free_of_not_ownedByOther (Bool.not_eq_true _ ▸ howned))
      have hpublished := h.published.set_same hcurrent
        (show record.publishedAlias = current.publishedAlias by
          rw [TemplateRecord.publishedAlias, hpublished, TemplateRecord.publishedAlias])
      exact ⟨h.write hrecord hdrafts hpublished, evolves_set hcurrent hrevision rfl⟩

/-- **A draft is published** by a caller that read the template. -/
theorem publishTemplate (h : s.Registered) (hr : r.Snapshot s.templates.get)
    (hrecord : WellFormed record) (hid : record.id = r.id) (hdraft : record.draft = r.draft)
    (hrevision : record.revision = r.revision + 1) {p : Platform}
    {publication : TemplatePublicationRecord} {limit : ℕ}
    (hs : s.publishTemplate p record publication r.publishedAlias r.revision limit =
      .ok (s', true)) :
    s'.Registered ∧ s.EvolvesTo s' fresh := by
  unfold TemplateStore.publishTemplate at hs
  split at hs
  · cases hs
  · rename_i current hcurrent
    split_ifs at hs with hstale hpresent howned
    · cases hs
    · cases hs
    · rw [Except.ok.injEq, Prod.mk.injEq] at hs
      obtain ⟨rfl, -⟩ := hs
      obtain rfl := (hr current (hid ▸ hcurrent)).2 (by
        by_contra hne
        exact hstale (.inl hne))
      have hpublished := h.published.set (r := record) (by rw [hcurrent, Option.bind_some])
        (free_of_not_ownedByOther (Bool.not_eq_true _ ▸ howned))
      have hdrafts := h.drafts.set_same hcurrent
        (show record.draftAlias = current.draftAlias by
          rw [TemplateRecord.draftAlias, hdraft, TemplateRecord.draftAlias])
      exact ⟨h.write hrecord hdrafts hpublished, evolves_set hcurrent hrevision rfl⟩

/-- **A template is deleted.** -/
theorem deleteTemplate (h : s.Registered) {expectedRevision : ℕ}
    (hs : s.deleteTemplate record expectedRevision = (s', true)) :
    s'.Registered ∧ s.EvolvesTo s' fresh := by
  unfold TemplateStore.deleteTemplate at hs
  split at hs
  · cases hs
  · rename_i current hcurrent
    split_ifs at hs
    · cases hs
    · rw [Prod.mk.injEq] at hs
      obtain ⟨rfl, -⟩ := hs
      have hkept : ∀ k r, (s.templates.erase record.id).get k = some r →
          s.templates.get k = some r := by
        intro k r hr
        rw [OrderedMap.get_erase] at hr
        split_ifs at hr
        exact hr
      refine ⟨⟨fun k r hr => h.stored k r (hkept k r hr), ?_, ?_⟩, fun k r hr => .inl (hkept k r hr)⟩
      · exact h.drafts.erase (by rw [hcurrent, Option.bind_some])
      · exact h.published.erase (by rw [hcurrent, Option.bind_some])

/-- A template that is read is stored under its id. -/
theorem getTemplate (h : s.Registered) {identifier : String}
    (hr : s.getTemplate identifier = some r) : s.templates.get r.id = some r ∧ WellFormed r := by
  obtain ⟨k, -, hk⟩ := Option.bind_eq_some_iff.mp hr
  obtain ⟨rfl, hwell⟩ := h.stored k r hk
  exact ⟨hk, hwell⟩

/-- **What an alias resolves to**: the template that publishes it, or else one that publishes
nothing. -/
theorem getPublishedTemplate (h : s.Registered) {a : String} (ha : isAlias a = true) :
    (∃ r, s.templates.get r.id = some r ∧ r.publishedAlias = some a ∧
      s.getPublishedTemplate a = some r) ∨
    (∀ k r, s.templates.get k = some r → r.publishedAlias ≠ some a) ∧
      ∀ r, s.getPublishedTemplate a = some r → r.published = none := by
  have hno : s.templates.has a = false := by
    rw [← OrderedMap.get_eq_none_iff]
    cases hget : s.templates.get a with
    | none => rfl
    | some r =>
      obtain ⟨rfl, hr⟩ := h.stored a r hget
      rw [not_isAlias_of_isTemplateId hr.id] at ha
      cases ha
  cases hindex : s.publishedTemplateAliases.get a with
  | some k =>
    obtain ⟨r, hr, hra⟩ := (h.published a k).mp hindex
    obtain ⟨rfl, hwell⟩ := h.stored k r hr
    refine .inl ⟨r, hr, hra, ?_⟩
    simp only [TemplateStore.getPublishedTemplate, hno, Bool.false_eq_true, if_false, hindex,
      Option.filter_some, ne_empty_of_isTemplateId hwell.id, if_true, Option.bind_some, hr,
      Option.some_or]
  | none =>
    have hunpublished : ∀ k r, s.templates.get k = some r → r.publishedAlias ≠ some a := by
      intro k r hr hra
      rw [(h.published a k).mpr ⟨r, hr, hra⟩] at hindex
      cases hindex
    refine .inr ⟨hunpublished, fun r hr => ?_⟩
    simp only [TemplateStore.getPublishedTemplate, hno, Bool.false_eq_true, if_false, hindex,
      Option.filter_none, Option.bind_none, Option.none_or, Option.or_eq_some_iff] at hr
    rcases hr with hr | ⟨-, hr⟩
    · obtain ⟨hr, hcandidate⟩ := Option.filter_eq_some_iff.mp hr
      obtain ⟨k, -, hk⟩ := Option.bind_eq_some_iff.mp hr
      simpa [hunpublished k r hk] using hcandidate
    · -- no template publishes the alias
      have hra := List.find?_some hr
      obtain ⟨k, hk⟩ := (OrderedMap.mem_values_iff _ _).mp (List.mem_of_find?_eq_some hr)
      exact absurd (beq_iff_eq.mp hra) (hunpublished k r hk)

end Registered

end TemplateStore

end HayaSend
