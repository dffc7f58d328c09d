import HayaSend.Adapters.DynamoTemplates
import HayaSend.Foundations.StableSort
import Mathlib.Logic.Relation

/-!
# Publication histories

The history of a template keeps at most so many publications, and the three stores shorten it in
three ways. `MemoryStore` and `PostgresStore` sort all publications, the new one among them, by their
times and ids, and keep the first; `DynamoStore` keeps the first but one of those it listed, and the
new one. A clock that stands still or goes back puts a new publication behind older ones, so that the
first two stores may drop the publication they were called with (`publication_kept_iff`).
-/

namespace HayaSend

/-! ## PostgreSQL -/

/-- The rows of templates, aliases and publications in `app_entities` and `template_aliases`. The
scope and the creation time of a publication's row are its template and its time. -/
structure PostgresTemplates where
  templates : OrderedMap String TemplateRecord := ∅
  publishedAliases : OrderedMap String String := ∅
  publications : OrderedMap String TemplatePublicationRecord := ∅
  deriving DecidableEq

/-- `ORDER BY created_at DESC, id DESC`, in the order of the database for texts. -/
def createdBefore (collate : String → String → Bool) (left right : TemplatePublicationRecord) :
    Bool :=
  decide (right.publishedAt < left.publishedAt) ||
    (decide (right.publishedAt = left.publishedAt) && collate right.id left.id)

namespace PostgresTemplates

/-- The publications of a template. -/
def history (t : PostgresTemplates) (templateId : String) : List TemplatePublicationRecord :=
  t.publications.values.filter fun publication => publication.templateId == templateId

/-- The publications a template has beyond its history. -/
def dropped (collate : String → String → Bool) (t : PostgresTemplates) (templateId : String)
    (historyLimit : ℕ) : List TemplatePublicationRecord :=
  ((t.history templateId).insertionSort fun left right =>
    createdBefore collate left right = true).drop historyLimit

/-- `publishTemplate`, a transaction that holds the row of the template. -/
def publishTemplate (collate : String → String → Bool) (t : PostgresTemplates)
    (record : TemplateRecord) (publication : TemplatePublicationRecord)
    (previousPublishedAlias : Option String) (expectedRevision historyLimit : ℕ) :
    Except Failure (PostgresTemplates × Bool) :=
  match t.templates.get record.id with
  | none => .ok (t, false)
  | some current =>
    if current.revision ≠ expectedRevision ∨ publication.templateId ≠ record.id ∨
        publication.id ≠ publication.version.id then .ok (t, false)
    else if t.publications.has publication.id then .ok (t, false)
    else
      let nextAlias := record.publishedAlias
      let released := t.publishedAliases.eraseWhere fun alias_ id =>
        previousPublishedAlias == some alias_ && nextAlias != some alias_ && id == record.id
      if (nextAlias.bind released.get).any (· != record.id) then .error aliasConflict
      else
        let inserted := { t with
          publications := t.publications.set publication.id publication }
        let dropped := (inserted.dropped collate record.id historyLimit).map (·.id)
        .ok ({
          templates := t.templates.set record.id record
          publishedAliases := match nextAlias with
            | some alias_ => released.set alias_ record.id
            | none => released
          publications := inserted.publications.eraseWhere fun id _ => dropped.contains id }, true)

/-- `getTemplateVersion` -/
def getTemplateVersion (t : PostgresTemplates) (templateId versionId : String) :
    Option TemplatePublicationRecord :=
  (t.publications.get versionId).filter fun version => version.templateId == templateId

end PostgresTemplates

/-! ## The history of a template in the other stores -/

/-- The publications of a template. -/
def TemplateStore.history (s : TemplateStore) (templateId : String) :
    List TemplatePublicationRecord :=
  (s.versionsOf templateId).values

/-- The publications of a template. -/
def TemplateTable.history (t : TemplateTable) (templateId : String) :
    List TemplatePublicationRecord :=
  t.entries.filterMap fun
    | (.version id _, .publication publication) => if id = templateId then some publication else none
    | _ => none

/-- What the history has to hold after a publication. -/
structure KeepsPublished (history : List TemplatePublicationRecord)
    (retrieved : Option TemplatePublicationRecord) (publication : TemplatePublicationRecord)
    (limit : ℕ) : Prop where
  retrievable : retrieved = some publication
  bounded : history.length ≤ limit
  once : (history.map (·.id)).Nodup

/-! ## Orders of publications -/

/-- A comparison of texts, as a total preorder. -/
structure TextOrder (le : String → String → Bool) : Prop where
  total : ∀ a b, le a b = true ∨ le b a = true
  trans : ∀ a b c, le a b = true → le b c = true → le a c = true

theorem total_publishedBefore {p : Platform} (h : TextOrder p.localeCompare) :
    Std.Total fun left right => publishedBefore p left right = true := by
  refine ⟨fun x y => ?_⟩
  simp only [publishedBefore, Bool.and_comm (p.localeCompare (toISOString x.publishedAt) _)]
  split_ifs
  · exact h.total _ _
  · exact h.total _ _

theorem trans_publishedBefore {p : Platform} (h : TextOrder p.localeCompare) :
    IsTrans TemplatePublicationRecord fun left right => publishedBefore p left right = true := by
  refine ⟨fun x y z hxy hyz => ?_⟩
  have htrans := h.trans
  simp only [publishedBefore] at *
  grind

theorem total_createdBefore {collate : String → String → Bool} (h : TextOrder collate) :
    Std.Total fun left right => createdBefore collate left right = true := by
  refine ⟨fun x y => ?_⟩
  have := h.total x.id y.id
  simp only [createdBefore, Bool.or_eq_true, Bool.and_eq_true, decide_eq_true_eq]
  grind

theorem trans_createdBefore {collate : String → String → Bool} (h : TextOrder collate) :
    IsTrans TemplatePublicationRecord fun left right => createdBefore collate left right = true := by
  refine ⟨fun x y z hxy hyz => ?_⟩
  have := h.trans z.id y.id x.id
  simp only [createdBefore, Bool.or_eq_true, Bool.and_eq_true, decide_eq_true_eq] at *
  grind

/-! ## Histories and lookups -/

/-- The publications of a store are found by their templates and their own ids. -/
def VersionsKeyed (get : String → String → Option TemplatePublicationRecord) : Prop :=
  ∀ k v r, get k v = some r → r.id = v ∧ r.templateId = k

/-- The history of a template lists what is found under its id. -/
def Lists (history : String → List TemplatePublicationRecord)
    (get : String → String → Option TemplatePublicationRecord) : Prop :=
  ∀ k, ((history k).map (·.id)).Nodup ∧ ∀ r, r ∈ history k ↔ get k r.id = some r

namespace TemplateStore

variable {p : Platform} {s s' : TemplateStore}

theorem lists_history (h : VersionsKeyed s.getTemplateVersion) :
    Lists s.history s.getTemplateVersion := by
  intro k
  refine ⟨?_, fun r => ?_⟩
  · rw [history, OrderedMap.map_values_eq_keys fun v r hr => (h k v r hr).1]
    exact (s.versionsOf k).nodup
  · rw [history, OrderedMap.mem_values_iff]
    constructor
    · rintro ⟨v, hv⟩
      obtain ⟨rfl, -⟩ := h k v r hv
      exact hv
    · exact fun hr => ⟨r.id, hr⟩

theorem publishTemplate_history (h : VersionsKeyed s.getTemplateVersion)
    {record : TemplateRecord} {publication : TemplatePublicationRecord} {previous : Option String}
    {revision limit : ℕ}
    (hs : s.publishTemplate p record publication previous revision limit = .ok (s', true)) :
    ((s.history record.id ++ [publication]).map (·.id)).Nodup ∧
      publication.templateId = record.id ∧
      (∀ k, k ≠ record.id → s'.versionsOf k = s.versionsOf k) ∧
      s'.versionsOf record.id = OrderedMap.ofList (((sortPublications p
        (s.history record.id ++ [publication])).take limit).map fun r => (r.id, r)) := by
  unfold TemplateStore.publishTemplate at hs
  split at hs
  · cases hs
  · split_ifs at hs with hrefused hpresent howned
    · cases hs
    · cases hs
    · rw [Except.ok.injEq, Prod.mk.injEq] at hs
      obtain ⟨rfl, -⟩ := hs
      obtain ⟨hnodup, hmem⟩ := lists_history h record.id
      refine ⟨?_, ?_, fun k hk => ?_, ?_⟩
      · rw [List.map_append, List.nodup_append']
        refine ⟨hnodup, List.nodup_singleton _, ?_⟩
        rw [List.map_singleton, List.disjoint_singleton]
        intro hid
        obtain ⟨r, hr, hrid⟩ := List.mem_map.mp hid
        refine hpresent ((OrderedMap.has_eq_true_iff _ _).mpr ⟨r, ?_⟩)
        rw [← hrid]
        exact (hmem r).mp hr
      · by_contra hne
        exact hrefused (.inr (.inl hne))
      · rw [versionsOf, OrderedMap.get_set_ne _ _ hk, versionsOf]
      · rw [versionsOf, OrderedMap.get_set_self]
        rfl

end TemplateStore

/-- The first of a sorted history keep a publication that was appended. -/
theorem mem_retained_iff {r : TemplatePublicationRecord → TemplatePublicationRecord → Bool}
    (htotal : Std.Total fun x y => r x y = true)
    (htrans : IsTrans TemplatePublicationRecord fun x y => r x y = true)
    {history : List TemplatePublicationRecord} {publication : TemplatePublicationRecord}
    (h : ((history ++ [publication]).map (·.id)).Nodup) (limit : ℕ) :
    publication ∈ ((history ++ [publication]).insertionSort fun x y => r x y = true).take limit ↔
      (history.countP fun x => r x publication) < limit := by
  rw [mem_take_insertionSort_concat (r := fun x y => r x y = true) (List.Nodup.of_map _ h)]
  simp only [Bool.decide_eq_true]

/-- In a list of distinct ids, the first entries are those whose ids are not among the others. -/
theorem mem_take_iff_notMem_drop {publications : List TemplatePublicationRecord} {n : ℕ}
    (h : (publications.map (·.id)).Nodup) {r : TemplatePublicationRecord}
    (hr : r ∈ publications) :
    r ∈ publications.take n ↔ r.id ∉ (publications.drop n).map (·.id) := by
  rw [← List.take_append_drop n publications, List.map_append, List.nodup_append'] at h
  constructor
  · exact fun hmem => List.disjoint_left.mp h.2.2 (List.mem_map_of_mem hmem)
  · intro hnot
    rw [← List.take_append_drop n publications] at hr
    exact (List.mem_append.mp hr).resolve_right fun hmem => hnot (List.mem_map_of_mem hmem)

namespace TemplateStore

variable {p : Platform} {s s' : TemplateStore}

/-- **What `MemoryStore` retains.** -/
theorem publishTemplate_keeps_iff (hp : TextOrder p.localeCompare)
    (h : VersionsKeyed s.getTemplateVersion) {record : TemplateRecord}
    {publication : TemplatePublicationRecord} {previous : Option String} {revision limit : ℕ}
    (hs : s.publishTemplate p record publication previous revision limit = .ok (s', true)) :
    VersionsKeyed s'.getTemplateVersion ∧
      (KeepsPublished (s'.history record.id)
        (s'.getTemplateVersion record.id publication.id) publication limit ↔
        ((s.history record.id).countP fun r => publishedBefore p r publication) < limit) := by
  obtain ⟨hnodup, htemplate, hothers, hversions⟩ := publishTemplate_history h hs
  have hsorted := List.perm_insertionSort
    (fun left right => publishedBefore p left right = true) (s.history record.id ++ [publication])
  generalize hretained : (sortPublications p (s.history record.id ++ [publication])).take limit =
    retained at hversions
  have hsub : ∀ r ∈ retained, r ∈ s.history record.id ++ [publication] := fun r hr =>
    hsorted.mem_iff.mp (List.mem_of_mem_take (hretained ▸ hr))
  have hids : (retained.map (·.id)).Nodup := by
    rw [← hretained, List.map_take]
    exact ((hsorted.map (·.id)).nodup_iff.mpr hnodup).sublist (List.take_sublist _ _)
  have hkeys : ((retained.map fun r => (r.id, r)).map Prod.fst).Nodup := by
    rw [List.map_map]
    exact hids
  have hentries : (s'.versionsOf record.id).entries = retained.map fun r => (r.id, r) := by
    rw [hversions, OrderedMap.entries_ofList hkeys]
  have hhistory : s'.history record.id = retained := by
    rw [history, OrderedMap.values, hentries, List.map_map]
    exact List.map_id _
  have hget : ∀ r, s'.getTemplateVersion record.id r.id = some r ↔ r ∈ retained := by
    intro r
    rw [getTemplateVersion, OrderedMap.get_eq_some_iff, hentries, List.mem_map]
    constructor
    · rintro ⟨r', hr', heq⟩
      obtain rfl := (Prod.mk.inj heq).2
      exact hr'
    · exact fun hr => ⟨r, hr, rfl⟩
  refine ⟨fun k v r hr => ?_, ?_⟩
  · by_cases hk : k = record.id
    · subst hk
      have hentry := (OrderedMap.get_eq_some_iff _ _ _).mp hr
      rw [hentries, List.mem_map] at hentry
      obtain ⟨r', hr', heq⟩ := hentry
      obtain ⟨rfl, rfl⟩ := Prod.mk.inj heq
      refine ⟨rfl, ?_⟩
      rcases List.mem_append.mp (hsub _ hr') with hold | hnew
      · exact (h _ _ _ (((lists_history h record.id).2 _).mp hold)).2
      · rw [List.mem_singleton.mp hnew, htemplate]
    · rw [getTemplateVersion, hothers k hk] at hr
      exact h k v r hr
  · rw [← mem_retained_iff (total_publishedBefore hp) (trans_publishedBefore hp) hnodup limit]
    change _ ↔ publication ∈ (sortPublications p (s.history record.id ++ [publication])).take limit
    rw [hretained]
    constructor
    · exact fun hkeeps => (hget publication).mp hkeeps.retrievable
    · intro hmem
      refine ⟨(hget publication).mpr hmem, ?_, hhistory ▸ hids⟩
      rw [hhistory, ← hretained]
      exact List.length_take_le _ _

end TemplateStore

namespace PostgresTemplates

variable {collate : String → String → Bool} {t t' : PostgresTemplates}

theorem lists_history (h : VersionsKeyed t.getTemplateVersion) :
    Lists t.history t.getTemplateVersion := by
  have hkeyed : ∀ k r, t.publications.get k = some r → r.id = k := by
    intro k r hr
    exact (h r.templateId k r (by rw [getTemplateVersion, hr, Option.filter_some, beq_self_eq_true,
      if_pos rfl])).1
  intro k
  refine ⟨?_, fun r => ?_⟩
  · have hkeys := OrderedMap.map_values_eq_keys hkeyed
    have hnodup : (t.publications.values.map (·.id)).Nodup := hkeys ▸ t.publications.nodup
    exact hnodup.sublist (List.filter_sublist.map _)
  · rw [history, List.mem_filter, OrderedMap.mem_values_iff, getTemplateVersion,
      Option.filter_eq_some_iff]
    constructor
    · rintro ⟨⟨v, hv⟩, htemplate⟩
      exact ⟨by rw [hkeyed v r hv]; exact hv, htemplate⟩
    · rintro ⟨hr, htemplate⟩
      exact ⟨⟨r.id, hr⟩, htemplate⟩

theorem publishTemplate_publications {record : TemplateRecord}
    {publication : TemplatePublicationRecord} {previous : Option String} {revision limit : ℕ}
    (ht : t.publishTemplate collate record publication previous revision limit = .ok (t', true)) :
    t.publications.get publication.id = none ∧ publication.templateId = record.id ∧
      ∃ inserted : PostgresTemplates,
        inserted.publications = t.publications.set publication.id publication ∧
        t'.publications = inserted.publications.eraseWhere fun id _ =>
          ((inserted.dropped collate record.id limit).map (·.id)).contains id := by
  unfold PostgresTemplates.publishTemplate at ht
  split at ht
  · cases ht
  · dsimp only at ht
    split_ifs at ht with hrefused hpresent howned
    · cases ht
    · cases ht
    · rw [Except.ok.injEq, Prod.mk.injEq] at ht
      obtain ⟨rfl, -⟩ := ht
      refine ⟨(OrderedMap.get_eq_none_iff _ _).mpr (Bool.not_eq_true _ ▸ hpresent), ?_,
        { t with publications := t.publications.set publication.id publication }, rfl, rfl⟩
      by_contra hne
      exact hrefused (.inr (.inl hne))

/-- **What `PostgresStore` retains.** -/
theorem publishTemplate_keeps_iff (hcollate : TextOrder collate)
    (h : VersionsKeyed t.getTemplateVersion) {record : TemplateRecord}
    {publication : TemplatePublicationRecord} {previous : Option String} {revision limit : ℕ}
    (ht : t.publishTemplate collate record publication previous revision limit = .ok (t', true)) :
    VersionsKeyed t'.getTemplateVersion ∧
      (KeepsPublished (t'.history record.id)
        (t'.getTemplateVersion record.id publication.id) publication limit ↔
        ((t.history record.id).countP fun r => createdBefore collate r publication) < limit) := by
  obtain ⟨hnone, htemplate, inserted, hinserted, hpublications⟩ := publishTemplate_publications ht
  obtain ⟨hold, holdmem⟩ := lists_history h record.id
  have hhistory : inserted.history record.id = t.history record.id ++ [publication] := by
    rw [history, hinserted, OrderedMap.values_set_of_absent _ _ hnone, List.filter_append, history]
    simp [htemplate]
  have hnodup : ((t.history record.id ++ [publication]).map (·.id)).Nodup := by
    rw [List.map_append, List.nodup_append']
    refine ⟨hold, List.nodup_singleton _, ?_⟩
    rw [List.map_singleton, List.disjoint_singleton]
    intro hid
    obtain ⟨r, hr, hrid⟩ := List.mem_map.mp hid
    obtain ⟨hget, -⟩ := Option.filter_eq_some_iff.mp ((holdmem r).mp hr)
    rw [hrid, hnone] at hget
    cases hget
  have hsorted := List.perm_insertionSort
    (fun left right => createdBefore collate left right = true)
    (t.history record.id ++ [publication])
  rw [dropped, hhistory] at hpublications
  generalize hlist : (t.history record.id ++ [publication]).insertionSort
    (fun left right => createdBefore collate left right = true) = sorted at hsorted hpublications
  have hids : (sorted.map (·.id)).Nodup := (hsorted.map (·.id)).nodup_iff.mpr hnodup
  have hget : ∀ k v r, t'.getTemplateVersion k v = some r ↔ r.templateId = k ∧
      (t.publications.set publication.id publication).get v = some r ∧
        v ∉ (sorted.drop limit).map (·.id) := by
    intro k v r
    rw [getTemplateVersion, hpublications, OrderedMap.get_eraseWhere, Option.filter_eq_some_iff,
      Option.filter_eq_some_iff, hinserted]
    simp only [beq_iff_eq, Bool.not_eq_true', List.contains_eq_mem, decide_eq_false_iff_not]
    tauto
  have hkeyed : VersionsKeyed t'.getTemplateVersion := by
    intro k v r hr
    obtain ⟨rfl, hset, -⟩ := (hget k v r).mp hr
    refine ⟨?_, rfl⟩
    rw [OrderedMap.get_set] at hset
    split_ifs at hset with hv
    · rw [← Option.some.inj hset, hv]
    · exact (h r.templateId v r (by
        rw [getTemplateVersion, hset, Option.filter_some, beq_self_eq_true, if_pos rfl])).1
  refine ⟨hkeyed, ?_⟩
  rw [← mem_retained_iff (total_createdBefore hcollate) (trans_createdBefore hcollate) hnodup limit,
    hlist]
  obtain ⟨hnodup', hmem'⟩ := lists_history hkeyed record.id
  have hcut : ∀ r ∈ sorted, r ∈ sorted.take limit ↔ r.id ∉ (sorted.drop limit).map (·.id) :=
    fun r hr => mem_take_iff_notMem_drop hids hr
  have hall : ∀ r, r ∈ sorted ↔ r ∈ t.history record.id ∨ r = publication := by
    intro r
    rw [hsorted.mem_iff, List.mem_append, List.mem_singleton]
  have hself : publication ∈ sorted := (hall publication).mpr (.inr rfl)
  constructor
  · intro hkeeps
    exact (hcut publication hself).mpr ((hget _ _ _).mp hkeeps.retrievable).2.2
  · intro hmem
    refine ⟨(hget _ _ _).mpr ⟨htemplate, OrderedMap.get_set_self _ _ _,
      (hcut publication hself).mp hmem⟩, ?_, hnodup'⟩
    -- what is left is among the retained
    have hsub : t'.history record.id ⊆ sorted.take limit := by
      intro r hr
      obtain ⟨htr, hset, hnot⟩ := (hget _ _ _).mp ((hmem' r).mp hr)
      refine (hcut r ((hall r).mpr ?_)).mpr hnot
      rw [OrderedMap.get_set] at hset
      split_ifs at hset with hid
      · exact .inr (Option.some.inj hset).symm
      · refine .inl ((holdmem r).mpr ?_)
        rw [getTemplateVersion, hset, Option.filter_some, beq_iff_eq.mpr htr, if_pos rfl]
    exact ((List.Nodup.of_map _ hnodup').subperm hsub).length_le.trans (List.length_take_le _ _)

end PostgresTemplates

namespace TemplateTable

variable {p : Platform} {t t' : TemplateTable}

theorem getTemplateVersion_eq_some {k v : String} {r : TemplatePublicationRecord} :
    t.getTemplateVersion k v = some r ↔ t.get (.version k v) = some (.publication r) := by
  rw [getTemplateVersion]
  cases t.get (.version k v) with
  | none => simp
  | some item => cases item <;> simp

theorem lists_history (h : VersionsKeyed t.getTemplateVersion) :
    Lists t.history t.getTemplateVersion := by
  have hentry : ∀ k r e, (match e with
      | (TemplateKey.version id _, TemplateItem.publication publication) =>
        if id = k then some publication else none
      | _ => none) = some r ↔ ∃ v, e = (.version k v, .publication r) := by
    rintro k r ⟨key, item⟩
    cases key <;> cases item <;> simp [and_comm]
  intro k
  refine ⟨?_, fun r => ?_⟩
  · have hkeys := List.pairwise_map.mp t.nodup
    rw [List.Nodup, List.pairwise_map, history, List.pairwise_filterMap]
    refine hkeys.imp_of_mem fun {e e'} he he' hne r hr r' hr' hid => ?_
    obtain ⟨v, rfl⟩ := (hentry k r e).mp hr
    obtain ⟨v', rfl⟩ := (hentry k r' e').mp hr'
    obtain ⟨rfl, -⟩ := h k v r
      (getTemplateVersion_eq_some.mpr ((OrderedMap.get_eq_some_iff _ _ _).mpr he))
    obtain ⟨rfl, -⟩ := h k v' r'
      (getTemplateVersion_eq_some.mpr ((OrderedMap.get_eq_some_iff _ _ _).mpr he'))
    exact hne (by rw [hid])
  · rw [history, List.mem_filterMap]
    constructor
    · rintro ⟨e, he, hr⟩
      obtain ⟨v, rfl⟩ := (hentry k r e).mp hr
      have hget := getTemplateVersion_eq_some.mpr ((OrderedMap.get_eq_some_iff _ _ _).mpr he)
      obtain ⟨rfl, -⟩ := h k v r hget
      exact hget
    · intro hr
      exact ⟨_, (OrderedMap.get_eq_some_iff _ _ _).mp (getTemplateVersion_eq_some.mp hr),
        (hentry k r _).mpr ⟨r.id, rfl⟩⟩

/-- The publications after `publishTemplate`: the new one, and those that were not pruned. -/
theorem getTemplateVersion_publishTemplate {interferes : Bool} {record : TemplateRecord}
    {publication : TemplatePublicationRecord} {listing : List VersionKey}
    {previous : Option String} {revision limit : ℕ} (htemplate : publication.templateId = record.id)
    (ht : t.publishTemplate p interferes record publication listing previous revision limit =
      .ok t') :
    t.getTemplateVersion record.id publication.id = none ∧
      publication.id ∉ (prune p limit listing).map (·.versionId) ∧
      (∀ k, k ≠ record.id → ∀ v, t'.getTemplateVersion k v = t.getTemplateVersion k v) ∧
      ∀ v, t'.getTemplateVersion record.id v = if v = publication.id then some publication
        else if v ∈ (prune p limit listing).map (·.versionId) then none
        else t.getTemplateVersion record.id v := by
  obtain ⟨hcommits, hnew, -⟩ := publishTemplate_spec htemplate ht
  obtain ⟨hsend, -⟩ := sendOrConflict_eq_ok ht
  have hsend' := OrderedMap.transact_eq_ok.mp hsend
  obtain ⟨⟨-, hnodup⟩, -, hconditions, hwrites⟩ := hsend'
  have hfree : t.getTemplateVersion record.id publication.id = none := by
    have hcondition := hconditions ⟨.version publication.templateId publication.id, isFree,
      some (.publication publication)⟩ (by simp [publishWrites])
    rw [htemplate] at hcondition
    rw [getTemplateVersion, Option.isNone_iff_eq_none.mp hcondition]
  refine ⟨hfree, ?_, hcommits.versions, fun v => ?_⟩
  · intro hmem
    obtain ⟨version, hversion, hid⟩ := List.mem_map.mp hmem
    simp only [publishWrites, removeVersions, List.map_append, List.map_cons, List.map_map,
      List.append_assoc, List.cons_append, List.nil_append, List.nodup_cons] at hnodup
    refine hnodup.2.1 (List.mem_append_left _ (List.mem_map.mpr ⟨version, hversion, ?_⟩))
    simp only [Function.comp_apply, htemplate, hid]
  · split_ifs with hv hpruned
    · rw [hv, hnew]
    · obtain ⟨version, hversion, rfl⟩ := List.mem_map.mp hpruned
      have hget := OrderedMap.get_writeAll_of_mem (m := t) hnodup
        (w := { key := .version record.id version.versionId, value := none }) (by
          simp only [publishWrites, removeVersions, List.mem_append]
          exact .inl (.inl (.inr (List.mem_map.mpr ⟨version, hversion, rfl⟩))))
      rw [← hwrites, getTemplateVersion]
      dsimp only at hget
      rw [hget]
    · refine getTemplateVersion_send_of_notMem hsend fun w hw hkey => ?_
      simp only [publishWrites, removeVersions, List.mem_append, List.mem_cons, List.mem_map,
        List.not_mem_nil, or_false] at hw
      rcases hw with (((rfl | rfl) | ⟨version, hversion, rfl⟩) | ⟨a, -, rfl⟩) | ⟨a, -, rfl⟩
      · cases hkey
      · exact hv (TemplateKey.version.inj hkey).2.symm
      · exact hpruned (List.mem_map.mpr ⟨version, hversion, (TemplateKey.version.inj hkey).2⟩)
      · cases hkey
      · cases hkey

/-- **What `DynamoStore` retains.** -/
theorem publishTemplate_keeps_iff (h : VersionsKeyed t.getTemplateVersion) {interferes : Bool}
    {record : TemplateRecord} {publication : TemplatePublicationRecord} {listing : List VersionKey}
    {previous : Option String} {revision limit : ℕ} (htemplate : publication.templateId = record.id)
    (ht : t.publishTemplate p interferes record publication listing previous revision limit =
      .ok t') :
    VersionsKeyed t'.getTemplateVersion ∧
      (KeepsPublished (t'.history record.id)
        (t'.getTemplateVersion record.id publication.id) publication limit ↔
        ((t.history record.id).countP fun r =>
          !((prune p limit listing).map (·.versionId)).contains r.id) < limit) := by
  obtain ⟨hnone, hunpruned, hothers, hversions⟩ := getTemplateVersion_publishTemplate htemplate ht
  have hkeyed : VersionsKeyed t'.getTemplateVersion := by
    intro k v r hr
    by_cases hk : k = record.id
    · subst hk
      rw [hversions] at hr
      split_ifs at hr with hv hpruned
      · obtain rfl := Option.some.inj hr
        exact ⟨hv.symm, htemplate⟩
      · exact h _ v r hr
    · rw [hothers k hk] at hr
      exact h k v r hr
  refine ⟨hkeyed, ?_⟩
  obtain ⟨hold, holdmem⟩ := lists_history h record.id
  obtain ⟨hnodup, hmem⟩ := lists_history hkeyed record.id
  have hperm : (t'.history record.id).Perm (publication :: (t.history record.id).filter fun r =>
      !((prune p limit listing).map (·.versionId)).contains r.id) := by
    have hnot : publication ∉ t.history record.id := by
      intro hin
      rw [holdmem, hnone] at hin
      cases hin
    refine (List.perm_ext_iff_of_nodup (List.Nodup.of_map _ hnodup) (List.nodup_cons.mpr
      ⟨fun hin => hnot (List.mem_of_mem_filter hin),
        (List.Nodup.of_map _ hold).sublist List.filter_sublist⟩)).mpr fun r => ?_
    rw [hmem, hversions, List.mem_cons, List.mem_filter, holdmem]
    simp only [Bool.not_eq_true', List.contains_eq_mem, decide_eq_false_iff_not]
    split_ifs with hid hpruned
    · rw [Option.some.injEq, hid, hnone]
      simp [eq_comm]
    · simp only [hpruned, not_true_eq_false, and_false, or_false, false_iff]
      rintro rfl
      exact hid rfl
    · simp only [hpruned, not_false_eq_true, and_true]
      refine ⟨.inr, fun hr => hr.resolve_left ?_⟩
      rintro rfl
      exact hid rfl
  have hlength : (t'.history record.id).length = ((t.history record.id).countP fun r =>
      !((prune p limit listing).map (·.versionId)).contains r.id) + 1 := by
    rw [hperm.length_eq, List.length_cons, List.countP_eq_length_filter]
  constructor
  · intro hkeeps
    have := hkeeps.bounded
    omega
  · intro hlt
    refine ⟨?_, by omega, hnodup⟩
    rw [hversions, if_pos rfl]

/-- A listing that shows the publications as they are leaves room for the new one. -/
theorem kept_of_current_listing (h : VersionsKeyed t.getTemplateVersion) {id : String}
    {listing : List VersionKey}
    (hlisting : (listing.map (·.versionId)).Perm ((t.history id).map (·.id))) {limit : ℕ}
    (hlimit : 1 ≤ limit) :
    ((t.history id).countP fun r =>
      !((prune p limit listing).map (·.versionId)).contains r.id) < limit := by
  have hsorted := List.perm_insertionSort
    (fun left right : VersionKey => p.localeCompare right.sortKey left.sortKey = true) listing
  rw [prune]
  generalize listing.insertionSort
    (fun left right : VersionKey => p.localeCompare right.sortKey left.sortKey = true) = sorted
    at hsorted
  have hids : (sorted.map (·.versionId)).Perm ((t.history id).map (·.id)) :=
    (hsorted.map _).trans hlisting
  obtain ⟨hnodup, -⟩ := lists_history h id
  rw [List.countP_eq_length_filter]
  have hsub : (((t.history id).filter fun r =>
      !((sorted.drop (limit - 1)).map (·.versionId)).contains r.id).map (·.id)) ⊆
        (sorted.take (limit - 1)).map (·.versionId) := by
    intro v hv
    obtain ⟨r, hr, rfl⟩ := List.mem_map.mp hv
    obtain ⟨hr, hnot⟩ := List.mem_filter.mp hr
    have hmem := hids.mem_iff.mpr (List.mem_map_of_mem (f := (·.id)) hr)
    rw [← List.take_append_drop (limit - 1) sorted, List.map_append, List.mem_append] at hmem
    refine hmem.resolve_right ?_
    simpa using hnot
  have hle := ((hnodup.sublist (List.filter_sublist.map _)).subperm hsub).length_le
  rw [List.length_map, List.length_map] at hle
  have := List.length_take_le (limit - 1) sorted
  omega

end TemplateTable

/-! ## Runs -/

/-- A publication as `TemplateService.publish` makes it, of a template that was read; DynamoDB has
listed the publications before. -/
structure Publishing where
  current : TemplateRecord
  now : ℕ
  context : TemplatePublicationContext
  listing : List VersionKey := []

namespace Publishing

def record (x : Publishing) : TemplateRecord := publishedTemplate x.current x.now

def publication (options : TemplateHistoryOptions) (x : Publishing) : TemplatePublicationRecord :=
  publicationOf options x.context x.current x.now

end Publishing

/-- A store of publications: how they are found and listed, and what a successful publication makes
of the store. -/
structure HistoryStore (σ : Type) where
  empty : σ
  get : σ → String → String → Option TemplatePublicationRecord
  history : σ → String → List TemplatePublicationRecord
  publishes : σ → Publishing → σ → Prop

namespace HistoryStore

variable {σ : Type}

/-- The stores on runs of publications. What other operations and the expiry of items leave of the
publications was there before. -/
inductive Reached (H : HistoryStore σ) : σ → Prop
  | empty : Reached H H.empty
  | publish {s s' : σ} (x : Publishing) : Reached H s → H.publishes s x s' → Reached H s'
  | forget {s s' : σ} : Reached H s →
      (∀ k v r, H.get s' k v = some r → H.get s k v = some r) → Reached H s'

/-- After a publication, the history holds what it has to. -/
def Keeps (H : HistoryStore σ) (options : TemplateHistoryOptions) (s' : σ) (x : Publishing) : Prop :=
  KeepsPublished (H.history s' x.current.id) (H.get s' x.current.id x.current.draft.id)
    (x.publication options) options.limit

theorem Reached.keyed {H : HistoryStore σ} {s : σ} (h : H.Reached s)
    (hempty : VersionsKeyed (H.get H.empty))
    (hpublish : ∀ s x s', VersionsKeyed (H.get s) → H.publishes s x s' →
      VersionsKeyed (H.get s')) : VersionsKeyed (H.get s) := by
  induction h with
  | empty => exact hempty
  | publish x _ hx ih => exact hpublish _ x _ ih hx
  | forget _ hforget ih => exact fun k v r hr => ih k v r (hforget k v r hr)

end HistoryStore

def memoryHistory (p : Platform) (options : TemplateHistoryOptions) :
    HistoryStore TemplateStore where
  empty := {}
  get := TemplateStore.getTemplateVersion
  history := TemplateStore.history
  publishes s x s' := s.publishTemplate p x.record (x.publication options)
    x.current.publishedAlias x.current.revision options.limit = .ok (s', true)

def postgresHistory (collate : String → String → Bool) (options : TemplateHistoryOptions) :
    HistoryStore PostgresTemplates where
  empty := {}
  get := PostgresTemplates.getTemplateVersion
  history := PostgresTemplates.history
  publishes t x t' := t.publishTemplate collate x.record (x.publication options)
    x.current.publishedAlias x.current.revision options.limit = .ok (t', true)

def dynamoHistory (p : Platform) (options : TemplateHistoryOptions) :
    HistoryStore TemplateTable where
  empty := ∅
  get := TemplateTable.getTemplateVersion
  history := TemplateTable.history
  publishes t x t' := ∃ interferes, t.publishTemplate p interferes x.record
    (x.publication options) x.listing x.current.publishedAlias x.current.revision options.limit =
      .ok t'

/-- **When a history keeps the publication just made**, in every run: in memory and in PostgreSQL,
exactly when fewer than `limit` retained publications stand before it; in DynamoDB, exactly when
fewer than `limit` are not pruned, which is so after a listing that is current. -/
theorem publication_kept_iff {p : Platform} {collate : String → String → Bool}
    (hlocale : TextOrder p.localeCompare) (hcollate : TextOrder collate)
    (options : TemplateHistoryOptions) :
    (∀ s x s', (memoryHistory p options).Reached s → (memoryHistory p options).publishes s x s' →
      ((memoryHistory p options).Keeps options s' x ↔
        ((s.history x.current.id).countP fun r =>
          publishedBefore p r (x.publication options)) < options.limit)) ∧
    (∀ t x t', (postgresHistory collate options).Reached t →
      (postgresHistory collate options).publishes t x t' →
      ((postgresHistory collate options).Keeps options t' x ↔
        ((t.history x.current.id).countP fun r =>
          createdBefore collate r (x.publication options)) < options.limit)) ∧
    ∀ t x t', (dynamoHistory p options).Reached t → (dynamoHistory p options).publishes t x t' →
      ((dynamoHistory p options).Keeps options t' x ↔
        ((t.history x.current.id).countP fun r =>
          !((TemplateTable.prune p options.limit x.listing).map (·.versionId)).contains r.id) <
            options.limit) ∧
      (1 ≤ options.limit →
        (x.listing.map (·.versionId)).Perm ((t.history x.current.id).map (·.id)) →
          (dynamoHistory p options).Keeps options t' x) := by
  refine ⟨fun s x s' hs hx => ?_, fun t x t' ht hx => ?_, fun t x t' ht hx => ?_⟩
  · have hkeyed := hs.keyed (fun _ _ _ hr => (by cases hr)) fun s x s' h hx =>
      (TemplateStore.publishTemplate_keeps_iff hlocale h hx).1
    exact (TemplateStore.publishTemplate_keeps_iff hlocale hkeyed hx).2
  · have hkeyed := ht.keyed (fun _ _ _ hr => (by cases hr)) fun t x t' h hx =>
      (PostgresTemplates.publishTemplate_keeps_iff hcollate h hx).1
    exact (PostgresTemplates.publishTemplate_keeps_iff hcollate hkeyed hx).2
  · have hkeyed := ht.keyed (fun _ _ _ hr => (by cases hr)) fun t x t' h ⟨_, hx⟩ =>
      (TemplateTable.publishTemplate_keeps_iff h rfl hx).1
    obtain ⟨interferes, hx⟩ := hx
    have hiff := (TemplateTable.publishTemplate_keeps_iff hkeyed rfl hx).2
    exact ⟨hiff, fun hlimit hlisting =>
      hiff.mpr (TemplateTable.kept_of_current_listing hkeyed hlisting hlimit)⟩

/-! ## A notice under a clock that goes back -/

/-- A notice with the given draft, at a revision. -/
def notice (draft : String) (revision : ℕ) : TemplateRecord where
  id := "tmpl_a"
  createdAt := 0
  updatedAt := 0
  revision := revision
  draft := { id := draft, name := "Notice", html := "<p>Notice</p>", variables_ := [], createdAt := 0 }

def noticePublishing (draft : String) (revision now : ℕ) : Publishing :=
  ⟨notice draft revision, now, ⟨⟨"system", "System"⟩, .api⟩, []⟩

/-- The notice as it was created. -/
def noticeStore : TemplateStore :=
  { templates := (∅ : OrderedMap _ _).set "tmpl_a" (notice "tmplv_a" 1) }

/-- The store after a publication that succeeds. -/
def TemplateStore.afterPublishing (s : TemplateStore) (x : Publishing) : TemplateStore :=
  match s.publishTemplate samplePlatform x.record (x.publication ⟨90, 1⟩) x.current.publishedAlias
    x.current.revision 1 with
  | .ok (s', _) => s'
  | .error _ => s

/-- The notice published at two seconds, with another draft. -/
def redraftedStore : TemplateStore :=
  let s := noticeStore.afterPublishing (noticePublishing "tmplv_a" 1 2000)
  { s with templates := s.templates.set "tmpl_a" (notice "tmplv_b" 3) }

theorem textOrder_le : TextOrder fun a b => decide (a ≤ b) :=
  ⟨fun a b => by simpa using String.le_total a b, fun a b c => by simpa using String.le_trans⟩

theorem noticeStore_reached : (memoryHistory samplePlatform ⟨90, 1⟩).Reached noticeStore :=
  .forget .empty fun _ _ _ hr => (by cases hr)

theorem redraftedStore_reached : (memoryHistory samplePlatform ⟨90, 1⟩).Reached redraftedStore := by
  have hfirst : (memoryHistory samplePlatform ⟨90, 1⟩).publishes noticeStore
      (noticePublishing "tmplv_a" 1 2000)
      (noticeStore.afterPublishing (noticePublishing "tmplv_a" 1 2000)) :=
    toOption_eq_some.mp (by decide +kernel)
  exact (HistoryStore.Reached.publish _ noticeStore_reached hfirst).forget fun _ _ _ hr => hr

/-! ### The other stores -/

/-- The tables after a publication that succeeds. -/
def PostgresTemplates.afterPublishing (t : PostgresTemplates) (x : Publishing) :
    PostgresTemplates :=
  match t.publishTemplate (fun a b => decide (a ≤ b)) x.record (x.publication ⟨90, 1⟩)
    x.current.publishedAlias x.current.revision 1 with
  | .ok (t', _) => t'
  | .error _ => t

def noticeTables : PostgresTemplates :=
  { templates := (∅ : OrderedMap _ _).set "tmpl_a" (notice "tmplv_a" 1) }

def redraftedTables : PostgresTemplates :=
  let t := noticeTables.afterPublishing (noticePublishing "tmplv_a" 1 2000)
  { t with templates := t.templates.set "tmpl_a" (notice "tmplv_b" 3) }

/-- The table after a publication that succeeds. -/
def TemplateTable.afterPublishing (t : TemplateTable) (x : Publishing) : TemplateTable :=
  match t.publishTemplate samplePlatform false x.record (x.publication ⟨90, 1⟩) x.listing
    x.current.publishedAlias x.current.revision 1 with
  | .ok t' => t'
  | .error _ => t

def noticeTable : TemplateTable :=
  (∅ : OrderedMap _ _).set (.template "tmpl_a") (.template (notice "tmplv_a" 1))

def redraftedTable : TemplateTable :=
  (noticeTable.afterPublishing (noticePublishing "tmplv_a" 1 2000)).set (.template "tmpl_a")
    (.template (notice "tmplv_b" 3))

theorem redraftedTables_reached :
    (postgresHistory (fun a b => decide (a ≤ b)) ⟨90, 1⟩).Reached redraftedTables := by
  have hnotice : (postgresHistory (fun a b => decide (a ≤ b)) ⟨90, 1⟩).Reached noticeTables :=
    .forget .empty fun _ _ _ hr => (by cases hr)
  have hfirst : (postgresHistory (fun a b => decide (a ≤ b)) ⟨90, 1⟩).publishes noticeTables
      (noticePublishing "tmplv_a" 1 2000)
      (noticeTables.afterPublishing (noticePublishing "tmplv_a" 1 2000)) :=
    toOption_eq_some.mp (by decide +kernel)
  exact (HistoryStore.Reached.publish _ hnotice hfirst).forget fun _ _ _ hr => hr

theorem redraftedTable_reached : (dynamoHistory samplePlatform ⟨90, 1⟩).Reached redraftedTable := by
  have hversion : ∀ (t : TemplateTable) (record : TemplateRecord) (k v : String),
      TemplateTable.getTemplateVersion (t.set (.template "tmpl_a") (.template record)) k v =
        t.getTemplateVersion k v := by
    intro t record k v
    rw [TemplateTable.getTemplateVersion, OrderedMap.get_set_ne _ _ TemplateKey.noConfusion]
    rfl
  have hnotice : (dynamoHistory samplePlatform ⟨90, 1⟩).Reached noticeTable :=
    .forget .empty fun k v r hr => (hversion ∅ (notice "tmplv_a" 1) k v).symm.trans hr
  have hfirst : (dynamoHistory samplePlatform ⟨90, 1⟩).publishes noticeTable
      (noticePublishing "tmplv_a" 1 2000)
      (noticeTable.afterPublishing (noticePublishing "tmplv_a" 1 2000)) :=
    ⟨false, toOption_eq_some.mp (by decide +kernel)⟩
  exact (HistoryStore.Reached.publish _ hnotice hfirst).forget fun k v r hr =>
    (hversion _ _ k v).symm.trans hr

/-- The notice is published again a second later: each store keeps the second publication in place
of the first. -/
theorem publication_kept_sample :
    (∃ s', (memoryHistory samplePlatform ⟨90, 1⟩).publishes redraftedStore
        (noticePublishing "tmplv_b" 3 3000) s' ∧
      (memoryHistory samplePlatform ⟨90, 1⟩).Keeps ⟨90, 1⟩ s' (noticePublishing "tmplv_b" 3 3000)) ∧
    (∃ t', (postgresHistory (fun a b => decide (a ≤ b)) ⟨90, 1⟩).publishes redraftedTables
        (noticePublishing "tmplv_b" 3 3000) t' ∧
      (postgresHistory (fun a b => decide (a ≤ b)) ⟨90, 1⟩).Keeps ⟨90, 1⟩ t'
        (noticePublishing "tmplv_b" 3 3000)) ∧
    ∃ x t', x.listing.map (·.versionId) = ["tmplv_a"] ∧
      (dynamoHistory samplePlatform ⟨90, 1⟩).publishes redraftedTable x t' ∧
      (dynamoHistory samplePlatform ⟨90, 1⟩).Keeps ⟨90, 1⟩ t' x := by
  obtain ⟨hmemory, hpostgres, hdynamo⟩ :=
    publication_kept_iff (p := samplePlatform) textOrder_le textOrder_le ⟨90, 1⟩
  have hstored : (memoryHistory samplePlatform ⟨90, 1⟩).publishes redraftedStore
      (noticePublishing "tmplv_b" 3 3000)
      (redraftedStore.afterPublishing (noticePublishing "tmplv_b" 3 3000)) :=
    toOption_eq_some.mp (by decide +kernel)
  have hinserted : (postgresHistory (fun a b => decide (a ≤ b)) ⟨90, 1⟩).publishes redraftedTables
      (noticePublishing "tmplv_b" 3 3000)
      (redraftedTables.afterPublishing (noticePublishing "tmplv_b" 3 3000)) :=
    toOption_eq_some.mp (by decide +kernel)
  let x : Publishing := { noticePublishing "tmplv_b" 3 3000 with
    listing := (redraftedTable.history "tmpl_a").map fun r => ⟨r.id, r.sortKey⟩ }
  have hput : (dynamoHistory samplePlatform ⟨90, 1⟩).publishes redraftedTable x
      (redraftedTable.afterPublishing x) :=
    ⟨false, toOption_eq_some.mp (by decide +kernel)⟩
  have hcurrent : (x.listing.map (·.versionId)).Perm ((redraftedTable.history "tmpl_a").map (·.id)) :=
    List.Perm.of_eq (by rw [List.map_map]; rfl)
  exact ⟨⟨_, hstored, (hmemory _ _ _ redraftedStore_reached hstored).mpr (by decide +kernel)⟩,
    ⟨_, hinserted, (hpostgres _ _ _ redraftedTables_reached hinserted).mpr (by decide +kernel)⟩,
    x, _, by decide +kernel, hput, (hdynamo _ _ _ redraftedTable_reached hput).2 le_rfl hcurrent⟩

/-- **A publication is dropped**: the clock goes back by a second, and the history keeps the older
publication instead of the one just made. -/
theorem publication_dropped : (memoryHistory samplePlatform ⟨90, 1⟩).Reached redraftedStore ∧
    (memoryHistory samplePlatform ⟨90, 1⟩).publishes redraftedStore
      (noticePublishing "tmplv_b" 3 1000)
      (redraftedStore.afterPublishing (noticePublishing "tmplv_b" 3 1000)) ∧
    (redraftedStore.afterPublishing (noticePublishing "tmplv_b" 3 1000)).getTemplateVersion
      "tmpl_a" "tmplv_b" = none := by
  refine ⟨redraftedStore_reached, ?_, by decide +kernel⟩
  exact toOption_eq_some.mp (by decide +kernel)

end HayaSend
