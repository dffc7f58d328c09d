import HayaSend.Adapters.DynamoTemplates

/-!
# Template edits on DynamoDB

The calls of `TemplateService` on the table: each reads a template, and a publication or the list of
them, and writes later in one transaction. The calls that succeed are serializable in the order of
their transactions, and one whose template has changed since it was read fails
(`template_edits_serialized`).
-/

namespace HayaSend

/-! ## Calls -/

/-- Where a call stands: before its first read, between the reads that find a template by an alias,
after it read the template, after it listed or read publications, or at its end. -/
inductive DynamoTemplateCall
  | requested (request : TemplateRequest)
  | seeking (identifier : String) (edit : TemplateEdit)
  | following (templateId : String) (edit : TemplateEdit)
  | loaded (edit : TemplateEdit) (current : TemplateRecord)
  | publishing (now : ℕ) (expectedDraftVersionId : Option String)
      (context : TemplatePublicationContext) (current : TemplateRecord)
      (listing : List VersionKey)
  | restoring (versionId expectedDraftVersionId : String) (now : ℕ) (current : TemplateRecord)
      (publication : TemplatePublicationRecord)
  | deleting (current : TemplateRecord) (listing : List VersionKey)
  | finished (result : Except Failure String)

/-- What a step finds outside the table: random texts, what a listing returns, which may be behind
the table, and whether another transaction interferes. -/
structure DynamoAnswers where
  uuid : ℕ → String := fun _ => ""
  listing : List VersionKey := []
  interferes : Bool := false

/-- A write that succeeded. -/
inductive TemplateCommit
  | created (record : TemplateRecord)
  | edited (edit : TemplateEdit) (current : TemplateRecord) (uuid : ℕ → String)
      (listing : List VersionKey)

/-- The table, the call and the write after a step. -/
structure DynamoAdvance where
  table : TemplateTable
  call : DynamoTemplateCall
  commit : Option TemplateCommit := none

/-- A call ends with its write, or fails. -/
def finishCommit (t : TemplateTable) (id : String) (commit : TemplateCommit) :
    Except Failure TemplateTable → DynamoAdvance
  | .error e => { table := t, call := .finished (.error e) }
  | .ok t' => { table := t', call := .finished (.ok id), commit := some commit }

/-- The end of `create`. -/
def commitCreate (t : TemplateTable) (answers : DynamoAnswers) :
    Except Failure TemplateRecord → DynamoAdvance
  | .error e => { table := t, call := .finished (.error e) }
  | .ok record =>
    finishCommit t record.id (.created record) (t.createTemplate answers.interferes record)

/-- The end of a call that replaces the draft of `current`. -/
def commitReplace (t : TemplateTable) (answers : DynamoAnswers) (edit : TemplateEdit)
    (current : TemplateRecord) : Except Failure TemplateRecord → DynamoAdvance
  | .error e => { table := t, call := .finished (.error e) }
  | .ok updated => finishCommit t current.id (.edited edit current answers.uuid [])
      (t.replaceTemplate answers.interferes updated current.draftAlias current.revision)

/-- An edit after its template was read, up to its next operation. -/
def advanceLoaded (t : TemplateTable) (answers : DynamoAnswers) (current : TemplateRecord)
    (edit : TemplateEdit) : DynamoAdvance :=
  match edit with
  | .update input now =>
    commitReplace t answers edit current (updatedTemplate answers.uuid current input now)
  | .publish now expectedDraftVersionId context =>
    match publishOutcome current expectedDraftVersionId with
    | some result => { table := t, call := .finished result }
    | none => {
        table := t
        call := .publishing now expectedDraftVersionId context current answers.listing }
  | .restoreVersion versionId expectedDraftVersionId now =>
    match (do
      checkRestore current expectedDraftVersionId
      getPublicationRecord (t.getTemplateVersion current.id versionId) current versionId now) with
    | .error e => { table := t, call := .finished (.error e) }
    | .ok publication => {
        table := t
        call := .restoring versionId expectedDraftVersionId now current publication }
  | .duplicate now =>
    commitCreate t answers (newTemplate answers.uuid (duplicateInput current.draft) now)
  | .delete => { table := t, call := .deleting current answers.listing }

/-- A call up to the end of its next operation. -/
def DynamoTemplateCall.advance (p : Platform) (history : TemplateHistoryOptions)
    (answers : DynamoAnswers) (t : TemplateTable) : DynamoTemplateCall → DynamoAdvance
  | requested (.create input now) => commitCreate t answers (newTemplate answers.uuid input now)
  | requested (.edit identifier edit) =>
    match t.getRecord identifier with
    | some current => { table := t, call := .loaded edit current }
    | none => { table := t, call := .seeking identifier edit }
  | seeking identifier edit =>
    match (t.getOwner identifier).filter (· != "") with
    | some templateId => { table := t, call := .following templateId edit }
    | none => { table := t, call := .finished (.error (.notFound "Template")) }
  | following templateId edit =>
    match t.getRecord templateId with
    | some current => { table := t, call := .loaded edit current }
    | none => { table := t, call := .finished (.error (.notFound "Template")) }
  | loaded edit current => advanceLoaded t answers current edit
  | publishing now expectedDraftVersionId context current listing =>
    finishCommit t current.id
      (.edited (.publish now expectedDraftVersionId context) current answers.uuid listing)
      (t.publishTemplate p answers.interferes (publishedTemplate current now)
        (publicationOf history context current now) listing current.publishedAlias
        current.revision history.limit)
  | restoring versionId expectedDraftVersionId now current publication =>
    commitReplace t answers (.restoreVersion versionId expectedDraftVersionId now) current
      (restoredTemplate answers.uuid current publication now)
  | deleting current listing =>
    finishCommit t current.id (.edited .delete current answers.uuid listing)
      (t.deleteTemplate answers.interferes current listing current.revision)
  | finished result => { table := t, call := .finished result }

/-! ## Calls that run alone -/

/-- A call alone on the table, for so many operations: the table after its write. -/
def runAlone (p : Platform) (history : TemplateHistoryOptions) (answers : DynamoAnswers)
    (t : TemplateTable) : ℕ → DynamoTemplateCall → Option TemplateTable
  | 0, _ => none
  | operations + 1, call =>
    let after := call.advance p history answers t
    if after.commit.isSome then some after.table
    else runAlone p history answers after.table operations after.call

/-- The write of a call that reads the template and writes with no other call in between. An edit
has to find the template as it was read. -/
def TemplateCommit.apply (p : Platform) (history : TemplateHistoryOptions) (t : TemplateTable) :
    TemplateCommit → Option TemplateTable
  | created record => (t.createTemplate false record).toOption
  | edited edit current uuid listing =>
    if t.getRecord current.id = some current then
      runAlone p history { uuid := uuid, listing := listing } t 2 (.loaded edit current)
    else none

/-! ## Runs -/

/-- The table, the calls, the ids drawn for templates, and the writes in their order. -/
structure DynamoTemplateSystem where
  table : TemplateTable := ∅
  calls : List DynamoTemplateCall := []
  drawn : List String := []
  log : List TemplateCommit := []

inductive DynamoTemplateLabel
  /-- A call begins. -/
  | request (request : TemplateRequest)
  /-- A call advances. -/
  | advance (call : ℕ) (answers : DynamoAnswers)

/-- A run of calls. The id drawn for a template is none that was drawn before. -/
def dynamoTemplateSystem (p : Platform) (history : TemplateHistoryOptions) :
    TransitionSystem DynamoTemplateSystem DynamoTemplateLabel where
  init st := st = {}
  step st
    | .request request => some { st with calls := st.calls ++ [.requested request] }
    | .advance i answers => do
      let call ← st.calls[i]?
      guard (drawnTemplateId answers.uuid ∉ st.drawn)
      let after := call.advance p history answers st.table
      return {
        table := after.table
        calls := st.calls.set i after.call
        drawn := st.drawn ++ [drawnTemplateId answers.uuid]
        log := st.log ++ after.commit.toList }

/-! ## What a call knows -/

namespace TemplateTable

/-- A template is stored under its id. -/
def IdsStored (t : TemplateTable) : Prop := ∀ k r, t.getRecord k = some r → r.id = k

/-- Publications stay while the template of theirs does. -/
def VersionsKept (t t' : TemplateTable) : Prop :=
  ∀ id r, t.getRecord id = some r → t'.getRecord id = some r →
    ∀ v, t'.getTemplateVersion id v = t.getTemplateVersion id v

/-- What a write leaves of the table; `fresh` is the id drawn. -/
structure Rewritten (t t' : TemplateTable) (fresh : String) : Prop where
  ids : t'.IdsStored
  evolves : TemplateRecord.Evolves t.getRecord t'.getRecord fresh
  versions : t.VersionsKept t'

variable {t t' : TemplateTable} {id fresh : String} {revision : ℕ} {next : Option TemplateRecord}

theorem Commits.rewritten (h : t.Commits t' id revision next) (hids : t.IdsStored)
    (hnext : ∀ r, next = some r → r.id = id ∧ r.revision = revision + 1) :
    t.Rewritten t' fresh := by
  obtain ⟨old, hold, holdRevision⟩ := h.found
  refine ⟨fun k r hr => ?_, fun k r hr => ?_, fun k r hr hr' v => ?_⟩
  · by_cases hk : k = id
    · subst hk
      exact (hnext r (h.record.symm.trans hr)).1
    · exact hids k r ((h.others k hk).symm.trans hr)
  · by_cases hk : k = id
    · subst hk
      have := (hnext r (h.record.symm.trans hr)).2
      exact .inr (.inl ⟨old, hold, by omega⟩)
    · exact .inl ((h.others k hk).symm.trans hr)
  · by_cases hk : k = id
    · -- the template has the next revision
      subst hk
      have := (hnext r (h.record.symm.trans hr')).2
      rw [hold, Option.some.injEq] at hr
      subst hr
      omega
    · exact h.versions k hk v

theorem rewritten_of_create {record : TemplateRecord} {interferes : Bool} (hids : t.IdsStored)
    (h : t.createTemplate interferes record = .ok t') : t.Rewritten t' record.id := by
  obtain ⟨⟨hrecord, hothers⟩, hversions, -⟩ := createTemplate_spec h
  refine ⟨fun k r hr => ?_, fun k r hr => ?_, fun k _ _ _ v => hversions k v⟩
  · by_cases hk : k = record.id
    · subst hk
      rw [← Option.some.inj (hrecord.symm.trans hr)]
    · exact hids k r ((hothers k hk).symm.trans hr)
  · by_cases hk : k = record.id
    · exact .inr (.inr hk)
    · exact .inl ((hothers k hk).symm.trans hr)

end TemplateTable

namespace DynamoTemplateCall

/-- What a call knows of the table: the template it read, the checks it passed, and the publication
it read while the template is stored. -/
def Known (t : TemplateTable) : DynamoTemplateCall → Prop
  | loaded _ current => current.Snapshot t.getRecord
  | publishing _ expectedDraftVersionId _ current _ =>
    current.Snapshot t.getRecord ∧ publishOutcome current expectedDraftVersionId = none
  | restoring versionId expectedDraftVersionId now current publication =>
    current.Snapshot t.getRecord ∧ checkRestore current expectedDraftVersionId = .ok () ∧
      (t.getRecord current.id = some current →
        getPublicationRecord (t.getTemplateVersion current.id versionId) current versionId now =
          .ok publication)
  | deleting current _ => current.Snapshot t.getRecord
  | requested _ | seeking _ _ | following _ _ | finished _ => True

/-- The template a call has read. -/
def snapshot : DynamoTemplateCall → Option TemplateRecord
  | loaded _ current | publishing _ _ _ current _ | restoring _ _ _ current _
  | deleting current _ => some current
  | requested _ | seeking _ _ | following _ _ | finished _ => none

theorem Known.rewritten {t t' : TemplateTable} {fresh : String} {call : DynamoTemplateCall}
    (h : call.Known t) (hwrite : t.Rewritten t' fresh)
    (hfresh : ∀ r, call.snapshot = some r → r.id ≠ fresh) : call.Known t' := by
  have hsnapshot : ∀ r, call.snapshot = some r → r.Snapshot t.getRecord →
      r.Snapshot t'.getRecord := fun r hr hknown => hknown.evolves hwrite.evolves (hfresh r hr)
  cases call with
  | requested _ => trivial
  | seeking _ _ => trivial
  | following _ _ => trivial
  | finished _ => trivial
  | loaded _ current => exact hsnapshot current rfl h
  | deleting current _ => exact hsnapshot current rfl h
  | publishing _ _ _ current _ => exact ⟨hsnapshot current rfl h.1, h.2⟩
  | restoring versionId _ now current publication =>
    obtain ⟨hknown, hcheck, hpublication⟩ := h
    refine ⟨hsnapshot current rfl hknown, hcheck, fun hstored' => ?_⟩
    have hstored : t.getRecord current.id = some current := by
      rcases hwrite.evolves _ _ hstored' with hsame | ⟨r, hr, hlt⟩ | hid
      · exact hsame
      · exact absurd (hknown r hr).1 (by omega)
      · exact absurd hid (hfresh current rfl)
    rw [hwrite.versions _ _ hstored hstored']
    exact hpublication hstored

end DynamoTemplateCall

/-! ## What a step does -/

/-- **A step of a call**: it leaves the table alone, or it is the write of a call that would have
run alone. -/
inductive DynamoStep (p : Platform) (history : TemplateHistoryOptions) (t : TemplateTable)
    (call : DynamoTemplateCall) (after : DynamoAdvance) (fresh : String) : Prop
  | kept (htable : after.table = t) (hcommit : after.commit = none)
      (hknown : after.call.Known t)
      (hsnapshot : ∀ r, after.call.snapshot = some r →
        call.snapshot = some r ∨ t.getRecord r.id = some r)
  | written (commit : TemplateCommit) (id : String) (hcommit : after.commit = some commit)
      (happly : commit.apply p history t = some after.table)
      (hwrite : t.Rewritten after.table fresh) (hcall : after.call = .finished (.ok id))

section Step

variable {p : Platform} {history : TemplateHistoryOptions} {answers : DynamoAnswers}
  {t t' : TemplateTable} {call : DynamoTemplateCall} {after : DynamoAdvance}
  {current updated : TemplateRecord} {edit : TemplateEdit} {fresh : String}

/-- The revision that was written over is that of the template that was read. -/
theorem TemplateTable.Commits.stored {next : Option TemplateRecord}
    (h : t.Commits t' current.id current.revision next) (hknown : current.Snapshot t.getRecord) :
    t.getRecord current.id = some current := by
  obtain ⟨r, hr, hrevision⟩ := h.found
  rw [hr, (hknown r hr).2 hrevision]

theorem dynamoStep_failed (e : Failure) :
    DynamoStep p history t call { table := t, call := .finished (.error e) } fresh :=
  .kept rfl rfl trivial fun _ h => (by cases h)

theorem commitCreate_step {input : CreateTemplateInput} {now : ℕ} (hids : t.IdsStored)
    (h : commitCreate t answers (newTemplate answers.uuid input now) = after) :
    DynamoStep p history t call after (drawnTemplateId answers.uuid) := by
  subst h
  unfold commitCreate
  split
  · exact dynamoStep_failed _
  · rename_i record hrecord
    have hid : record.id = drawnTemplateId answers.uuid := by
      obtain ⟨_, -, hrecord⟩ := bind_eq_ok.mp hrecord
      obtain ⟨_, -, hrecord⟩ := bind_eq_ok.mp hrecord
      rw [pure_eq_ok] at hrecord
      rw [← hrecord]
    cases hcreate : t.createTemplate answers.interferes record with
    | error e => exact dynamoStep_failed _
    | ok t' =>
      refine .written (.created record) record.id rfl ?_
        (hid ▸ TemplateTable.rewritten_of_create hids hcreate) rfl
      exact toOption_eq_some.mpr (TemplateTable.createTemplate_spec hcreate).2.2

/-- The edit that replaces a draft, with the record it writes, run alone. -/
theorem commitReplace_step {replaced : Except Failure TemplateRecord} (hids : t.IdsStored)
    (hknown : current.Snapshot t.getRecord)
    (hreplaced : ∀ updated, replaced = .ok updated → Redrafted current updated)
    (halone : ∀ t', t.getRecord current.id = some current →
      (commitReplace t { uuid := answers.uuid } edit current replaced).table = t' →
      (commitReplace t { uuid := answers.uuid } edit current replaced).commit.isSome = true →
      runAlone p history { uuid := answers.uuid } t 2 (.loaded edit current) = some t')
    (h : commitReplace t answers edit current replaced = after) :
    DynamoStep p history t call after fresh := by
  subst h
  cases replaced with
  | error e => exact dynamoStep_failed _
  | ok updated =>
    obtain ⟨hid, -, hrevision, -⟩ := hreplaced updated rfl
    simp only [commitReplace] at halone ⊢
    cases hreplace : t.replaceTemplate answers.interferes updated current.draftAlias
        current.revision with
    | error e => exact dynamoStep_failed _
    | ok t' =>
      obtain ⟨hcommits, -, hfalse⟩ := TemplateTable.replaceTemplate_spec hreplace
      rw [hid] at hcommits
      have hstored := hcommits.stored hknown
      refine .written (.edited edit current answers.uuid []) current.id rfl ?_
        (hcommits.rewritten hids fun r hr => ?_) rfl
      · rw [TemplateCommit.apply, if_pos hstored]
        simp only [hfalse] at halone
        exact halone t' hstored rfl rfl
      · obtain rfl := Option.some.inj hr
        exact ⟨hid, hrevision⟩

theorem runAlone_of_commit {operations : ℕ}
    (h : (call.advance p history answers t).commit.isSome = true) :
    runAlone p history answers t (operations + 1) call =
      some (call.advance p history answers t).table := by
  rw [runAlone, if_pos h]

theorem runAlone_of_read {operations : ℕ} {call' : DynamoTemplateCall}
    (h : call.advance p history answers t = { table := t, call := call' }) :
    runAlone p history answers t (operations + 1) call =
      runAlone p history answers t operations call' := by
  rw [runAlone, h]
  exact if_neg Bool.false_ne_true

/-- **One spec of all steps.** -/
theorem advance_step (hids : t.IdsStored) (hknown : call.Known t)
    (h : call.advance p history answers t = after) :
    DynamoStep p history t call after (drawnTemplateId answers.uuid) := by
  cases call with
  | requested request =>
    cases request with
    | create input now => exact commitCreate_step hids h
    | edit identifier edit =>
      simp only [DynamoTemplateCall.advance] at h
      split at h
      · rename_i current hcurrent
        subst h
        have hget : t.getRecord current.id = some current :=
          (hids _ _ hcurrent).symm ▸ hcurrent
        exact .kept rfl rfl (.of_get hget) fun r hr => .inr (Option.some.inj hr ▸ hget)
      · subst h
        exact .kept rfl rfl trivial fun _ hr => (by cases hr)
  | seeking identifier edit =>
    simp only [DynamoTemplateCall.advance] at h
    split at h
    · subst h
      exact .kept rfl rfl trivial fun _ hr => (by cases hr)
    · exact h ▸ dynamoStep_failed _
  | following templateId edit =>
    simp only [DynamoTemplateCall.advance] at h
    split at h
    · rename_i current hcurrent
      subst h
      have hget : t.getRecord current.id = some current :=
        (hids _ _ hcurrent).symm ▸ hcurrent
      exact .kept rfl rfl (.of_get hget) fun r hr => .inr (Option.some.inj hr ▸ hget)
    · exact h ▸ dynamoStep_failed _
  | loaded edit current =>
    simp only [DynamoTemplateCall.advance] at h
    cases edit with
    | update input now =>
      refine commitReplace_step hids hknown (fun _ hu => redrafted_of_updated hu) ?_ h
      rintro t' - rfl hcommit
      exact runAlone_of_commit hcommit
    | publish now expectedDraftVersionId context =>
      simp only [advanceLoaded] at h
      split at h
      · subst h
        exact .kept rfl rfl trivial fun _ hr => (by cases hr)
      · rename_i hnone
        subst h
        exact .kept rfl rfl ⟨hknown, hnone⟩ fun r hr => .inl hr
    | restoreVersion versionId expectedDraftVersionId now =>
      simp only [advanceLoaded] at h
      split at h
      · exact h ▸ dynamoStep_failed _
      · rename_i publication hpublication
        subst h
        obtain ⟨_, hcheck, hpublication⟩ := bind_eq_ok.mp hpublication
        exact .kept rfl rfl ⟨hknown, hcheck, fun _ => hpublication⟩ fun r hr => .inl hr
    | duplicate now => exact commitCreate_step hids h
    | delete =>
      subst h
      exact .kept rfl rfl hknown fun r hr => .inl hr
  | publishing now expectedDraftVersionId context current listing =>
    obtain ⟨hknown, hnone⟩ := hknown
    subst h
    simp only [DynamoTemplateCall.advance]
    cases hpublish : t.publishTemplate p answers.interferes (publishedTemplate current now)
        (publicationOf history context current now) listing current.publishedAlias
        current.revision history.limit with
    | error e => exact dynamoStep_failed _
    | ok t' =>
      obtain ⟨hcommits, -, hfalse⟩ := TemplateTable.publishTemplate_spec rfl hpublish
      have hstored := hcommits.stored hknown
      refine .written _ current.id rfl ?_ (hcommits.rewritten hids fun r hr => ?_) rfl
      · have hread : (DynamoTemplateCall.loaded (.publish now expectedDraftVersionId context)
            current).advance p history { uuid := answers.uuid, listing := listing } t =
              { table := t
                call := .publishing now expectedDraftVersionId context current listing } := by
          simp only [DynamoTemplateCall.advance, advanceLoaded, hnone]
        rw [TemplateCommit.apply, if_pos hstored, runAlone_of_read hread]
        have hadvance : (DynamoTemplateCall.publishing now expectedDraftVersionId context current
            listing).advance p history { uuid := answers.uuid, listing := listing } t =
              finishCommit t current.id (.edited (.publish now expectedDraftVersionId context)
                current answers.uuid listing) (.ok t') := by
          simp only [DynamoTemplateCall.advance, hfalse]
        rw [runAlone_of_commit (by rw [hadvance]; rfl), hadvance, finishCommit]
      · obtain rfl := Option.some.inj hr
        exact ⟨rfl, rfl⟩
  | restoring versionId expectedDraftVersionId now current publication =>
    obtain ⟨hknown, hcheck, hpublication⟩ := hknown
    refine commitReplace_step hids hknown (fun _ hu => redrafted_of_restored hu) ?_ h
    rintro t' hstored rfl hcommit
    rw [runAlone_of_read (by
      simp only [DynamoTemplateCall.advance, advanceLoaded, hcheck, hpublication hstored]
      rfl)]
    exact runAlone_of_commit hcommit
  | deleting current listing =>
    subst h
    simp only [DynamoTemplateCall.advance]
    cases hdelete : t.deleteTemplate answers.interferes current listing current.revision with
    | error e => exact dynamoStep_failed _
    | ok t' =>
      obtain ⟨hcommits, hfalse⟩ := TemplateTable.deleteTemplate_spec hdelete
      have hstored := hcommits.stored hknown
      refine .written _ current.id rfl ?_ (hcommits.rewritten hids fun r hr => (by cases hr)) rfl
      rw [TemplateCommit.apply, if_pos hstored, runAlone_of_read rfl]
      have hadvance : (DynamoTemplateCall.deleting current listing).advance p history
          { uuid := answers.uuid, listing := listing } t = finishCommit t current.id
            (.edited .delete current answers.uuid listing) (.ok t') := by
        simp only [DynamoTemplateCall.advance, hfalse]
      rw [runAlone_of_commit (by rw [hadvance]; rfl), hadvance, finishCommit]
  | finished result =>
    subst h
    exact .kept rfl rfl trivial fun _ hr => (by cases hr)

/-! ## What a write does -/

/-- What a write leaves, for a template that is stored as it was read. A duplicate is a template
that is created. -/
def TemplateCommit.Effect (history : TemplateHistoryOptions) (t t' : TemplateTable) :
    TemplateCommit → Prop
  | created record => t'.getRecord record.id = some record
  | edited edit current _ _ => t.getRecord current.id = some current ∧
    match edit with
    | .update _ _ | .restoreVersion _ _ _ => ∃ updated, t'.getRecord current.id = some updated ∧
        updated.revision = current.revision + 1 ∧ updated.published = current.published
    | .publish now expectedDraftVersionId context => ∃ updated,
        t'.getRecord current.id = some updated ∧ updated.revision = current.revision + 1 ∧
          updated.published = some current.draft ∧
          (∀ id, expectedDraftVersionId = some id → current.draft.id = id) ∧
          t'.getTemplateVersion current.id current.draft.id =
            some (publicationOf history context current now)
    | .delete => t'.getRecord current.id = none
    | .duplicate _ => True

theorem runAlone_finished (operations : ℕ) (result : Except Failure String) :
    runAlone p history answers t operations (.finished result) = none := by
  induction operations with
  | zero => rfl
  | succ operations ih => exact ih

theorem runAlone_succ_eq_some {operations : ℕ}
    (h : runAlone p history answers t (operations + 1) call = some t') :
    (∃ commit, call.advance p history answers t =
      ⟨t', (call.advance p history answers t).call, some commit⟩) ∨
    runAlone p history answers (call.advance p history answers t).table operations
      (call.advance p history answers t).call = some t' := by
  rw [runAlone] at h
  split_ifs at h with hcommit
  · obtain ⟨commit, hcommit⟩ := Option.isSome_iff_exists.mp hcommit
    refine .inl ⟨commit, ?_⟩
    rw [← Option.some.inj h, ← hcommit]
  · exact .inr h

theorem finishCommit_eq {id : String} {commit commit' : TemplateCommit}
    {result : Except Failure TemplateTable} {after : DynamoTemplateCall}
    (h : finishCommit t id commit result = ⟨t', after, some commit'⟩) : result = .ok t' := by
  cases result with
  | error e => cases h
  | ok t'' =>
    obtain rfl : t'' = t' := congrArg DynamoAdvance.table h
    rfl

/-- A draft that is replaced, by a call that runs alone. -/
theorem redrafted_of_runAlone {replaced : Except Failure TemplateRecord} {operations : ℕ}
    (hadvance : call.advance p history answers t = commitReplace t answers edit current replaced)
    (hreplaced : ∀ updated, replaced = .ok updated → Redrafted current updated)
    (h : runAlone p history answers t (operations + 1) call = some t') :
    ∃ updated, t'.getRecord current.id = some updated ∧
      updated.revision = current.revision + 1 ∧ updated.published = current.published := by
  have hfailed : ∀ e, call.advance p history answers t =
      { table := t, call := .finished (.error e) } → False := by
    intro e he
    rcases runAlone_succ_eq_some h with ⟨commit, hcommit⟩ | hrest
    · rw [he] at hcommit
      cases hcommit
    · rw [he, runAlone_finished] at hrest
      cases hrest
  cases replaced with
  | error e => exact (hfailed e hadvance).elim
  | ok updated =>
    simp only [commitReplace] at hadvance
    cases hreplace : t.replaceTemplate answers.interferes updated current.draftAlias
        current.revision with
    | error e =>
      rw [hreplace] at hadvance
      exact (hfailed e hadvance).elim
    | ok t'' =>
      rcases runAlone_succ_eq_some h with ⟨commit, hcommit⟩ | hrest
      · have hok := finishCommit_eq (hadvance.symm.trans hcommit)
        obtain ⟨hid, hpublished, hrevision, -⟩ := hreplaced updated rfl
        exact ⟨updated, hid ▸ (TemplateTable.replaceTemplate_spec hok).1.record, hrevision,
          hpublished⟩
      · rw [hadvance, hreplace] at hrest
        simp only [finishCommit, runAlone_finished, reduceCtorEq] at hrest

theorem effect_of_apply {commit : TemplateCommit} (h : commit.apply p history t = some t') :
    commit.Effect history t t' := by
  cases commit with
  | created record =>
    exact (TemplateTable.createTemplate_spec (toOption_eq_some.mp h)).1.1
  | edited edit current uuid listing =>
    rw [TemplateCommit.apply] at h
    split_ifs at h with hstored
    refine ⟨hstored, ?_⟩
    cases edit with
    | update input now =>
      exact redrafted_of_runAlone rfl (fun _ hu => redrafted_of_updated hu) h
    | publish now expectedDraftVersionId context =>
      cases hout : publishOutcome current expectedDraftVersionId with
      | some result =>
        rw [runAlone_of_read (by
          simp only [DynamoTemplateCall.advance, advanceLoaded, hout]
          rfl), runAlone_finished] at h
        cases h
      | none =>
        have hread : (DynamoTemplateCall.loaded (.publish now expectedDraftVersionId context)
            current).advance p history { uuid := uuid, listing := listing } t =
              { table := t
                call := .publishing now expectedDraftVersionId context current listing } := by
          simp only [DynamoTemplateCall.advance, advanceLoaded, hout]
        rw [runAlone_of_read hread] at h
        rcases runAlone_succ_eq_some h with ⟨commit, hcommit⟩ | hrest
        · obtain ⟨hcommits, hversion, -⟩ :=
            TemplateTable.publishTemplate_spec rfl (finishCommit_eq hcommit)
          refine ⟨_, hcommits.record, rfl, rfl, fun id hid => ?_, hversion⟩
          unfold publishOutcome at hout
          split_ifs at hout with hexpected
          rw [hid, Option.any_some, bne_iff_ne, not_not] at hexpected
          exact hexpected.symm
        · cases hrest
    | restoreVersion versionId expectedDraftVersionId now =>
      rcases runAlone_succ_eq_some h with ⟨commit, hcommit⟩ | hrest
      · simp only [DynamoTemplateCall.advance, advanceLoaded] at hcommit
        split at hcommit <;> cases hcommit
      · simp only [DynamoTemplateCall.advance, advanceLoaded] at hrest
        split at hrest
        · rw [runAlone_finished] at hrest
          cases hrest
        · exact redrafted_of_runAlone rfl (fun _ hu => redrafted_of_restored hu) hrest
    | duplicate now => trivial
    | delete =>
      rw [runAlone_of_read rfl] at h
      rcases runAlone_succ_eq_some h with ⟨commit, hcommit⟩ | hrest
      · exact (TemplateTable.deleteTemplate_spec (finishCommit_eq hcommit)).1.record
      · cases hrest

/-- The template of a call whose next operation is its conditional write. -/
def DynamoTemplateCall.writes : DynamoTemplateCall → Option TemplateRecord
  | loaded (.update _ _) current | publishing _ _ _ current _ | restoring _ _ _ current _
  | deleting current _ => some current
  | _ => none

/-- **A lost race**: where the template is not stored as it was read, the write fails. -/
theorem failed_of_lost (hknown : call.Known t) (hwrites : call.writes = some current)
    (hlost : t.getRecord current.id ≠ some current) :
    ∃ e, call.advance p history answers t = { table := t, call := .finished (.error e) } := by
  have hreplace : ∀ edit replaced, current.Snapshot t.getRecord →
      (∀ updated, replaced = .ok updated → Redrafted current updated) →
      ∃ e, commitReplace t answers edit current replaced =
        { table := t, call := .finished (.error e) } := by
    intro edit replaced hknown hreplaced
    cases replaced with
    | error e => exact ⟨e, rfl⟩
    | ok updated =>
      simp only [commitReplace]
      cases hreplace : t.replaceTemplate answers.interferes updated current.draftAlias
          current.revision with
      | error e => exact ⟨e, rfl⟩
      | ok t' =>
        have hcommits := (TemplateTable.replaceTemplate_spec hreplace).1
        rw [(hreplaced updated rfl).id] at hcommits
        exact absurd (hcommits.stored hknown) hlost
  cases call with
  | requested _ => cases hwrites
  | seeking _ _ => cases hwrites
  | following _ _ => cases hwrites
  | finished _ => cases hwrites
  | loaded edit read =>
    cases edit with
    | update input now =>
      obtain rfl := Option.some.inj hwrites
      exact hreplace _ _ hknown fun _ hu => redrafted_of_updated hu
    | publish _ _ _ => cases hwrites
    | restoreVersion _ _ _ => cases hwrites
    | duplicate _ => cases hwrites
    | delete => cases hwrites
  | publishing now expectedDraftVersionId context read listing =>
    obtain rfl := Option.some.inj hwrites
    simp only [DynamoTemplateCall.advance]
    cases hpublish : t.publishTemplate p answers.interferes (publishedTemplate read now)
        (publicationOf history context read now) listing read.publishedAlias read.revision
        history.limit with
    | error e => exact ⟨e, rfl⟩
    | ok t' =>
      have hcommits := (TemplateTable.publishTemplate_spec rfl hpublish).1
      exact absurd (hcommits.stored hknown.1) hlost
  | restoring versionId expectedDraftVersionId now read publication =>
    obtain rfl := Option.some.inj hwrites
    exact hreplace _ _ hknown.1 fun _ hu => redrafted_of_restored hu
  | deleting read listing =>
    obtain rfl := Option.some.inj hwrites
    simp only [DynamoTemplateCall.advance]
    cases hdelete : t.deleteTemplate answers.interferes read listing read.revision with
    | error e => exact ⟨e, rfl⟩
    | ok t' =>
      exact absurd ((TemplateTable.deleteTemplate_spec hdelete).1.stored hknown) hlost

end Step

/-! ## Runs -/

/-- What every reachable state satisfies. -/
structure DynamoTemplateSystem.Inv (st : DynamoTemplateSystem) : Prop where
  ids : st.table.IdsStored
  drawn : ∀ k r, st.table.getRecord k = some r → k ∈ st.drawn
  known : ∀ call ∈ st.calls, call.Known st.table
  snapshots : ∀ call ∈ st.calls, ∀ r, call.snapshot = some r → r.id ∈ st.drawn

section Run

variable {p : Platform} {history : TemplateHistoryOptions} {st st' : DynamoTemplateSystem}

/-- The steps of a run. -/
theorem dynamoTemplateSystem_advance {i : ℕ} {answers : DynamoAnswers}
    (h : (dynamoTemplateSystem p history).step st (.advance i answers) = some st') :
    ∃ call, st.calls[i]? = some call ∧ drawnTemplateId answers.uuid ∉ st.drawn ∧
      st' = {
        table := (call.advance p history answers st.table).table
        calls := st.calls.set i (call.advance p history answers st.table).call
        drawn := st.drawn ++ [drawnTemplateId answers.uuid]
        log := st.log ++ (call.advance p history answers st.table).commit.toList } := by
  simp only [dynamoTemplateSystem, Option.bind_eq_bind, Option.bind_eq_some_iff,
    Option.guard_eq_some', Option.pure_def, Option.some.injEq] at h
  obtain ⟨call, hcall, _, hfresh, rfl⟩ := h
  exact ⟨call, hcall, hfresh, rfl⟩

theorem DynamoTemplateSystem.Inv.step (h : st.Inv) {label : DynamoTemplateLabel}
    (hstep : (dynamoTemplateSystem p history).step st label = some st') : st'.Inv := by
  cases label with
  | request request =>
    obtain rfl := Option.some.inj hstep
    refine ⟨h.ids, h.drawn, fun call hcall => ?_, fun call hcall r hr => ?_⟩
    · rcases List.mem_append.mp hcall with hcall | hcall
      · exact h.known call hcall
      · rw [List.mem_singleton.mp hcall]
        trivial
    · rcases List.mem_append.mp hcall with hcall | hcall
      · exact h.snapshots call hcall r hr
      · rw [List.mem_singleton.mp hcall] at hr
        cases hr
  | advance i answers =>
    obtain ⟨call, hcall, hfresh, rfl⟩ := dynamoTemplateSystem_advance hstep
    have hmem := List.mem_of_getElem? hcall
    generalize hafter : call.advance p history answers st.table = after
    rcases advance_step h.ids (h.known call hmem) hafter with
      ⟨htable, -, hknown, hsnapshot⟩ | ⟨commit, id, -, -, hwrite, hfinished⟩
    · rw [htable]
      refine ⟨h.ids, fun k r hr => List.mem_append_left _ (h.drawn k r hr), fun call' hcall' => ?_,
        fun call' hcall' r hr => ?_⟩
      · rcases List.mem_or_eq_of_mem_set hcall' with hcall' | rfl
        · exact h.known call' hcall'
        · exact hknown
      · rcases List.mem_or_eq_of_mem_set hcall' with hcall' | rfl
        · exact List.mem_append_left _ (h.snapshots call' hcall' r hr)
        · rcases hsnapshot r hr with hold | hget
          · exact List.mem_append_left _ (h.snapshots call hmem r hold)
          · exact List.mem_append_left _ (h.drawn _ r hget)
    · refine ⟨hwrite.ids, fun k r hr => ?_, fun call' hcall' => ?_, fun call' hcall' r hr => ?_⟩
      · rcases hwrite.evolves k r hr with hold | ⟨r', hold, -⟩ | rfl
        · exact List.mem_append_left _ (h.drawn k r hold)
        · exact List.mem_append_left _ (h.drawn k r' hold)
        · exact List.mem_append_right _ (List.mem_singleton_self _)
      · rcases List.mem_or_eq_of_mem_set hcall' with hcall' | rfl
        · exact (h.known call' hcall').rewritten hwrite fun r hr heq =>
            hfresh (heq ▸ h.snapshots call' hcall' r hr)
        · rw [hfinished]
          trivial
      · rcases List.mem_or_eq_of_mem_set hcall' with hcall' | rfl
        · exact List.mem_append_left _ (h.snapshots call' hcall' r hr)
        · rw [hfinished] at hr
          cases hr

theorem DynamoTemplateSystem.inv_of_reachable
    (h : (dynamoTemplateSystem p history).Reachable st) : st.Inv := by
  refine h.invariant (fun st hst => ?_) fun st st' label _ hinv hstep => hinv.step hstep
  obtain rfl : st = {} := hst
  exact ⟨fun _ _ hr => (by cases hr), fun _ _ hr => (by cases hr), fun _ hcall => (by cases hcall),
    fun _ hcall => (by cases hcall)⟩

/-- The table is that of the writes alone, in their order. -/
theorem serial_of_reachable (h : (dynamoTemplateSystem p history).Reachable st) :
    TransitionSystem.serial (TemplateCommit.apply p history) ∅ st.log = some st.table := by
  refine TransitionSystem.ReachableWhere.serial_history DynamoTemplateSystem.table
    DynamoTemplateSystem.log _ (fun st hst => ?_) (fun st st' label hr _ hstep => ?_) h
  · obtain rfl : st = {} := hst
    exact ⟨rfl, rfl⟩
  · cases label with
    | request request =>
      obtain rfl := Option.some.inj hstep
      exact .inl ⟨rfl, rfl⟩
    | advance i answers =>
      obtain ⟨call, hcall, -, rfl⟩ := dynamoTemplateSystem_advance hstep
      have hinv := DynamoTemplateSystem.inv_of_reachable hr
      have hknown := hinv.known call (List.mem_of_getElem? hcall)
      generalize hafter : call.advance p history answers st.table = after
      rcases advance_step hinv.ids hknown hafter with
        ⟨htable, hcommit, -, -⟩ | ⟨commit, id, hcommit, happly, -, -⟩
      · exact .inl ⟨htable, by rw [hcommit, Option.toList_none, List.append_nil]⟩
      · exact .inr ⟨commit, by rw [hcommit, Option.toList_some], happly⟩

/-- Every write of the log acts on what the writes before it left. -/
theorem serial_split {apply : TemplateTable → TemplateCommit → Option TemplateTable}
    {t t'' : TemplateTable} {before after : List TemplateCommit} {commit : TemplateCommit}
    (h : TransitionSystem.serial apply t (before ++ commit :: after) = some t'') :
    ∃ t₁ t₂, TransitionSystem.serial apply t before = some t₁ ∧ apply t₁ commit = some t₂ := by
  induction before generalizing t with
  | nil =>
    obtain ⟨t₂, ht₂, -⟩ := Option.bind_eq_some_iff.mp h
    exact ⟨t, t₂, rfl, ht₂⟩
  | cons first before ih =>
    obtain ⟨t₁, ht₁, h⟩ := Option.bind_eq_some_iff.mp h
    obtain ⟨t₂, t₃, ht₂, ht₃⟩ := ih h
    exact ⟨t₂, t₃, Option.bind_eq_some_iff.mpr ⟨t₁, ht₁, ht₂⟩, ht₃⟩

/-- **Template edits are serialized**: in every run the table is what the writes alone make of the
empty one in their order; each of them finds its template as it was read and makes the next revision
of it, or removes it; a step that does not end in a write changes nothing; and the write of a call
whose template is not stored as it was read fails. -/
theorem template_edits_serialized (h : (dynamoTemplateSystem p history).Reachable st) :
    TransitionSystem.serial (TemplateCommit.apply p history) ∅ st.log = some st.table ∧
    (∀ before commit after, st.log = before ++ commit :: after → ∃ t t',
      TransitionSystem.serial (TemplateCommit.apply p history) ∅ before = some t ∧
        commit.apply p history t = some t' ∧ commit.Effect history t t') ∧
    (∀ call ∈ st.calls, ∀ answers,
      (call.advance p history answers st.table).commit = none →
        (call.advance p history answers st.table).table = st.table) ∧
    ∀ call ∈ st.calls, ∀ current, call.writes = some current →
      st.table.getRecord current.id ≠ some current → ∀ answers, ∃ e,
        call.advance p history answers st.table =
          { table := st.table, call := .finished (.error e) } := by
  have hinv := DynamoTemplateSystem.inv_of_reachable h
  have hserial := serial_of_reachable h
  refine ⟨hserial, fun before commit after hlog => ?_, fun call hcall answers hnone => ?_,
    fun call hcall current hwrites hlost answers =>
      failed_of_lost (hinv.known call hcall) hwrites hlost⟩
  · rw [hlog] at hserial
    obtain ⟨t, t', ht, ht'⟩ := serial_split hserial
    exact ⟨t, t', ht, ht', effect_of_apply ht'⟩
  · rcases advance_step hinv.ids (hinv.known call hcall) rfl with
      ⟨htable, -, -, -⟩ | ⟨commit, id, hcommit, -, -, -⟩
    · exact htable
    · rw [hnone] at hcommit
      cases hcommit

end Run

/-- Two calls read a template that was created; one publishes it, and the other fails to rename it
after that. -/
def racingEdits : List DynamoTemplateLabel :=
  [.request (.create { name := "Welcome", html := "<p>Hello</p>", alias_ := some "welcome" } 0),
    .advance 0 { uuid := fun _ => "a" },
    .request (.edit "tmpl_a" (.publish 1000 (some "tmplv_a") ⟨⟨"system", "System"⟩, .api⟩)),
    .request (.edit "tmpl_a" (.update { name := some "Hello" } 2000)),
    .advance 1 { uuid := fun _ => "b" },
    .advance 2 { uuid := fun _ => "c" },
    .advance 1 { uuid := fun _ => "d" },
    .advance 1 { uuid := fun _ => "e" },
    .advance 2 { uuid := fun _ => "f" }]

theorem template_edits_serialized_sample : ∃ st : DynamoTemplateSystem, st.log.length = 2 ∧
    TransitionSystem.serial (TemplateCommit.apply samplePlatform ⟨90, 50⟩) ∅ st.log =
      some st.table := by
  have hrun : ((dynamoTemplateSystem samplePlatform ⟨90, 50⟩).run {} racingEdits).any (fun st =>
      decide (st.log.length = 2)) = true := by
    decide +kernel
  obtain ⟨st, hst, hlog⟩ := TransitionSystem.exists_reachable_of_run rfl hrun
  exact ⟨st, of_decide_eq_true hlog, (template_edits_serialized hst).1⟩

end HayaSend
