import HayaSend.Adapters.TemplateStore
import HayaSend.Foundations.TransitionSystem
import HayaSend.Services.CreateReplay

/-!
# The template service

`TemplateService` on the in-memory store. A call reads the template it edits, may read a
publication, and writes on the condition that the template has the revision it read; other calls
run in between. Over every run, the maps of aliases stay exact, a call that fails has written
nothing, and a request that names an alias is rendered with the version that is published under it
(`template_registry`).
-/

namespace HayaSend

/-! ## Inputs -/

structure CreateTemplateInput where
  name : String
  html : String
  text : Option String := none
  alias_ : Option String := none
  from_ : Option String := none
  subject : Option String := none
  replyTo : Option (List String) := none
  variables_ : Option (List TemplateVariableInput) := none
  deriving DecidableEq, Repr

/-- A field may be left out, or be `null`, which removes it. -/
structure UpdateTemplateInput where
  name : Option String := none
  html : Option String := none
  text : Option (Option String) := none
  alias_ : Option (Option String) := none
  from_ : Option (Option String) := none
  subject : Option (Option String) := none
  replyTo : Option (Option (List String)) := none
  variables_ : Option (List TemplateVariableInput) := none
  deriving DecidableEq, Repr

structure TemplateHistoryOptions where
  retentionDays : ℕ
  limit : ℕ

structure TemplatePublicationContext where
  actor : TemplatePublicationActor
  source : TemplatePublicationSource
  deriving DecidableEq, Repr

/-! ## The records a call writes

A call draws the id of a version first, then that of a template, then those of variables. -/

section Records

variable (uuid : ℕ → String)

def drawnVersionId : String := createId "tmplv" (uuid 0)
def drawnTemplateId : String := createId "tmpl" (uuid 1)
def drawnVariableId (i : ℕ) : String := createId "tmplvar" (uuid (i + 2))

/-- The record of `create`. -/
def newTemplate (input : CreateTemplateInput) (now : ℕ) : Except Failure TemplateRecord := do
  let variables_ ← variableRecords (drawnVariableId uuid) (input.variables_.getD []) now []
  let version : TemplateVersion := {
    id := drawnVersionId uuid
    name := input.name
    html := input.html
    variables_ := variables_
    createdAt := now
    text := input.text
    alias_ := input.alias_
    from_ := input.from_
    subject := input.subject
    replyTo := input.replyTo }
  version.validate
  return {
    id := drawnTemplateId uuid
    createdAt := now
    updatedAt := now
    revision := 1
    draft := version }

/-- The record with another draft. -/
def TemplateRecord.withDraft (current : TemplateRecord) (draft : TemplateVersion) (now : ℕ) :
    TemplateRecord :=
  { current with draft := draft, updatedAt := now, revision := current.revision + 1 }

/-- The variables of `update`. -/
def updatedVariables (previous : List TemplateVariable)
    (inputs : Option (List TemplateVariableInput)) (now : ℕ) :
    Except Failure (List TemplateVariable) :=
  match inputs with
  | none => .ok previous
  | some inputs => variableRecords (drawnVariableId uuid) inputs now previous

/-- The record of `update`. -/
def updatedTemplate (current : TemplateRecord) (input : UpdateTemplateInput) (now : ℕ) :
    Except Failure TemplateRecord := do
  let previous := current.draft
  let variables_ ← updatedVariables uuid previous.variables_ input.variables_ now
  let draft : TemplateVersion := {
    id := drawnVersionId uuid
    name := input.name.getD previous.name
    html := input.html.getD previous.html
    variables_ := variables_
    createdAt := now
    text := input.text.getD previous.text
    alias_ := input.alias_.getD previous.alias_
    from_ := input.from_.getD previous.from_
    subject := input.subject.getD previous.subject
    replyTo := input.replyTo.getD previous.replyTo }
  draft.validate
  return current.withDraft draft now

/-- The record of `restoreVersion`. -/
def restoredTemplate (current : TemplateRecord) (publication : TemplatePublicationRecord)
    (now : ℕ) : Except Failure TemplateRecord := do
  let draft : TemplateVersion := { publication.version with
    id := drawnVersionId uuid
    createdAt := now
    sourceVersionId := some publication.id }
  draft.validate
  return current.withDraft draft now

end Records

/-- The record of `publish`. -/
def publishedTemplate (current : TemplateRecord) (now : ℕ) : TemplateRecord :=
  { current with
    published := some current.draft
    publishedAt := some now
    updatedAt := now
    revision := current.revision + 1 }

/-- The publication of `publish`. -/
def publicationOf (history : TemplateHistoryOptions) (context : TemplatePublicationContext)
    (current : TemplateRecord) (now : ℕ) : TemplatePublicationRecord where
  id := current.draft.id
  templateId := current.id
  version := current.draft
  publishedAt := now
  expiresAt := now + history.retentionDays * 24 * 60 * 60 * 1000
  actor := context.actor
  source := context.source
  sourceVersionId := current.draft.sourceVersionId.filter (· != "")

/-- The input `duplicate` creates a template from: the draft without its alias. -/
def duplicateInput (source : TemplateVersion) : CreateTemplateInput where
  name := source.name ++ " copy"
  html := source.html
  text := source.text
  from_ := source.from_
  subject := source.subject
  replyTo := source.replyTo
  variables_ := some (source.variables_.map fun v => ⟨v.key, v.type, v.fallbackValue⟩)

/-- `getPublicationRecord`, of what the store returned. -/
def getPublicationRecord (found : Option TemplatePublicationRecord) (template : TemplateRecord)
    (versionId : String) (now : ℕ) : Except Failure TemplatePublicationRecord :=
  match found with
  | none => .error (.notFound "Template version")
  | some publication =>
    if publication.templateId ≠ template.id ∨ publication.id ≠ versionId ∨
        publication.version.id ≠ versionId ∨ publication.expiresAt ≤ now then
      .error (.notFound "Template version")
    else .ok publication

/-- What `publish` returns without a write. -/
def publishOutcome (current : TemplateRecord) (expectedDraftVersionId : Option String) :
    Option (Except Failure String) :=
  if expectedDraftVersionId.any (· != current.draft.id) then
    some (.error (.preconditionFailed
      "Template draft changed after it was reviewed; render and publish the current version."))
  else if (current.published.map (·.id)) = some current.draft.id then some (.ok current.id)
  else none

/-- The draft that `restoreVersion` expects. -/
def checkRestore (current : TemplateRecord) (expectedDraftVersionId : String) :
    Except Failure Unit :=
  throwIf (current.draft.id != expectedDraftVersionId) (.preconditionFailed
    "Template draft changed after restore was requested; inspect the current draft and retry.")

def changedConcurrently (action : String) : Failure :=
  .conflict ("Template changed concurrently; retry the " ++ action ++ ".")

/-! ## Calls -/

/-- An edit of a template that is read first. -/
inductive TemplateEdit
  | update (input : UpdateTemplateInput) (now : ℕ)
  | publish (now : ℕ) (expectedDraftVersionId : Option String)
      (context : TemplatePublicationContext)
  | restoreVersion (versionId expectedDraftVersionId : String) (now : ℕ)
  | duplicate (now : ℕ)
  | delete

inductive TemplateRequest
  | create (input : CreateTemplateInput) (now : ℕ)
  | edit (identifier : String) (edit : TemplateEdit)

/-- Where a call stands: before its first operation of the store, after it read a template, after
it read a publication, or at its end, with the id of a template. -/
inductive TemplateCall
  | requested (request : TemplateRequest)
  | loaded (edit : TemplateEdit) (current : TemplateRecord)
  | restoring (current : TemplateRecord) (publication : TemplatePublicationRecord) (now : ℕ)
  | finished (result : Except Failure String)

/-- A write that throws, or that finds another revision, fails the call. -/
def finishWrite (s : TemplateStore) (id action : String) :
    Except Failure (TemplateStore × Bool) → TemplateStore × TemplateCall
  | .error e => (s, .finished (.error e))
  | .ok (_, false) => (s, .finished (.error (changedConcurrently action)))
  | .ok (s', true) => (s', .finished (.ok id))

/-- The end of `create`. -/
def finishCreate (s : TemplateStore) :
    Except Failure TemplateRecord → TemplateStore × TemplateCall
  | .error e => (s, .finished (.error e))
  | .ok record =>
    match s.createTemplate record with
    | .error e => (s, .finished (.error e))
    | .ok s' => (s', .finished (.ok record.id))

/-- The end of a call that replaces the draft of `current`. -/
def finishReplace (s : TemplateStore) (current : TemplateRecord) (action : String) :
    Except Failure TemplateRecord → TemplateStore × TemplateCall
  | .error e => (s, .finished (.error e))
  | .ok updated => finishWrite s current.id action
      (s.replaceTemplate updated current.draftAlias current.revision)

/-- An edit after its template was read, up to its next operation of the store. -/
def advanceEdit (p : Platform) (history : TemplateHistoryOptions) (uuid : ℕ → String)
    (s : TemplateStore) (current : TemplateRecord) : TemplateEdit → TemplateStore × TemplateCall
  | .update input now => finishReplace s current "update" (updatedTemplate uuid current input now)
  | .publish now expectedDraftVersionId context =>
    match publishOutcome current expectedDraftVersionId with
    | some result => (s, .finished result)
    | none => finishWrite s current.id "publish" (s.publishTemplate p
        (publishedTemplate current now) (publicationOf history context current now)
        current.publishedAlias current.revision history.limit)
  | .restoreVersion versionId expectedDraftVersionId now =>
    match (do
      checkRestore current expectedDraftVersionId
      getPublicationRecord (s.getTemplateVersion current.id versionId) current versionId now) with
    | .error e => (s, .finished (.error e))
    | .ok publication => (s, .restoring current publication now)
  | .duplicate now => finishCreate s (newTemplate uuid (duplicateInput current.draft) now)
  | .delete =>
    finishWrite s current.id "deletion" (.ok (s.deleteTemplate current current.revision))

/-- A call up to the end of its next operation of the store. -/
def TemplateCall.advance (p : Platform) (history : TemplateHistoryOptions) (uuid : ℕ → String)
    (s : TemplateStore) : TemplateCall → TemplateStore × TemplateCall
  | requested (.create input now) => finishCreate s (newTemplate uuid input now)
  | requested (.edit identifier edit) =>
    match s.getTemplate identifier with
    | none => (s, .finished (.error (.notFound "Template")))
    | some current => (s, .loaded edit current)
  | loaded edit current => advanceEdit p history uuid s current edit
  | restoring current publication now =>
    finishReplace s current "restore" (restoredTemplate uuid current publication now)
  | finished result => (s, .finished result)

/-! ## Sending -/

/-- The rendering of `resolveForSend`: the version a template publishes. -/
def TemplateStore.renderPublished (p : Platform) (s : TemplateStore) (template : TemplateReference)
    (sender subject : Option String) (replyTo : Option (List String)) :
    Except Failure RenderedTemplate :=
  match s.getPublishedTemplate template.id with
  | none => .error (.notFound "Template")
  | some record =>
    match record.published with
    | none => .error (.validation ("Template " ++ template.id ++ " is not published."))
    | some version =>
      renderTemplateVersion p version ⟨sender, subject, replyTo, template.variables_⟩ "send"

/-! ## Runs -/

/-- The templates, the calls, and the ids that were drawn for templates. -/
structure TemplateSystem where
  store : TemplateStore := {}
  calls : List TemplateCall := []
  drawn : List String := []

inductive TemplateLabel
  /-- A call begins. -/
  | request (request : TemplateRequest)
  /-- A call advances; it may draw ids. -/
  | advance (call : ℕ) (uuid : ℕ → String)

/-- A run of calls. The id drawn for a template is none that was drawn before. -/
def templateSystem (p : Platform) (history : TemplateHistoryOptions) :
    TransitionSystem TemplateSystem TemplateLabel where
  init st := st = {}
  step st
    | .request request => some { st with calls := st.calls ++ [.requested request] }
    | .advance i uuid => do
      let call ← st.calls[i]?
      guard (drawnTemplateId uuid ∉ st.drawn)
      let (store, call) := call.advance p history uuid st.store
      return {
        store := store
        calls := st.calls.set i call
        drawn := st.drawn ++ [drawnTemplateId uuid] }

/-! ## What a call does -/

theorem isTemplateId_drawn (uuid : ℕ → String) :
    TemplateStore.IsTemplateId (drawnTemplateId uuid) := by
  rw [TemplateStore.IsTemplateId, drawnTemplateId, createId, String.toList_append]
  exact List.prefix_append _ _

/-- The alias of a version that passes the checks is valid. -/
theorem TemplateVersion.validate_alias {version : TemplateVersion} {u : Unit}
    (h : version.validate = .ok u) (a : String) (ha : version.alias_ = some a) :
    isAlias a = true := by
  obtain ⟨_, -, h⟩ := bind_eq_ok.mp h
  obtain ⟨_, -, h⟩ := bind_eq_ok.mp h
  obtain ⟨_, halias, -⟩ := bind_eq_ok.mp h
  rw [throwIf_eq_ok, ha, Option.any_some, Bool.or_eq_false_iff, Bool.not_eq_false'] at halias
  exact halias.2

/-- The template a call has read. -/
def TemplateCall.snapshot : TemplateCall → Option TemplateRecord
  | loaded _ current => some current
  | restoring current _ _ => some current
  | requested _ | finished _ => none

/-- What holds of the store after a step that draws the id `fresh`. -/
def Advanced (s s' : TemplateStore) (fresh : String) : Prop :=
  s'.Registered ∧ s.EvolvesTo s' fresh

section Advance

variable {p : Platform} {history : TemplateHistoryOptions} {uuid : ℕ → String}
  {s s' : TemplateStore} {call call' : TemplateCall} {current updated : TemplateRecord}

theorem finishWrite_spec {id action fresh : String}
    {result : Except Failure (TemplateStore × Bool)} (hs : s.Registered)
    (hresult : ∀ s'', result = .ok (s'', true) → Advanced s s'' fresh)
    (h : finishWrite s id action result = (s', call')) :
    Advanced s s' fresh ∧ call'.snapshot = none := by
  have hkept : Advanced s s fresh := ⟨hs, .refl⟩
  unfold finishWrite at h
  split at h
  · obtain ⟨rfl, rfl⟩ := Prod.mk.inj h
    exact ⟨hkept, rfl⟩
  · obtain ⟨rfl, rfl⟩ := Prod.mk.inj h
    exact ⟨hkept, rfl⟩
  · obtain ⟨rfl, rfl⟩ := Prod.mk.inj h
    exact ⟨hresult _ rfl, rfl⟩

theorem finishCreate_spec {input : CreateTemplateInput} {now : ℕ} (hs : s.Registered)
    (h : finishCreate s (newTemplate uuid input now) = (s', call')) :
    Advanced s s' (drawnTemplateId uuid) ∧ call'.snapshot = none := by
  have hkept : Advanced s s (drawnTemplateId uuid) := ⟨hs, .refl⟩
  unfold finishCreate at h
  split at h
  · obtain ⟨rfl, rfl⟩ := Prod.mk.inj h
    exact ⟨hkept, rfl⟩
  · rename_i record hrecord
    obtain ⟨variables_, -, hrecord⟩ := bind_eq_ok.mp hrecord
    obtain ⟨_, hvalid, hrecord⟩ := bind_eq_ok.mp hrecord
    rw [pure_eq_ok] at hrecord
    subst hrecord
    split at h
    · obtain ⟨rfl, rfl⟩ := Prod.mk.inj h
      exact ⟨hkept, rfl⟩
    · rename_i s'' hcreate
      obtain ⟨rfl, rfl⟩ := Prod.mk.inj h
      refine ⟨hs.createTemplate ⟨isTemplateId_drawn uuid, ?_, fun _ ha => (by cases ha)⟩ rfl hcreate,
        rfl⟩
      exact TemplateVersion.validate_alias hvalid

/-- A new draft that passed the checks. -/
structure Redrafted (current updated : TemplateRecord) : Prop where
  id : updated.id = current.id
  published : updated.published = current.published
  revision : updated.revision = current.revision + 1
  draft : ∀ a, updated.draftAlias = some a → isAlias a = true

theorem redrafted_withDraft {draft : TemplateVersion} {now : ℕ} {u : Unit}
    (h : draft.validate = .ok u) : Redrafted current (current.withDraft draft now) :=
  ⟨rfl, rfl, rfl, TemplateVersion.validate_alias h⟩

theorem redrafted_of_updated {input : UpdateTemplateInput} {now : ℕ}
    (h : updatedTemplate uuid current input now = .ok updated) : Redrafted current updated := by
  obtain ⟨variables_, -, h⟩ := bind_eq_ok.mp h
  obtain ⟨_, hvalid, h⟩ := bind_eq_ok.mp h
  rw [pure_eq_ok] at h
  subst h
  exact redrafted_withDraft hvalid

theorem redrafted_of_restored {publication : TemplatePublicationRecord} {now : ℕ}
    (h : restoredTemplate uuid current publication now = .ok updated) :
    Redrafted current updated := by
  obtain ⟨_, hvalid, h⟩ := bind_eq_ok.mp h
  rw [pure_eq_ok] at h
  subst h
  exact redrafted_withDraft hvalid

theorem finishReplace_spec {action fresh : String} {replaced : Except Failure TemplateRecord}
    (hs : s.Registered) (hcurrent : current.Snapshot s.templates.get)
    (hwell : TemplateStore.WellFormed current)
    (hreplaced : ∀ updated, replaced = .ok updated → Redrafted current updated)
    (h : finishReplace s current action replaced = (s', call')) :
    Advanced s s' fresh ∧ call'.snapshot = none := by
  cases replaced with
  | error e =>
    obtain ⟨rfl, rfl⟩ := Prod.mk.inj h
    exact ⟨⟨hs, .refl⟩, rfl⟩
  | ok updated =>
    obtain ⟨hid, hpublished, hrevision, hdraft⟩ := hreplaced updated rfl
    refine finishWrite_spec hs (fun s'' hs'' => ?_) h
    refine hs.replaceTemplate hcurrent ⟨hid ▸ hwell.id, hdraft, fun a ha => ?_⟩ hid hpublished
      hrevision hs''
    rw [TemplateRecord.publishedAlias, hpublished] at ha
    exact hwell.published a ha

/-- **What a step of a call does**: the maps of aliases stay exact, and what the call then knows of
a template it has just read or knew before. -/
theorem advance_spec (hs : s.Registered)
    (hsnapshot : ∀ r, call.snapshot = some r →
      r.Snapshot s.templates.get ∧ TemplateStore.WellFormed r)
    (h : call.advance p history uuid s = (s', call')) :
    Advanced s s' (drawnTemplateId uuid) ∧
      ∀ r, call'.snapshot = some r → call.snapshot = some r ∨
        s'.templates.get r.id = some r ∧ TemplateStore.WellFormed r := by
  have hkept : Advanced s s (drawnTemplateId uuid) := ⟨hs, .refl⟩
  have hdone : (Advanced s s' (drawnTemplateId uuid) ∧ call'.snapshot = none) →
      Advanced s s' (drawnTemplateId uuid) ∧ ∀ r, call'.snapshot = some r →
        call.snapshot = some r ∨ s'.templates.get r.id = some r ∧ TemplateStore.WellFormed r := by
    rintro ⟨hadvanced, hnone⟩
    refine ⟨hadvanced, fun r hr => ?_⟩
    rw [hnone] at hr
    cases hr
  cases call with
  | requested request =>
    cases request with
    | create input now => exact hdone (finishCreate_spec hs h)
    | edit identifier edit =>
      simp only [TemplateCall.advance] at h
      split at h
      · obtain ⟨rfl, rfl⟩ := Prod.mk.inj h
        exact hdone ⟨hkept, rfl⟩
      · rename_i current hcurrent
        obtain ⟨rfl, rfl⟩ := Prod.mk.inj h
        refine ⟨hkept, fun r hr => .inr ?_⟩
        obtain rfl := Option.some.inj hr
        exact hs.getTemplate hcurrent
  | loaded edit current =>
    obtain ⟨hcurrent, hwell⟩ := hsnapshot current rfl
    simp only [TemplateCall.advance] at h
    cases edit with
    | update input now =>
      exact hdone (finishReplace_spec hs hcurrent hwell (fun _ hu => redrafted_of_updated hu) h)
    | publish now expectedDraftVersionId context =>
      simp only [advanceEdit] at h
      split at h
      · obtain ⟨rfl, rfl⟩ := Prod.mk.inj h
        exact hdone ⟨hkept, rfl⟩
      · refine hdone (finishWrite_spec hs (fun s'' hs'' => ?_) h)
        have hpublished : TemplateStore.WellFormed (publishedTemplate current now) :=
          ⟨hwell.id, hwell.draft, hwell.draft⟩
        exact hs.publishTemplate hcurrent hpublished rfl rfl rfl hs''
    | restoreVersion versionId expectedDraftVersionId now =>
      simp only [advanceEdit] at h
      split at h
      · obtain ⟨rfl, rfl⟩ := Prod.mk.inj h
        exact hdone ⟨hkept, rfl⟩
      · obtain ⟨rfl, rfl⟩ := Prod.mk.inj h
        exact ⟨hkept, fun r hr => .inl hr⟩
    | duplicate now => exact hdone (finishCreate_spec hs h)
    | delete =>
      refine hdone (finishWrite_spec hs (fun s'' hs'' => ?_) h)
      exact hs.deleteTemplate (Except.ok.inj hs'')
  | restoring current publication now =>
    obtain ⟨hcurrent, hwell⟩ := hsnapshot current rfl
    exact hdone (finishReplace_spec hs hcurrent hwell (fun _ hu => redrafted_of_restored hu) h)
  | finished result =>
    obtain ⟨rfl, rfl⟩ := Prod.mk.inj h
    exact hdone ⟨hkept, rfl⟩

end Advance

/-! ## Runs keep the registry -/

/-- What every reachable state satisfies: exact maps of aliases, and calls whose templates, when the
stored one has the revision they read, are the stored one. -/
structure TemplateSystem.Inv (st : TemplateSystem) : Prop where
  registered : st.store.Registered
  drawn : ∀ k r, st.store.templates.get k = some r → k ∈ st.drawn
  snapshots : ∀ call ∈ st.calls, ∀ r, call.snapshot = some r →
    r.Snapshot st.store.templates.get ∧ TemplateStore.WellFormed r ∧ r.id ∈ st.drawn

section Run

variable {p : Platform} {history : TemplateHistoryOptions} {st st' : TemplateSystem}

theorem TemplateSystem.Inv.step (h : st.Inv) {label : TemplateLabel}
    (hstep : (templateSystem p history).step st label = some st') : st'.Inv := by
  cases label with
  | request request =>
    obtain rfl := Option.some.inj hstep
    refine ⟨h.registered, h.drawn, fun call hcall r hr => ?_⟩
    rcases List.mem_append.mp hcall with hcall | hcall
    · exact h.snapshots call hcall r hr
    · rw [List.mem_singleton.mp hcall] at hr
      cases hr
  | advance i uuid =>
    simp only [templateSystem, Option.bind_eq_bind, Option.bind_eq_some_iff, Option.guard_eq_some',
      Option.pure_def, Option.some.injEq] at hstep
    obtain ⟨call, hcall, _, hfresh, rfl⟩ := hstep
    have hmem := List.mem_of_getElem? hcall
    obtain ⟨⟨hregistered, hevolves⟩, hsnapshot⟩ := advance_spec h.registered
      (fun r hr => ⟨(h.snapshots call hmem r hr).1, (h.snapshots call hmem r hr).2.1⟩)
      (Prod.mk.eta (p := call.advance p history uuid st.store)).symm
    have hdrawn : ∀ k r, (call.advance p history uuid st.store).1.templates.get k = some r →
        k ∈ st.drawn ++ [drawnTemplateId uuid] := by
      intro k r hr
      rcases hevolves k r hr with hold | ⟨r', hold, -⟩ | rfl
      · exact List.mem_append_left _ (h.drawn k r hold)
      · exact List.mem_append_left _ (h.drawn k r' hold)
      · exact List.mem_append_right _ (List.mem_singleton_self _)
    -- a template that was read has not the id drawn in this step
    have hkept : ∀ call' ∈ st.calls, ∀ r, call'.snapshot = some r →
        r.Snapshot (call.advance p history uuid st.store).1.templates.get ∧
          TemplateStore.WellFormed r ∧ r.id ∈ st.drawn ++ [drawnTemplateId uuid] := by
      intro call' hcall' r hr
      obtain ⟨hknown, hwell, hid⟩ := h.snapshots call' hcall' r hr
      exact ⟨hknown.evolves hevolves fun heq => hfresh (heq ▸ hid), hwell,
        List.mem_append_left _ hid⟩
    refine ⟨hregistered, hdrawn, fun call' hcall' r hr => ?_⟩
    rcases List.mem_or_eq_of_mem_set hcall' with hcall' | rfl
    · exact hkept call' hcall' r hr
    · rcases hsnapshot r hr with hold | ⟨hget, hwell⟩
      · exact hkept call hmem r hold
      · exact ⟨.of_get hget, hwell, hdrawn _ r hget⟩

theorem TemplateSystem.inv_of_reachable (h : (templateSystem p history).Reachable st) : st.Inv := by
  refine h.invariant (fun st hst => ?_) fun st st' label _ hinv hstep => hinv.step hstep
  obtain rfl : st = {} := hst
  exact ⟨TemplateStore.registered_empty, fun _ _ hr => (by cases hr), fun _ hcall => (by cases hcall)⟩

/-- A step of a call that does not end in success leaves the store as it is. -/
theorem store_of_unfinished {uuid : ℕ → String} {s s' : TemplateStore} {call call' : TemplateCall}
    (h : call.advance p history uuid s = (s', call')) (hfail : ∀ id, call' ≠ .finished (.ok id)) :
    s' = s := by
  have hwrite : ∀ id action result, finishWrite s id action result = (s', call') → s' = s := by
    intro id action result h
    unfold finishWrite at h
    split at h
    · exact (Prod.mk.inj h).1.symm
    · exact (Prod.mk.inj h).1.symm
    · exact absurd (Prod.mk.inj h).2.symm (hfail id)
  have hcreate : ∀ created, finishCreate s created = (s', call') → s' = s := by
    intro created h
    unfold finishCreate at h
    split at h
    · exact (Prod.mk.inj h).1.symm
    · split at h
      · exact (Prod.mk.inj h).1.symm
      · exact absurd (Prod.mk.inj h).2.symm (hfail _)
  have hreplace : ∀ current action replaced,
      finishReplace s current action replaced = (s', call') → s' = s := by
    intro current action replaced h
    cases replaced with
    | error e => exact (Prod.mk.inj h).1.symm
    | ok updated => exact hwrite _ _ _ h
  cases call with
  | requested request =>
    cases request with
    | create input now => exact hcreate _ h
    | edit identifier edit =>
      simp only [TemplateCall.advance] at h
      split at h <;> exact (Prod.mk.inj h).1.symm
  | loaded edit current =>
    simp only [TemplateCall.advance] at h
    cases edit with
    | update input now => exact hreplace _ _ _ h
    | publish now expectedDraftVersionId context =>
      simp only [advanceEdit] at h
      split at h
      · exact (Prod.mk.inj h).1.symm
      · exact hwrite _ _ _ h
    | restoreVersion versionId expectedDraftVersionId now =>
      simp only [advanceEdit] at h
      split at h <;> exact (Prod.mk.inj h).1.symm
    | duplicate now => exact hcreate _ h
    | delete => exact hwrite _ _ _ h
  | restoring current publication now => exact hreplace _ _ _ h
  | finished result => exact (Prod.mk.inj h).1.symm

/-! ## The registry -/

/-- Each map of aliases holds exactly the aliases of the templates, no alias those of two. -/
structure TemplateStore.AliasesExact (s : TemplateStore) : Prop where
  drafts : ∀ a id, s.templateAliases.get a = some id ↔
    ∃ r, s.templates.get id = some r ∧ r.draftAlias = some a
  published : ∀ a id, s.publishedTemplateAliases.get a = some id ↔
    ∃ r, s.templates.get id = some r ∧ r.publishedAlias = some a
  draft_unique : ∀ a id id' r r', s.templates.get id = some r → r.draftAlias = some a →
    s.templates.get id' = some r' → r'.draftAlias = some a → id = id'
  published_unique : ∀ a id id' r r', s.templates.get id = some r → r.publishedAlias = some a →
    s.templates.get id' = some r' → r'.publishedAlias = some a → id = id'

/-- A request that names an alias is rendered with the version that a template publishes under it,
and fails if there is none. -/
def ResolvesPublished (p : Platform) (s : TemplateStore) (c : Collaborators)
    (input : SendEmailInput) (template : TemplateReference) : Prop :=
  let result :=
    resolveForSend { c with renderPublished := some (s.renderPublished p) } input template
  (∃ r version, s.templates.get r.id = some r ∧ r.published = some version ∧
    version.alias_ = some template.id ∧
    result = resolveForSend { c with
      renderPublished := some fun t sender subject replyTo =>
        renderTemplateVersion p version ⟨sender, subject, replyTo, t.variables_⟩ "send" }
      input template) ∨
  (∀ id r, s.templates.get id = some r → r.publishedAlias ≠ some template.id) ∧
    ∃ e, result = .error e

theorem TemplateStore.Registered.resolvesPublished {s : TemplateStore} (h : s.Registered)
    (c : Collaborators) (input : SendEmailInput) {template : TemplateReference}
    (ha : isAlias template.id = true) : ResolvesPublished p s c input template := by
  rcases h.getPublishedTemplate ha with ⟨r, hr, hra, hget⟩ | ⟨hnone, hget⟩
  · obtain ⟨version, hversion, halias⟩ := Option.bind_eq_some_iff.mp hra
    refine .inl ⟨r, version, hr, hversion, halias, ?_⟩
    simp only [resolveForSend, TemplateStore.renderPublished, hget, hversion]
  · refine .inr ⟨hnone, ?_⟩
    simp only [resolveForSend, TemplateStore.renderPublished]
    cases hr : s.getPublishedTemplate template.id with
    | none => exact ⟨_, rfl⟩
    | some r =>
      simp only [hget r hr]
      exact ⟨_, rfl⟩

/-- **The registry of templates** in every run of calls: the maps of aliases are exact, a call
writes nothing before it succeeds, and an alias stands for the version published under it. -/
theorem template_registry (h : (templateSystem p history).Reachable st) :
    st.store.AliasesExact ∧
    (∀ call ∈ st.calls, ∀ uuid s' call', call.advance p history uuid st.store = (s', call') →
      (∀ id, call' ≠ .finished (.ok id)) → s' = st.store) ∧
    ∀ c input template, isAlias template.id = true →
      ResolvesPublished p st.store c input template := by
  have hinv := TemplateSystem.inv_of_reachable h
  refine ⟨?_, fun call _ uuid s' call' => store_of_unfinished, fun c input template =>
    hinv.registered.resolvesPublished c input⟩
  exact ⟨hinv.registered.drafts, hinv.registered.published,
    fun _ _ _ _ _ => hinv.registered.drafts.unique,
    fun _ _ _ _ _ => hinv.registered.published.unique⟩

end Run

/-- A template is created under the alias "welcome" and published. -/
def welcomeRun : List TemplateLabel :=
  [.request (.create { name := "Welcome", html := "<p>Hello</p>", alias_ := some "welcome" } 0),
    .advance 0 fun _ => "a",
    .request (.edit "welcome" (.publish 1000 none ⟨⟨"system", "System"⟩, .api⟩)),
    .advance 1 fun _ => "b",
    .advance 1 fun _ => "c"]

theorem template_registry_sample : ∃ st : TemplateSystem,
    st.store.publishedTemplateAliases.get "welcome" = some "tmpl_a" ∧ st.store.AliasesExact ∧
      ∀ c input, ResolvesPublished samplePlatform st.store c input ⟨"welcome", none⟩ := by
  have hrun : ((templateSystem samplePlatform ⟨90, 50⟩).run {} welcomeRun).any (fun st =>
      decide (st.store.publishedTemplateAliases.get "welcome" = some "tmpl_a")) = true := by
    decide +kernel
  obtain ⟨st, hst, halias⟩ := TransitionSystem.exists_reachable_of_run rfl hrun
  obtain ⟨hexact, -, hresolves⟩ := template_registry hst
  exact ⟨st, of_decide_eq_true halias, hexact, fun c input => hresolves c input _ (by decide)⟩

end HayaSend
