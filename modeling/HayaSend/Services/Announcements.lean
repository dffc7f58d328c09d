import HayaSend.Services.Submission
import HayaSend.Services.WebhookService

/-!
# Announcing the outcome of a send

`processSend` commits an outcome first and publishes it afterwards, and a job that comes back finds
a final status and returns. So an outcome is announced only by the call that committed it:
`outcomes_announced` holds along the runs where such a call neither crashes before its publish
resolves nor has it fail, and `outcome_not_announced` is a run with one crash.

`NoticeWorld` is the delivery system with the webhooks that a call standing at `publish` is about to
publish, and those that were published.
-/

namespace HayaSend

/-- A call of `webhooks.publish`. -/
structure Notice where
  type : WebhookEventType
  emailId : String
  deriving DecidableEq, Repr

/-- The webhook a call publishes once the write it stands before has succeeded. -/
def SendPc.outcome : SendPc → Option WebhookEventType
  | .suppressApply _ | .suppressUpdate _ => some .suppressed
  | .accepted _ _ _ => some .sent
  | .rejected _ _ _ => some .failed
  | _ => none

def Task.outcome : Task → Option Notice
  | .send id _ pc => pc.outcome.map fun type => ⟨type, id⟩
  | _ => none

def Task.isPublishing : Task → Bool
  | .send _ _ .publish => true
  | _ => false

/-- The email with a ledger that a call suppresses in its next step. -/
def Task.suppresses (s : MemoryStore) : Task → Option String
  | .send id _ (.suppressApply updatedAt) =>
    match s.applyLocalDeliveryState id .suppressed updatedAt with
    | .ok (_, some _) => some id
    | _ => none
  | _ => none

/-- The outcome an attempt ended with, as a webhook. -/
def AttemptStatus.announcement : AttemptStatus → Option WebhookEventType
  | .accepted => some .sent
  | .permanentFailed => some .failed
  | _ => none

structure NoticeWorld where
  world : World
  outbox : WebhookOutbox := {}
  /-- What the call with this index is about to publish. -/
  notices : OrderedMap ℕ Notice := ∅
  /-- The publish calls that resolved. -/
  announced : List Notice := []
  /-- The emails with a ledger that `processSend` suppressed. -/
  suppressed : List String := []
  deriving DecidableEq

inductive NoticeLabel
  | world (l : Label)
  /-- A call that committed an outcome publishes it. -/
  | publish (index : ℕ) (answers : PublishAnswers)

namespace NoticeWorld

/-- What the call is about to publish. -/
def publishing (n : NoticeWorld) (index : ℕ) : Option Notice :=
  (n.world.procs[index]?).bind fun proc =>
    if proc.task.isPublishing then n.notices.get index else none

/-- The system after a step of a call that is not publishing. -/
def after (n : NoticeWorld) (index : ℕ) (proc : Process) (world : World) : NoticeWorld :=
  let n' := { n with
    world := world
    suppressed := n.suppressed ++ (proc.task.suppresses n.world.store).toList }
  match proc.task.outcome with
  | none => n'
  | some notice =>
    if (world.procs[index]?).any (·.task.isPublishing) then
      { n' with notices := n.notices.set index notice }
    else n'

/-- A rejected `publish` throws in the handler of the job. -/
def publishChoice : Option Failure → Choice
  | none => .go
  | some _ => .throws ⟨.applicationError, true, "Webhook publishing failed."⟩

def step (n : NoticeWorld) : NoticeLabel → Option NoticeWorld
  | .world l =>
    match l with
    | .act index choice =>
      (n.world.procs[index]?).bind fun proc =>
        if (n.publishing index).isSome then none
        else (n.world.step (.act index choice)).map (n.after index proc)
    | l => (n.world.step l).map fun world => { n with world := world }
  | .publish index answers =>
    (n.publishing index).bind fun notice =>
      let (outbox, error) := n.outbox.publish notice.type notice.emailId answers n.world.now
      (n.world.step (.act index (publishChoice error))).map fun world => { n with
        world := world
        outbox := outbox
        announced := n.announced ++ if error.isNone then [notice] else [] }

def system : TransitionSystem NoticeWorld NoticeLabel where
  init n := ∃ now, n = { world := { now := now } }
  step := step

/-- A send job of the email waits in the queue or is being handled. -/
def InFlight (n : NoticeWorld) (id : String) : Prop :=
  (∃ jobId, .sendEmail id jobId ∈ n.world.queue) ∨
    ∃ (index : ℕ) (proc : Process) (jobId : Option String), n.world.procs[index]? = some proc ∧
      proc.job = some (.sendEmail id jobId)

/-- Every outcome of an email without a job in flight was announced. -/
structure Announced (n : NoticeWorld) : Prop where
  attempt : ∀ k a, n.world.store.deliveryAttempts.get k = some a → ¬ n.InFlight a.messageId →
    ∀ type, a.status.announcement = some type → ⟨type, a.messageId⟩ ∈ n.announced
  suppressed : ∀ id ∈ n.suppressed, ¬ n.InFlight id → ⟨.suppressed, id⟩ ∈ n.announced

/-- A call that has committed an outcome does not crash, and its publish does not fail. -/
def isKept (n : NoticeWorld) : NoticeLabel → Bool
  | .world (.crash index) => (n.publishing index).isNone
  | .world _ => true
  | .publish index answers => (n.publishing index).all fun notice =>
    (n.outbox.publish notice.type notice.emailId answers n.world.now).2.isNone

end NoticeWorld

/-! ## The step that commits an outcome -/

namespace MemoryStore

/-- The attempt a completion changed is its own, and the completion returns a record. -/
theorem Inv.completed_attempt {s s' : MemoryStore} (hs : s.Inv) {input : AttemptCompletion}
    {r : Option DeliveryLedgerMutationResult}
    (hc : s.completeDeliveryAttempt input = .ok (s', r)) {k : String} {a : AttemptRecord}
    (ha : s'.deliveryAttempts.get k = some a) (hnew : s.deliveryAttempts.get k ≠ some a) :
    r.isSome = true ∧ a.messageId = input.messageId ∧
      a.status = input.status.toAttemptStatus := by
  rcases hs.completeDeliveryAttempt hc with ⟨rfl, -⟩ | ⟨st, i, b, hst, hi, hid, hsub, rfl⟩
  · exact absurd ha hnew
  · have hmem : b ∈ s.attemptsOf input.messageId :=
      (hs.ledgerState_eq_some.mp hst).2.2.2 ▸ List.mem_of_getElem? hi
    have hkey : k = b.id := by
      by_contra hne
      exact hnew ((OrderedMap.get_set_ne _ _ hne).symm.trans ha)
    subst hkey
    obtain rfl : completedAttempt input b = a :=
      Option.some.inj ((OrderedMap.get_set_self _ _ _).symm.trans ha)
    exact ⟨hs.completeDeliveryAttempt_result hc hst, ((mem_attemptsOf hs).mp hmem).2, rfl⟩

end MemoryStore

/-- **An attempt ends with an outcome** only in a step of the call that publishes that outcome
next. -/
theorem Task.act_settled {now logged : ℕ} {issued : List String} {s : MemoryStore} {task : Task}
    {choice : Choice} {eff : Effect} (hs : s.Inv) (hk : task.Sound s issued)
    (hacted : task.Acted issued s eff) (h : task.act now logged issued s choice = some eff)
    {k : String} {a : AttemptRecord} (ha : eff.store.deliveryAttempts.get k = some a)
    (hnew : s.deliveryAttempts.get k ≠ some a) {type : WebhookEventType}
    (htype : a.status.announcement = some type) :
    task.outcome = some ⟨type, a.messageId⟩ ∧
      ∃ attempt, eff.next = .goto (.send a.messageId attempt .publish) := by
  have hsame : eff.store ≠ s := fun heq => hnew (heq ▸ ha)
  have hheld : task.attemptId = some k := by
    by_contra hne
    exact hnew ((hacted.step.attempts k hne).symm.trans ha)
  cases task with
  | send id attempt pc =>
    cases pc with
    | begin sending b readAt claimedAt =>
      obtain ⟨-, -, hnone⟩ := hk
      obtain rfl : b.id = k := Option.some.inj hheld
      -- a new attempt has no outcome yet
      have hbegun : ∀ {s' r}, s.beginDeliveryAttempt b = .ok (s', r) → s' = eff.store → False := by
        rintro s' r hb rfl
        rcases hs.beginDeliveryAttempt hnone hb with ⟨heq, -, -⟩ | ⟨st, -, hm, -, heq⟩
        · exact hsame heq
        · rw [heq] at ha
          simp only [attemptMatches, Bool.and_eq_true, beq_iff_eq] at hm
          obtain rfl : b = a := Option.some.inj ((OrderedMap.get_set_self _ _ _).symm.trans ha)
          rw [hm.1.1.1.1.1.2] at htype
          cases htype
      cases choice with
      | go =>
        simp only [act, SendPc.act] at h
        split at h <;> cases h
        · exact absurd rfl hsame
        · rename_i hb
          exact (hbegun hb rfl).elim
        · rename_i hb
          exact (hbegun hb rfl).elim
      | _ => cases h
    | send sending b readAt claimedAt =>
      cases choice <;> cases h <;> exact absurd rfl hsame
    | transport sending b =>
      cases choice <;> cases h <;> exact absurd rfl hsame
    | accepted sending b providerId =>
      obtain rfl : b = some k := hheld
      cases choice with
      | go =>
        simp only [act, SendPc.act] at h
        split at h <;> cases h
        · exact absurd rfl hsame
        · rename_i hc
          have := (hs.completed_attempt hc ha hnew).1
          cases this
        · rename_i hc
          obtain ⟨-, hm, hst⟩ := hs.completed_attempt hc ha hnew
          obtain rfl : a.messageId = id := hm
          rw [hst] at htype
          cases htype
          exact ⟨rfl, attempt, rfl⟩
      | _ => cases h
    | rejected sending b error =>
      obtain rfl : b = some k := hheld
      cases choice with
      | go =>
        simp only [act, SendPc.act] at h
        split at h <;> cases h
        · exact absurd rfl hsame
        · rename_i hc
          have := (hs.completed_attempt hc ha hnew).1
          cases this
        · rename_i hc
          obtain ⟨-, hm, hst⟩ := hs.completed_attempt hc ha hnew
          obtain rfl : a.messageId = id := hm
          rw [hst] at htype
          cases hfinal : isFinalAttempt sending error with
          | true =>
            rw [hfinal] at htype
            cases htype
            exact ⟨rfl, attempt, by simp⟩
          | false =>
            rw [hfinal] at htype
            cases htype
      | _ => cases h
    | _ => cases hheld
  | _ => cases hheld

/-- A call that suppresses an email publishes that next. -/
theorem Task.act_suppresses {now logged : ℕ} {issued : List String} {s : MemoryStore} {task : Task}
    {choice : Choice} {eff : Effect} (h : task.act now logged issued s choice = some eff)
    {id : String} (hid : task.suppresses s = some id) :
    task.outcome = some ⟨.suppressed, id⟩ ∧
      ∃ attempt, eff.next = .goto (.send id attempt .publish) := by
  cases task with
  | send id' attempt pc =>
    cases pc with
    | suppressApply updatedAt =>
      simp only [suppresses] at hid
      split at hid
      · rename_i s' r hs
        cases hid
        cases choice with
        | go =>
          simp only [act, SendPc.act, hs] at h
          cases h
          exact ⟨rfl, attempt, rfl⟩
        | _ => cases h
      · cases hid
    | _ => cases hid
  | _ => cases hid

/-! ## The invariant -/

/-- A step that is not a call's leaves every call but one that crashes where it stands. -/
theorem World.step_procs {w w' : World} {l : Label} (hs : w.step l = some w')
    (hact : ∀ p choice, l ≠ .act p choice) {i : ℕ} {x : Process} (hx : w.procs[i]? = some x)
    (hcrash : l ≠ .crash i) : w'.procs[i]? = some x := by
  have hlt := (List.getElem?_eq_some_iff.mp hx).1
  cases l with
  | tick ms =>
    obtain rfl : _ = w' := Option.some.inj hs
    exact hx
  | createEmail record =>
    simp only [step] at hs
    split_ifs at hs
    split at hs
    · cases hs
    · obtain rfl : _ = w' := Option.some.inj hs
      exact hx
  | call task =>
    simp only [step] at hs
    split_ifs at hs
    obtain rfl : _ = w' := Option.some.inj hs
    exact (List.getElem?_append_left hlt).trans hx
  | enqueue job =>
    obtain rfl : _ = w' := Option.some.inj hs
    exact hx
  | deliver index attempt owner leaseSeconds limit =>
    obtain ⟨job, -, rfl⟩ := Option.map_eq_some_iff.mp hs
    exact (List.getElem?_append_left hlt).trans hx
  | act p choice => exact absurd rfl (hact p choice)
  | crash index =>
    obtain ⟨y, -, rfl⟩ := Option.map_eq_some_iff.mp hs
    have hne : index ≠ i := fun heq => hcrash (heq ▸ rfl)
    exact (List.getElem?_set_ne hne).trans hx

namespace NoticeWorld

variable {n n' : NoticeWorld}

/-- The call with this index publishes the notice in its next step. -/
structure Publishes (n : NoticeWorld) (index : ℕ) (x : Notice) : Prop where
  proc : ∃ proc attempt, n.world.procs[index]? = some proc ∧
    proc.task = .send x.emailId attempt .publish
  notice : n.notices.get index = some x

theorem Publishes.publishing {index : ℕ} {x : Notice} (h : n.Publishes index x) :
    n.publishing index = some x := by
  obtain ⟨proc, attempt, hproc, htask⟩ := h.proc
  simp only [NoticeWorld.publishing, hproc, Option.bind_some, htask, Task.isPublishing, if_true,
    h.notice]

/-- The notice was published, or a call is about to. -/
def Noticed (n : NoticeWorld) (x : Notice) : Prop :=
  x ∈ n.announced ∨ ∃ index, n.Publishes index x

structure Inv (n : NoticeWorld) : Prop where
  world : n.world.Inv
  attempt : ∀ k a, n.world.store.deliveryAttempts.get k = some a → ∀ type,
    a.status.announcement = some type → n.Noticed ⟨type, a.messageId⟩
  suppressed : ∀ id ∈ n.suppressed, n.Noticed ⟨.suppressed, id⟩

/-- A call that is about to publish handles a job of its email. -/
theorem Inv.announced (h : n.Inv) : n.Announced := by
  have hnotice : ∀ x, n.Noticed x → ¬ n.InFlight x.emailId → x ∈ n.announced := by
    rintro x (hx | ⟨index, hpub⟩) hno
    · exact hx
    · obtain ⟨proc, attempt, hproc, htask⟩ := hpub.proc
      obtain ⟨jobId, hjob⟩ := h.world.job index proc hproc x.emailId (by rw [htask]; rfl)
      exact absurd (Or.inr ⟨index, proc, jobId, hproc, hjob⟩) hno
  exact {
    attempt := fun k a ha hno type htype => hnotice _ (h.attempt k a ha type htype) hno
    suppressed := fun id hid hno => hnotice _ (h.suppressed id hid) hno }

/-- What is announced or about to be stays so where the calls that publish stay. -/
theorem Noticed.mono (n n' : NoticeWorld) (ha : n.announced ⊆ n'.announced)
    (hp : ∀ index x, n.Publishes index x → n'.Noticed x) {x : Notice} (h : n.Noticed x) :
    n'.Noticed x := by
  rcases h with h | ⟨index, hpub⟩
  · exact Or.inl (ha h)
  · exact hp index x hpub

/-- A step that is not a call's. -/
theorem Inv.quiet (h : n.Inv) {l : Label} (hact : ∀ p choice, l ≠ .act p choice) {world : World}
    (hs : n.world.step l = some world) (hkept : n.isKept (.world l) = true) :
    Inv { n with world := world } := by
  have hquiet : n.world.Quiet world := by
    rcases World.step_cases hs with hq | ⟨p, choice, _, _, rfl, -⟩
    · exact hq
    · exact absurd rfl (hact p choice)
  have hstep := h.world.step_quiet hquiet
  have hnotice : ∀ x, n.Noticed x → Noticed { n with world := world } x := by
    intro x
    refine Noticed.mono n { n with world := world } (List.Subset.refl _) ?_
    intro index x hpub
    obtain ⟨proc, attempt, hproc, htask⟩ := hpub.proc
    refine Or.inr ⟨index, ⟨proc, attempt, ?_, htask⟩, hpub.notice⟩
    refine World.step_procs hs hact hproc ?_
    rintro rfl
    rw [isKept, hpub.publishing] at hkept
    cases hkept
  exact {
    world := h.world.quiet hquiet
    attempt := by
      intro k a ha type htype
      have ha' := (hstep.attempts k (by simp)).symm.trans ha
      exact hnotice _ (h.attempt k a ha' type htype)
    suppressed := fun id hid => hnotice _ (h.suppressed id hid) }

/-- A call that is not publishing makes a step. -/
theorem Inv.after (h : n.Inv) {p : ℕ} {proc : Process} (hp : n.world.procs[p]? = some proc)
    (hno : (n.publishing p).isSome = false) {choice : Choice} {eff : Effect}
    (he : proc.task.act n.world.now n.world.log.length n.world.issued n.world.store choice =
      some eff) : Inv (n.after p proc (n.world.after p proc eff)) := by
  have hacted := h.world.acted hp he
  have hlt := (List.getElem?_eq_some_iff.mp hp).1
  have hworld : (n.after p proc (n.world.after p proc eff)).world = n.world.after p proc eff := by
    unfold NoticeWorld.after
    split
    · rfl
    · split_ifs <;> rfl
  have hannounced : (n.after p proc (n.world.after p proc eff)).announced = n.announced := by
    unfold NoticeWorld.after
    split
    · rfl
    · split_ifs <;> rfl
  have hsuppressed : (n.after p proc (n.world.after p proc eff)).suppressed =
      n.suppressed ++ (proc.task.suppresses n.world.store).toList := by
    unfold NoticeWorld.after
    split
    · rfl
    · split_ifs <;> rfl
  have hother : ∀ index ≠ p, (n.after p proc (n.world.after p proc eff)).notices.get index =
      n.notices.get index := by
    intro index hne
    unfold NoticeWorld.after
    split
    · rfl
    · split_ifs
      · exact OrderedMap.get_set_ne _ _ hne
      · rfl
  -- the calls that were about to publish still are
  have hold : ∀ x, n.Noticed x → (n.after p proc (n.world.after p proc eff)).Noticed x := by
    intro x
    refine Noticed.mono n _ (by rw [hannounced]; exact List.Subset.refl _) ?_
    intro index x hpub
    have hne : index ≠ p := by
      rintro rfl
      rw [hpub.publishing] at hno
      cases hno
    obtain ⟨y, attempt, hy, htask⟩ := hpub.proc
    refine Or.inr ⟨index, ⟨y, attempt, ?_, htask⟩, (hother index hne).trans hpub.notice⟩
    rw [hworld]
    exact (List.getElem?_set_ne (Ne.symm hne)).trans hy
  -- an outcome that was committed is published next
  have hnew : ∀ x : Notice, proc.task.outcome = some x →
      (∃ attempt, eff.next = .goto (.send x.emailId attempt .publish)) →
        (n.after p proc (n.world.after p proc eff)).Noticed x := by
    rintro x hx ⟨attempt, hnext⟩
    have hproc : (n.world.after p proc eff).procs[p]? =
        some { proc with task := .send x.emailId attempt .publish } := by
      show (n.world.procs.set p (eff.next.process proc))[p]? = _
      rw [hnext, List.getElem?_set_self hlt]
      rfl
    refine Or.inr ⟨p, ⟨_, attempt, hworld ▸ hproc, rfl⟩, ?_⟩
    simp only [NoticeWorld.after, hx, hproc, Option.any_some, Task.isPublishing, if_true,
      OrderedMap.get_set_self]
  exact {
    world := by
      rw [hworld]
      exact h.world.after hp hacted
    attempt := by
      intro k a ha type htype
      rw [hworld] at ha
      by_cases hbefore : n.world.store.deliveryAttempts.get k = some a
      · exact hold _ (h.attempt k a hbefore type htype)
      · obtain ⟨houtcome, hnext⟩ := Task.act_settled h.world.store (h.world.sound p proc hp)
          hacted he ha hbefore htype
        exact hnew _ houtcome hnext
    suppressed := by
      intro id hid
      rw [hsuppressed, List.mem_append, Option.mem_toList] at hid
      rcases hid with hid | hid
      · exact hold _ (h.suppressed id hid)
      · obtain ⟨houtcome, hnext⟩ := Task.act_suppresses he hid
        exact hnew _ houtcome hnext }

/-- A publish that resolves turns what was about to be published into what was. -/
theorem Inv.publish (h : n.Inv) {p : ℕ} {notice : Notice} (hp : n.publishing p = some notice)
    {world : World} (hs : n.world.step (.act p .go) = some world) (outbox : WebhookOutbox) :
    Inv { n with world := world, outbox := outbox, announced := n.announced ++ [notice] } := by
  obtain ⟨proc, hproc, hpub⟩ := Option.bind_eq_some_iff.mp hp
  split_ifs at hpub with htask
  obtain ⟨proc', hproc', hs⟩ := Option.bind_eq_some_iff.mp hs
  obtain rfl : proc = proc' := Option.some.inj (hproc.symm.trans hproc')
  obtain ⟨eff, heff, rfl⟩ := Option.map_eq_some_iff.mp hs
  have hstore : eff.store = n.world.store := by
    cases hx : proc.task with
    | send id attempt pc =>
      rw [hx] at htask heff
      cases pc <;> cases htask
      cases heff
      rfl
    | _ =>
      rw [hx] at htask
      cases htask
  have hnotice : ∀ x, n.Noticed x → Noticed { n with
      world := n.world.after p proc eff
      outbox := outbox
      announced := n.announced ++ [notice] } x := by
    intro x
    refine Noticed.mono n _ (List.subset_append_left _ _) ?_
    intro index x hx
    by_cases hne : index = p
    · subst hne
      have heq := hx.publishing.symm.trans hp
      rw [Option.some.injEq] at heq
      exact Or.inl (List.mem_append_right _ (List.mem_singleton.mpr heq))
    · obtain ⟨y, attempt, hy, hytask⟩ := hx.proc
      exact Or.inr ⟨index, ⟨y, attempt, (List.getElem?_set_ne (Ne.symm hne)).trans hy, hytask⟩,
        hx.notice⟩
  exact {
    world := h.world.after hproc (h.world.acted hproc heff)
    attempt := by
      intro k a ha type htype
      have ha' : n.world.store.deliveryAttempts.get k = some a := hstore ▸ ha
      exact hnotice _ (h.attempt k a ha' type htype)
    suppressed := fun id hid => hnotice _ (h.suppressed id hid) }

theorem Inv.step (h : n.Inv) {l : NoticeLabel} (hkept : n.isKept l = true)
    (hs : n.step l = some n') : n'.Inv := by
  cases l with
  | world l =>
    by_cases hact : ∃ p choice, l = .act p choice
    · obtain ⟨p, choice, rfl⟩ := hact
      obtain ⟨proc, hp, hs⟩ := Option.bind_eq_some_iff.mp hs
      split_ifs at hs with hpub
      obtain ⟨world, hw, rfl⟩ := Option.map_eq_some_iff.mp hs
      obtain ⟨proc', hp', hw⟩ := Option.bind_eq_some_iff.mp hw
      obtain rfl : proc = proc' := Option.some.inj (hp.symm.trans hp')
      obtain ⟨eff, he, rfl⟩ := Option.map_eq_some_iff.mp hw
      exact h.after hp (by simpa using hpub) he
    · have hact' : ∀ p choice, l ≠ .act p choice := fun p choice heq => hact ⟨p, choice, heq⟩
      have hs' : (n.world.step l).map (fun world => { n with world := world }) = some n' := by
        cases l with
        | act p choice => exact absurd rfl (hact' p choice)
        | _ => exact hs
      obtain ⟨world, hw, rfl⟩ := Option.map_eq_some_iff.mp hs'
      exact h.quiet hact' hw hkept
  | publish index answers =>
    obtain ⟨notice, hp, hs⟩ := Option.bind_eq_some_iff.mp hs
    rcases hout : n.outbox.publish notice.type notice.emailId answers n.world.now with
      ⟨outbox, error⟩
    simp only [isKept, hp, Option.all_some, hout, Option.isNone_iff_eq_none] at hkept
    subst hkept
    simp only [hout, publishChoice, Option.isNone_none, if_true] at hs
    obtain ⟨world, hw, rfl⟩ := Option.map_eq_some_iff.mp hs
    exact h.publish hp hw outbox

theorem inv_of_reachable (h : system.ReachableWhere (fun n l => n.isKept l = true) n) : n.Inv := by
  refine h.invariant ?_ fun n n' l _ hn hkept hs => hn.step hkept hs
  rintro n ⟨now, rfl⟩
  exact {
    world := .init ⟨now, rfl⟩
    attempt := fun k a ha => by cases ha
    suppressed := fun id hid => by cases hid }

end NoticeWorld

/-- **Outcomes are announced at least once**, in every run where no call that has committed an
outcome crashes, and no publish of one fails. -/
theorem outcomes_announced {n : NoticeWorld}
    (h : NoticeWorld.system.ReachableWhere (fun n l => n.isKept l = true) n) : n.Announced :=
  (NoticeWorld.inv_of_reachable h).announced

/-! ## Runs -/

namespace NoticeWorld

/-- The sample delivery up to the commit of its accepted attempt. -/
def acceptSample : List NoticeLabel :=
  (World.deliverSample ++ World.sendSample ++
    [Label.act 1 (.providerId "provider-1"), Label.act 1 .go]).map .world

/-- One endpoint takes the event. -/
def sampleAnswers : PublishAnswers where
  firstPage := .ok [⟨"webhook_1", [.sent, .failed], true⟩]
  delivery _ := { deliveryId := "msg_1" }

end NoticeWorld

theorem outcomes_announced_sample : ∃ n,
    NoticeWorld.system.ReachableWhere (fun n l => n.isKept l = true) n ∧
      n.announced = [⟨.sent, "email_0123456789abcdef"⟩] ∧ n.outbox.jobs.length = 1 ∧
        n.Announced := by
  have hrun : (NoticeWorld.system.runWhere NoticeWorld.isKept { world := { now := 2000 } }
      (NoticeWorld.acceptSample ++ [.publish 1 NoticeWorld.sampleAnswers])).any (fun n =>
        decide (n.announced = [⟨.sent, "email_0123456789abcdef"⟩] ∧ n.outbox.jobs.length = 1)) =
          true := by decide +kernel
  obtain ⟨n, hn, h⟩ := TransitionSystem.exists_reachableWhere_of_run
    (T := NoticeWorld.system) ⟨2000, rfl⟩ hrun
  obtain ⟨hannounced, hjobs⟩ := of_decide_eq_true h
  exact ⟨n, hn, hannounced, hjobs, outcomes_announced hn⟩

/-- The worker crashes between the commit and the publish; the job comes back, finds the email sent
and is done. -/
def NoticeWorld.crashBeforePublish : List NoticeLabel :=
  acceptSample ++ [.world (.crash 1), .world (.deliver 0 2 "worker" 60 100), .world (.act 2 .go)]

/-- The attempt is accepted, no job is left, and nothing was announced. -/
def NoticeWorld.isUnannounced (n : NoticeWorld) : Bool :=
  (n.world.store.deliveryAttempts.values.any fun a => a.status == .accepted) &&
    n.world.queue.isEmpty && n.world.procs.all (·.job.isNone) && n.announced.isEmpty

/-- An outcome that is never announced. -/
theorem outcome_not_announced : ∃ n, NoticeWorld.system.Reachable n ∧ ¬ n.Announced := by
  have hrun : (NoticeWorld.system.run { world := { now := 2000 } }
      NoticeWorld.crashBeforePublish).any NoticeWorld.isUnannounced = true := by decide +kernel
  obtain ⟨n, hn, h⟩ := TransitionSystem.exists_reachable_of_run
    (T := NoticeWorld.system) ⟨2000, rfl⟩ hrun
  refine ⟨n, hn, fun hann => ?_⟩
  simp only [NoticeWorld.isUnannounced, Bool.and_eq_true, List.any_eq_true, beq_iff_eq,
    List.isEmpty_iff, List.all_eq_true, Option.isNone_iff_eq_none] at h
  obtain ⟨⟨⟨⟨a, ha, hst⟩, hqueue⟩, hprocs⟩, hnone⟩ := h
  obtain ⟨k, hk⟩ := (OrderedMap.mem_values_iff _ _).mp ha
  have hidle : ¬ n.InFlight a.messageId := by
    rintro (⟨jobId, hjob⟩ | ⟨index, proc, jobId, hproc, hjob⟩)
    · rw [hqueue] at hjob
      cases hjob
    · rw [hprocs proc (List.mem_of_getElem? hproc)] at hjob
      cases hjob
  have hsent := hann.attempt k a hk hidle .sent (by rw [hst]; rfl)
  rw [hnone] at hsent
  cases hsent

end HayaSend
