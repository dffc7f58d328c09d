import HayaSend.Adapters.LedgerRows
import HayaSend.Foundations.Tokens
import HayaSend.Services.World

/-!
# How often an email is sent

Any number of `processSend` calls on one email that has a ledger, over any of the four stores. A
claim writes an attempts counter, and a failed attempt is retried only if the counter of its claim
is below three. Where every claim raises the counter and every ledger write finds the rows it was
planned on, at most two attempts are retried and the transport is started at most three times
(`sends_bounded`). The first fails on DynamoDB, where a claim writes the receive count of the
job, the second on D1, where a batch may overwrite a claim.
-/

namespace HayaSend

/-! ## The calls -/

/-- Where a `processSend` call stands. -/
inductive SenderPc
  | getEmail
  | delay (record : EmailRecord)
  | findSuppressed
  | suppress (updatedAt : ℕ)
  | claim (now : ℕ)
  | ledger (sending : EmailRecord)
  | begin (sending : EmailRecord) (attempt : AttemptRecord)
  | send (sending : EmailRecord) (attemptId : String)
  | transport (sending : EmailRecord) (attemptId : String)
  | complete (sending : EmailRecord) (input : AttemptCompletion)
  | over
  deriving DecidableEq, Repr

/-- A call, with the receive count of its job and what it has read for the operation at hand. -/
structure Sender where
  attempt : ℕ
  pc : SenderPc := .getEmail
  read : LedgerRead := {}
  retries : ℕ := 0
  deriving DecidableEq, Repr

/-- `DELIVERY_LEDGER_RETRIES` -/
def deliveryLedgerRetries : ℕ := 8

/-- What a step of a call does: the rows it leaves, where the call stands, the attempt ids it drew,
how often it started the transport, and the counters of the attempts it left to be retried. -/
structure SenderEffect where
  rows : LedgerRows
  sender : Sender
  issued : List String := []
  started : ℕ := 0
  retried : List ℕ := []

namespace Sender

/-- The call goes on at another place. -/
def goto (c : Sender) (pc : SenderPc) : Sender := { attempt := c.attempt, pc := pc }

/-- A round of a ledger operation that came too late is repeated, up to a limit. -/
def again (c : Sender) : Sender :=
  if c.retries + 1 < deliveryLedgerRetries then
    { c with read := {}, retries := c.retries + 1 }
  else c.goto .over

/-- One step of `processSend`. -/
def act (k : StoreKind) (now : ℕ) (issued : List String) (rows : LedgerRows) (c : Sender) :
    Choice → Option SenderEffect
  | .go => match c.pc with
    | .getEmail =>
      let email := rows.ledger.email
      some { rows := rows, sender := c.goto (if email.status.isFinal then .over else .delay email) }
    | .delay record =>
      -- a call that comes too early asks for a delayed job
      if record.scheduledAt.isSome && 0 < secondsUntil record.scheduledAt now then
        some { rows := rows, sender := c.goto .over }
      else some { rows := rows, sender := c.goto .findSuppressed }
    | .suppress updatedAt =>
      match rows.commit k c.read (.localState .suppressed updatedAt) with
      | none => none
      | some .stale => some { rows := rows, sender := c.again }
      | some (.written rows') => some { rows := rows', sender := c.goto .over }
      | some _ => some { rows := rows, sender := c.goto .over }
    | .claim t =>
      match rows.claim k c.read c.attempt t with
      | none => none
      | some none => some { rows := rows, sender := c.goto .over }
      | some (some (rows', sending)) => some { rows := rows', sender := c.goto (.ledger sending) }
    | .begin sending attempt =>
      match rows.commit k c.read (.begin attempt) with
      | none => none
      | some .stale => some { rows := rows, sender := c.again }
      | some (.written rows') =>
        some { rows := rows', sender := c.goto (.send sending attempt.id) }
      | some .replayed => some { rows := rows, sender := c.goto (.send sending attempt.id) }
      | some (.failed _) => some { rows := rows, sender := c.goto .over }
    | .send sending attemptId =>
      some { rows := rows, sender := c.goto (.transport sending attemptId), started := 1 }
    | .complete sending input =>
      match rows.commit k c.read (.complete input) with
      | none => none
      | some .stale => some { rows := rows, sender := c.again }
      | some (.written rows') => some {
          rows := rows'
          sender := c.goto .over
          retried := if input.status = .retryableFailed then [sending.attempts] else [] }
      | some _ => some { rows := rows, sender := c.goto .over }
    | _ => none
  | .suppressed found => match c.pc with
    | .findSuppressed =>
      some { rows := rows, sender := c.goto (if found then .suppress now else .claim now) }
    | _ => none
  | .attemptId a => match c.pc with
    | .ledger sending =>
      if a ∈ issued then none
      else
        let snapshot : DeliveryLedgerSnapshot := { rows.ledger with events := [] }
        some {
          rows := rows
          sender := c.goto (.begin sending (newAttempt snapshot rows.ledger.message.id a sending))
          issued := [a] }
    | _ => none
  | .providerId providerId => match c.pc with
    | .transport sending attemptId => some {
        rows := rows
        sender := c.goto (.complete sending
          (acceptedCompletion rows.ledger.message.id attemptId providerId now)) }
    | _ => none
  | .throws error => match c.pc with
    -- reading the attachments, or the transport
    | .send sending attemptId | .transport sending attemptId => some {
        rows := rows
        sender := c.goto (.complete sending (failedCompletion rows.ledger.message.id attemptId
          (isFinalAttempt sending error) error now)) }
    | _ => none
  | .event _ => none

/-- The places where the D1 store waits for its queries. -/
def isReading (c : Sender) : Bool :=
  match c.pc with
  | .suppress _ | .claim _ | .begin _ _ | .complete _ _ => true
  | _ => false

/-- A claim raises the counter, and a ledger write finds the rows it was planned on. -/
def isRegular (k : StoreKind) (rows : LedgerRows) (c : Sender) : Bool :=
  match c.pc with
  | .claim _ => rows.counterRises k c.attempt
  | .suppress _ | .begin _ _ | .complete _ _ => rows.readIsCurrent k c.read
  | _ => true

end Sender

/-! ## The system -/

structure SendWorld where
  now : ℕ
  rows : LedgerRows
  senders : List Sender := []
  issued : List String := []
  started : ℕ := 0
  retried : List ℕ := []
  deriving DecidableEq

/-- The steps of the system: time passes, a job is delivered with any receive count, a query is
answered, a call makes a step, or it crashes. -/
inductive SendLabel
  | tick (ms : ℕ)
  | deliver (attempt : ℕ)
  | query (index : ℕ) (q : LedgerQuery)
  | act (index : ℕ) (choice : Choice)
  | crash (index : ℕ)
  deriving DecidableEq, Repr

namespace SendWorld

/-- The system after a step of one call. -/
def after (w : SendWorld) (index : ℕ) (eff : SenderEffect) : SendWorld :=
  { w with
    rows := eff.rows
    senders := w.senders.set index eff.sender
    issued := w.issued ++ eff.issued
    started := w.started + eff.started
    retried := w.retried ++ eff.retried }

def step (k : StoreKind) (w : SendWorld) : SendLabel → Option SendWorld
  | .tick ms => some { w with now := w.now + ms }
  | .deliver attempt => some { w with senders := w.senders ++ [{ attempt := attempt }] }
  | .query index q =>
    (w.senders[index]?).bind fun c =>
      if !k.isAtomic && c.isReading then
        some { w with senders := w.senders.set index { c with read := w.rows.query c.read q } }
      else none
  | .act index choice =>
    (w.senders[index]?).bind fun c => (c.act k w.now w.issued w.rows choice).map (w.after index)
  | .crash index =>
    (w.senders[index]?).map fun c => { w with senders := w.senders.set index (c.goto .over) }

/-- An email with a ledger on which nothing was attempted yet. -/
def system (k : StoreKind) : TransitionSystem SendWorld SendLabel where
  init w := ∃ now rows, w = { now := now, rows := rows } ∧ LedgerInv rows.ledger ∧
    rows.ledger.attempts = []
  step := step k

/-- The condition of a call that makes a step. -/
def isRegular (k : StoreKind) (w : SendWorld) : SendLabel → Bool
  | .act index .go => (w.senders[index]?).all (·.isRegular k w.rows)
  | _ => true

end SendWorld

/-! ## What a call holds -/

namespace Sender

/-- The counter of its claim, until the attempt under it is over. -/
def counter (c : Sender) : Option ℕ :=
  match c.pc with
  | .ledger sending | .begin sending _ | .send sending _ | .transport sending _
  | .complete sending _ => some sending.attempts
  | _ => none

/-- The attempt id it has drawn and not used yet. -/
def drawn (c : Sender) : Option String :=
  match c.pc with
  | .begin _ attempt => some attempt.id
  | _ => none

/-- The attempt it has begun and not sent yet. -/
def begun (c : Sender) : Option String :=
  match c.pc with
  | .send _ attemptId => some attemptId
  | _ => none

/-- An attempt is left to be retried below the third claim. -/
def RetriesBelow (c : Sender) : Prop :=
  ∀ sending input, c.pc = .complete sending input → input.status = .retryableFailed →
    sending.attempts ≤ 2

/-- A step of a call: the counters it holds and leaves behind, the attempt ids, and how many
attempts it may still send, against those before the step. -/
structure Acted (issued : List String) (rows : LedgerRows) (c : Sender) (eff : SenderEffect) :
    Prop where
  ledger : LedgerInv eff.rows.ledger
  attempts_le : rows.ledger.email.attempts ≤ eff.rows.ledger.email.attempts
  counters : ∃ fresh : List ℕ, fresh.Nodup ∧
    (∀ v ∈ fresh, rows.ledger.email.attempts < v ∧ v ≤ eff.rows.ledger.email.attempts) ∧
    (eff.sender.counter.toList ++ eff.retried).Subperm (fresh ++ c.counter.toList)
  retried_le : ∀ v ∈ eff.retried, v ≤ 2
  retriesBelow : eff.sender.RetriesBelow
  failed : eff.rows.ledger.attempts.countP (·.status == .retryableFailed) ≤
    rows.ledger.attempts.countP (·.status == .retryableFailed) + eff.retried.length
  issued_nodup : eff.issued.Nodup
  issued_new : ∀ a ∈ eff.issued, a ∉ issued
  ids : (eff.sender.drawn.toList ++ eff.rows.ledger.attempts.map (·.id)).Subperm
    (eff.issued ++ (c.drawn.toList ++ rows.ledger.attempts.map (·.id)))
  ids_kept : rows.ledger.attempts.map (·.id) ⊆ eff.rows.ledger.attempts.map (·.id)
  read : eff.sender.read = {}
  started : eff.started + eff.sender.begun.toList.length + rows.ledger.attempts.length ≤
    c.begun.toList.length + eff.rows.ledger.attempts.length

variable {k : StoreKind} {now : ℕ} {issued : List String} {rows rows' : LedgerRows} {c d : Sender}

/-- A step that leaves the rows alone and goes on holding nothing new. -/
theorem Acted.quiet (hinv : LedgerInv rows.ledger) (hread : d.read = {})
    (hcounter : d.counter = none ∨ d.counter = c.counter)
    (hdrawn : d.drawn = none ∨ d.drawn = c.drawn) (hbegun : d.begun = none)
    (hretries : d.RetriesBelow) : Acted issued rows c { rows := rows, sender := d } where
  ledger := hinv
  attempts_le := le_refl _
  counters := by
    refine ⟨[], List.nodup_nil, by simp, ?_⟩
    rcases hcounter with h | h
    · simp [h]
    · simpa [h] using List.Subperm.refl _
  retried_le := by simp
  retriesBelow := hretries
  failed := le_refl _
  issued_nodup := List.nodup_nil
  issued_new := by simp
  ids := by
    rcases hdrawn with h | h
    · simpa [h] using (List.sublist_append_right _ _).subperm
    · simpa [h] using List.Subperm.refl _
  ids_kept := fun _ h => h
  read := hread
  started := by simp [hbegun]

theorem retriesBelow_of_counter (h : c.counter = none) : c.RetriesBelow := by
  intro sending input hpc
  rw [counter, hpc] at h
  cases h

theorem Acted.over (hinv : LedgerInv rows.ledger) {pc : SenderPc}
    (hcounter : (c.goto pc).counter = none) (hdrawn : (c.goto pc).drawn = none)
    (hbegun : (c.goto pc).begun = none) :
    Acted issued rows c { rows := rows, sender := c.goto pc } :=
  .quiet hinv rfl (Or.inl hcounter) (Or.inl hdrawn) hbegun (retriesBelow_of_counter hcounter)

theorem Acted.again (hinv : LedgerInv rows.ledger) (hbegun : c.begun = none)
    (hretries : c.RetriesBelow) : Acted issued rows c { rows := rows, sender := c.again } := by
  unfold Sender.again
  split_ifs
  · exact .quiet hinv rfl (Or.inr rfl) (Or.inr rfl) hbegun hretries
  · exact .over hinv rfl rfl rfl

/-- A claim holds a counter above all before it. -/
theorem Acted.claim (hinv : LedgerInv rows.ledger) {t : ℕ} (hpc : c.pc = .claim t)
    (hreg : c.isRegular k rows = true) {sending : EmailRecord}
    (h : rows.claim k c.read c.attempt t = some (some (rows', sending))) :
    Acted issued rows c { rows := rows', sender := c.goto (.ledger sending) } := by
  obtain ⟨hc, rfl, rfl⟩ := LedgerRows.claim_eq_some h
  have hrises : rows.ledger.email.attempts <
      k.claimCounter c.attempt rows.ledger.email.attempts := by
    simpa [isRegular, hpc, LedgerRows.counterRises] using hreg
  exact {
    ledger := hinv.claimed hc _
    attempts_le := hrises.le
    counters := by
      refine ⟨[k.claimCounter c.attempt rows.ledger.email.attempts], List.nodup_singleton _, ?_, ?_⟩
      · intro v hv
        obtain rfl := List.mem_singleton.mp hv
        exact ⟨hrises, le_refl _⟩
      · exact (List.sublist_append_left _ _).subperm
    retried_le := by simp
    retriesBelow := by
      intro sending input hpc
      cases hpc
    failed := le_refl _
    issued_nodup := List.nodup_nil
    issued_new := by simp
    ids := (List.sublist_append_right _ _).subperm
    ids_kept := fun _ h => h
    read := rfl
    started := Nat.le_of_eq (by simp [begun, goto, hpc]) }

/-- A call draws the id of the attempt it is about to begin. -/
theorem Acted.draw (hinv : LedgerInv rows.ledger) {sending : EmailRecord}
    (hpc : c.pc = .ledger sending) {attempt : AttemptRecord} (hnew : attempt.id ∉ issued) :
    Acted issued rows c {
      rows := rows
      sender := c.goto (.begin sending attempt)
      issued := [attempt.id] } where
  ledger := hinv
  attempts_le := le_refl _
  counters := ⟨[], List.nodup_nil, by simp, by simp [counter, goto, hpc]⟩
  retried_le := by simp
  retriesBelow := by
    intro sending input hpc
    cases hpc
  failed := le_refl _
  issued_nodup := List.nodup_singleton _
  issued_new := by
    intro a ha
    rwa [List.mem_singleton.mp ha]
  ids := by simpa [drawn, goto, hpc] using List.Subperm.refl _
  ids_kept := fun _ h => h
  read := rfl
  started := by simp [begun, goto, hpc]

/-- A call starts the attempt it has begun. -/
theorem Acted.send (hinv : LedgerInv rows.ledger) {sending : EmailRecord} {attemptId : String}
    (hpc : c.pc = .send sending attemptId) :
    Acted issued rows c {
      rows := rows
      sender := c.goto (.transport sending attemptId)
      started := 1 } where
  ledger := hinv
  attempts_le := le_refl _
  counters := ⟨[], List.nodup_nil, by simp, by simp [counter, goto, hpc]⟩
  retried_le := by simp
  retriesBelow := by
    intro sending input hpc
    cases hpc
  failed := le_refl _
  issued_nodup := List.nodup_nil
  issued_new := by simp
  ids := by simpa [drawn, goto, hpc] using List.Subperm.refl _
  ids_kept := fun _ h => h
  read := rfl
  started := by simp [begun, goto, hpc]

/-- An attempt begins under the id that was drawn for it. -/
theorem Acted.begin (hinv : LedgerInv rows.ledger) {sending : EmailRecord} {attempt : AttemptRecord}
    (hpc : c.pc = .begin sending attempt) (hreg : c.isRegular k rows = true)
    (h : rows.commit k c.read (.begin attempt) = some (.written rows')) :
    Acted issued rows c { rows := rows', sender := c.goto (.send sending attempt.id) } := by
  have hcur : rows.readIsCurrent k c.read = true := by simpa [isRegular, hpc] using hreg
  obtain ⟨w, hw, hrows⟩ := LedgerRows.commit_written hinv hcur h
  have hemail := hw.email_attempts
  have hledger := hinv.move hw.move
  cases hw with
  | begin _ hm hq =>
    have hst : attempt.status = .submitting := by
      simp only [attemptMatches, Bool.and_eq_true, beq_iff_eq] at hm
      exact hm.1.1.1.1.1.2
    have hattempts : rows'.ledger.attempts = rows.ledger.attempts ++ [attempt] := by
      rw [hrows]
      rfl
    exact {
      ledger := hrows ▸ hledger
      attempts_le := by rw [hrows, hemail]
      counters :=
        ⟨[], List.nodup_nil, by simp, by simp [counter, goto, hpc]⟩
      retried_le := by simp
      retriesBelow := by
        intro sending input hpc
        cases hpc
      failed := by simp [hattempts, hst]
      issued_nodup := List.nodup_nil
      issued_new := by simp
      ids := by
        simpa [drawn, goto, hpc, hattempts] using
          (List.perm_append_singleton attempt.id (rows.ledger.attempts.map (·.id))).subperm
      ids_kept := by simp [hattempts]
      read := rfl
      started := by
        simp only [begun, goto, hpc, hattempts, Option.toList_some, Option.toList_none,
          List.length_append, List.length_singleton, List.length_nil]
        omega }

/-- An operation that leaves the attempts alone, or completes the one of the call. -/
theorem Acted.write (hinv : LedgerInv rows.ledger) {req : LedgerRequest} {w : PlannedWrite}
    (hw : req.Planned rows.ledger w) (hrows : rows'.ledger = w.plan)
    {retried : List ℕ} (hretried : retried.Subperm c.counter.toList) (hle : ∀ v ∈ retried, v ≤ 2)
    (hids : w.plan.attempts.map (·.id) = rows.ledger.attempts.map (·.id))
    (hfailed : w.plan.attempts.countP (·.status == .retryableFailed) ≤
      rows.ledger.attempts.countP (·.status == .retryableFailed) + retried.length) :
    Acted issued rows c { rows := rows', sender := c.goto .over, retried := retried } where
  ledger := hrows ▸ hinv.move hw.move
  attempts_le := by rw [hrows, hw.email_attempts]
  counters := ⟨[], List.nodup_nil, by simp, by simpa [counter, goto] using hretried⟩
  retried_le := hle
  retriesBelow := retriesBelow_of_counter rfl
  failed := by rwa [hrows]
  issued_nodup := List.nodup_nil
  issued_new := by simp
  ids := by
    rw [hrows, hids]
    simpa [drawn, goto] using (List.sublist_append_right _ _).subperm
  ids_kept := by rw [hrows, hids]; exact fun _ h => h
  read := rfl
  started := by
    have hlen : w.plan.attempts.length = rows.ledger.attempts.length := by
      simpa using congrArg List.length hids
    simp [begun, goto, hrows, hlen]

/-- A completed attempt is left to be retried under the counter of the call, or for good. -/
theorem Acted.complete (hinv : LedgerInv rows.ledger) {sending : EmailRecord}
    {input : AttemptCompletion} (hpc : c.pc = .complete sending input) (hretries : c.RetriesBelow)
    (hreg : c.isRegular k rows = true)
    (h : rows.commit k c.read (.complete input) = some (.written rows')) :
    Acted issued rows c {
      rows := rows'
      sender := c.goto .over
      retried := if input.status = .retryableFailed then [sending.attempts] else [] } := by
  have hcur : rows.readIsCurrent k c.read = true := by simpa [isRegular, hpc] using hreg
  obtain ⟨w, hw, hrows⟩ := LedgerRows.commit_written hinv hcur h
  refine .write hinv hw hrows ?_ ?_ ?_ ?_
  · split_ifs
    · simp [counter, hpc]
    · exact List.nil_subperm
  · split_ifs with hst
    · intro v hv
      rw [List.mem_singleton.mp hv]
      exact hretries sending input hpc hst
    · simp
  · cases hw with
    | complete i a _ hi =>
      show (rows.ledger.attempts.set i (completedAttempt input a)).map (·.id) = _
      rw [List.map_set]
      refine List.ext_getElem? fun j => ?_
      rw [List.getElem?_set]
      split_ifs with hij hlt
      · subst hij
        simp [hi, completedAttempt]
      · subst hij
        simp [List.getElem?_eq_none (Nat.le_of_not_lt hlt)]
      · rfl
  · cases hw with
    | complete i a _ hi _ hst =>
      obtain ⟨hlt, hget⟩ := List.getElem?_eq_some_iff.mp hi
      show (rows.ledger.attempts.set i (completedAttempt input a)).countP _ ≤ _
      rw [List.countP_set (h := hlt), hget, hst]
      have hcompleted : (completedAttempt input a).status = input.status.toAttemptStatus := rfl
      cases hinput : input.status <;> simp [hcompleted, hinput, CompletionStatus.toAttemptStatus]

/-- **What one step of a call does.** -/
theorem act_acted (hinv : LedgerInv rows.ledger)
    (hdrawn : ∀ a, c.drawn = some a → a ∉ rows.ledger.attempts.map (·.id))
    (hread : ∀ as, c.read.attempts = some as → ∀ a ∈ as,
      a.id ∈ rows.ledger.attempts.map (·.id))
    (hretries : c.RetriesBelow) {choice : Choice}
    (hreg : choice = .go → c.isRegular k rows = true) {eff : SenderEffect}
    (h : c.act k now issued rows choice = some eff) : Acted issued rows c eff := by
  cases choice with
  | go =>
    specialize hreg rfl
    cases hpc : c.pc with
    | getEmail =>
      simp only [act, hpc, Option.some.injEq] at h
      subst h
      split_ifs
      · exact .over hinv rfl rfl rfl
      · exact .over hinv rfl rfl rfl
    | delay record =>
      simp only [act, hpc] at h
      split_ifs at h <;> (cases h; exact .over hinv rfl rfl rfl)
    | suppress updatedAt =>
      simp only [act, hpc] at h
      have hcur : rows.readIsCurrent k c.read = true := by simpa [isRegular, hpc] using hreg
      split at h
      · cases h
      · cases h
        exact .again hinv (by rw [begun, hpc]) hretries
      · rename_i rows' hcommit
        obtain ⟨w, hw, hrows⟩ := LedgerRows.commit_written hinv hcur hcommit
        cases h
        refine .write hinv hw hrows List.nil_subperm (by simp) ?_ ?_
        · cases hw with
          | localState => rfl
        · cases hw with
          | localState => exact le_refl _
      · cases h
        exact .over hinv rfl rfl rfl
    | claim t =>
      simp only [act, hpc] at h
      split at h
      · cases h
      · cases h
        exact .over hinv rfl rfl rfl
      · rename_i rows' sending hclaim
        cases h
        exact .claim hinv hpc hreg hclaim
    | begin sending attempt =>
      simp only [act, hpc] at h
      split at h
      · cases h
      · cases h
        exact .again hinv (by rw [begun, hpc]) hretries
      · rename_i rows' hcommit
        cases h
        exact .begin hinv hpc hreg hcommit
      · -- the id was drawn for this call and is not used yet
        rename_i hcommit
        obtain ⟨s, hplan, hs⟩ := LedgerRows.commit_replayed hcommit
        have hmem := LedgerRequest.mem_of_begin_replayed hplan
        refine absurd ?_ (hdrawn attempt.id (by rw [drawn, hpc]))
        rcases hs with hs | hs
        · exact List.mem_map_of_mem (hs ▸ hmem)
        · exact hread _ hs _ hmem
      · cases h
        exact .over hinv rfl rfl rfl
    | send sending attemptId =>
      simp only [act, hpc, Option.some.injEq] at h
      subst h
      exact .send hinv hpc
    | complete sending input =>
      simp only [act, hpc] at h
      split at h
      · cases h
      · cases h
        exact .again hinv (by rw [begun, hpc]) hretries
      · rename_i rows' hcommit
        cases h
        exact .complete hinv hpc hretries hreg hcommit
      · cases h
        exact .over hinv rfl rfl rfl
    | _ => simp only [act, hpc, reduceCtorEq] at h
  | suppressed found =>
    cases hpc : c.pc with
    | findSuppressed =>
      simp only [act, hpc, Option.some.injEq] at h
      subst h
      cases found <;> exact .over hinv rfl rfl rfl
    | _ => simp only [act, hpc, reduceCtorEq] at h
  | attemptId a =>
    cases hpc : c.pc with
    | ledger sending =>
      simp only [act, hpc] at h
      split_ifs at h with hnew
      cases h
      exact .draw hinv hpc hnew
    | _ => simp only [act, hpc, reduceCtorEq] at h
  | providerId providerId =>
    cases hpc : c.pc with
    | transport sending attemptId =>
      simp only [act, hpc, Option.some.injEq] at h
      subst h
      refine .quiet hinv rfl (Or.inr (by simp [counter, goto, hpc])) (Or.inl rfl) rfl ?_
      intro sending' input hinput hst
      cases hinput
      cases hst
    | _ => simp only [act, hpc, reduceCtorEq] at h
  | throws error =>
    have hfailed : ∀ sending attemptId (hcounter : c.counter = some sending.attempts),
        Acted issued rows c { rows := rows, sender := c.goto (.complete sending
          (failedCompletion rows.ledger.message.id attemptId (isFinalAttempt sending error)
            error now)) } := by
      intro sending attemptId hcounter
      refine .quiet hinv rfl (Or.inr (by simp [counter, goto, ← hcounter])) (Or.inl rfl) rfl ?_
      intro sending' input hinput hst
      cases hinput
      by_contra hle
      have hfinal : isFinalAttempt sending error = true := by
        rw [isFinalAttempt, decide_eq_true (by omega : 3 ≤ sending.attempts), Bool.true_or]
      rw [hfinal] at hst
      cases hst
    cases hpc : c.pc with
    | send sending attemptId =>
      simp only [act, hpc, Option.some.injEq] at h
      subst h
      exact hfailed sending attemptId (by rw [counter, hpc])
    | transport sending attemptId =>
      simp only [act, hpc, Option.some.injEq] at h
      subst h
      exact hfailed sending attemptId (by rw [counter, hpc])
    | _ => simp only [act, hpc, reduceCtorEq] at h
  | event e => cases hpc : c.pc <;> simp [act] at h

end Sender

/-! ## The invariant -/

/-- The counters that are held or were left behind are distinct and not above the stored one, the
drawn ids are fresh, and no more attempts were started than there are. -/
structure SendInv (w : SendWorld) : Prop where
  ledger : LedgerInv w.rows.ledger
  counters_nodup : (held Sender.counter w.senders ++ w.retried).Nodup
  counters_le : ∀ v ∈ held Sender.counter w.senders ++ w.retried, v ≤ w.rows.ledger.email.attempts
  counters_pos : ∀ v ∈ held Sender.counter w.senders ++ w.retried, 1 ≤ v
  retried_le : ∀ v ∈ w.retried, v ≤ 2
  retriesBelow : ∀ c ∈ w.senders, c.RetriesBelow
  failed : w.rows.ledger.attempts.countP (·.status == .retryableFailed) ≤ w.retried.length
  ids_nodup : (held Sender.drawn w.senders ++ w.rows.ledger.attempts.map (·.id)).Nodup
  ids_issued : held Sender.drawn w.senders ++ w.rows.ledger.attempts.map (·.id) ⊆ w.issued
  read : ∀ c ∈ w.senders, ∀ as, c.read.attempts = some as → ∀ a ∈ as,
    a.id ∈ w.rows.ledger.attempts.map (·.id)
  started : w.started + (held Sender.begun w.senders).length ≤ w.rows.ledger.attempts.length

namespace SendInv

variable {w : SendWorld}

/-- At most two attempts were left to be retried, so at most three were started. -/
theorem started_le (h : SendInv w) : w.started ≤ 3 := by
  have hnodup : w.retried.Nodup := (List.nodup_append.mp h.counters_nodup).2.1
  have hsub : w.retried ⊆ [1, 2] := by
    intro v hv
    have hpos := h.counters_pos v (List.mem_append_right _ hv)
    have hle := h.retried_le v hv
    simp only [List.mem_cons, List.not_mem_nil, or_false]
    omega
  have hretried : w.retried.length ≤ 2 := (hnodup.subperm hsub).length_le
  have hearlier : w.rows.ledger.attempts.dropLast.length ≤
      w.rows.ledger.attempts.countP (·.status == .retryableFailed) := by
    rw [← List.countP_eq_length.mpr fun a ha => beq_iff_eq.mpr (h.ledger.earlier a ha)]
    exact (List.dropLast_sublist _).countP_le
  rw [List.length_dropLast] at hearlier
  have hfailed := h.failed
  have hstarted := h.started
  omega

/-- A step of one call. -/
theorem after (h : SendInv w) {i : ℕ} {c : Sender} (hi : w.senders[i]? = some c)
    {eff : SenderEffect} (ha : Sender.Acted w.issued w.rows c eff) : SendInv (w.after i eff) := by
  have hmem : ∀ d ∈ w.senders.set i eff.sender, d ∈ w.senders ∨ d = eff.sender := fun d hd =>
    List.mem_or_eq_of_mem_set hd
  obtain ⟨fresh, hfresh, hrange, hsub⟩ := ha.counters
  have hcounters : (held Sender.counter (w.senders.set i eff.sender) ++
      (w.retried ++ eff.retried)).Subperm
        (fresh ++ (held Sender.counter w.senders ++ w.retried)) := by
    refine held_set_subperm hi ?_
    have hsub' := (List.subperm_append_right w.retried).mpr hsub
    rw [List.append_assoc, List.append_assoc] at hsub'
    exact (((List.perm_append_comm).append_left _).subperm).trans hsub'
  have hids := held_set_subperm hi ha.ids
  have hold : ∀ v ∈ fresh ++ (held Sender.counter w.senders ++ w.retried),
      1 ≤ v ∧ v ≤ eff.rows.ledger.email.attempts := by
    intro v hv
    rcases List.mem_append.mp hv with hv | hv
    · have hv' := hrange v hv
      omega
    · have hle := h.counters_le v hv
      have hpos := h.counters_pos v hv
      have hrise := ha.attempts_le
      omega
  exact {
    ledger := ha.ledger
    counters_nodup := by
      refine nodup_of_subperm (List.nodup_append.mpr ⟨hfresh, h.counters_nodup, ?_⟩) hcounters
      intro v hv u hu huv
      have hv' := (hrange v hv).1
      have hu' := h.counters_le u hu
      omega
    counters_le := fun v hv => (hold v (hcounters.subset hv)).2
    counters_pos := fun v hv => (hold v (hcounters.subset hv)).1
    retried_le := by
      intro v hv
      rcases List.mem_append.mp hv with hv | hv
      · exact h.retried_le v hv
      · exact ha.retried_le v hv
    retriesBelow := by
      intro d hd
      rcases hmem d hd with hd | rfl
      · exact h.retriesBelow d hd
      · exact ha.retriesBelow
    failed := by
      have hfailed := ha.failed
      have hbefore := h.failed
      show _ ≤ (w.retried ++ eff.retried).length
      rw [List.length_append]
      exact hfailed.trans (Nat.add_le_add_right hbefore _)
    ids_nodup := by
      refine nodup_of_subperm (List.nodup_append.mpr ⟨ha.issued_nodup, h.ids_nodup, ?_⟩) hids
      rintro a hnew b hb rfl
      exact ha.issued_new a hnew (h.ids_issued hb)
    ids_issued := by
      intro a hm
      rcases List.mem_append.mp (hids.subset hm) with hm | hm
      · exact List.mem_append_right _ hm
      · exact List.mem_append_left _ (h.ids_issued hm)
    read := by
      intro d hd as has a hm
      rcases hmem d hd with hd | rfl
      · exact ha.ids_kept (h.read d hd as has a hm)
      · rw [ha.read] at has
        cases has
    started := by
      have hlen := length_held_set (f := Sender.begun) hi eff.sender
      have hbefore := h.started
      have hstep := ha.started
      show w.started + eff.started + (held Sender.begun (w.senders.set i eff.sender)).length ≤
        eff.rows.ledger.attempts.length
      omega }

/-- A query changes nothing but what its call has read. -/
theorem query (h : SendInv w) {i : ℕ} {c : Sender} (hi : w.senders[i]? = some c)
    (q : LedgerQuery) :
    SendInv { w with senders := w.senders.set i { c with read := w.rows.query c.read q } } := by
  have hmem : ∀ d ∈ w.senders.set i { c with read := w.rows.query c.read q }, d ∈ w.senders ∨
      d = { c with read := w.rows.query c.read q } := fun d hd => List.mem_or_eq_of_mem_set hd
  have hc : c ∈ w.senders := List.mem_of_getElem? hi
  have hcounter := held_set_same (f := Sender.counter) hi
    (q := { c with read := w.rows.query c.read q }) rfl
  have hdrawn := held_set_same (f := Sender.drawn) hi
    (q := { c with read := w.rows.query c.read q }) rfl
  have hbegun := held_set_same (f := Sender.begun) hi
    (q := { c with read := w.rows.query c.read q }) rfl
  exact {
    ledger := h.ledger
    counters_nodup := hcounter ▸ h.counters_nodup
    counters_le := hcounter ▸ h.counters_le
    counters_pos := hcounter ▸ h.counters_pos
    retried_le := h.retried_le
    retriesBelow := by
      intro d hd
      rcases hmem d hd with hd | rfl
      · exact h.retriesBelow d hd
      · exact h.retriesBelow c hc
    failed := h.failed
    ids_nodup := hdrawn ▸ h.ids_nodup
    ids_issued := hdrawn ▸ h.ids_issued
    read := by
      intro d hd as has
      rcases hmem d hd with hd | rfl
      · exact h.read d hd as has
      · cases q with
        | attempts =>
          obtain rfl : w.rows.ledger.attempts = as := Option.some.inj has
          exact fun a => List.mem_map_of_mem
        | header => exact h.read c hc as has
        | recipients => exact h.read c hc as has
    started := hbegun ▸ h.started }

theorem step {k : StoreKind} (h : SendInv w) {l : SendLabel} {w' : SendWorld}
    (hreg : SendWorld.isRegular k w l = true) (hs : SendWorld.step k w l = some w') :
    SendInv w' ∧ w.rows.ledger.email.attempts ≤ w'.rows.ledger.email.attempts := by
  cases l with
  | tick ms =>
    obtain rfl : _ = w' := Option.some.inj hs
    exact ⟨{ h with }, le_refl _⟩
  | deliver attempt =>
    obtain rfl : _ = w' := Option.some.inj hs
    refine ⟨?_, le_refl _⟩
    have hnew : ∀ d ∈ w.senders ++ [({ attempt := attempt } : Sender)], d ∈ w.senders ∨
        d = { attempt := attempt } := by simp
    have hheld : ∀ {β : Type} (f : Sender → Option β), f { attempt := attempt } = none →
        held f (w.senders ++ [{ attempt := attempt }]) = held f w.senders := by
      intro β f hf
      rw [held_concat, hf, Option.toList_none, List.append_nil]
    exact {
      ledger := h.ledger
      counters_nodup := hheld Sender.counter rfl ▸ h.counters_nodup
      counters_le := hheld Sender.counter rfl ▸ h.counters_le
      counters_pos := hheld Sender.counter rfl ▸ h.counters_pos
      retried_le := h.retried_le
      retriesBelow := by
        intro d hd
        rcases hnew d hd with hd | rfl
        · exact h.retriesBelow d hd
        · exact Sender.retriesBelow_of_counter rfl
      failed := h.failed
      ids_nodup := hheld Sender.drawn rfl ▸ h.ids_nodup
      ids_issued := hheld Sender.drawn rfl ▸ h.ids_issued
      read := by
        intro d hd as has
        rcases hnew d hd with hd | rfl
        · exact h.read d hd as has
        · cases has
      started := hheld Sender.begun rfl ▸ h.started }
  | query index q =>
    obtain ⟨c, hc, hs⟩ := Option.bind_eq_some_iff.mp hs
    split_ifs at hs
    obtain rfl : _ = w' := Option.some.inj hs
    exact ⟨h.query hc q, le_refl _⟩
  | act index choice =>
    obtain ⟨c, hc, hs⟩ := Option.bind_eq_some_iff.mp hs
    obtain ⟨eff, heff, rfl⟩ := Option.map_eq_some_iff.mp hs
    have hmem : c ∈ w.senders := List.mem_of_getElem? hc
    have hdrawn : ∀ a, c.drawn = some a → a ∉ w.rows.ledger.attempts.map (·.id) :=
      fun a ha hm =>
        (List.nodup_append.mp h.ids_nodup).2.2 a (mem_held.mpr ⟨c, hmem, ha⟩) a hm rfl
    have hregular : choice = .go → c.isRegular k w.rows = true := by
      rintro rfl
      simpa [SendWorld.isRegular, hc] using hreg
    have hacted := Sender.act_acted h.ledger hdrawn (h.read c hmem) (h.retriesBelow c hmem)
      hregular heff
    exact ⟨h.after hc hacted, hacted.attempts_le⟩
  | crash index =>
    obtain ⟨c, hc, rfl⟩ := Option.map_eq_some_iff.mp hs
    refine ⟨?_, le_refl _⟩
    have hover : Sender.Acted w.issued w.rows c { rows := w.rows, sender := c.goto .over } :=
      .over h.ledger rfl rfl rfl
    simpa [SendWorld.after] using h.after hc hover

theorem reachable {k : StoreKind}
    (h : (SendWorld.system k).ReachableWhere (fun w l => SendWorld.isRegular k w l = true) w) :
    SendInv w := by
  refine h.invariant ?_ fun w w' l _ hw hreg hs => (hw.step hreg hs).1
  rintro w ⟨now, rows, rfl, hledger, hattempts⟩
  exact {
    ledger := hledger
    counters_nodup := List.nodup_nil
    counters_le := by simp [held]
    counters_pos := by simp [held]
    retried_le := by simp
    retriesBelow := by simp
    failed := by simp [hattempts]
    ids_nodup := by simp [held, hattempts]
    ids_issued := by simp [held, hattempts]
    read := by simp
    started := by simp [held, hattempts] }

end SendInv

/-- **Bounded submissions.** In every run whose claims raise the counter and whose ledger writes
find the rows they were planned on, the transport is started at most three times, and the counter
never decreases. -/
theorem sends_bounded {k : StoreKind} {w : SendWorld}
    (h : (SendWorld.system k).ReachableWhere (fun w l => SendWorld.isRegular k w l = true) w) :
    w.started ≤ 3 ∧ ∀ l w', SendWorld.isRegular k w l = true → SendWorld.step k w l = some w' →
      w.rows.ledger.email.attempts ≤ w'.rows.ledger.email.attempts :=
  ⟨(SendInv.reachable h).started_le, fun _ _ hreg hs => ((SendInv.reachable h).step hreg hs).2⟩

/-- Where a claim takes the larger of the two counters and a ledger operation plans on the rows as
they stand, every step is regular. -/
theorem isRegular_of_max {k : StoreKind} (hk : k = .memory ∨ k = .postgres) (w : SendWorld)
    (l : SendLabel) : SendWorld.isRegular k w l = true := by
  have hc : ∀ c : Sender, c.isRegular k w.rows = true := by
    intro c
    unfold Sender.isRegular
    split
    · rcases hk with rfl | rfl <;>
        simp [LedgerRows.counterRises, StoreKind.claimCounter]
    all_goals first | rfl | (rcases hk with rfl | rfl <;> rfl)
  unfold SendWorld.isRegular
  split
  · exact Option.all_eq_true _ _ |>.mpr fun c _ => hc c
  · rfl

/-- The memory store and the Postgres store keep the bound in every run. -/
theorem sends_bounded_of_max {k : StoreKind} (hk : k = .memory ∨ k = .postgres) {w : SendWorld}
    (h : (SendWorld.system k).Reachable w) : w.started ≤ 3 :=
  (SendInv.reachable (h.mono fun w l _ => isRegular_of_max hk w l)).started_le

/-! ## Runs -/

namespace SendWorld

/-- The sample delivery, before its first attempt. -/
def sample (now : ℕ) : SendWorld where
  now := now
  rows := { ledger := ⟨sampleCommit.email, sampleCommit.message, sampleCommit.recipients, []⟩ }

theorem sample_init (k : StoreKind) (now : ℕ) : (system k).init (sample now) := by
  have hvalid : validateDeliveryCommit sampleCommit 1 = .ok sampleCommit := by decide +kernel
  exact ⟨now, _, rfl, LedgerInv.initial (validateDeliveryCommit_eq_ok hvalid).2 rfl
    fun r hr => hr, rfl⟩

/-- A failure worth a retry. -/
def throttled : SendError := ⟨.providerThrottled, true, "The provider asked to retry."⟩

/-- One operation of a call on the store, with the queries it waits for. -/
def operationSteps (k : StoreKind) (index : ℕ) : List SendLabel :=
  (if k.isAtomic then [] else [.query index .header, .query index .recipients,
    .query index .attempts]) ++ [.act index .go]

/-- The steps of a job from its delivery to the claim. -/
def claimSteps (k : StoreKind) (index attempt : ℕ) : List SendLabel :=
  [.deliver attempt, .act index .go, .act index .go, .act index (.suppressed false)] ++
    operationSteps k index

/-- The steps from the claim to the transport. -/
def sendSteps (k : StoreKind) (index : ℕ) (attemptId : String) : List SendLabel :=
  [.act index (.attemptId attemptId)] ++ operationSteps k index ++ [.act index .go]

/-- The transport fails, and the attempt is left to be retried. -/
def retrySteps (k : StoreKind) (index : ℕ) : List SendLabel :=
  [.act index (.throws throttled)] ++ operationSteps k index

/-- Two jobs for one email that each reach the worker for the first time, and fail. -/
def retryTwice (k : StoreKind) : List SendLabel :=
  claimSteps k 0 1 ++ sendSteps k 0 "attempt_0123456789abcdef012340" ++ retrySteps k 0 ++
    claimSteps k 1 1 ++ sendSteps k 1 "attempt_0123456789abcdef012341" ++ retrySteps k 1

/-- A third and a fourth. -/
def retryAgain (k : StoreKind) : List SendLabel :=
  claimSteps k 2 1 ++ sendSteps k 2 "attempt_0123456789abcdef012342" ++ retrySteps k 2 ++
    claimSteps k 3 1 ++ sendSteps k 3 "attempt_0123456789abcdef012343"

/-- The second job claims the email, whose lease has run out, while the first is about to write the
result of its attempt, and the write brings the old counter back. -/
def overwriteSteps : List SendLabel :=
  claimSteps .d1 0 1 ++ sendSteps .d1 0 "attempt_0123456789abcdef012340" ++
    [.act 0 (.throws throttled), .query 0 .header, .query 0 .recipients, .query 0 .attempts,
      .tick 200000] ++ claimSteps .d1 1 1 ++ [.act 0 .go] ++
    sendSteps .d1 1 "attempt_0123456789abcdef012341" ++ retrySteps .d1 1

end SendWorld

open SendWorld in
theorem sends_bounded_sample : ∃ w, (SendWorld.system .d1).ReachableWhere
    (fun w l => SendWorld.isRegular .d1 w l = true) w ∧ w.started = 3 ∧ w.started ≤ 3 := by
  have hrun : ((system .d1).runWhere (isRegular .d1) (sample 2000) (retryTwice .d1 ++
      claimSteps .d1 2 1 ++ sendSteps .d1 2 "attempt_0123456789abcdef012342")).any
        (fun w => decide (w.started = 3)) = true := by decide +kernel
  obtain ⟨w, hw, hstarted⟩ :=
    TransitionSystem.exists_reachableWhere_of_run (sample_init .d1 2000) hrun
  exact ⟨w, hw, of_decide_eq_true hstarted, (sends_bounded hw).1⟩

open SendWorld in
/-- Four submissions, from four jobs with a receive count of one: the DynamoDB store writes that
count, the D1 store loses a claim. -/
theorem four_sends : (∃ w, (SendWorld.system .dynamo).Reachable w ∧ w.started = 4) ∧
    ∃ w, (SendWorld.system .d1).Reachable w ∧ w.started = 4 := by
  have hdynamo : ((system .dynamo).run (sample 2000) (retryTwice .dynamo ++
      retryAgain .dynamo)).any (fun w => decide (w.started = 4)) = true := by decide +kernel
  have hd1 : ((system .d1).run (sample 2000) (overwriteSteps ++ retryAgain .d1)).any
      (fun w => decide (w.started = 4)) = true := by decide +kernel
  obtain ⟨w, hw, hstarted⟩ := TransitionSystem.exists_reachable_of_run (sample_init _ 2000) hdynamo
  obtain ⟨w', hw', hstarted'⟩ := TransitionSystem.exists_reachable_of_run (sample_init _ 2000) hd1
  exact ⟨⟨w, hw, of_decide_eq_true hstarted⟩, w', hw', of_decide_eq_true hstarted'⟩

end HayaSend
