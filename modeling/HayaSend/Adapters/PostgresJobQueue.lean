import HayaSend.Adapters.MemoryStore
import HayaSend.Foundations.Fallible
import HayaSend.Foundations.TransitionSystem

/-!
# The job queue in PostgreSQL

The table of jobs and the statements of `PostgresJobQueue` on it. A statement is atomic, but for the
`DELETE` of a pruning: it picks rows in the snapshot that it began with and deletes them later, by
their ids. A job's identity is computed from the job, so that all its enqueues share one row.
`rowStep_of_step` says once what a step can do to one row; two properties of whole runs follow from
it, each in the runs where the statement that breaks it is not reached:

* an enqueued job is leased before its row is finished (`enqueued_jobs_leased`);
* a job is leased at most `max_attempts` times (`attempts_bounded`).
-/

namespace HayaSend

/-! ## Jobs -/

/-- Every job of the service. The event of a webhook delivery is given by its JSON text. -/
inductive QueueJob
  | delivery (job : Job)
  | publishReceivedEmail (emailId : String)
  | deliverWebhook (webhookId : String) (deliveryId : Option String) (event : String)
  deriving DecidableEq, Repr

structure JobEnvelope where
  id : String
  createdAt : ℕ
  job : QueueJob
  deriving DecidableEq, Repr

/-- What the queue takes from the platform: the digest of a job's canonical JSON text, and the size
of an envelope's. -/
structure JobEncoding where
  requestHash : QueueJob → String
  envelopeBytes : JobEnvelope → ℕ

/-- `jobIdentity` -/
def jobIdentity (e : JobEncoding) (job : QueueJob) : String :=
  let identity (type : String) (supplied : Option String) :=
    "job:v1:" ++ type ++ ":" ++ supplied.getD (e.requestHash job)
  match job with
  | .delivery (.sendEmail _ jobId) => identity "send-email" jobId
  | .delivery (.reconcileOutbox outboxId) => identity "reconcile-outbox" outboxId
  | .publishReceivedEmail _ => identity "publish-received-email" none
  | .deliverWebhook _ deliveryId _ => identity "deliver-webhook" deliveryId

/-- `createJobEnvelope` -/
def createJobEnvelope (e : JobEncoding) (job : QueueJob) (now : ℕ) : Except Failure JobEnvelope := do
  let envelope : JobEnvelope := ⟨jobIdentity e job, now, job⟩
  throwIf (2048 < envelope.id.utf8ByteSize) (.error "Queue job IDs must not exceed 2048 bytes.")
  throwIf (128000 < e.envelopeBytes envelope)
    (.error "Queue messages must not exceed 128000 bytes.")
  return envelope

theorem createJobEnvelope_eq_ok {e : JobEncoding} {job : QueueJob} {now : ℕ}
    {envelope : JobEnvelope} (h : createJobEnvelope e job now = .ok envelope) :
    envelope = ⟨jobIdentity e job, now, job⟩ := by
  obtain ⟨-, -, h⟩ := bind_eq_ok.mp h
  obtain ⟨-, -, h⟩ := bind_eq_ok.mp h
  exact ((pure_eq_ok _ _).mp h).symm

/-! ## Rows -/

structure JobLease where
  owner : String
  expiresAt : ℕ
  deriving DecidableEq, Repr

/-- A row is completed or failed, not both. -/
inductive JobOutcome
  | completed (at_ : ℕ)
  | failed (at_ : ℕ)
  deriving DecidableEq, Repr

/-- `COALESCE(completed_at, failed_at)` -/
def JobOutcome.finishedAt : JobOutcome → ℕ
  | .completed t | .failed t => t

def JobOutcome.isFailed : JobOutcome → Bool
  | .completed _ => false
  | .failed _ => true

/-- A row of the `jobs` table. Its lease has an owner and an expiry, or neither. -/
structure JobRow where
  envelope : JobEnvelope
  availableAt : ℕ
  lease : Option JobLease := none
  attempts : ℕ := 0
  maxAttempts : ℕ
  outcome : Option JobOutcome := none
  lastDiagnosticCategory : Option DiagnosticCategory := none
  createdAt : ℕ
  updatedAt : ℕ
  deriving DecidableEq, Repr

namespace JobRow

/-- `completed_at IS NULL AND failed_at IS NULL` -/
def isOpen (row : JobRow) : Bool := row.outcome.isNone

/-- The row is open and leased by `owner`. -/
def isHeldBy (owner : String) (row : JobRow) : Bool :=
  row.isOpen && row.lease.any (·.owner == owner)

/-- The row may be leased. -/
def isDue (now : ℕ) (row : JobRow) : Bool :=
  row.isOpen && decide (row.availableAt ≤ now) && row.lease.all (decide <| ·.expiresAt ≤ now)

/-- The attempts are used up. -/
def isUsedUp (row : JobRow) : Bool := decide (row.maxAttempts ≤ row.attempts)

end JobRow

abbrev JobTable := OrderedMap String JobRow

/-- `ORDER BY time, id` -/
def jobOrder (time : JobRow → ℕ) (left right : String × JobRow) : Prop :=
  time left.2 < time right.2 ∨ time left.2 = time right.2 ∧ left.1 ≤ right.1

instance (time : JobRow → ℕ) : DecidableRel (jobOrder time) := fun _ _ =>
  inferInstanceAs (Decidable (_ ∨ _ ∧ _))

/-- `PostgresLeasedJob` -/
structure PostgresLeasedJob where
  id : String
  job : QueueJob
  attempt : ℕ
  leaseExpiresAt : ℕ
  deriving DecidableEq, Repr

/-! ## The statements -/

namespace PostgresJobQueue

def maxDelaySeconds : ℕ := 30 * 24 * 60 * 60

def maxBatchSize : ℕ := 1000

/-- `validateOwner` -/
def validateOwner (owner : String) : Except Failure Unit :=
  throwIf (!isLeaseOwner owner) (.error "Job lease owner must be a privacy-safe opaque ID.")

/-- `validateInteger` -/
def validateInteger (value : ℕ) (name : String) (minimum maximum : ℕ) : Except Failure Unit :=
  throwIf (decide (value < minimum) || decide (maximum < value))
    (.error (name ++ " must be between " ++ toString minimum ++ " and " ++ toString maximum ++ "."))

/-- `INSERT … ON CONFLICT (id) DO UPDATE`: the table with the row inserted, or the row of its id
updated; none when that row is finished or holds another job. -/
def upsert (rows : JobTable) (row : JobRow) : Option JobTable :=
  match rows.get row.envelope.id with
  | none => some (rows.set row.envelope.id row)
  | some current =>
    if current.isOpen && current.envelope.job == row.envelope.job then
      some (rows.set row.envelope.id { current with
        availableAt := min current.availableAt row.availableAt
        updatedAt := row.updatedAt })
    else none

theorem upsert_of_absent {rows : JobTable} {row : JobRow} (h : rows.get row.envelope.id = none) :
    upsert rows row = some (rows.set row.envelope.id row) := by
  rw [upsert, h]

theorem upsert_of_present {rows : JobTable} {row current : JobRow}
    (h : rows.get row.envelope.id = some current) : upsert rows row =
      if current.isOpen = true ∧ current.envelope.job = row.envelope.job then
        some (rows.set row.envelope.id { current with
          availableAt := min current.availableAt row.availableAt
          updatedAt := row.updatedAt })
      else none := by
  rw [upsert, h]
  simp only [Bool.and_eq_true, beq_iff_eq]

/-- The first statement of `enqueue`. -/
def enqueue (e : JobEncoding) (maxAttempts : ℕ) (rows : JobTable) (job : QueueJob)
    (delaySeconds now : ℕ) : Except Failure (Option JobTable) := do
  validateInteger delaySeconds "PostgreSQL queue delay" 0 maxDelaySeconds
  let envelope ← createJobEnvelope e job now
  return upsert rows {
    envelope := envelope
    availableAt := now + 1000 * delaySeconds
    maxAttempts := maxAttempts
    createdAt := now
    updatedAt := now }

/-- The second statement of `enqueue`, where the first matched no row. -/
def readStored (e : JobEncoding) (rows : JobTable) (job : QueueJob) : Except Failure Unit :=
  throwIf ((rows.get (jobIdentity e job)).any fun row =>
      e.requestHash row.envelope.job != e.requestHash job)
    (.error "Deterministic job identity is already used by a different job.")

/-- The rows that a lease takes; `FOR UPDATE SKIP LOCKED` leaves out those that other statements
have locked. -/
def candidates (rows : JobTable) (now limit : ℕ) (locked : List String) : List (String × JobRow) :=
  ((rows.entries.filter fun (id, row) => row.isDue now && !locked.contains id).insertionSort
    (jobOrder (·.availableAt))).take limit

/-- A row that is leased. -/
def leasedRow (owner : String) (leaseSeconds now : ℕ) (row : JobRow) : JobRow :=
  { row with
    lease := some ⟨owner, now + 1000 * leaseSeconds⟩
    attempts := row.attempts + 1
    updatedAt := now }

/-- `lease` -/
def lease (rows : JobTable) (owner : String) (leaseSeconds limit now : ℕ) (locked : List String) :
    Except Failure (JobTable × List PostgresLeasedJob) := do
  validateOwner owner
  validateInteger leaseSeconds "Job lease duration" 1 86400
  validateInteger limit "Job lease limit" 1 maxBatchSize
  let taken := candidates rows now limit locked
  return (
    rows.updateWhere (fun id _ => (taken.map Prod.fst).contains id)
      (leasedRow owner leaseSeconds now),
    taken.map fun (id, row) => ⟨id, row.envelope.job, row.attempts + 1,
      now + 1000 * leaseSeconds⟩)

/-- A row whose job is done. -/
def acknowledgedRow (now : ℕ) (row : JobRow) : JobRow :=
  { row with
    outcome := some (.completed now)
    lease := none
    updatedAt := now }

/-- `acknowledge` -/
def acknowledge (rows : JobTable) (id owner : String) (now : ℕ) : Except Failure (JobTable × Bool) := do
  validateOwner owner
  return (rows.updateWhere (fun key row => key == id && row.isHeldBy owner)
      (acknowledgedRow now),
    (rows.get id).any (·.isHeldBy owner))

/-- A row whose lease is extended. -/
def extendedRow (owner : String) (leaseSeconds now : ℕ) (row : JobRow) : JobRow :=
  { row with
    lease := some ⟨owner, now + 1000 * leaseSeconds⟩
    updatedAt := now }

/-- `extendLease` -/
def extendLease (rows : JobTable) (id owner : String) (leaseSeconds now : ℕ) :
    Except Failure (JobTable × Bool) := do
  validateOwner owner
  validateInteger leaseSeconds "Job lease duration" 1 86400
  return (rows.updateWhere (fun key row => key == id && row.isHeldBy owner)
      (extendedRow owner leaseSeconds now),
    (rows.get id).any (·.isHeldBy owner))

inductive FailureDisposition
  | retryScheduled
  | terminalFailure
  | notOwned
  deriving DecidableEq, Repr

/-- A row whose failure is reported. -/
def failedRow (category : DiagnosticCategory) (retryDelaySeconds : ℕ) (terminal : Bool) (now : ℕ)
    (row : JobRow) : JobRow :=
  { row with
    outcome := if terminal || row.isUsedUp then some (.failed now) else none
    availableAt :=
      if terminal || row.isUsedUp then row.availableAt else now + 1000 * retryDelaySeconds
    lease := none
    lastDiagnosticCategory := some category
    updatedAt := now }

/-- `recordFailure` -/
def recordFailure (rows : JobTable) (id owner : String) (category : DiagnosticCategory)
    (retryDelaySeconds : ℕ) (terminal : Bool) (now : ℕ) :
    Except Failure (JobTable × FailureDisposition) := do
  validateOwner owner
  validateInteger retryDelaySeconds "Job retry delay" 0 maxDelaySeconds
  return (rows.updateWhere (fun key row => key == id && row.isHeldBy owner)
      (failedRow category retryDelaySeconds terminal now),
    match (rows.get id).filter (·.isHeldBy owner) with
    | none => .notOwned
    | some row => if terminal || row.isUsedUp then .terminalFailure else .retryScheduled)

/-- A row that its owner gives back. -/
def releasedRow (now : ℕ) (row : JobRow) : JobRow :=
  { row with
    lease := none
    availableAt := min row.availableAt now
    updatedAt := now }

/-- `releaseOwnedLeases` -/
def releaseOwnedLeases (rows : JobTable) (owner : String) (now : ℕ) : Except Failure JobTable := do
  validateOwner owner
  return rows.updateWhere (fun _ row => row.isHeldBy owner) (releasedRow now)

/-- A row whose attempts start again. -/
def recoveredRow (now : ℕ) (row : JobRow) : JobRow :=
  { row with
    availableAt := now
    lease := none
    attempts := 0
    outcome := none
    lastDiagnosticCategory := none
    updatedAt := now }

/-- `recoverFailed` -/
def recoverFailed (rows : JobTable) (id : String) (now : ℕ) : JobTable × Bool :=
  (rows.updateWhere (fun key row => key == id && row.outcome.any (·.isFailed))
      (recoveredRow now),
    (rows.get id).any fun row => row.outcome.any (·.isFailed))

/-- The rows that a pruning picks. -/
def finished (rows : JobTable) (before limit : ℕ) : List (String × JobRow) :=
  ((rows.entries.filter fun (_, row) => row.outcome.any (decide <| ·.finishedAt < before)
    ).insertionSort (jobOrder fun row => (row.outcome.map JobOutcome.finishedAt).getD 0)).take limit

/-- `pruneFinished`: the ids of the rows picked in the snapshot of the statement. -/
def pruneFinished (rows : JobTable) (before limit : ℕ) : Except Failure (List String) := do
  validateInteger limit "Job prune limit" 1 maxBatchSize
  return (finished rows before limit).map Prod.fst

/-- `DELETE … WHERE jobs.id = candidates.id`: of a row that has changed since the snapshot, only its
id is compared again. -/
def deleteCandidates (rows : JobTable) (ids : List String) : JobTable :=
  rows.eraseWhere fun id _ => ids.contains id

end PostgresJobQueue

/-! ## Runs -/

/-- What the history of a job's row records. -/
inductive JobEvent
  | created
  /-- An `enqueue` of the job resolved. -/
  | enqueued
  | leased
  /-- Its lease was acknowledged or failed terminally. -/
  | finished
  | recovered
  deriving DecidableEq, Repr

/-- The table, the `enqueue` calls between their two statements, the ids that each running pruning
has picked, and the history, newest first. -/
structure QueueWorld where
  rows : JobTable := ∅
  waiting : List QueueJob := []
  pruning : List (List String) := []
  history : List (String × JobEvent) := []
  deriving DecidableEq

/-- Any call, by any worker, with any clock reading. -/
inductive QueueLabel
  | enqueue (job : QueueJob) (delaySeconds now maxAttempts : ℕ)
  | readStored (index : ℕ)
  | lease (owner : String) (leaseSeconds limit now : ℕ) (locked : List String)
  | acknowledge (id owner : String) (now : ℕ)
  | extendLease (id owner : String) (leaseSeconds now : ℕ)
  | recordFailure (id owner : String) (category : DiagnosticCategory) (retryDelaySeconds : ℕ)
      (terminal : Bool) (now : ℕ)
  | releaseOwnedLeases (owner : String) (now : ℕ)
  | recoverFailed (id : String) (now : ℕ)
  | pruneFinished (before limit : ℕ)
  /-- A running pruning deletes what it has picked. -/
  | deleteCandidates (index : ℕ)
  deriving DecidableEq, Repr

namespace QueueWorld

open PostgresJobQueue

/-- The events of one row, newest first. -/
def events (w : QueueWorld) (id : String) : List JobEvent :=
  w.history.filterMap fun h => if h.1 = id then some h.2 else none

/-- The history after a statement that may have matched the row of `id`. -/
def record (w : QueueWorld) (id : String) (event : JobEvent) (matched : Bool) :
    List (String × JobEvent) :=
  if matched then (id, event) :: w.history else w.history

/-- The prunings that go on when one has deleted its rows. A row that is inserted later is none that
they have picked. -/
def pruningAfter (pruning : List (List String)) (index : ℕ) (ids : List String) :
    List (List String) :=
  (pruning.eraseIdx index).map (·.filter fun id => !ids.contains id)

/-- One statement. A call that throws changes nothing. -/
def step (e : JobEncoding) (w : QueueWorld) : QueueLabel → Option QueueWorld
  | .enqueue job delaySeconds now maxAttempts =>
    let id := jobIdentity e job
    if 1 ≤ maxAttempts ∧ maxAttempts ≤ 100 then
      (enqueue e maxAttempts w.rows job delaySeconds now).toOption.map fun
        | some rows => { w with
            rows := rows
            history := (id, .enqueued) :: w.record id .created (!w.rows.has id) }
        | none => { w with waiting := w.waiting ++ [job] }
    else none
  | .readStored index => (w.waiting[index]?).bind fun job =>
    (readStored e w.rows job).toOption.map fun _ => { w with
      waiting := w.waiting.eraseIdx index
      history := (jobIdentity e job, .enqueued) :: w.history }
  | .lease owner leaseSeconds limit now locked =>
    (lease w.rows owner leaseSeconds limit now locked).toOption.map fun (rows, jobs) => { w with
      rows := rows
      history := jobs.map (fun job => (job.id, .leased)) ++ w.history }
  | .acknowledge id owner now =>
    (acknowledge w.rows id owner now).toOption.map fun (rows, acknowledged) => { w with
      rows := rows
      history := w.record id .finished acknowledged }
  | .extendLease id owner leaseSeconds now =>
    (extendLease w.rows id owner leaseSeconds now).toOption.map fun (rows, _) =>
      { w with rows := rows }
  | .recordFailure id owner category retryDelaySeconds terminal now =>
    (recordFailure w.rows id owner category retryDelaySeconds terminal now).toOption.map
      fun (rows, disposition) => { w with
        rows := rows
        history := w.record id .finished (disposition == .terminalFailure) }
  | .releaseOwnedLeases owner now =>
    (releaseOwnedLeases w.rows owner now).toOption.map fun rows => { w with rows := rows }
  | .recoverFailed id now =>
    let (rows, recovered) := recoverFailed w.rows id now
    some { w with
      rows := rows
      history := w.record id .recovered recovered }
  | .pruneFinished before limit =>
    (pruneFinished w.rows before limit).toOption.map fun ids =>
      { w with pruning := w.pruning ++ [ids] }
  | .deleteCandidates index => (w.pruning[index]?).map fun ids => { w with
      rows := deleteCandidates w.rows ids
      pruning := pruningAfter w.pruning index ids }

/-- An empty table. -/
def system (e : JobEncoding) : TransitionSystem QueueWorld QueueLabel where
  init w := w = {}
  step := step e

/-! ## One row -/

/-- What a step does to the row of `id` and to its events. -/
inductive RowStep (e : JobEncoding) (w : QueueWorld) (id : String) :
    QueueLabel → Option JobRow → List JobEvent → Prop
  | same {l : QueueLabel} : RowStep e w id l (w.rows.get id) (w.events id)
  | insert {job : QueueJob} {delaySeconds now maxAttempts : ℕ} {row : JobRow} :
      w.rows.get id = none → id = jobIdentity e job → 1 ≤ maxAttempts →
      row.lease = none → row.attempts = 0 → row.maxAttempts = maxAttempts → row.outcome = none →
      RowStep e w id (.enqueue job delaySeconds now maxAttempts) (some row)
        (.enqueued :: .created :: w.events id)
  | merge {job : QueueJob} {delaySeconds now maxAttempts availableAt : ℕ} {row : JobRow} :
      w.rows.get id = some row → id = jobIdentity e job → row.isOpen = true →
      row.envelope.job = job →
      RowStep e w id (.enqueue job delaySeconds now maxAttempts)
        (some { row with availableAt := availableAt, updatedAt := now })
        (.enqueued :: w.events id)
  | ignore {index : ℕ} {job : QueueJob} :
      w.waiting[index]? = some job → id = jobIdentity e job →
      (∀ row, w.rows.get id = some row → e.requestHash row.envelope.job = e.requestHash job) →
      RowStep e w id (.readStored index) (w.rows.get id) (.enqueued :: w.events id)
  | lease {owner : String} {leaseSeconds limit now : ℕ} {locked : List String} {row : JobRow} :
      w.rows.get id = some row → row.isDue now = true →
      RowStep e w id (.lease owner leaseSeconds limit now locked)
        (some (leasedRow owner leaseSeconds now row)) (.leased :: w.events id)
  | acknowledge {owner : String} {now : ℕ} {row : JobRow} :
      w.rows.get id = some row → row.isHeldBy owner = true →
      RowStep e w id (.acknowledge id owner now)
        (some (acknowledgedRow now row))
        (.finished :: w.events id)
  | extend {owner : String} {leaseSeconds now : ℕ} {row : JobRow} :
      w.rows.get id = some row → row.isHeldBy owner = true →
      RowStep e w id (.extendLease id owner leaseSeconds now)
        (some (extendedRow owner leaseSeconds now row)) (w.events id)
  | fail {owner : String} {category : DiagnosticCategory} {retryDelaySeconds now : ℕ}
      {terminal : Bool} {row : JobRow} :
      w.rows.get id = some row → row.isHeldBy owner = true →
      RowStep e w id (.recordFailure id owner category retryDelaySeconds terminal now)
        (some (failedRow category retryDelaySeconds terminal now row))
        (if terminal || row.isUsedUp then .finished :: w.events id else w.events id)
  | release {owner : String} {now : ℕ} {row : JobRow} :
      w.rows.get id = some row → row.isHeldBy owner = true →
      RowStep e w id (.releaseOwnedLeases owner now) (some (releasedRow now row)) (w.events id)
  | recover {now : ℕ} {row : JobRow} :
      w.rows.get id = some row → row.isOpen = false →
      RowStep e w id (.recoverFailed id now) (some (recoveredRow now row))
        (.recovered :: w.events id)
  | prune {index : ℕ} {ids : List String} {row : JobRow} :
      w.rows.get id = some row → w.pruning[index]? = some ids → id ∈ ids →
      RowStep e w id (.deleteCandidates index) none (w.events id)

variable {e : JobEncoding} {w w' : QueueWorld} {id : String} {l : QueueLabel}

/-- The step to a state, read off its row and events. -/
theorem RowStep.of_eq {row : Option JobRow} {es : List JobEvent} (h : RowStep e w id l row es)
    (hrow : w'.rows.get id = row) (hevents : w'.events id = es) :
    RowStep e w id l (w'.rows.get id) (w'.events id) := by
  rw [hrow, hevents]
  exact h

theorem events_of_record {k : String} {event : JobEvent} {matched : Bool}
    (h : w'.history = w.record k event matched) :
    w'.events id = if k = id ∧ matched = true then event :: w.events id else w.events id := by
  rw [events, h, record]
  cases matched with
  | false => simp [events]
  | true => by_cases hk : k = id <;> simp [events, hk]

theorem events_of_any {k : String} {event : JobEvent} {p : JobRow → Bool}
    (h : w'.history = w.record k event ((w.rows.get k).any p)) :
    w'.events id = match (w.rows.get k).filter p with
      | none => w.events id
      | some _ => if k = id then event :: w.events id else w.events id := by
  rw [events_of_record h]
  cases w.rows.get k with
  | none => simp
  | some row => by_cases hp : p row = true <;> simp [Option.filter_some, hp]

/-- An update of one row, by its id and a condition. -/
theorem get_updateOne (rows : JobTable) (k : String) (p : JobRow → Bool) (f : JobRow → JobRow)
    (id : String) : (rows.updateWhere (fun key row => key == k && p row) f).get id =
      if id = k then (rows.get id).map fun row => if p row then f row else row
      else rows.get id := by
  rw [OrderedMap.get_updateWhere]
  by_cases hk : id = k
  · simp [hk]
  · simp [hk]

/-- **An update of one row that it has to match.** -/
theorem rowStep_updateOne {k : String} {p : JobRow → Bool} {f : JobRow → JobRow}
    {g : JobRow → List JobEvent → List JobEvent}
    (hrows : w'.rows = w.rows.updateWhere (fun key row => key == k && p row) f)
    (hevents : w'.events id = match (w.rows.get k).filter p with
      | none => w.events id
      | some row => if k = id then g row (w.events id) else w.events id)
    (h : ∀ row, w.rows.get id = some row → p row = true → id = k →
      RowStep e w id l (some (f row)) (g row (w.events id))) :
    RowStep e w id l (w'.rows.get id) (w'.events id) := by
  by_cases hk : id = k
  · subst hk
    cases hrow : w.rows.get id with
    | none =>
      refine RowStep.same.of_eq ?_ ?_
      · rw [hrows, get_updateOne, if_pos rfl, hrow]
        rfl
      · rw [hevents, hrow]
        rfl
    | some row =>
      by_cases hp : p row = true
      · refine (h row hrow hp rfl).of_eq ?_ ?_
        · rw [hrows, get_updateOne, if_pos rfl, hrow, Option.map_some, if_pos hp]
        · rw [hevents, hrow, Option.filter_some, if_pos hp]
          exact if_pos rfl
      · refine RowStep.same.of_eq ?_ ?_
        · rw [hrows, get_updateOne, if_pos rfl, hrow, Option.map_some, if_neg hp]
        · rw [hevents, hrow, Option.filter_some, if_neg hp]
  · refine RowStep.same.of_eq ?_ ?_
    · rw [hrows, get_updateOne, if_neg hk]
    · rw [hevents]
      cases (w.rows.get k).filter p with
      | none => rfl
      | some row => exact if_neg (Ne.symm hk)

theorem filterMap_eq_of_nodup {ks : List String} (hn : ks.Nodup) (event : JobEvent) :
    ks.filterMap (fun k => if k = id then some event else none) =
      if id ∈ ks then [event] else [] := by
  induction ks with
  | nil => rfl
  | cons k ks ih =>
    obtain ⟨hk, hn⟩ := List.nodup_cons.mp hn
    rw [List.filterMap_cons, ih hn]
    by_cases hid : k = id
    · subst hid
      simp [hk]
    · simp [hid, Ne.symm hid]

/-- The events of a row that a list of keys may name once. -/
theorem events_append {ks : List String} (hn : ks.Nodup) {event : JobEvent}
    (h : w'.history = ks.map (fun k => (k, event)) ++ w.history) :
    w'.events id = if id ∈ ks then event :: w.events id else w.events id := by
  rw [events, h, List.filterMap_append]
  have hks : (ks.map fun k => (k, event)).filterMap (fun h => if h.1 = id then some h.2 else none) =
      if id ∈ ks then [event] else [] := by
    rw [List.filterMap_map]
    exact filterMap_eq_of_nodup hn event
  rw [hks]
  split_ifs <;> rfl

/-- An update of all rows that meet a condition. -/
theorem rowStep_updateAll {p : String → JobRow → Bool} {f : JobRow → JobRow}
    (hrows : w'.rows = w.rows.updateWhere p f) (hevents : w'.events id = w.events id)
    (h : ∀ row, w.rows.get id = some row → p id row = true →
      RowStep e w id l (some (f row)) (w.events id)) :
    RowStep e w id l (w'.rows.get id) (w'.events id) := by
  cases hrow : w.rows.get id with
  | none =>
    refine RowStep.same.of_eq ?_ hevents
    rw [hrows, OrderedMap.get_updateWhere, hrow]
    rfl
  | some row =>
    by_cases hp : p id row = true
    · refine (h row hrow hp).of_eq ?_ hevents
      rw [hrows, OrderedMap.get_updateWhere, hrow, Option.map_some, if_pos hp]
    · refine RowStep.same.of_eq ?_ hevents
      rw [hrows, OrderedMap.get_updateWhere, hrow, Option.map_some, if_neg hp]

theorem isOpen_eq_false_of_any {row : JobRow} {p : JobOutcome → Bool}
    (h : row.outcome.any p = true) : row.isOpen = false := by
  rw [JobRow.isOpen]
  cases hout : row.outcome with
  | none =>
    rw [hout] at h
    cases h
  | some outcome => rfl

theorem nodup_take_keys {rows : JobTable} {p : String × JobRow → Bool} {time : JobRow → ℕ}
    {limit : ℕ} : ((((rows.entries.filter p).insertionSort (jobOrder time)).take limit).map
      Prod.fst).Nodup := by
  rw [List.map_take]
  refine List.Nodup.sublist (List.take_sublist _ _) ?_
  refine ((List.perm_insertionSort _ _).map _).nodup_iff.mpr ?_
  exact rows.nodup.sublist (List.filter_sublist.map Prod.fst)

/-- A row that a statement picked by a condition meets it. -/
theorem of_mem_take_keys {rows : JobTable} {p : String × JobRow → Bool} {time : JobRow → ℕ}
    {limit : ℕ} {id : String} (h : id ∈ (((rows.entries.filter p).insertionSort
      (jobOrder time)).take limit).map Prod.fst) :
    ∃ row, rows.get id = some row ∧ p (id, row) = true := by
  obtain ⟨⟨k, row⟩, hmem, rfl⟩ := List.mem_map.mp h
  have hmem := List.mem_of_mem_take hmem
  rw [List.mem_insertionSort, List.mem_filter] at hmem
  exact ⟨row, (OrderedMap.get_eq_some_iff _ _ _).mpr hmem.1, hmem.2⟩

/-- **What a step does to a row.** -/
theorem rowStep_of_step (h : w.step e l = some w') (id : String) :
    RowStep e w id l (w'.rows.get id) (w'.events id) := by
  cases l with
  | enqueue job delaySeconds now maxAttempts =>
    simp only [step] at h
    split_ifs at h with hmax
    obtain ⟨result, hok, h⟩ := Option.map_eq_some_iff.mp h
    rw [toOption_eq_some, enqueue] at hok
    obtain ⟨-, -, hok⟩ := bind_eq_ok.mp hok
    obtain ⟨envelope, henvelope, hok⟩ := bind_eq_ok.mp hok
    obtain rfl := createJobEnvelope_eq_ok henvelope
    obtain rfl := (pure_eq_ok _ _).mp hok
    obtain ⟨hone, -⟩ := hmax
    cases hrow : w.rows.get (jobIdentity e job) with
    | none =>
      rw [upsert_of_absent hrow] at h
      subst h
      by_cases hid : id = jobIdentity e job
      · subst hid
        refine (RowStep.insert hrow rfl hone rfl rfl rfl rfl).of_eq (OrderedMap.get_set_self _ _ _) ?_
        simp [events, record, (OrderedMap.get_eq_none_iff _ _).mp hrow]
      · refine RowStep.same.of_eq (OrderedMap.get_set_ne _ _ hid) ?_
        simp [events, record, (OrderedMap.get_eq_none_iff _ _).mp hrow, Ne.symm hid]
    | some row =>
      have hhas : w.rows.has (jobIdentity e job) = true :=
        (OrderedMap.has_eq_true_iff _ _).mpr ⟨row, hrow⟩
      rw [upsert_of_present hrow] at h
      split_ifs at h with hmatch
      · subst h
        by_cases hid : id = jobIdentity e job
        · subst hid
          refine (RowStep.merge hrow rfl hmatch.1 hmatch.2).of_eq (OrderedMap.get_set_self _ _ _) ?_
          simp [events, record, hhas]
        · refine RowStep.same.of_eq (OrderedMap.get_set_ne _ _ hid) ?_
          simp [events, record, hhas, Ne.symm hid]
      · subst h
        exact .same
  | readStored index =>
    obtain ⟨job, hjob, h⟩ := Option.bind_eq_some_iff.mp h
    obtain ⟨u, hok, rfl⟩ := Option.map_eq_some_iff.mp h
    rw [toOption_eq_some, readStored, throwIf_eq_ok] at hok
    by_cases hid : jobIdentity e job = id
    · subst hid
      refine (RowStep.ignore hjob rfl ?_).of_eq rfl ?_
      · intro row hrow
        simpa [hrow] using hok
      · simp [events]
    · refine RowStep.same.of_eq rfl ?_
      simp [events, hid]
  | lease owner leaseSeconds limit now locked =>
    obtain ⟨result, hok, rfl⟩ := Option.map_eq_some_iff.mp h
    rw [toOption_eq_some, lease] at hok
    obtain ⟨-, -, hok⟩ := bind_eq_ok.mp hok
    obtain ⟨-, -, hok⟩ := bind_eq_ok.mp hok
    obtain ⟨-, -, hok⟩ := bind_eq_ok.mp hok
    cases hok
    have hhistory : ∀ jobs : List (String × JobRow), (jobs.map fun (id, row) =>
        (⟨id, row.envelope.job, row.attempts + 1, now + 1000 * leaseSeconds⟩ : PostgresLeasedJob)).map
          (fun job => (job.id, JobEvent.leased)) =
        (jobs.map Prod.fst).map fun k => (k, JobEvent.leased) := by
      intro jobs
      rw [List.map_map, List.map_map]
      rfl
    by_cases hmem : id ∈ (candidates w.rows now limit locked).map Prod.fst
    · obtain ⟨row, hrow, hp⟩ := of_mem_take_keys hmem
      refine (RowStep.lease hrow (Bool.and_eq_true_iff.mp hp).1).of_eq ?_
        ((events_append nodup_take_keys (congrArg (· ++ w.history) (hhistory _))).trans
          (if_pos hmem))
      simp only [OrderedMap.get_updateWhere, hrow, Option.map_some]
      rw [if_pos (List.contains_iff_mem.mpr hmem)]
    · refine RowStep.same.of_eq ?_
        ((events_append nodup_take_keys (congrArg (· ++ w.history) (hhistory _))).trans
          (if_neg hmem))
      simp only [OrderedMap.get_updateWhere, List.contains_eq_mem, hmem]
      simp
  | acknowledge k owner now =>
    obtain ⟨result, hok, rfl⟩ := Option.map_eq_some_iff.mp h
    rw [toOption_eq_some, acknowledge] at hok
    obtain ⟨-, -, hok⟩ := bind_eq_ok.mp hok
    cases hok
    refine rowStep_updateOne (p := JobRow.isHeldBy owner) (f := acknowledgedRow now)
      (g := fun _ es => .finished :: es) rfl (events_of_any rfl) ?_
    rintro row hrow hp rfl
    exact .acknowledge hrow hp
  | extendLease k owner leaseSeconds now =>
    obtain ⟨result, hok, rfl⟩ := Option.map_eq_some_iff.mp h
    rw [toOption_eq_some, extendLease] at hok
    obtain ⟨-, -, hok⟩ := bind_eq_ok.mp hok
    obtain ⟨-, -, hok⟩ := bind_eq_ok.mp hok
    cases hok
    refine rowStep_updateOne (k := k) (p := JobRow.isHeldBy owner)
      (f := extendedRow owner leaseSeconds now) (g := fun _ es => es) rfl ?_ ?_
    · cases (w.rows.get k).filter (JobRow.isHeldBy owner) with
      | none => rfl
      | some row => exact (ite_self _).symm
    · rintro row hrow hp rfl
      exact .extend hrow hp
  | recordFailure k owner category retryDelaySeconds terminal now =>
    obtain ⟨result, hok, rfl⟩ := Option.map_eq_some_iff.mp h
    rw [toOption_eq_some, recordFailure] at hok
    obtain ⟨-, -, hok⟩ := bind_eq_ok.mp hok
    obtain ⟨-, -, hok⟩ := bind_eq_ok.mp hok
    cases hok
    refine rowStep_updateOne (p := JobRow.isHeldBy owner)
      (f := failedRow category retryDelaySeconds terminal now) (g := fun row es =>
        if terminal || row.isUsedUp then .finished :: es else es) rfl ?_ ?_
    · rw [events_of_record rfl]
      cases (w.rows.get k).filter (JobRow.isHeldBy owner) with
      | none => simp
      | some row => by_cases hend : (terminal || row.isUsedUp) = true <;> simp [hend]
    · rintro row hrow hp rfl
      exact .fail hrow hp
  | releaseOwnedLeases owner now =>
    obtain ⟨rows, hok, rfl⟩ := Option.map_eq_some_iff.mp h
    rw [toOption_eq_some, releaseOwnedLeases] at hok
    obtain ⟨-, -, hok⟩ := bind_eq_ok.mp hok
    cases hok
    exact rowStep_updateAll (p := fun _ row => row.isHeldBy owner) (f := releasedRow now) rfl rfl
      fun row hrow hp => .release hrow hp
  | recoverFailed k now =>
    obtain rfl : _ = w' := Option.some.inj h
    refine rowStep_updateOne (p := fun row => row.outcome.any (·.isFailed)) (f := recoveredRow now)
      (g := fun _ es => .recovered :: es) rfl (events_of_any rfl) ?_
    rintro row hrow hp rfl
    exact .recover hrow (isOpen_eq_false_of_any hp)
  | pruneFinished before limit =>
    obtain ⟨ids, -, rfl⟩ := Option.map_eq_some_iff.mp h
    exact RowStep.same.of_eq rfl rfl
  | deleteCandidates index =>
    obtain ⟨ids, hids, rfl⟩ := Option.map_eq_some_iff.mp h
    by_cases hmem : id ∈ ids
    · cases hrow : w.rows.get id with
      | none =>
        refine RowStep.same.of_eq ?_ rfl
        simp only [deleteCandidates, OrderedMap.get_eraseWhere, hrow, Option.filter_none]
      | some row =>
        refine (RowStep.prune hrow hids hmem).of_eq ?_ rfl
        simp only [deleteCandidates, OrderedMap.get_eraseWhere, hrow, Option.filter_some]
        rw [List.contains_iff_mem.mpr hmem]
        rfl
    · refine RowStep.same.of_eq ?_ rfl
      simp only [deleteCandidates, OrderedMap.get_eraseWhere, List.contains_eq_mem, hmem]
      cases w.rows.get id <;> rfl

/-! ## Enqueued jobs -/

/-- An `enqueue` finds the row of its job absent, or unfinished and unleased; where another job has
its identity, it throws. A pruning deletes finished rows only. -/
def keepsJobs (e : JobEncoding) (w : QueueWorld) : QueueLabel → Bool
  | .enqueue job _ _ _ => (w.rows.get (jobIdentity e job)).all fun row =>
    row.envelope.job != job || row.isOpen && row.lease.isNone
  | .readStored index => (w.waiting[index]?).all fun job =>
    (w.rows.get (jobIdentity e job)).any fun row =>
      e.requestHash row.envelope.job != e.requestHash job
  | .deleteCandidates index => (w.pruning[index]?).all fun ids =>
    ids.all fun id => (w.rows.get id).all (!·.isOpen)
  | _ => true

end QueueWorld

/-- Among the events after an `enqueue`, a lease that was later acknowledged or failed terminally. -/
def JobEvent.Handled (after : List JobEvent) : Prop :=
  ∃ newer older, after = newer ++ .finished :: older ∧ .leased ∈ older

theorem JobEvent.Handled.cons {after : List JobEvent} (h : Handled after) (event : JobEvent) :
    Handled (event :: after) := by
  obtain ⟨newer, older, rfl, hleased⟩ := h
  exact ⟨event :: newer, older, rfl, hleased⟩

namespace QueueWorld

open PostgresJobQueue

variable {e : JobEncoding} {w w' : QueueWorld} {id : String} {l : QueueLabel}

/-- After an `enqueue`, the row is unfinished, and has been leased since if it is leased; or it has
been handled since. -/
def Pending (row : Option JobRow) (after : List JobEvent) : Prop :=
  (∃ r, row = some r ∧ r.isOpen = true ∧ (r.lease.isSome = true → .leased ∈ after)) ∨
    JobEvent.Handled after

/-- Every `enqueue` of a row is pending. -/
def EnqueueInv (row : Option JobRow) (events : List JobEvent) : Prop :=
  ∀ after before, events = after ++ .enqueued :: before → Pending row after

variable {row : Option JobRow} {r : JobRow} {after : List JobEvent}

theorem Pending.free (hopen : r.isOpen = true) (hlease : r.lease = none) :
    Pending (some r) after :=
  Or.inl ⟨r, rfl, hopen, fun h => (by rw [hlease] at h; cases h)⟩

theorem Pending.of_closed (hclosed : r.isOpen = false) (h : Pending (some r) after) :
    JobEvent.Handled after := by
  rcases h with ⟨r', hr', hopen, -⟩ | h
  · obtain rfl := Option.some.inj hr'
    rw [hclosed] at hopen
    cases hopen
  · exact h

/-- The holder of the row has leased it since the `enqueue`. -/
theorem Pending.of_held {owner : String} (hheld : r.isHeldBy owner = true)
    (h : Pending (some r) after) : .leased ∈ after ∨ JobEvent.Handled after := by
  rcases h with ⟨r', hr', -, hleased⟩ | h
  · obtain rfl := Option.some.inj hr'
    refine Or.inl (hleased ?_)
    obtain ⟨lease, hlease, -⟩ := (Option.any_eq_true _ _).mp (Bool.and_eq_true_iff.mp hheld).2
    rw [hlease]
    rfl
  · exact Or.inr h

/-- The end of a lease taken since the `enqueue`. -/
theorem Pending.finish {owner : String} (hheld : r.isHeldBy owner = true)
    (h : Pending (some r) after) : JobEvent.Handled (.finished :: after) := by
  rcases h.of_held hheld with hleased | h
  · exact ⟨[], after, rfl, hleased⟩
  · exact h.cons _

namespace EnqueueInv

variable {row' : Option JobRow} {events : List JobEvent} {event : JobEvent}

theorem mono (h : EnqueueInv row events) (hpending : ∀ after, Pending row after → Pending row' after) :
    EnqueueInv row' events :=
  fun after before heq => hpending after (h after before heq)

/-- A new event that is no `enqueue`. -/
theorem concat (h : EnqueueInv row events) (hne : event ≠ .enqueued)
    (hpending : ∀ after, Pending row after → Pending row' (event :: after)) :
    EnqueueInv row' (event :: events) := by
  intro after before heq
  cases after with
  | nil => exact absurd (List.cons.inj heq).1 hne
  | cons event' after =>
    obtain ⟨rfl, htail⟩ := List.cons.inj heq
    exact hpending after (h after before htail)

/-- A row that is free is pending for every `enqueue`. -/
theorem free (hopen : r.isOpen = true) (hlease : r.lease = none) : EnqueueInv (some r) events :=
  fun _ _ _ => Pending.free hopen hlease

theorem step (h : EnqueueInv (w.rows.get id) (w.events id)) (hkeeps : w.keepsJobs e l = true)
    (hs : w.step e l = some w') : EnqueueInv (w'.rows.get id) (w'.events id) := by
  have hrowStep := rowStep_of_step hs id
  revert hrowStep
  generalize w'.rows.get id = row', w'.events id = events'
  intro hrowStep
  cases hrowStep with
  | same => exact h
  | insert hnone hid hone hlease hattempts hmax hout =>
    refine free ?_ hlease
    rw [JobRow.isOpen, hout]
    rfl
  | merge hrow hid hopen hjob =>
    subst hid hjob
    simp only [keepsJobs, hrow, Option.all_some, bne_self_eq_false, Bool.false_or,
      Bool.and_eq_true] at hkeeps
    exact free hopen (Option.isNone_iff_eq_none.mp hkeeps.2)
  | ignore hjob hid hsame =>
    -- the call throws
    subst hid
    simp only [keepsJobs, hjob, Option.all_some] at hkeeps
    obtain ⟨r, hr, hne⟩ := (Option.any_eq_true _ _).mp hkeeps
    rw [hsame r hr] at hne
    simp at hne
  | lease hrow hdue =>
    rw [hrow] at h
    refine h.concat (by decide) fun after hpending => ?_
    rcases hpending with ⟨r, hr, hopen, -⟩ | hhandled
    · obtain rfl := Option.some.inj hr
      exact Or.inl ⟨_, rfl, hopen, fun _ => List.mem_cons_self⟩
    · exact Or.inr (hhandled.cons _)
  | acknowledge hrow hheld =>
    rw [hrow] at h
    exact h.concat (by decide) fun after hpending => Or.inr (hpending.finish hheld)
  | extend hrow hheld =>
    rw [hrow] at h
    refine h.mono fun after hpending => ?_
    rcases hpending.of_held hheld with hleased | hhandled
    · exact Or.inl ⟨_, rfl, (Bool.and_eq_true_iff.mp hheld).1, fun _ => hleased⟩
    · exact Or.inr hhandled
  | @fail owner category retryDelaySeconds now terminal r hrow hheld =>
    rw [hrow] at h
    by_cases hend : (terminal || r.isUsedUp) = true
    · rw [if_pos hend]
      exact h.concat (by decide) fun after hpending => Or.inr (hpending.finish hheld)
    · rw [if_neg hend]
      refine h.mono fun after _ => Pending.free ?_ rfl
      simp only [failedRow, JobRow.isOpen, if_neg hend, Option.isNone_none]
  | release hrow hheld =>
    exact free (Bool.and_eq_true_iff.mp hheld).1 rfl
  | recover hrow hclosed =>
    exact free rfl rfl
  | prune hrow hids hmem =>
    -- the row that is deleted is finished
    rw [keepsJobs, hids, Option.all_some, List.all_eq_true] at hkeeps
    have hclosed := hkeeps id hmem
    rw [hrow, Option.all_some, Bool.not_eq_true'] at hclosed
    rw [hrow] at h
    exact h.mono fun after hpending => Or.inr (hpending.of_closed hclosed)

theorem reachable (h : (system e).ReachableWhere (fun w l => w.keepsJobs e l = true) w)
    (id : String) : EnqueueInv (w.rows.get id) (w.events id) := by
  refine h.invariant (I := fun w => EnqueueInv (w.rows.get id) (w.events id)) ?_
    fun w w' l _ hinv hkeeps hs => hinv.step hkeeps hs
  rintro w rfl after before heq
  cases after <;> cases heq

end EnqueueInv

/-! ## Attempts -/

end QueueWorld

/-- The leases since the row was created or recovered. -/
def JobEvent.leases : List JobEvent → ℕ
  | [] | .created :: _ | .recovered :: _ => 0
  | .leased :: es => leases es + 1
  | .enqueued :: es | .finished :: es => leases es

namespace QueueWorld

/-- No lease of a last attempt is given back, or has run out when rows are leased. -/
def reportsLastAttempts (w : QueueWorld) : QueueLabel → Bool
  | .lease _ _ _ now _ => w.rows.values.all fun row =>
    !(row.isOpen && row.isUsedUp && row.lease.any (decide <| ·.expiresAt ≤ now))
  | .releaseOwnedLeases owner _ => w.rows.values.all fun row =>
    !(row.isHeldBy owner && row.isUsedUp)
  | _ => true

/-- The attempts of a row count its leases and stay within the maximum; an open row that is not
leased has attempts left. -/
structure AttemptInv (row : JobRow) (events : List JobEvent) : Prop where
  positive : 0 < row.maxAttempts
  leases : row.attempts = JobEvent.leases events
  bounded : row.attempts ≤ row.maxAttempts
  left : row.isOpen = true → row.lease = none → row.attempts < row.maxAttempts

open PostgresJobQueue

variable {e : JobEncoding} {w w' : QueueWorld} {id : String} {l : QueueLabel}

/-- **One step** keeps the attempts of a row within the maximum. -/
theorem AttemptInv.step (h : ∀ row, w.rows.get id = some row → AttemptInv row (w.events id))
    (hreports : w.reportsLastAttempts l = true) (hs : w.step e l = some w') (row : JobRow)
    (hrow' : w'.rows.get id = some row) : AttemptInv row (w'.events id) := by
  have hrowStep := rowStep_of_step hs id
  rw [hrow'] at hrowStep
  revert hrowStep
  generalize w'.events id = events'
  generalize hnew : some row = row'
  intro hrowStep
  cases hrowStep with
  | same => exact h row hnew.symm
  | insert hnone hid hone hlease hattempts hmax hout =>
    obtain rfl := Option.some.inj hnew
    exact {
      positive := hmax ▸ hone
      leases := hattempts
      bounded := hattempts ▸ Nat.zero_le _
      left := fun _ _ => hattempts ▸ hmax ▸ hone }
  | merge hrow hid hopen hjob =>
    obtain rfl := Option.some.inj hnew
    have hinv := h _ hrow
    exact ⟨hinv.positive, hinv.leases, hinv.bounded, hinv.left⟩
  | ignore hjob hid hsame =>
    have hinv := h _ hnew.symm
    exact ⟨hinv.positive, hinv.leases, hinv.bounded, hinv.left⟩
  | @lease owner leaseSeconds limit now locked r hrow hdue =>
    obtain rfl := Option.some.inj hnew
    have hinv := h _ hrow
    have hleft : r.attempts < r.maxAttempts := by
      simp only [JobRow.isDue, Bool.and_eq_true] at hdue
      obtain ⟨⟨hopen, -⟩, hfree⟩ := hdue
      cases hlease : r.lease with
      | none => exact hinv.left hopen hlease
      | some lease =>
        have hused := List.all_eq_true.mp hreports r ((OrderedMap.mem_values_iff _ _).mpr ⟨_, hrow⟩)
        rw [hlease] at hfree hused
        simpa [hopen, JobRow.isUsedUp, of_decide_eq_true hfree] using hused
    exact ⟨hinv.positive, congrArg (· + 1) hinv.leases, hleft, fun _ hlease => (by cases hlease)⟩
  | acknowledge hrow hheld =>
    obtain rfl := Option.some.inj hnew
    have hinv := h _ hrow
    exact ⟨hinv.positive, hinv.leases, hinv.bounded, fun hopen => (by cases hopen)⟩
  | extend hrow hheld =>
    obtain rfl := Option.some.inj hnew
    have hinv := h _ hrow
    exact ⟨hinv.positive, hinv.leases, hinv.bounded, fun _ hlease => (by cases hlease)⟩
  | @fail owner category retryDelaySeconds now terminal r hrow hheld =>
    obtain rfl := Option.some.inj hnew
    have hinv := h _ hrow
    by_cases hend : (terminal || r.isUsedUp) = true
    · rw [if_pos hend]
      refine ⟨hinv.positive, hinv.leases, hinv.bounded, fun hopen => ?_⟩
      simp [failedRow, JobRow.isOpen, hend] at hopen
    · rw [if_neg hend]
      refine ⟨hinv.positive, hinv.leases, hinv.bounded, fun _ _ => ?_⟩
      rw [Bool.or_eq_true, not_or, JobRow.isUsedUp, decide_eq_true_eq] at hend
      exact not_le.mp hend.2
  | @release owner now r hrow hheld =>
    obtain rfl := Option.some.inj hnew
    have hinv := h _ hrow
    have hused := List.all_eq_true.mp hreports r ((OrderedMap.mem_values_iff _ _).mpr ⟨_, hrow⟩)
    have hleft : r.attempts < r.maxAttempts := by
      simpa [hheld, JobRow.isUsedUp] using hused
    exact ⟨hinv.positive, hinv.leases, hinv.bounded, fun _ _ => hleft⟩
  | recover hrow hclosed =>
    obtain rfl := Option.some.inj hnew
    have hinv := h _ hrow
    exact ⟨hinv.positive, rfl, Nat.zero_le _, fun _ _ => hinv.positive⟩
  | prune hrow hids hmem => cases hnew

theorem AttemptInv.reachable
    (h : (system e).ReachableWhere (fun w l => w.reportsLastAttempts l = true) w) {row : JobRow}
    (hrow : w.rows.get id = some row) : AttemptInv row (w.events id) := by
  refine h.invariant (I := fun w => ∀ row, w.rows.get id = some row → AttemptInv row (w.events id))
    ?_ (fun w w' l _ hinv hreports hs => AttemptInv.step hinv hreports hs) row hrow
  rintro w rfl row hrow
  cases hrow

end QueueWorld

open QueueWorld

/-- **No enqueued job is lost**, where every `enqueue` finds the row of its job absent, or unfinished
and unleased, and every pruning finds the rows that it deletes finished: after every `enqueue` that
resolved, the row is there and unfinished until some lease taken since has been acknowledged or has
failed terminally. -/
theorem enqueued_jobs_leased {e : JobEncoding} {w : QueueWorld}
    (h : (system e).ReachableWhere (fun w l => w.keepsJobs e l = true) w) (id : String)
    (after before : List JobEvent) (hevents : w.events id = after ++ .enqueued :: before) :
    (∃ row, w.rows.get id = some row ∧ row.outcome = none) ∨
      ∃ newer older, after = newer ++ .finished :: older ∧ .leased ∈ older := by
  rcases EnqueueInv.reachable h id after before hevents with ⟨row, hrow, hopen, -⟩ | hhandled
  · exact Or.inl ⟨row, hrow, Option.isNone_iff_eq_none.mp hopen⟩
  · exact Or.inr hhandled

/-- **A job is leased at most `max_attempts` times** since its row was created or recovered, where no
lease of a last attempt runs out or is given back: the attempts count the leases. -/
theorem attempts_bounded {e : JobEncoding} {w : QueueWorld}
    (h : (system e).ReachableWhere (fun w l => w.reportsLastAttempts l = true) w) {id : String}
    {row : JobRow} (hrow : w.rows.get id = some row) :
    row.attempts = JobEvent.leases (w.events id) ∧
      JobEvent.leases (w.events id) ≤ row.maxAttempts := by
  have hinv := AttemptInv.reachable h hrow
  exact ⟨hinv.leases, hinv.leases ▸ hinv.bounded⟩

/-! ## Sample runs -/

/-- An encoding that tells the jobs of different emails apart. -/
def sampleEncoding : JobEncoding where
  requestHash job := match job with
    | .delivery (.sendEmail emailId _) => emailId
    | .publishReceivedEmail emailId => emailId
    | _ => "other"
  envelopeBytes _ := 200

def sendJob : QueueJob := .delivery (.sendEmail "email_0123456789abcdef" none)

/-- The row of `sendJob`. -/
def sendJobId : String := "job:v1:send-email:email_0123456789abcdef"

/-- The job is enqueued, and leased by a worker for a minute. -/
def leaseOnce (maxAttempts : ℕ) : List QueueLabel :=
  [.enqueue sendJob 0 1000 maxAttempts, .lease "worker" 60 1 2000 []]

/-- The job is done, and its row is pruned. -/
theorem enqueued_jobs_leased_sample : ∃ w after, after = [JobEvent.finished, .leased] ∧
    (system sampleEncoding).ReachableWhere (fun w l => w.keepsJobs sampleEncoding l = true) w ∧
      w.rows.get sendJobId = none ∧ w.events sendJobId = after ++ .enqueued :: [.created] ∧
      ((∃ row, w.rows.get sendJobId = some row ∧ row.outcome = none) ∨
        ∃ newer older, after = newer ++ .finished :: older ∧ .leased ∈ older) := by
  have hrun : ((system sampleEncoding).runWhere (keepsJobs sampleEncoding) {}
      (leaseOnce 10 ++ [.acknowledge sendJobId "worker" 3000, .pruneFinished 4000 10,
        .deleteCandidates 0])).any (fun w => decide (w.rows.get sendJobId = none ∧
          w.events sendJobId = [.finished, .leased] ++ .enqueued :: [.created])) = true := by
    decide +kernel
  obtain ⟨w, hw, hend⟩ := TransitionSystem.exists_reachableWhere_of_run rfl hrun
  obtain ⟨hrow, hevents⟩ := of_decide_eq_true hend
  exact ⟨w, _, rfl, hw, hrow, hevents, enqueued_jobs_leased hw sendJobId _ _ hevents⟩

/-- The job fails for good, and a pruning picks its row; before the row is deleted, it is recovered. -/
def recoverWhilePruned : List QueueLabel :=
  leaseOnce 10 ++ [.recordFailure sendJobId "worker" .applicationError 0 true 3000,
    .pruneFinished 4000 10, .recoverFailed sendJobId 5000]

/-- A job that its own handler enqueues again for later, and a job that is done: both calls resolve,
and the row is finished without a further lease. A job that is enqueued while a pruning that has
picked its row runs: the call resolves, and the row is deleted. -/
theorem enqueued_job_lost :
    (∃ w, (system sampleEncoding).Reachable w ∧ w.events sendJobId =
        [.finished] ++ .enqueued :: [.leased, .enqueued, .created] ∧
      (w.rows.get sendJobId).any (·.outcome.isSome) = true) ∧
    (∃ w, (system sampleEncoding).Reachable w ∧ w.events sendJobId =
        [] ++ .enqueued :: [.finished, .leased, .enqueued, .created] ∧
      (w.rows.get sendJobId).any (·.outcome.isSome) = true) ∧
    ∃ w, (system sampleEncoding).Reachable w ∧ w.events sendJobId =
        [] ++ .enqueued :: [.recovered, .finished, .leased, .enqueued, .created] ∧
      w.rows.get sendJobId = none := by
  have hheld : ((system sampleEncoding).run {} (leaseOnce 10 ++ [.enqueue sendJob 900 3000 10,
      .acknowledge sendJobId "worker" 4000])).any (fun w => decide (w.events sendJobId =
        [.finished] ++ .enqueued :: [.leased, .enqueued, .created] ∧
      (w.rows.get sendJobId).any (·.outcome.isSome) = true)) = true := by
    decide +kernel
  have hdone : ((system sampleEncoding).run {} (leaseOnce 10 ++ [.acknowledge sendJobId "worker" 3000,
      .enqueue sendJob 900 4000 10, .readStored 0])).any (fun w => decide (w.events sendJobId =
        [] ++ .enqueued :: [.finished, .leased, .enqueued, .created] ∧
      (w.rows.get sendJobId).any (·.outcome.isSome) = true)) = true := by
    decide +kernel
  have hpruned : ((system sampleEncoding).run {} (recoverWhilePruned ++
      [.enqueue sendJob 0 6000 10, .deleteCandidates 0])).any (fun w => decide (w.events sendJobId =
        [] ++ .enqueued :: [.recovered, .finished, .leased, .enqueued, .created] ∧
      w.rows.get sendJobId = none)) = true := by
    decide +kernel
  refine ⟨?_, ?_, ?_⟩
  · obtain ⟨w, hw, h⟩ := TransitionSystem.exists_reachable_of_run rfl hheld
    exact ⟨w, hw, of_decide_eq_true h⟩
  · obtain ⟨w, hw, h⟩ := TransitionSystem.exists_reachable_of_run rfl hdone
    exact ⟨w, hw, of_decide_eq_true h⟩
  · obtain ⟨w, hw, h⟩ := TransitionSystem.exists_reachable_of_run rfl hpruned
    exact ⟨w, hw, of_decide_eq_true h⟩

theorem attempts_bounded_sample : ∃ w row,
    (system sampleEncoding).ReachableWhere (fun w l => w.reportsLastAttempts l = true) w ∧
      w.rows.get sendJobId = some row ∧ JobEvent.leases (w.events sendJobId) = 2 ∧
      row.attempts = JobEvent.leases (w.events sendJobId) ∧
      JobEvent.leases (w.events sendJobId) ≤ row.maxAttempts := by
  have hrun : ((system sampleEncoding).runWhere reportsLastAttempts {}
      (leaseOnce 2 ++ [.lease "worker" 60 1 62000 []])).any (fun w => decide
        ((w.rows.get sendJobId).isSome = true ∧ JobEvent.leases (w.events sendJobId) = 2)) = true := by
    decide +kernel
  obtain ⟨w, hw, h⟩ := TransitionSystem.exists_reachableWhere_of_run rfl hrun
  obtain ⟨hsome, hleases⟩ := of_decide_eq_true h
  obtain ⟨row, hrow⟩ := Option.isSome_iff_exists.mp hsome
  exact ⟨w, row, hw, hrow, hleases, attempts_bounded hw hrow⟩

/-- One attempt is allowed, and the worker of the first crashes: the job is leased again. -/
theorem attempts_exceeded : ∃ w, (system sampleEncoding).Reachable w ∧
    (w.rows.get sendJobId).any (fun row => decide
      (row.maxAttempts < JobEvent.leases (w.events sendJobId))) = true := by
  have hrun : ((system sampleEncoding).run {} (leaseOnce 1 ++
      [.lease "worker" 60 1 62000 []])).any (fun w => (w.rows.get sendJobId).any (fun row => decide
        (row.maxAttempts < JobEvent.leases (w.events sendJobId)))) = true := by
    decide +kernel
  exact TransitionSystem.exists_reachable_of_run rfl hrun

end HayaSend
