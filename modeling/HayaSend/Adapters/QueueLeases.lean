import HayaSend.Adapters.PostgresJobQueue

/-!
# The leases of the job queue

The `jobs` table with the columns it has: the owner and the expiry of a lease, and the times of
completion and failure, each a column of its own. The statements of `PostgresJobQueue` in these
columns, and the counts of `getQueueDiagnostics`, on a table whose statements read a clock that does
not go back. Beside the table stand the leases that the workers have been told of.

* `StoredQueue.refines`: every state of the stored table holds the rows of a state of `QueueWorld`,
  in which a lease has both parts and a row one outcome;
* `queue_leases`: leases are exclusive along the runs in which no pruning deletes a row under a lease
  that has not expired, a finished row is not leased again unless it is recovered, and the counts
  partition the unfinished rows;
* `leased_job_handed_over`: a pruning deletes the row of a job that was recovered and leased while it
  ran, and the job is handed to a second worker.
-/

namespace HayaSend

/-! ## Columns -/

inductive JobType
  | sendEmail
  | reconcileOutbox
  | publishReceivedEmail
  | deliverWebhook
  deriving DecidableEq, Repr

/-- `job.type` -/
def QueueJob.type : QueueJob → JobType
  | .delivery (.sendEmail _ _) => .sendEmail
  | .delivery (.reconcileOutbox _) => .reconcileOutbox
  | .publishReceivedEmail _ => .publishReceivedEmail
  | .deliverWebhook _ _ _ => .deliverWebhook

/-- A row of the `jobs` table, column by column. -/
structure JobColumns where
  jobType : JobType
  envelope : JobEnvelope
  availableAt : ℕ
  leaseOwner : Option String
  leaseExpiresAt : Option ℕ
  attempts : ℕ
  maxAttempts : ℕ
  completedAt : Option ℕ
  failedAt : Option ℕ
  lastDiagnosticCategory : Option DiagnosticCategory
  createdAt : ℕ
  updatedAt : ℕ
  deriving DecidableEq, Repr

abbrev JobColumnTable := OrderedMap String JobColumns

namespace JobColumns

/-! The conditions of the statements. A comparison with a null does not hold. -/

/-- `completed_at IS NULL AND failed_at IS NULL` -/
def isOpen (row : JobColumns) : Bool := row.completedAt.isNone && row.failedAt.isNone

/-- `lease_owner = owner`, on a row that is open. -/
def isHeldBy (owner : String) (row : JobColumns) : Bool :=
  row.isOpen && row.leaseOwner == some owner

/-- `lease_owner IS NULL OR lease_expires_at <= now` -/
def isFree (now : ℕ) (row : JobColumns) : Bool :=
  row.leaseOwner.isNone || row.leaseExpiresAt.any (decide <| · ≤ now)

def isDue (now : ℕ) (row : JobColumns) : Bool :=
  row.isOpen && decide (row.availableAt ≤ now) && row.isFree now

/-- `completed_at IS NULL AND failed_at IS NOT NULL` -/
def isRecoverable (row : JobColumns) : Bool := row.completedAt.isNone && row.failedAt.isSome

/-- `COALESCE(completed_at, failed_at)` -/
def finishedAt (row : JobColumns) : Option ℕ := row.completedAt <|> row.failedAt

/-! What the statements set. -/

def leased (owner : String) (leaseSeconds now : ℕ) (row : JobColumns) : JobColumns :=
  { row with
    leaseOwner := some owner
    leaseExpiresAt := some (now + 1000 * leaseSeconds)
    attempts := row.attempts + 1
    updatedAt := now }

def acknowledged (now : ℕ) (row : JobColumns) : JobColumns :=
  { row with
    completedAt := some now
    leaseOwner := none
    leaseExpiresAt := none
    updatedAt := now }

def extended (leaseSeconds now : ℕ) (row : JobColumns) : JobColumns :=
  { row with
    leaseExpiresAt := some (now + 1000 * leaseSeconds)
    updatedAt := now }

def failed (category : DiagnosticCategory) (retryDelaySeconds : ℕ) (terminal : Bool) (now : ℕ)
    (row : JobColumns) : JobColumns :=
  { row with
    failedAt := if terminal || decide (row.maxAttempts ≤ row.attempts) then some now else none
    availableAt :=
      if terminal || decide (row.maxAttempts ≤ row.attempts) then row.availableAt
      else now + 1000 * retryDelaySeconds
    leaseOwner := none
    leaseExpiresAt := none
    lastDiagnosticCategory := some category
    updatedAt := now }

def released (now : ℕ) (row : JobColumns) : JobColumns :=
  { row with
    leaseOwner := none
    leaseExpiresAt := none
    availableAt := min row.availableAt now
    updatedAt := now }

def recovered (now : ℕ) (row : JobColumns) : JobColumns :=
  { row with
    availableAt := now
    leaseOwner := none
    leaseExpiresAt := none
    attempts := 0
    failedAt := none
    lastDiagnosticCategory := none
    updatedAt := now }

end JobColumns

/-- `ORDER BY time, id` -/
def columnOrder (time : JobColumns → ℕ) (left right : String × JobColumns) : Prop :=
  time left.2 < time right.2 ∨ time left.2 = time right.2 ∧ left.1 ≤ right.1

instance (time : JobColumns → ℕ) : DecidableRel (columnOrder time) := fun _ _ =>
  inferInstanceAs (Decidable (_ ∨ _ ∧ _))

/-- The counts of one queue. -/
structure QueueDepth where
  visible : ℕ
  inFlight : ℕ
  delayed : ℕ
  total : ℕ
  deriving DecidableEq, Repr

inductive QueueProvider
  | memory
  | awsSqs
  | postgresql
  deriving DecidableEq, Repr

structure DeadLetters where
  delivery : Option QueueDepth
  scheduler : Option QueueDepth
  inbound : Option QueueDepth
  deriving DecidableEq, Repr

structure QueueDiagnosticsSnapshot where
  provider : QueueProvider
  primary : QueueDepth
  deadLetters : DeadLetters
  deriving DecidableEq, Repr

/-! ## The statements -/

namespace StoredQueue

open PostgresJobQueue (validateOwner validateInteger maxDelaySeconds maxBatchSize
  FailureDisposition)

/-- `INSERT … ON CONFLICT (id) DO UPDATE`, none where it matches no row. -/
def upsert (rows : JobColumnTable) (row : JobColumns) : Option JobColumnTable :=
  match rows.get row.envelope.id with
  | none => some (rows.set row.envelope.id row)
  | some current =>
    if current.isOpen && current.envelope.job == row.envelope.job then
      some (rows.set row.envelope.id { current with
        availableAt := min current.availableAt row.availableAt
        updatedAt := row.updatedAt })
    else none

/-- The first statement of `enqueue`. -/
def enqueue (e : JobEncoding) (maxAttempts : ℕ) (rows : JobColumnTable) (job : QueueJob)
    (delaySeconds now : ℕ) : Except Failure (Option JobColumnTable) := do
  validateInteger delaySeconds "PostgreSQL queue delay" 0 maxDelaySeconds
  let envelope ← createJobEnvelope e job now
  return upsert rows {
    jobType := job.type
    envelope := envelope
    availableAt := now + 1000 * delaySeconds
    leaseOwner := none
    leaseExpiresAt := none
    attempts := 0
    maxAttempts := maxAttempts
    completedAt := none
    failedAt := none
    lastDiagnosticCategory := none
    createdAt := now
    updatedAt := now }

/-- The second statement of `enqueue`, where the first matched no row. -/
def readStored (e : JobEncoding) (rows : JobColumnTable) (job : QueueJob) : Except Failure Unit :=
  throwIf ((rows.get (jobIdentity e job)).any fun row =>
      e.requestHash row.envelope.job != e.requestHash job)
    (.error "Deterministic job identity is already used by a different job.")

/-- The rows that a lease takes, less those that other statements have locked. -/
def candidates (rows : JobColumnTable) (now limit : ℕ) (locked : List String) :
    List (String × JobColumns) :=
  ((rows.entries.filter fun (id, row) => row.isDue now && !locked.contains id).insertionSort
    (columnOrder (·.availableAt))).take limit

/-- `lease` -/
def lease (rows : JobColumnTable) (owner : String) (leaseSeconds limit now : ℕ)
    (locked : List String) : Except Failure (JobColumnTable × List PostgresLeasedJob) := do
  validateOwner owner
  validateInteger leaseSeconds "Job lease duration" 1 86400
  validateInteger limit "Job lease limit" 1 maxBatchSize
  let taken := candidates rows now limit locked
  return (
    rows.updateWhere (fun id _ => (taken.map Prod.fst).contains id)
      (JobColumns.leased owner leaseSeconds now),
    taken.map fun (id, row) => ⟨id, row.envelope.job, row.attempts + 1,
      now + 1000 * leaseSeconds⟩)

/-- `acknowledge` -/
def acknowledge (rows : JobColumnTable) (id owner : String) (now : ℕ) :
    Except Failure (JobColumnTable × Bool) := do
  validateOwner owner
  return (rows.updateWhere (fun key row => key == id && row.isHeldBy owner)
      (JobColumns.acknowledged now),
    (rows.get id).any (·.isHeldBy owner))

/-- `extendLease` -/
def extendLease (rows : JobColumnTable) (id owner : String) (leaseSeconds now : ℕ) :
    Except Failure (JobColumnTable × Bool) := do
  validateOwner owner
  validateInteger leaseSeconds "Job lease duration" 1 86400
  return (rows.updateWhere (fun key row => key == id && row.isHeldBy owner)
      (JobColumns.extended leaseSeconds now),
    (rows.get id).any (·.isHeldBy owner))

/-- `recordFailure`: the answer is read off the `failed_at` of the row that the statement returns. -/
def recordFailure (rows : JobColumnTable) (id owner : String) (category : DiagnosticCategory)
    (retryDelaySeconds : ℕ) (terminal : Bool) (now : ℕ) :
    Except Failure (JobColumnTable × FailureDisposition) := do
  validateOwner owner
  validateInteger retryDelaySeconds "Job retry delay" 0 maxDelaySeconds
  let failed := JobColumns.failed category retryDelaySeconds terminal now
  return (rows.updateWhere (fun key row => key == id && row.isHeldBy owner) failed,
    match (rows.get id).filter (·.isHeldBy owner) with
    | none => .notOwned
    | some row => if (failed row).failedAt.isSome then .terminalFailure else .retryScheduled)

/-- `releaseOwnedLeases` -/
def releaseOwnedLeases (rows : JobColumnTable) (owner : String) (now : ℕ) :
    Except Failure JobColumnTable := do
  validateOwner owner
  return rows.updateWhere (fun _ row => row.isHeldBy owner) (JobColumns.released now)

/-- `recoverFailed` -/
def recoverFailed (rows : JobColumnTable) (id : String) (now : ℕ) : JobColumnTable × Bool :=
  (rows.updateWhere (fun key row => key == id && row.isRecoverable) (JobColumns.recovered now),
    (rows.get id).any (·.isRecoverable))

/-- The rows that a pruning picks. -/
def finished (rows : JobColumnTable) (before limit : ℕ) : List (String × JobColumns) :=
  ((rows.entries.filter fun (_, row) => row.finishedAt.any (decide <| · < before)).insertionSort
    (columnOrder fun row => row.finishedAt.getD 0)).take limit

/-- `pruneFinished`: the ids of the rows picked in the snapshot of the statement. -/
def pruneFinished (rows : JobColumnTable) (before limit : ℕ) : Except Failure (List String) := do
  validateInteger limit "Job prune limit" 1 maxBatchSize
  return (finished rows before limit).map Prod.fst

/-- `DELETE … WHERE jobs.id = candidates.id` -/
def deleteCandidates (rows : JobColumnTable) (ids : List String) : JobColumnTable :=
  rows.eraseWhere fun id _ => ids.contains id

end StoredQueue

/-! ## The counts -/

namespace JobColumns

/-- `available_at <= now AND (lease_owner IS NULL OR lease_expires_at <= now)` -/
def isVisible (now : ℕ) (row : JobColumns) : Bool :=
  decide (row.availableAt ≤ now) && row.isFree now

/-- `lease_owner IS NOT NULL AND lease_expires_at > now` -/
def isInFlight (now : ℕ) (row : JobColumns) : Bool :=
  row.leaseOwner.isSome && row.leaseExpiresAt.any (decide <| now < ·)

/-- `available_at > now` -/
def isDelayed (now : ℕ) (row : JobColumns) : Bool := decide (now < row.availableAt)

end JobColumns

namespace StoredQueue

/-- `depth` -/
def depth (visible inFlight delayed : ℕ) : QueueDepth :=
  ⟨visible, inFlight, delayed, visible + inFlight + delayed⟩

/-- `integerCount`, of the text of a count: a number that JavaScript does not hold exactly counts
as 0. -/
def integerCount (value : Option ℕ) : ℕ :=
  let parsed := value.getD 0
  if parsed ≤ 2 ^ 53 - 1 then parsed else 0

/-- The unfinished rows. -/
def unfinished (rows : JobColumnTable) : List JobColumns := rows.values.filter (·.isOpen)

/-- The failed rows of a type, which the second query counts where there are any. -/
def failedByType (rows : JobColumnTable) (type : JobType) : Option ℕ :=
  match rows.values.countP fun row => row.failedAt.isSome && row.jobType == type with
  | 0 => none
  | count => some (integerCount (some count))

/-- `getQueueDiagnostics`. The two queries need not see the same table. -/
def getQueueDiagnostics (rows failedRows : JobColumnTable) (now : ℕ) : QueueDiagnosticsSnapshot :=
  let primary := unfinished rows
  let failed (type : JobType) := (failedByType failedRows type).getD 0
  { provider := .postgresql
    primary := {
      visible := integerCount (some (primary.countP (·.isVisible now)))
      inFlight := integerCount (some (primary.countP (·.isInFlight now)))
      delayed := integerCount (some (primary.countP (·.isDelayed now)))
      total := integerCount (some primary.length) }
    deadLetters := {
      delivery := some (depth (failed .sendEmail + failed .deliverWebhook) 0 0)
      scheduler := some (depth (failed .reconcileOutbox) 0 0)
      inbound := some (depth (failed .publishReceivedEmail) 0 0) } }

end StoredQueue

/-! ## Runs -/

/-- What the queue takes from the platform and the database: a table holds so many rows at most. In
PostgreSQL these are the rows that fit on its pages, far fewer than JavaScript counts exactly. -/
structure QueueDatabase extends JobEncoding where
  capacity : ℕ
  capacity_safe : capacity ≤ 2 ^ 53 - 1

/-- The time that a call reads for its statement. -/
def QueueLabel.now : QueueLabel → Option ℕ
  | .enqueue _ _ now _ | .lease _ _ _ now _ | .acknowledge _ _ now | .extendLease _ _ _ now
  | .recordFailure _ _ _ _ _ now | .releaseOwnedLeases _ now | .recoverFailed _ now => some now
  | .readStored _ | .pruneFinished _ _ | .deleteCandidates _ => none

/-- The table, the `enqueue` calls between their two statements, the ids that each running pruning
has picked, the lease of each job that a worker was told of and has not been told is over, and the
last time that was read. -/
structure StoredQueue where
  rows : JobColumnTable := ∅
  waiting : List QueueJob := []
  pruning : List (List String) := []
  granted : String → Option JobLease := fun _ => none
  clock : ℕ := 0

namespace StoredQueue

/-- One statement. A call that throws changes nothing. -/
def statement (db : QueueDatabase) (q : StoredQueue) : QueueLabel → Option StoredQueue
  | .enqueue job delaySeconds now maxAttempts =>
    if 1 ≤ maxAttempts ∧ maxAttempts ≤ 100 then
      (enqueue db.toJobEncoding maxAttempts q.rows job delaySeconds now).toOption.bind fun
        | some rows =>
          -- a full table refuses the insert
          if rows.entries.length ≤ db.capacity then some { q with rows := rows } else none
        | none => some { q with waiting := q.waiting ++ [job] }
    else none
  | .readStored index => (q.waiting[index]?).bind fun job =>
    (readStored db.toJobEncoding q.rows job).toOption.map fun _ =>
      { q with waiting := q.waiting.eraseIdx index }
  | .lease owner leaseSeconds limit now locked =>
    (lease q.rows owner leaseSeconds limit now locked).toOption.map fun (rows, jobs) => { q with
      rows := rows
      granted := fun id => if (jobs.map (·.id)).contains id then
        some ⟨owner, now + 1000 * leaseSeconds⟩ else q.granted id }
  | .acknowledge id owner now =>
    (acknowledge q.rows id owner now).toOption.map fun (rows, acknowledged) => { q with
      rows := rows
      granted := if acknowledged then Function.update q.granted id none else q.granted }
  | .extendLease id owner leaseSeconds now =>
    (extendLease q.rows id owner leaseSeconds now).toOption.map fun (rows, extended) => { q with
      rows := rows
      granted := if extended then
        Function.update q.granted id (some ⟨owner, now + 1000 * leaseSeconds⟩) else q.granted }
  | .recordFailure id owner category retryDelaySeconds terminal now =>
    (recordFailure q.rows id owner category retryDelaySeconds terminal now).toOption.map
      fun (rows, disposition) => { q with
        rows := rows
        granted := if disposition == .notOwned then q.granted
          else Function.update q.granted id none }
  | .releaseOwnedLeases owner now =>
    (releaseOwnedLeases q.rows owner now).toOption.map fun rows => { q with
      rows := rows
      granted := fun id => (q.granted id).filter (·.owner != owner) }
  | .recoverFailed id now => some { q with rows := (recoverFailed q.rows id now).1 }
  | .pruneFinished before limit =>
    (pruneFinished q.rows before limit).toOption.map fun ids =>
      { q with pruning := q.pruning ++ [ids] }
  | .deleteCandidates index => (q.pruning[index]?).map fun ids => { q with
      rows := deleteCandidates q.rows ids
      pruning := QueueWorld.pruningAfter q.pruning index ids }

/-- One statement, at a time that is not before the last. -/
def step (db : QueueDatabase) (q : StoredQueue) (l : QueueLabel) : Option StoredQueue :=
  if l.now.all (decide <| q.clock ≤ ·) then
    (q.statement db l).map fun q' => { q' with clock := l.now.getD q.clock }
  else none

/-- An empty table. -/
def system (db : QueueDatabase) : TransitionSystem StoredQueue QueueLabel where
  init q := q = {}
  step := step db

end StoredQueue

/-! ## The columns of a row -/

def JobOutcome.completedAt : JobOutcome → Option ℕ
  | .completed t => some t
  | .failed _ => none

def JobOutcome.failedAt : JobOutcome → Option ℕ
  | .completed _ => none
  | .failed t => some t

namespace JobRow

/-- The columns that hold a row. -/
def columns (row : JobRow) : JobColumns where
  jobType := row.envelope.job.type
  envelope := row.envelope
  availableAt := row.availableAt
  leaseOwner := row.lease.map (·.owner)
  leaseExpiresAt := row.lease.map (·.expiresAt)
  attempts := row.attempts
  maxAttempts := row.maxAttempts
  completedAt := row.outcome.bind (·.completedAt)
  failedAt := row.outcome.bind (·.failedAt)
  lastDiagnosticCategory := row.lastDiagnosticCategory
  createdAt := row.createdAt
  updatedAt := row.updatedAt

@[simp] theorem isOpen_columns (row : JobRow) : row.columns.isOpen = row.isOpen := by
  rcases hout : row.outcome with _ | ⟨t | t⟩ <;>
    simp [JobColumns.isOpen, isOpen, columns, hout, JobOutcome.completedAt, JobOutcome.failedAt]

@[simp] theorem isHeldBy_columns (owner : String) (row : JobRow) :
    row.columns.isHeldBy owner = row.isHeldBy owner := by
  rw [JobColumns.isHeldBy, isHeldBy, isOpen_columns]
  cases hlease : row.lease <;> simp [columns, hlease]

@[simp] theorem isFree_columns (now : ℕ) (row : JobRow) :
    row.columns.isFree now = row.lease.all (decide <| ·.expiresAt ≤ now) := by
  cases hlease : row.lease <;> simp [JobColumns.isFree, columns, hlease]

@[simp] theorem isDue_columns (now : ℕ) (row : JobRow) :
    row.columns.isDue now = row.isDue now := by
  rw [JobColumns.isDue, isDue, isOpen_columns, isFree_columns]
  rfl

@[simp] theorem isRecoverable_columns (row : JobRow) :
    row.columns.isRecoverable = row.outcome.any (·.isFailed) := by
  rcases hout : row.outcome with _ | ⟨t | t⟩ <;>
    simp [JobColumns.isRecoverable, columns, hout, JobOutcome.completedAt, JobOutcome.failedAt,
      JobOutcome.isFailed]

@[simp] theorem finishedAt_columns (row : JobRow) :
    row.columns.finishedAt = row.outcome.map (·.finishedAt) := by
  rcases hout : row.outcome with _ | ⟨t | t⟩ <;>
    simp [JobColumns.finishedAt, columns, hout, JobOutcome.completedAt, JobOutcome.failedAt,
      JobOutcome.finishedAt]

theorem outcome_of_isOpen {row : JobRow} (h : row.isOpen = true) : row.outcome = none :=
  Option.isNone_iff_eq_none.mp h

theorem isHeldBy_iff {owner : String} {row : JobRow} : row.isHeldBy owner = true ↔
    row.outcome = none ∧ ∃ t, row.lease = some ⟨owner, t⟩ := by
  rw [isHeldBy, isOpen, Bool.and_eq_true, Option.isNone_iff_eq_none]
  refine and_congr_right fun _ => ?_
  cases row.lease with
  | none => simp
  | some lease =>
    cases lease
    simp

open PostgresJobQueue

variable {row : JobRow}

theorem columns_leasedRow (owner : String) (leaseSeconds now : ℕ) (row : JobRow) :
    row.columns.leased owner leaseSeconds now = (leasedRow owner leaseSeconds now row).columns :=
  rfl

theorem columns_acknowledgedRow (now : ℕ) (h : row.isOpen = true) :
    row.columns.acknowledged now = (acknowledgedRow now row).columns := by
  simp [JobColumns.acknowledged, acknowledgedRow, columns, outcome_of_isOpen h,
    JobOutcome.completedAt, JobOutcome.failedAt]

theorem columns_extendedRow {owner : String} (leaseSeconds now : ℕ)
    (h : row.isHeldBy owner = true) :
    row.columns.extended leaseSeconds now = (extendedRow owner leaseSeconds now row).columns := by
  obtain ⟨-, t, hlease⟩ := isHeldBy_iff.mp h
  simp [JobColumns.extended, extendedRow, columns, hlease]

theorem columns_failedRow (category : DiagnosticCategory) (retryDelaySeconds : ℕ) (terminal : Bool)
    (now : ℕ) (h : row.isOpen = true) :
    row.columns.failed category retryDelaySeconds terminal now =
      (failedRow category retryDelaySeconds terminal now row).columns := by
  by_cases hend : (terminal || row.isUsedUp) = true
  · have hend' := hend
    rw [isUsedUp] at hend'
    simp only [JobColumns.failed, failedRow, columns, outcome_of_isOpen h, hend, hend']
    rfl
  · have hend' := hend
    rw [isUsedUp] at hend'
    simp only [JobColumns.failed, failedRow, columns, outcome_of_isOpen h, hend, hend']
    rfl

/-- The failure is the row's last. -/
theorem failedAt_failed (category : DiagnosticCategory) (retryDelaySeconds : ℕ) (terminal : Bool)
    (now : ℕ) (row : JobRow) :
    (row.columns.failed category retryDelaySeconds terminal now).failedAt =
      if terminal || row.isUsedUp then some now else none :=
  rfl

theorem columns_releasedRow (now : ℕ) (row : JobRow) :
    row.columns.released now = (releasedRow now row).columns :=
  rfl

theorem columns_recoveredRow (now : ℕ) (h : row.outcome.any (·.isFailed) = true) :
    row.columns.recovered now = (recoveredRow now row).columns := by
  obtain ⟨outcome, hout, hfailed⟩ := (Option.any_eq_true _ _).mp h
  cases outcome with
  | completed t => cases hfailed
  | failed t => simp [JobColumns.recovered, recoveredRow, columns, hout, JobOutcome.completedAt]

end JobRow

/-! ## The stored table refines the rows -/

/-- The stored table of the rows. -/
def columnTable (rows : JobTable) : JobColumnTable := rows.mapValues JobRow.columns

namespace StoredQueue

theorem columnTable_updateWhere {rows : JobTable} {p : String → JobRow → Bool}
    {f : JobRow → JobRow} {p' : String → JobColumns → Bool} {f' : JobColumns → JobColumns}
    (hp : ∀ id row, p' id row.columns = p id row)
    (hf : ∀ id row, p id row = true → f' row.columns = (f row).columns) :
    (columnTable rows).updateWhere p' f' = columnTable (rows.updateWhere p f) :=
  OrderedMap.mapValues_updateWhere _ _ hp hf

/-- An update of the row of `id`, where it is held by `owner`. -/
theorem columnTable_updateHeld {rows : JobTable} {id owner : String} {f : JobRow → JobRow}
    {f' : JobColumns → JobColumns}
    (hf : ∀ row, row.isHeldBy owner = true → f' row.columns = (f row).columns) :
    (columnTable rows).updateWhere (fun key row => key == id && row.isHeldBy owner) f' =
      columnTable (rows.updateWhere (fun key row => key == id && row.isHeldBy owner) f) := by
  refine columnTable_updateWhere (fun _ row => by rw [JobRow.isHeldBy_columns]) fun _ row h => ?_
  exact hf row (Bool.and_eq_true_iff.mp h).2

theorem any_isHeldBy_columnTable (rows : JobTable) (id owner : String) :
    ((columnTable rows).get id).any (·.isHeldBy owner) = (rows.get id).any (·.isHeldBy owner) := by
  rw [columnTable, OrderedMap.get_mapValues]
  cases rows.get id <;> simp

/-- The rows that a statement picks, in the columns. -/
theorem columnTable_take {rows : JobTable} {p : String × JobRow → Bool}
    {p' : String × JobColumns → Bool} {time : JobRow → ℕ} {time' : JobColumns → ℕ} (limit : ℕ)
    (hp : ∀ id row, p' (id, row.columns) = p (id, row))
    (htime : ∀ row, time' row.columns = time row) :
    (((columnTable rows).entries.filter p').insertionSort (columnOrder time')).take limit =
      (((rows.entries.filter p).insertionSort (jobOrder time)).take limit).map
        fun e => (e.1, e.2.columns) := by
  have hfilter : (columnTable rows).entries.filter p' =
      (rows.entries.filter p).map fun e => (e.1, e.2.columns) := by
    rw [columnTable, OrderedMap.mapValues, List.filter_map]
    exact congrArg _ (List.filter_congr fun e _ => hp e.1 e.2)
  rw [hfilter, List.map_take, List.map_insertionSort (r := jobOrder time) (s := columnOrder time')]
  rintro left - right -
  simp only [columnOrder, jobOrder, htime]

theorem candidates_columnTable (rows : JobTable) (now limit : ℕ) (locked : List String) :
    candidates (columnTable rows) now limit locked =
      (PostgresJobQueue.candidates rows now limit locked).map fun e => (e.1, e.2.columns) :=
  columnTable_take limit (fun id row => congrArg (· && !locked.contains id)
    (JobRow.isDue_columns now row)) fun _ => rfl

theorem finished_columnTable (rows : JobTable) (before limit : ℕ) :
    finished (columnTable rows) before limit =
      (PostgresJobQueue.finished rows before limit).map fun e => (e.1, e.2.columns) := by
  refine columnTable_take limit (fun _ row => ?_) fun row => ?_
  · change row.columns.finishedAt.any _ = _
    rw [JobRow.finishedAt_columns, Option.any_map]
  · rw [JobRow.finishedAt_columns]

theorem upsert_columnTable (rows : JobTable) (row : JobRow) :
    upsert (columnTable rows) row.columns =
      (PostgresJobQueue.upsert rows row).map columnTable := by
  rw [upsert, PostgresJobQueue.upsert, columnTable, OrderedMap.get_mapValues]
  change (match Option.map JobRow.columns (rows.get row.envelope.id) with
    | none => _ | some current => _) = _
  cases rows.get row.envelope.id with
  | none => exact congrArg some (OrderedMap.mapValues_set _ _ _ _).symm
  | some current =>
    simp only [Option.map_some, JobRow.isOpen_columns]
    change (if (current.isOpen && current.envelope.job == row.envelope.job) = true then _ else _) = _
    split_ifs with hmatch
    · exact congrArg some (OrderedMap.mapValues_set JobRow.columns rows row.envelope.id
        { current with
          availableAt := min current.availableAt row.availableAt
          updatedAt := row.updatedAt }).symm
    · rfl

theorem enqueue_columnTable (e : JobEncoding) (maxAttempts : ℕ) (rows : JobTable) (job : QueueJob)
    (delaySeconds now : ℕ) : enqueue e maxAttempts (columnTable rows) job delaySeconds now =
      Option.map columnTable <$>
        PostgresJobQueue.enqueue e maxAttempts rows job delaySeconds now := by
  rw [enqueue, PostgresJobQueue.enqueue]
  simp only [map_bind, map_pure]
  refine bind_congr fun _ => ?_
  cases henvelope : createJobEnvelope e job now with
  | error failure => rfl
  | ok envelope =>
    obtain rfl := createJobEnvelope_eq_ok henvelope
    exact congrArg Except.ok (upsert_columnTable rows {
      envelope := ⟨jobIdentity e job, now, job⟩
      availableAt := now + 1000 * delaySeconds
      maxAttempts := maxAttempts
      createdAt := now
      updatedAt := now })

theorem readStored_columnTable (e : JobEncoding) (rows : JobTable) (job : QueueJob) :
    readStored e (columnTable rows) job = PostgresJobQueue.readStored e rows job := by
  rw [readStored, PostgresJobQueue.readStored, columnTable, OrderedMap.get_mapValues,
    Option.any_map]
  rfl

theorem lease_columnTable (rows : JobTable) (owner : String) (leaseSeconds limit now : ℕ)
    (locked : List String) : lease (columnTable rows) owner leaseSeconds limit now locked =
      Prod.map columnTable id <$>
        PostgresJobQueue.lease rows owner leaseSeconds limit now locked := by
  rw [lease, PostgresJobQueue.lease]
  simp only [map_bind, map_pure]
  refine bind_congr fun _ => bind_congr fun _ => bind_congr fun _ => congrArg pure ?_
  have hkeys : (candidates (columnTable rows) now limit locked).map Prod.fst =
      (PostgresJobQueue.candidates rows now limit locked).map Prod.fst := by
    rw [candidates_columnTable, List.map_map]
    rfl
  refine Prod.ext ?_ ?_
  · simp only [Prod.map_fst, hkeys]
    exact columnTable_updateWhere (fun _ _ => rfl) fun _ row _ =>
      JobRow.columns_leasedRow owner leaseSeconds now row
  · simp only [Prod.map_snd, candidates_columnTable, List.map_map]
    rfl

theorem acknowledge_columnTable (rows : JobTable) (k owner : String) (now : ℕ) :
    acknowledge (columnTable rows) k owner now =
      Prod.map columnTable id <$> PostgresJobQueue.acknowledge rows k owner now := by
  rw [acknowledge, PostgresJobQueue.acknowledge]
  simp only [map_bind, map_pure]
  refine bind_congr fun _ => congrArg pure (Prod.ext ?_ ?_)
  · exact columnTable_updateHeld fun row h =>
      JobRow.columns_acknowledgedRow now (Bool.and_eq_true_iff.mp h).1
  · exact any_isHeldBy_columnTable rows k owner

theorem extendLease_columnTable (rows : JobTable) (k owner : String) (leaseSeconds now : ℕ) :
    extendLease (columnTable rows) k owner leaseSeconds now =
      Prod.map columnTable id <$>
        PostgresJobQueue.extendLease rows k owner leaseSeconds now := by
  rw [extendLease, PostgresJobQueue.extendLease]
  simp only [map_bind, map_pure]
  refine bind_congr fun _ => bind_congr fun _ => congrArg pure (Prod.ext ?_ ?_)
  · exact columnTable_updateHeld fun row h => JobRow.columns_extendedRow leaseSeconds now h
  · exact any_isHeldBy_columnTable rows k owner

theorem recordFailure_columnTable (rows : JobTable) (k owner : String)
    (category : DiagnosticCategory) (retryDelaySeconds : ℕ) (terminal : Bool) (now : ℕ) :
    recordFailure (columnTable rows) k owner category retryDelaySeconds terminal now =
      Prod.map columnTable id <$> PostgresJobQueue.recordFailure rows k owner category
        retryDelaySeconds terminal now := by
  rw [recordFailure, PostgresJobQueue.recordFailure]
  simp only [map_bind, map_pure]
  refine bind_congr fun _ => bind_congr fun _ => congrArg pure (Prod.ext ?_ ?_)
  · exact columnTable_updateHeld fun row h =>
      JobRow.columns_failedRow category retryDelaySeconds terminal now (Bool.and_eq_true_iff.mp h).1
  · simp only [Prod.map_snd, columnTable, OrderedMap.get_mapValues]
    cases hrow : rows.get k with
    | none => rfl
    | some row =>
      simp only [Option.map_some, Option.filter_some, JobRow.isHeldBy_columns]
      by_cases hheld : row.isHeldBy owner = true
      · simp only [hheld, if_true, JobRow.failedAt_failed]
        by_cases hend : (terminal || row.isUsedUp) = true <;> simp [hend]
      · simp [hheld]

theorem releaseOwnedLeases_columnTable (rows : JobTable) (owner : String) (now : ℕ) :
    releaseOwnedLeases (columnTable rows) owner now =
      columnTable <$> PostgresJobQueue.releaseOwnedLeases rows owner now := by
  rw [releaseOwnedLeases, PostgresJobQueue.releaseOwnedLeases]
  simp only [map_bind, map_pure]
  exact bind_congr fun _ => congrArg pure (columnTable_updateWhere
    (fun _ row => JobRow.isHeldBy_columns owner row) fun _ row _ =>
      JobRow.columns_releasedRow now row)

theorem recoverFailed_columnTable (rows : JobTable) (k : String) (now : ℕ) :
    recoverFailed (columnTable rows) k now =
      Prod.map columnTable id (PostgresJobQueue.recoverFailed rows k now) := by
  rw [recoverFailed, PostgresJobQueue.recoverFailed]
  refine congrArg₂ Prod.mk ?_ ?_
  · refine columnTable_updateWhere (fun key row => ?_) fun _ row h => ?_
    · rw [JobRow.isRecoverable_columns]
    · exact JobRow.columns_recoveredRow now (Bool.and_eq_true_iff.mp h).2
  · rw [columnTable, OrderedMap.get_mapValues, Option.any_map]
    exact congrArg (fun p => (rows.get k).any p) (funext JobRow.isRecoverable_columns)

theorem pruneFinished_columnTable (rows : JobTable) (before limit : ℕ) :
    pruneFinished (columnTable rows) before limit =
      PostgresJobQueue.pruneFinished rows before limit := by
  rw [pruneFinished, PostgresJobQueue.pruneFinished, finished_columnTable, List.map_map]
  rfl

theorem deleteCandidates_columnTable (rows : JobTable) (ids : List String) :
    deleteCandidates (columnTable rows) ids =
      columnTable (PostgresJobQueue.deleteCandidates rows ids) :=
  OrderedMap.mapValues_eraseWhere _ _ fun _ _ => rfl

theorem toOption_map {α β : Type} (f : α → β) (x : Except Failure α) :
    (f <$> x).toOption = x.toOption.map f := by
  cases x <;> rfl

/-- The stored table holds the rows of `w`. -/
structure Stores (q : StoredQueue) (w : QueueWorld) : Prop where
  rows : q.rows = columnTable w.rows
  waiting : q.waiting = w.waiting
  pruning : q.pruning = w.pruning

variable {db : QueueDatabase} {q q' : StoredQueue} {w : QueueWorld} {l : QueueLabel}

/-- What a statement leaves, and what the same statement leaves of the rows. -/
theorem refines_of_map {α : Type} {x : Option α} {f : α → StoredQueue}
    (h : x.map f = some q') (g : α → QueueWorld) (hfg : ∀ a, Stores (f a) (g a)) :
    ∃ w', x.map g = some w' ∧ Stores q' w' := by
  obtain ⟨a, ha, rfl⟩ := Option.map_eq_some_iff.mp h
  exact ⟨g a, by rw [ha, Option.map_some], hfg a⟩

/-- **A statement on the columns** is the statement on the rows. -/
theorem statement_refines (h : Stores q w) (hs : q.statement db l = some q') :
    ∃ w', w.step db.toJobEncoding l = some w' ∧ Stores q' w' := by
  obtain ⟨hrows, hwaiting, hpruning⟩ := h
  cases l with
  | enqueue job delaySeconds now maxAttempts =>
    simp only [statement] at hs
    split_ifs at hs with hmax
    rw [hrows, enqueue_columnTable, toOption_map] at hs
    simp only [QueueWorld.step, if_pos hmax]
    obtain ⟨stored, hstored, hs⟩ := Option.bind_eq_some_iff.mp hs
    obtain ⟨upserted, hok, rfl⟩ := Option.map_eq_some_iff.mp hstored
    rw [hok]
    refine ⟨_, rfl, ?_⟩
    cases upserted with
    | none =>
      obtain rfl := Option.some.inj hs
      exact ⟨rfl, congrArg (· ++ [job]) hwaiting, hpruning⟩
    | some rows =>
      simp only [Option.map_some] at hs
      split_ifs at hs
      obtain rfl := Option.some.inj hs
      exact ⟨rfl, hwaiting, hpruning⟩
  | readStored index =>
    simp only [statement, hwaiting] at hs
    obtain ⟨job, hjob, hs⟩ := Option.bind_eq_some_iff.mp hs
    rw [hrows, readStored_columnTable] at hs
    simp only [QueueWorld.step, hjob, Option.bind_some]
    exact refines_of_map hs _ fun _ => ⟨rfl, rfl, hpruning⟩
  | lease owner leaseSeconds limit now locked =>
    simp only [statement] at hs
    rw [hrows, lease_columnTable, toOption_map, Option.map_map] at hs
    exact refines_of_map hs _ fun _ => ⟨rfl, hwaiting, hpruning⟩
  | acknowledge k owner now =>
    simp only [statement] at hs
    rw [hrows, acknowledge_columnTable, toOption_map, Option.map_map] at hs
    exact refines_of_map hs _ fun _ => ⟨rfl, hwaiting, hpruning⟩
  | extendLease k owner leaseSeconds now =>
    simp only [statement] at hs
    rw [hrows, extendLease_columnTable, toOption_map, Option.map_map] at hs
    exact refines_of_map hs _ fun _ => ⟨rfl, hwaiting, hpruning⟩
  | recordFailure k owner category retryDelaySeconds terminal now =>
    simp only [statement] at hs
    rw [hrows, recordFailure_columnTable, toOption_map, Option.map_map] at hs
    exact refines_of_map hs _ fun _ => ⟨rfl, hwaiting, hpruning⟩
  | releaseOwnedLeases owner now =>
    simp only [statement] at hs
    rw [hrows, releaseOwnedLeases_columnTable, toOption_map, Option.map_map] at hs
    exact refines_of_map hs _ fun _ => ⟨rfl, hwaiting, hpruning⟩
  | recoverFailed k now =>
    simp only [statement] at hs
    rw [hrows, recoverFailed_columnTable] at hs
    obtain rfl := Option.some.inj hs
    exact ⟨_, rfl, rfl, hwaiting, hpruning⟩
  | pruneFinished before limit =>
    simp only [statement] at hs
    rw [hrows, pruneFinished_columnTable] at hs
    exact refines_of_map hs _ fun ids => ⟨rfl, hwaiting, congrArg (· ++ [ids]) hpruning⟩
  | deleteCandidates index =>
    simp only [statement, hpruning] at hs
    rw [hrows] at hs
    exact refines_of_map hs _ fun ids => ⟨deleteCandidates_columnTable _ ids, hwaiting, rfl⟩

theorem step_eq_some : q.step db l = some q' ↔ (∀ now, l.now = some now → q.clock ≤ now) ∧
    ∃ q₁, q.statement db l = some q₁ ∧ q' = { q₁ with clock := l.now.getD q.clock } := by
  rw [step]
  constructor
  · intro h
    split_ifs at h with hclock
    obtain ⟨q₁, hq₁, rfl⟩ := Option.map_eq_some_iff.mp h
    exact ⟨fun now hnow => by simpa [hnow] using hclock, q₁, hq₁, rfl⟩
  · rintro ⟨hclock, q₁, hq₁, rfl⟩
    have hall : (l.now.all (decide <| q.clock ≤ ·)) = true := by
      cases hnow : l.now with
      | none => rfl
      | some now => exact decide_eq_true (hclock now hnow)
    rw [if_pos hall, hq₁, Option.map_some]

/-- **A step of the stored table** is a step of the rows that it holds. -/
theorem Stores.step (h : Stores q w) (hs : q.step db l = some q') :
    ∃ w', w.step db.toJobEncoding l = some w' ∧ Stores q' w' := by
  obtain ⟨-, q₁, hq₁, rfl⟩ := step_eq_some.mp hs
  obtain ⟨w', hw', hrows, hwaiting, hpruning⟩ := statement_refines h hq₁
  exact ⟨w', hw', hrows, hwaiting, hpruning⟩

end StoredQueue

/-! ## Leases along a run -/

/-- A finished row is not leased, and a leased row has become available by the time `t`. -/
structure JobRow.LeaseInv (t : ℕ) (row : JobRow) : Prop where
  finished : row.isOpen = false → row.lease = none
  available : row.lease ≠ none → row.availableAt ≤ t

namespace QueueWorld

open PostgresJobQueue

variable {e : JobEncoding} {w w' : QueueWorld} {id : String} {l : QueueLabel} {t : ℕ}
  {row row' : JobRow}

/-- An `enqueue` of a job whose row is there does not make it available later. -/
theorem availableAt_le_of_enqueue {job : QueueJob} {delaySeconds now maxAttempts : ℕ}
    (hs : w.step e (.enqueue job delaySeconds now maxAttempts) = some w')
    (hrow : w.rows.get id = some row) (hrow' : w'.rows.get id = some row') :
    row'.availableAt ≤ row.availableAt := by
  simp only [step] at hs
  split_ifs at hs
  obtain ⟨result, hok, rfl⟩ := Option.map_eq_some_iff.mp hs
  rw [toOption_eq_some, enqueue] at hok
  obtain ⟨-, -, hok⟩ := bind_eq_ok.mp hok
  obtain ⟨envelope, henvelope, hok⟩ := bind_eq_ok.mp hok
  obtain rfl := createJobEnvelope_eq_ok henvelope
  obtain rfl := (pure_eq_ok _ _).mp hok
  have hsame (h : w.rows.get id = some row') : row'.availableAt ≤ row.availableAt := by
    rw [hrow] at h
    exact (Option.some.inj h) ▸ le_rfl
  by_cases hid : id = jobIdentity e job
  · subst hid
    rw [upsert_of_present hrow] at hrow'
    split_ifs at hrow' with hmatch
    · obtain rfl := Option.some.inj ((OrderedMap.get_set_self _ _ _).symm.trans hrow')
      exact min_le_left _ _
    · exact hsame hrow'
  · cases hpresent : w.rows.get (jobIdentity e job) with
    | none =>
      rw [upsert_of_absent hpresent] at hrow'
      exact hsame ((OrderedMap.get_set_ne _ _ hid).symm.trans hrow')
    | some current =>
      rw [upsert_of_present hpresent] at hrow'
      split_ifs at hrow' with hmatch
      · exact hsame ((OrderedMap.get_set_ne _ _ hid).symm.trans hrow')
      · exact hsame hrow'

end QueueWorld

theorem JobRow.isOpen_of_isHeldBy {owner : String} {row : JobRow} (h : row.isHeldBy owner = true) :
    row.isOpen = true :=
  (Bool.and_eq_true_iff.mp h).1

namespace JobRow.LeaseInv

open PostgresJobQueue QueueWorld

variable {e : JobEncoding} {w w' : QueueWorld} {id : String} {l : QueueLabel} {t t' : ℕ}
  {row : JobRow}

theorem mono (h : LeaseInv t row) (ht : t ≤ t') : LeaseInv t' row :=
  ⟨h.finished, fun hlease => (h.available hlease).trans ht⟩

theorem of_unleased (h : row.lease = none) : LeaseInv t row :=
  ⟨fun _ => h, fun hlease => absurd h hlease⟩

/-- An open row that became available in time. -/
theorem of_open (hopen : row.isOpen = true) (h : row.lease ≠ none → row.availableAt ≤ t) :
    LeaseInv t row :=
  ⟨fun hclosed => absurd hclosed (by rw [hopen]; decide), h⟩

/-- **One step** at a time that is not before `t`. -/
theorem step (h : ∀ row, w.rows.get id = some row → LeaseInv t row)
    (ht : ∀ now, l.now = some now → t ≤ now) (hs : w.step e l = some w')
    (hrow' : w'.rows.get id = some row) : LeaseInv (l.now.getD t) row := by
  have hlater : t ≤ l.now.getD t := by
    cases hnow : l.now with
    | none => exact le_rfl
    | some now => exact ht now hnow
  have hrowStep := rowStep_of_step hs id
  rw [hrow'] at hrowStep
  revert hrowStep
  generalize w'.events id = events'
  generalize hnew : some row = row'
  intro hrowStep
  cases hrowStep with
  | same => exact (h row hnew.symm).mono hlater
  | insert hnone hid hone hlease hattempts hmax hout =>
    obtain rfl := Option.some.inj hnew
    exact of_unleased hlease
  | merge hrow hid hopen hjob =>
    obtain rfl := Option.some.inj hnew
    refine of_open hopen fun hlease => ?_
    exact (availableAt_le_of_enqueue hs hrow hrow').trans (((h _ hrow).available hlease).trans hlater)
  | ignore hjob hid hsame => exact (h row hnew.symm).mono hlater
  | lease hrow hdue =>
    obtain rfl := Option.some.inj hnew
    simp only [JobRow.isDue, Bool.and_eq_true] at hdue
    exact of_open hdue.1.1 fun _ => of_decide_eq_true hdue.1.2
  | acknowledge hrow hheld =>
    obtain rfl := Option.some.inj hnew
    exact of_unleased rfl
  | extend hrow hheld =>
    obtain rfl := Option.some.inj hnew
    have hopen := isOpen_of_isHeldBy hheld
    refine of_open hopen fun _ => ?_
    obtain ⟨-, expiresAt, hlease⟩ := isHeldBy_iff.mp hheld
    exact ((h _ hrow).available (by rw [hlease]; exact Option.some_ne_none _)).trans hlater
  | fail hrow hheld =>
    obtain rfl := Option.some.inj hnew
    exact of_unleased rfl
  | release hrow hheld =>
    obtain rfl := Option.some.inj hnew
    exact of_unleased rfl
  | recover hrow hclosed =>
    obtain rfl := Option.some.inj hnew
    exact of_unleased rfl
  | prune hrow hids hmem => cases hnew

end JobRow.LeaseInv

/-- **A finished row stays** as it is, unless it failed and is recovered, or it is pruned. -/
theorem QueueWorld.finished_kept {e : JobEncoding} {w w' : QueueWorld} {id : String}
    {l : QueueLabel} {row : JobRow} (hrow : w.rows.get id = some row) (hclosed : row.isOpen = false)
    (hrecover : row.outcome.any (·.isFailed) = true → ∀ now, l ≠ .recoverFailed id now)
    (hs : w.step e l = some w') : w'.rows.get id = some row ∨ w'.rows.get id = none := by
  by_cases hl : ∃ now, l = .recoverFailed id now
  · obtain ⟨now, rfl⟩ := hl
    -- a completed row does not match
    have hcompleted : row.outcome.any (·.isFailed) = false :=
      Bool.eq_false_iff.mpr fun hfailed => hrecover hfailed now rfl
    obtain rfl := Option.some.inj hs
    left
    simp only [get_updateOne, hrow, Option.map_some, if_true, hcompleted]
    rfl
  have hrowStep := rowStep_of_step hs id
  revert hrowStep
  generalize w'.rows.get id = row', w'.events id = events'
  intro hrowStep
  have hsame {row₁ : JobRow} (hrow₁ : w.rows.get id = some row₁) : row₁.isOpen = false := by
    rw [hrow] at hrow₁
    exact Option.some.inj hrow₁ ▸ hclosed
  have hheld {owner : String} {row₁ : JobRow} (hrow₁ : w.rows.get id = some row₁) :
      row₁.isHeldBy owner ≠ true := by
    intro h
    have hopen := JobRow.isOpen_of_isHeldBy h
    rw [hsame hrow₁] at hopen
    cases hopen
  cases hrowStep with
  | same => exact Or.inl hrow
  | insert hnone => exact absurd hnone (by rw [hrow]; exact Option.some_ne_none _)
  | merge hrow₁ hid hopen => exact absurd hopen (by rw [hsame hrow₁]; decide)
  | ignore hjob hid hidentity => exact Or.inl hrow
  | lease hrow₁ hdue =>
    rw [JobRow.isDue, hsame hrow₁] at hdue
    cases hdue
  | acknowledge hrow₁ h => exact absurd h (hheld hrow₁)
  | extend hrow₁ h => exact absurd h (hheld hrow₁)
  | fail hrow₁ h => exact absurd h (hheld hrow₁)
  | release hrow₁ h => exact absurd h (hheld hrow₁)
  | recover hrow₁ h => exact absurd ⟨_, rfl⟩ hl
  | prune hrow₁ hids hmem => exact Or.inr rfl

namespace StoredQueue

open JobRow (LeaseInv)

variable {db : QueueDatabase} {q q' : StoredQueue} {w w' : QueueWorld} {l : QueueLabel}

/-- **The stored table refines the rows.** Its states are those of `QueueWorld`, on the runs whose
times do not go back. -/
theorem refines (h : (system db).Reachable q) : ∃ w,
    (QueueWorld.system db.toJobEncoding).Reachable w ∧ Stores q w ∧
      ∀ id row, w.rows.get id = some row → LeaseInv q.clock row := by
  refine h.invariant (I := fun q => ∃ w, (QueueWorld.system db.toJobEncoding).Reachable w ∧
    Stores q w ∧ ∀ id row, w.rows.get id = some row → LeaseInv q.clock row) ?_ ?_
  · rintro q rfl
    exact ⟨{}, .of_init rfl, ⟨rfl, rfl, rfl⟩, fun _ _ hrow => (nomatch hrow)⟩
  · rintro q q' l - ⟨w, hw, hstores, hinv⟩ hs
    obtain ⟨w', hw', hstores'⟩ := hstores.step hs
    obtain ⟨hclock, q₁, -, rfl⟩ := step_eq_some.mp hs
    refine ⟨w', hw.tail hw', hstores', fun id row hrow => ?_⟩
    exact LeaseInv.step (hinv id) hclock hw' hrow

theorem Stores.get (h : Stores q w) (id : String) :
    q.rows.get id = (w.rows.get id).map JobRow.columns := by
  rw [h.rows, columnTable, OrderedMap.get_mapValues]

/-- A row of the stored table. -/
theorem Stores.exists_row (h : Stores q w) {id : String} {row : JobColumns}
    (hrow : q.rows.get id = some row) : ∃ r, w.rows.get id = some r ∧ row = r.columns := by
  rw [h.get] at hrow
  obtain ⟨r, hr, rfl⟩ := Option.map_eq_some_iff.mp hrow
  exact ⟨r, hr, rfl⟩

/-! ### The number of rows -/

theorem length_updateWhere {rows : JobColumnTable} {p : String → JobColumns → Bool}
    {f : JobColumns → JobColumns} :
    (rows.updateWhere p f).entries.length = rows.entries.length :=
  List.length_map _

/-- A statement that inserts no row adds none. -/
theorem length_statement_le (hs : q.statement db l = some q') :
    q'.rows.entries.length ≤ max q.rows.entries.length db.capacity := by
  cases l with
  | enqueue job delaySeconds now maxAttempts =>
    simp only [statement] at hs
    split_ifs at hs
    obtain ⟨upserted, -, hs⟩ := Option.bind_eq_some_iff.mp hs
    cases upserted with
    | none => exact Option.some.inj hs ▸ le_max_left _ _
    | some rows =>
      simp only at hs
      split_ifs at hs with hcapacity
      exact Option.some.inj hs ▸ hcapacity.trans (le_max_right _ _)
  | readStored index =>
    obtain ⟨job, -, hs⟩ := Option.bind_eq_some_iff.mp hs
    obtain ⟨u, -, rfl⟩ := Option.map_eq_some_iff.mp hs
    exact le_max_left _ _
  | lease owner leaseSeconds limit now locked =>
    obtain ⟨answer, hok, rfl⟩ := Option.map_eq_some_iff.mp hs
    obtain ⟨-, -, hok⟩ := bind_eq_ok.mp (toOption_eq_some.mp hok)
    obtain ⟨-, -, hok⟩ := bind_eq_ok.mp hok
    obtain ⟨-, -, hok⟩ := bind_eq_ok.mp hok
    cases hok
    exact length_updateWhere.le.trans (le_max_left _ _)
  | acknowledge k owner now =>
    obtain ⟨answer, hok, rfl⟩ := Option.map_eq_some_iff.mp hs
    obtain ⟨-, -, hok⟩ := bind_eq_ok.mp (toOption_eq_some.mp hok)
    cases hok
    exact length_updateWhere.le.trans (le_max_left _ _)
  | extendLease k owner leaseSeconds now =>
    obtain ⟨answer, hok, rfl⟩ := Option.map_eq_some_iff.mp hs
    obtain ⟨-, -, hok⟩ := bind_eq_ok.mp (toOption_eq_some.mp hok)
    obtain ⟨-, -, hok⟩ := bind_eq_ok.mp hok
    cases hok
    exact length_updateWhere.le.trans (le_max_left _ _)
  | recordFailure k owner category retryDelaySeconds terminal now =>
    obtain ⟨answer, hok, rfl⟩ := Option.map_eq_some_iff.mp hs
    obtain ⟨-, -, hok⟩ := bind_eq_ok.mp (toOption_eq_some.mp hok)
    obtain ⟨-, -, hok⟩ := bind_eq_ok.mp hok
    cases hok
    exact length_updateWhere.le.trans (le_max_left _ _)
  | releaseOwnedLeases owner now =>
    obtain ⟨rows, hok, rfl⟩ := Option.map_eq_some_iff.mp hs
    obtain ⟨-, -, hok⟩ := bind_eq_ok.mp (toOption_eq_some.mp hok)
    cases hok
    exact length_updateWhere.le.trans (le_max_left _ _)
  | recoverFailed k now =>
    obtain rfl := Option.some.inj hs
    exact length_updateWhere.le.trans (le_max_left _ _)
  | pruneFinished before limit =>
    obtain ⟨ids, -, rfl⟩ := Option.map_eq_some_iff.mp hs
    exact le_max_left _ _
  | deleteCandidates index =>
    obtain ⟨ids, -, rfl⟩ := Option.map_eq_some_iff.mp hs
    exact (List.length_filter_le _ _).trans (le_max_left _ _)

theorem length_le_capacity (h : (system db).Reachable q) :
    q.rows.entries.length ≤ db.capacity := by
  refine h.invariant (I := fun q => q.rows.entries.length ≤ db.capacity) ?_ ?_
  · rintro q rfl
    exact Nat.zero_le _
  · intro q q' l _ hlength hs
    obtain ⟨-, q₁, hq₁, rfl⟩ := step_eq_some.mp hs
    exact (length_statement_le hq₁).trans (max_le hlength le_rfl)

/-! ### Leasing -/

/-- The jobs that a lease hands out were due, and are leased by the owner; no other row changes. -/
theorem of_lease {rows rows' : JobColumnTable} {owner : String} {leaseSeconds limit now : ℕ}
    {locked : List String} {jobs : List PostgresLeasedJob}
    (h : lease rows owner leaseSeconds limit now locked = .ok (rows', jobs)) :
    (∀ job ∈ jobs, ∃ row, rows.get job.id = some row ∧ row.isDue now = true ∧
      rows'.get job.id = some (row.leased owner leaseSeconds now)) ∧
    ∀ id, id ∉ jobs.map (·.id) → rows'.get id = rows.get id := by
  obtain ⟨-, -, h⟩ := bind_eq_ok.mp h
  obtain ⟨-, -, h⟩ := bind_eq_ok.mp h
  obtain ⟨-, -, h⟩ := bind_eq_ok.mp h
  cases h
  refine ⟨fun job hjob => ?_, fun id hid => ?_⟩
  · obtain ⟨⟨id, row⟩, htaken, rfl⟩ := List.mem_map.mp hjob
    have hmem := List.mem_of_mem_take htaken
    rw [List.mem_insertionSort, List.mem_filter, Bool.and_eq_true] at hmem
    have hrow := (OrderedMap.get_eq_some_iff _ _ _).mpr hmem.1
    refine ⟨row, hrow, hmem.2.1, ?_⟩
    rw [OrderedMap.get_updateWhere, hrow, Option.map_some,
      if_pos (List.contains_iff_mem.mpr (List.mem_map_of_mem htaken))]
  · have hid' : id ∉ (candidates rows now limit locked).map Prod.fst := by
      rwa [List.map_map] at hid
    rw [OrderedMap.get_updateWhere]
    cases rows.get id with
    | none => rfl
    | some row => rw [Option.map_some, if_neg fun h => hid' (List.contains_iff_mem.mp h)]

/-! ### The leases that the workers were told of -/

/-- No pruning deletes a row under a lease that has not expired. -/
def prunesUnleased (q : StoredQueue) : QueueLabel → Bool
  | .deleteCandidates index => (q.pruning[index]?).all fun ids =>
    ids.all fun id => (q.rows.get id).all (·.isFree q.clock)
  | _ => true

/-- A lease that a worker was told of is that of the row, or it has expired by the time `t`. -/
def Granted (t : ℕ) (row : Option JobColumns) (grant : Option JobLease) : Prop :=
  ∀ lease, grant = some lease → lease.expiresAt ≤ t ∨ ∃ r, row = some r ∧
    r.leaseOwner = some lease.owner ∧ r.leaseExpiresAt = some lease.expiresAt

namespace Granted

variable {t t' : ℕ} {row row' : Option JobColumns} {grant : Option JobLease}

theorem mono (h : Granted t row grant) (ht : t ≤ t') : Granted t' row grant :=
  fun lease hlease => (h lease hlease).imp_left (·.trans ht)

theorem of_none : Granted t row none := fun _ hlease => nomatch hlease

/-- The lease of a row that has changed in other columns. -/
theorem of_columns (h : Granted t row grant) (hkept : ∀ r, row = some r → ∃ r', row' = some r' ∧
    r'.leaseOwner = r.leaseOwner ∧ r'.leaseExpiresAt = r.leaseExpiresAt) :
    Granted t row' grant := by
  refine fun lease hlease => (h lease hlease).imp_right ?_
  rintro ⟨r, hr, howner, hexpires⟩
  obtain ⟨r', hr', howner', hexpires'⟩ := hkept r hr
  exact ⟨r', hr', howner'.trans howner, hexpires'.trans hexpires⟩

/-- A row that is not leased, or whose lease has run out, stands for no lease that counts. -/
theorem of_free (h : Granted t row grant) (hfree : ∀ r, row = some r → r.isFree t = true) :
    Granted t row' grant := by
  intro lease hlease
  rcases h lease hlease with hexpired | ⟨r, hr, howner, hexpires⟩
  · exact .inl hexpired
  · have hr := hfree r hr
    rw [JobColumns.isFree, howner, hexpires] at hr
    exact .inl (of_decide_eq_true hr)

end Granted

/-- The rows stand for the leases that the workers were told of. -/
def GrantInv (q : StoredQueue) : Prop := ∀ id, Granted q.clock (q.rows.get id) (q.granted id)

theorem isFree_of_unleased {row : JobColumns} (h : row.leaseOwner = none) (t : ℕ) :
    row.isFree t = true := by
  rw [JobColumns.isFree, h]
  rfl

/-- A call of the owner for one row, which sets its lease to `lease`. -/
theorem GrantInv.callOfOwner (h : GrantInv q) {k owner : String} {f : JobColumns → JobColumns}
    {lease : Option JobLease}
    (hf : ∀ row, row.isHeldBy owner = true → Granted q.clock (some (f row)) lease) (id : String) :
    Granted q.clock
      ((q.rows.updateWhere (fun key row => key == k && row.isHeldBy owner) f).get id)
      ((if (q.rows.get k).any (·.isHeldBy owner) then Function.update q.granted k lease
        else q.granted) id) := by
  rw [OrderedMap.get_updateWhere]
  by_cases hid : id = k
  · subst hid
    cases hrow : q.rows.get id with
    | none =>
      have := h id
      rw [hrow] at this
      exact this
    | some row =>
      by_cases hheld : row.isHeldBy owner = true
      · simp only [Option.map_some, Option.any_some, hheld, BEq.rfl, Bool.and_self, if_true,
          Function.update_self]
        exact hf row hheld
      · have := h id
        rw [hrow] at this
        simpa [hheld] using this
  · have hsame : (q.rows.get id).map (fun row =>
        if (id == k && row.isHeldBy owner) = true then f row else row) = q.rows.get id := by
      rw [beq_eq_false_iff_ne.mpr hid]
      simp
    rw [hsame]
    split_ifs
    · rw [Function.update_of_ne hid]
      exact h id
    · exact h id

/-- An `enqueue` inserts a row that is not leased, or it leaves the lease alone. -/
theorem GrantInv.upsert (h : GrantInv q) {row : JobColumns} {rows : JobColumnTable}
    (hup : upsert q.rows row = some rows) (id : String) :
    Granted q.clock (rows.get id) (q.granted id) := by
  unfold StoredQueue.upsert at hup
  cases hrow : q.rows.get row.envelope.id with
  | none =>
    rw [hrow] at hup
    obtain rfl := Option.some.inj hup
    by_cases hid : id = row.envelope.id
    · subst hid
      exact (h _).of_free fun r hr => by rw [hrow] at hr; cases hr
    · rw [OrderedMap.get_set_ne _ _ hid]
      exact h id
  | some current =>
    rw [hrow] at hup
    simp only [Option.ite_none_right_eq_some, Option.some.injEq] at hup
    obtain ⟨-, rfl⟩ := hup
    by_cases hid : id = row.envelope.id
    · subst hid
      refine (h _).of_columns fun r hr => ⟨_, OrderedMap.get_set_self _ _ _, ?_⟩
      obtain rfl := Option.some.inj (hrow.symm.trans hr)
      exact ⟨rfl, rfl⟩
    · rw [OrderedMap.get_set_ne _ _ hid]
      exact h id

/-- **A statement** at a time that is not before the last keeps the rows and the leases that the
workers were told of in step. -/
theorem GrantInv.statement (h : GrantInv q)
    (hfinished : ∀ id row, q.rows.get id = some row → row.isOpen = false → row.leaseOwner = none)
    (hprunes : q.prunesUnleased l = true) (hs : q.statement db l = some q') (id : String) :
    Granted q.clock (q'.rows.get id) (q'.granted id) := by
  cases l with
  | enqueue job delaySeconds now maxAttempts =>
    simp only [StoredQueue.statement] at hs
    split_ifs at hs
    obtain ⟨upserted, hok, hs⟩ := Option.bind_eq_some_iff.mp hs
    obtain ⟨-, -, hok⟩ := bind_eq_ok.mp (toOption_eq_some.mp hok)
    obtain ⟨envelope, -, hok⟩ := bind_eq_ok.mp hok
    rw [pure_eq_ok] at hok
    cases upserted with
    | none =>
      obtain rfl := Option.some.inj hs
      exact h id
    | some rows =>
      simp only at hs
      split_ifs at hs
      obtain rfl := Option.some.inj hs
      exact h.upsert hok id
  | readStored index =>
    obtain ⟨job, -, hs⟩ := Option.bind_eq_some_iff.mp hs
    obtain ⟨u, -, rfl⟩ := Option.map_eq_some_iff.mp hs
    exact h id
  | lease owner leaseSeconds limit now locked =>
    obtain ⟨⟨rows, jobs⟩, hok, rfl⟩ := Option.map_eq_some_iff.mp hs
    obtain ⟨hjobs, hothers⟩ := of_lease (toOption_eq_some.mp hok)
    dsimp only
    by_cases hid : id ∈ jobs.map (·.id)
    · obtain ⟨job, hjob, rfl⟩ := List.mem_map.mp hid
      obtain ⟨row, -, -, hleased⟩ := hjobs job hjob
      rw [if_pos (List.contains_iff_mem.mpr hid), hleased]
      intro lease hlease
      obtain rfl := Option.some.inj hlease
      exact .inr ⟨_, rfl, rfl, rfl⟩
    · rw [if_neg fun hmem => hid (List.contains_iff_mem.mp hmem), hothers id hid]
      exact h id
  | acknowledge k owner now =>
    obtain ⟨⟨rows, acknowledged⟩, hok, rfl⟩ := Option.map_eq_some_iff.mp hs
    obtain ⟨-, -, hok⟩ := bind_eq_ok.mp (toOption_eq_some.mp hok)
    cases hok
    exact h.callOfOwner (fun _ _ => .of_none) id
  | extendLease k owner leaseSeconds now =>
    obtain ⟨⟨rows, extended⟩, hok, rfl⟩ := Option.map_eq_some_iff.mp hs
    obtain ⟨-, -, hok⟩ := bind_eq_ok.mp (toOption_eq_some.mp hok)
    obtain ⟨-, -, hok⟩ := bind_eq_ok.mp hok
    cases hok
    refine h.callOfOwner (fun row hheld lease hlease => ?_) id
    obtain rfl := Option.some.inj hlease
    exact .inr ⟨_, rfl, eq_of_beq (Bool.and_eq_true_iff.mp hheld).2, rfl⟩
  | recordFailure k owner category retryDelaySeconds terminal now =>
    obtain ⟨⟨rows, disposition⟩, hok, rfl⟩ := Option.map_eq_some_iff.mp hs
    obtain ⟨-, -, hok⟩ := bind_eq_ok.mp (toOption_eq_some.mp hok)
    obtain ⟨-, -, hok⟩ := bind_eq_ok.mp hok
    cases hok
    have hgranted : ∀ row, row.isHeldBy owner = true → Granted q.clock
        (some (JobColumns.failed category retryDelaySeconds terminal now row)) none :=
      fun _ _ => .of_none
    have hcall := h.callOfOwner (k := k) hgranted id
    dsimp only
    cases hrow : q.rows.get k with
    | none => simpa [hrow] using hcall
    | some row =>
      by_cases hheld : row.isHeldBy owner = true
      · rw [hrow, Option.any_some, if_pos hheld] at hcall
        rw [Option.filter_some, if_pos hheld]
        by_cases hfailed : (JobColumns.failed category retryDelaySeconds terminal now
            row).failedAt.isSome = true
        · simp only [hfailed, if_true]
          exact hcall
        · simp only [hfailed]
          exact hcall
      · rw [hrow, Option.any_some, if_neg hheld] at hcall
        rw [Option.filter_some, if_neg hheld]
        exact hcall
  | releaseOwnedLeases owner now =>
    obtain ⟨rows, hok, rfl⟩ := Option.map_eq_some_iff.mp hs
    obtain ⟨-, -, hok⟩ := bind_eq_ok.mp (toOption_eq_some.mp hok)
    cases hok
    intro lease hlease
    obtain ⟨hlease, hother⟩ := Option.filter_eq_some_iff.mp hlease
    refine (h id lease hlease).imp_right ?_
    rintro ⟨r, hr, howner, hexpires⟩
    have hheld : r.isHeldBy owner = false := by
      rw [JobColumns.isHeldBy, howner, Bool.and_eq_false_iff]
      exact .inr (by simpa using hother)
    refine ⟨r, ?_, howner, hexpires⟩
    rw [OrderedMap.get_updateWhere, hr, Option.map_some, hheld]
    rfl
  | recoverFailed k now =>
    obtain rfl := Option.some.inj hs
    dsimp only [recoverFailed]
    rw [OrderedMap.get_updateWhere]
    cases hrow : q.rows.get id with
    | none =>
      have := h id
      rw [hrow] at this
      exact this
    | some row =>
      rw [Option.map_some]
      by_cases hmatch : (id == k && row.isRecoverable) = true
      · -- a failed row is not leased
        refine (h id).of_free fun r hr => ?_
        obtain rfl := Option.some.inj (hrow.symm.trans hr)
        have hrecoverable := (Bool.and_eq_true_iff.mp hmatch).2
        refine isFree_of_unleased (hfinished id row hrow ?_) _
        rw [JobColumns.isRecoverable, Bool.and_eq_true] at hrecoverable
        rw [JobColumns.isOpen, Bool.and_eq_false_iff]
        exact .inr (by simpa using hrecoverable.2)
      · rw [if_neg hmatch, ← hrow]
        exact h id
  | pruneFinished before limit =>
    obtain ⟨ids, -, rfl⟩ := Option.map_eq_some_iff.mp hs
    exact h id
  | deleteCandidates index =>
    obtain ⟨ids, hids, rfl⟩ := Option.map_eq_some_iff.mp hs
    dsimp only [deleteCandidates]
    rw [OrderedMap.get_eraseWhere]
    by_cases hmem : id ∈ ids
    · refine (h id).of_free fun r hr => ?_
      rw [prunesUnleased, hids, Option.all_some, List.all_eq_true] at hprunes
      have hfree := hprunes id hmem
      rwa [hr, Option.all_some] at hfree
    · have hkept : (q.rows.get id).filter (fun _ => !ids.contains id) = q.rows.get id := by
        rw [List.contains_eq_mem, decide_eq_false hmem]
        cases q.rows.get id <;> rfl
      rw [hkept]
      exact h id

/-- **The rows stand for the leases** that the workers were told of, on the runs in which no pruning
deletes a row under a lease that has not expired. -/
theorem grantInv (h : (system db).ReachableWhere (fun q l => q.prunesUnleased l = true) q) :
    GrantInv q := by
  refine h.invariant ?_ fun q q' l hreach hinv hprunes hs => ?_
  · rintro q rfl id
    exact .of_none
  · obtain ⟨hclock, q₁, hq₁, rfl⟩ := step_eq_some.mp hs
    have hlater : q.clock ≤ l.now.getD q.clock := by
      cases hnow : l.now with
      | none => exact le_rfl
      | some now => exact hclock now hnow
    obtain ⟨w, -, hstores, hleases⟩ := refines hreach.reachable
    refine fun id => (hinv.statement (fun k row hrow hclosed => ?_) hprunes hq₁ id).mono hlater
    obtain ⟨r, hr, rfl⟩ := hstores.exists_row hrow
    rw [JobRow.isOpen_columns] at hclosed
    rw [JobRow.columns, (hleases k r hr).finished hclosed, Option.map_none]

/-! ### Calls of other workers -/

/-- The calls of a worker for the row of `id` leave it as it is, and answer so. -/
structure Refuses (rows : JobColumnTable) (id worker : String) : Prop where
  acknowledge : ∀ now rows' answer, acknowledge rows id worker now = .ok (rows', answer) →
    rows'.get id = rows.get id ∧ answer = false
  extendLease : ∀ leaseSeconds now rows' answer,
    extendLease rows id worker leaseSeconds now = .ok (rows', answer) →
      rows'.get id = rows.get id ∧ answer = false
  recordFailure : ∀ category retryDelaySeconds terminal now rows' answer,
    recordFailure rows id worker category retryDelaySeconds terminal now = .ok (rows', answer) →
      rows'.get id = rows.get id ∧ answer = .notOwned
  releaseOwnedLeases : ∀ now rows', releaseOwnedLeases rows worker now = .ok rows' →
    rows'.get id = rows.get id

theorem get_updateWhere_of_not {rows : JobColumnTable} {id : String}
    {p : String → JobColumns → Bool} (f : JobColumns → JobColumns)
    (h : ∀ row, rows.get id = some row → p id row = false) :
    (rows.updateWhere p f).get id = rows.get id := by
  rw [OrderedMap.get_updateWhere]
  cases hrow : rows.get id with
  | none => rfl
  | some row => rw [Option.map_some, if_neg (by rw [h row hrow]; decide)]

theorem refuses {rows : JobColumnTable} {id worker : String}
    (h : ∀ row, rows.get id = some row → row.leaseOwner ≠ some worker) :
    Refuses rows id worker := by
  have hheld (row : JobColumns) (hrow : rows.get id = some row) : row.isHeldBy worker = false := by
    rw [JobColumns.isHeldBy, beq_eq_false_iff_ne.mpr (h row hrow), Bool.and_false]
  have hkeep (f : JobColumns → JobColumns) :
      (rows.updateWhere (fun key row => key == id && row.isHeldBy worker) f).get id =
        rows.get id :=
    get_updateWhere_of_not f fun row hrow => by rw [hheld row hrow, Bool.and_false]
  have hanswer : (rows.get id).any (·.isHeldBy worker) = false := by
    rw [Option.any_eq_false]
    exact hheld
  refine ⟨fun now rows' answer hok => ?_, fun leaseSeconds now rows' answer hok => ?_,
    fun category retryDelaySeconds terminal now rows' answer hok => ?_, fun now rows' hok => ?_⟩
  · obtain ⟨-, -, hok⟩ := bind_eq_ok.mp hok
    cases hok
    exact ⟨hkeep _, hanswer⟩
  · obtain ⟨-, -, hok⟩ := bind_eq_ok.mp hok
    obtain ⟨-, -, hok⟩ := bind_eq_ok.mp hok
    cases hok
    exact ⟨hkeep _, hanswer⟩
  · obtain ⟨-, -, hok⟩ := bind_eq_ok.mp hok
    obtain ⟨-, -, hok⟩ := bind_eq_ok.mp hok
    cases hok
    refine ⟨hkeep _, ?_⟩
    cases hrow : rows.get id with
    | none => rfl
    | some row => rw [Option.filter_some, if_neg (by rw [hheld row hrow]; decide)]
  · obtain ⟨-, -, hok⟩ := bind_eq_ok.mp hok
    cases hok
    exact get_updateWhere_of_not _ hheld

/-! ### Finished rows -/

theorem step_finished_kept (h : (system db).Reachable q) {id : String} {row : JobColumns}
    (hrow : q.rows.get id = some row) (hclosed : row.isOpen = false)
    (hrecover : row.failedAt.isSome = true → ∀ now, l ≠ .recoverFailed id now)
    (hs : q.step db l = some q') : q'.rows.get id = some row ∨ q'.rows.get id = none := by
  obtain ⟨w, -, hstores, -⟩ := refines h
  obtain ⟨w', hw', hstores'⟩ := hstores.step hs
  obtain ⟨r, hr, rfl⟩ := hstores.exists_row hrow
  rw [JobRow.isOpen_columns] at hclosed
  have hfailed (hany : r.outcome.any (·.isFailed) = true) : r.columns.failedAt.isSome = true := by
    obtain ⟨outcome, hout, hany⟩ := (Option.any_eq_true _ _).mp hany
    cases outcome with
    | completed t => cases hany
    | failed t => simp [JobRow.columns, hout, JobOutcome.failedAt]
  rcases QueueWorld.finished_kept hr hclosed (fun hany => hrecover (hfailed hany)) hw' with
    hkept | hgone
  · exact Or.inl (by rw [hstores'.get, hkept, Option.map_some])
  · exact Or.inr (by rw [hstores'.get, hgone, Option.map_none])

/-- **A finished row stays along a run** as it is, unless it failed and is recovered, until it is
pruned. -/
theorem run_finished_kept (h : (system db).Reachable q) {id : String} {row : JobColumns}
    (hrow : q.rows.get id = some row) (hclosed : row.isOpen = false) {ls : List QueueLabel}
    (hrecover : row.failedAt.isSome = true → ∀ now, .recoverFailed id now ∉ ls)
    (hrun : (system db).run q ls = some q') :
    q'.rows.get id = some row ∨ ∃ ls₁ ls₂ p, ls = ls₁ ++ ls₂ ∧ (system db).run q ls₁ = some p ∧
      p.rows.get id = none := by
  induction ls generalizing q with
  | nil =>
    obtain rfl : q = q' := Option.some.inj hrun
    exact Or.inl hrow
  | cons l ls ih =>
    obtain ⟨p, hp, hrun⟩ := Option.bind_eq_some_iff.mp hrun
    have hl (hfailed : row.failedAt.isSome = true) (now : ℕ) : l ≠ .recoverFailed id now :=
      fun heq => hrecover hfailed now (heq ▸ List.mem_cons_self)
    rcases step_finished_kept h hrow hclosed hl hp with hkept | hgone
    · have htail (hfailed : row.failedAt.isSome = true) (now : ℕ) : .recoverFailed id now ∉ ls :=
        fun hmem => hrecover hfailed now (List.mem_cons_of_mem _ hmem)
      rcases ih (h.tail hp) hkept htail hrun with hkept | ⟨ls₁, ls₂, p', rfl, hp', hgone⟩
      · exact Or.inl hkept
      · refine Or.inr ⟨l :: ls₁, ls₂, p', rfl, ?_, hgone⟩
        exact Option.bind_eq_some_iff.mpr ⟨p, hp, hp'⟩
    · refine Or.inr ⟨[l], ls, p, rfl, ?_, hgone⟩
      exact Option.bind_eq_some_iff.mpr ⟨p, hp, rfl⟩

/-! ### The counts -/

/-- An unfinished row meets exactly one of the conditions that are counted. -/
theorem exactlyOne {t now : ℕ} {row : JobRow} (h : LeaseInv t row) (ht : t ≤ now) :
    [row.columns.isVisible now, row.columns.isInFlight now, row.columns.isDelayed now].count
      true = 1 := by
  rw [JobColumns.isVisible, JobRow.isFree_columns, JobColumns.isInFlight, JobColumns.isDelayed]
  cases hlease : row.lease with
  | none =>
    by_cases hnow : row.availableAt ≤ now
    · simp [JobRow.columns, hlease, hnow, not_lt.mpr]
    · simp [JobRow.columns, hlease, hnow, not_le.mp hnow]
  | some lease =>
    have havailable : row.availableAt ≤ now :=
      (h.available (by rw [hlease]; exact Option.some_ne_none _)).trans ht
    by_cases hnow : lease.expiresAt ≤ now
    · simp [JobRow.columns, hlease, hnow, havailable, not_lt.mpr]
    · simp [JobRow.columns, hlease, hnow, havailable, not_lt.mpr, not_le.mp hnow]

/-- The counts of three conditions, of which every element meets exactly one. -/
theorem countP_add_countP_add_countP {α : Type} {p₁ p₂ p₃ : α → Bool} {xs : List α}
    (h : ∀ x ∈ xs, [p₁ x, p₂ x, p₃ x].count true = 1) :
    xs.countP p₁ + xs.countP p₂ + xs.countP p₃ = xs.length := by
  induction xs with
  | nil => rfl
  | cons x xs ih =>
    have hx := h x List.mem_cons_self
    have hxs := ih fun y hy => h y (List.mem_cons_of_mem _ hy)
    simp only [List.countP_cons, List.length_cons]
    cases h₁ : p₁ x <;> cases h₂ : p₂ x <;> cases h₃ : p₃ x <;> simp [h₁, h₂, h₃] at hx ⊢ <;> omega

/-- What `PostgresJobQueue` keeps up of its leases and of its counts. -/
structure LeasesKept (db : QueueDatabase) (q : StoredQueue) : Prop where
  /-- The owner and the expiry of a lease are both set or both absent. -/
  paired : ∀ id row, q.rows.get id = some row → (row.leaseOwner = none ↔ row.leaseExpiresAt = none)
  /-- A job is handed out where its row is unfinished and not leased, or the row's lease has expired;
  the row is then leased by the owner. No other row changes. -/
  leased : ∀ owner leaseSeconds limit now locked rows jobs,
    lease q.rows owner leaseSeconds limit now locked = .ok (rows, jobs) →
      (∀ job ∈ jobs, ∃ row, q.rows.get job.id = some row ∧ row.isOpen = true ∧
        (∀ t, row.leaseExpiresAt = some t → t ≤ now) ∧
        rows.get job.id = some (row.leased owner leaseSeconds now)) ∧
      ∀ id, id ∉ jobs.map (·.id) → rows.get id = q.rows.get id
  /-- A job is not handed out while a lease on it that a worker was told of is unexpired. -/
  exclusive : ∀ owner leaseSeconds limit now locked rows jobs, q.clock ≤ now →
    lease q.rows owner leaseSeconds limit now locked = .ok (rows, jobs) →
      ∀ job ∈ jobs, ∀ other, q.granted job.id = some other → other.expiresAt ≤ now
  /-- A worker that does not hold the lease of a row changes nothing there. -/
  refused : ∀ id row worker, q.rows.get id = some row → row.leaseOwner ≠ some worker →
    Refuses q.rows id worker
  /-- A finished row is not leased. It stays so, unless it failed and is recovered, until it is
  pruned. -/
  finished : ∀ id row, q.rows.get id = some row → row.isOpen = false → row.leaseOwner = none ∧
    ∀ ls q', (system db).run q ls = some q' →
      (row.failedAt.isSome = true → ∀ now, .recoverFailed id now ∉ ls) →
      q'.rows.get id = some row ∨ ∃ ls₁ ls₂ p, ls = ls₁ ++ ls₂ ∧
        (system db).run q ls₁ = some p ∧ p.rows.get id = none
  /-- The counts are of disjoint conditions, and sum to the number of unfinished rows. -/
  counted : ∀ failedRows now, q.clock ≤ now →
    (∀ row ∈ unfinished q.rows,
      [row.isVisible now, row.isInFlight now, row.isDelayed now].count true = 1) ∧
    (getQueueDiagnostics q.rows failedRows now).primary = {
      visible := (unfinished q.rows).countP (·.isVisible now)
      inFlight := (unfinished q.rows).countP (·.isInFlight now)
      delayed := (unfinished q.rows).countP (·.isDelayed now)
      total := (unfinished q.rows).length } ∧
    (unfinished q.rows).countP (·.isVisible now) + (unfinished q.rows).countP (·.isInFlight now) +
      (unfinished q.rows).countP (·.isDelayed now) = (unfinished q.rows).length

theorem integerCount_of_le {n : ℕ} (h : n ≤ 2 ^ 53 - 1) : integerCount (some n) = n :=
  if_pos h

theorem length_unfinished_le (h : (system db).Reachable q) :
    (unfinished q.rows).length ≤ 2 ^ 53 - 1 := by
  refine (List.length_filter_le _ _).trans ?_
  rw [OrderedMap.values, List.length_map]
  exact (length_le_capacity h).trans db.capacity_safe

theorem counted (h : (system db).Reachable q) (failedRows : JobColumnTable) {now : ℕ}
    (hnow : q.clock ≤ now) :
    (∀ row ∈ unfinished q.rows,
      [row.isVisible now, row.isInFlight now, row.isDelayed now].count true = 1) ∧
    (getQueueDiagnostics q.rows failedRows now).primary = {
      visible := (unfinished q.rows).countP (·.isVisible now)
      inFlight := (unfinished q.rows).countP (·.isInFlight now)
      delayed := (unfinished q.rows).countP (·.isDelayed now)
      total := (unfinished q.rows).length } ∧
    (unfinished q.rows).countP (·.isVisible now) + (unfinished q.rows).countP (·.isInFlight now) +
      (unfinished q.rows).countP (·.isDelayed now) = (unfinished q.rows).length := by
  have hone : ∀ row ∈ unfinished q.rows,
      [row.isVisible now, row.isInFlight now, row.isDelayed now].count true = 1 := by
    intro row hrow
    obtain ⟨id, hget⟩ := (OrderedMap.mem_values_iff _ _).mp (List.mem_of_mem_filter hrow)
    obtain ⟨w, -, hstores, hinv⟩ := refines h
    obtain ⟨r, hr, rfl⟩ := hstores.exists_row hget
    exact exactlyOne (hinv id r hr) hnow
  have hsafe (p : JobColumns → Bool) : (unfinished q.rows).countP p ≤ 2 ^ 53 - 1 :=
    List.countP_le_length.trans (length_unfinished_le h)
  refine ⟨hone, ?_, countP_add_countP_add_countP hone⟩
  simp only [getQueueDiagnostics, integerCount_of_le (hsafe _),
    integerCount_of_le (length_unfinished_le h)]

end StoredQueue

open StoredQueue

/-- **Leases are exclusive**, and the counts add up, in every state of every run whose times do not
go back and in which no pruning deletes a row under a lease that has not expired: the two columns of
a lease are set together; a job is handed out only where no unexpired lease is on it; the calls of a
worker that does not hold a row leave it as it is; a finished row is not leased, and is not leased
again unless it failed and is recovered; the visible, in-flight and delayed jobs are disjoint and
make up the unfinished ones. -/
theorem queue_leases {db : QueueDatabase} {q : StoredQueue}
    (hrun : (system db).ReachableWhere (fun q l => q.prunesUnleased l = true) q) :
    LeasesKept db q := by
  have h := hrun.reachable
  exact {
    paired := fun id row hrow => by
      obtain ⟨w, -, hstores, -⟩ := refines h
      obtain ⟨r, -, rfl⟩ := hstores.exists_row hrow
      simp only [JobRow.columns, Option.map_eq_none_iff]
    leased := fun owner leaseSeconds limit now locked rows jobs hlease => by
      obtain ⟨hjobs, hothers⟩ := of_lease hlease
      refine ⟨fun job hjob => ?_, hothers⟩
      obtain ⟨row, hrow, hdue, hleased⟩ := hjobs job hjob
      obtain ⟨w, -, hstores, -⟩ := refines h
      obtain ⟨r, -, rfl⟩ := hstores.exists_row hrow
      rw [JobColumns.isDue, Bool.and_eq_true, Bool.and_eq_true, JobRow.isFree_columns] at hdue
      refine ⟨r.columns, hrow, hdue.1.1, fun t ht => ?_, hleased⟩
      obtain ⟨lease, hr, rfl⟩ := Option.map_eq_some_iff.mp ht
      rw [hr] at hdue
      exact of_decide_eq_true hdue.2
    exclusive := fun owner leaseSeconds limit now locked rows jobs hnow hlease job hjob other
        hother => by
      obtain ⟨row, hrow, hdue, -⟩ := (of_lease hlease).1 job hjob
      rcases grantInv hrun job.id other hother with hexpired | ⟨r, hr, howner, hexpires⟩
      · exact hexpired.trans hnow
      · obtain rfl := Option.some.inj (hrow.symm.trans hr)
        rw [JobColumns.isDue, Bool.and_eq_true, JobColumns.isFree, howner, hexpires] at hdue
        exact of_decide_eq_true hdue.2
    refused := fun id row worker hrow hworker => refuses fun row' hrow' => by
      rw [hrow] at hrow'
      exact Option.some.inj hrow' ▸ hworker
    finished := fun id row hrow hclosed => by
      refine ⟨?_, fun ls q' hls hrecover => run_finished_kept h hrow hclosed hrecover hls⟩
      obtain ⟨w, -, hstores, hinv⟩ := refines h
      obtain ⟨r, hr, rfl⟩ := hstores.exists_row hrow
      rw [JobRow.isOpen_columns] at hclosed
      rw [JobRow.columns, (hinv id r hr).finished hclosed, Option.map_none]
    counted := fun failedRows now hnow => StoredQueue.counted h failedRows hnow }

/-! ## Sample runs -/

/-- A table of PostgreSQL: the rows that fit on its pages. -/
def sampleDatabase : QueueDatabase where
  toJobEncoding := sampleEncoding
  capacity := 4294967295 * 291
  capacity_safe := by decide

/-- A job that is done, and its row. -/
def doneJob : QueueJob := .publishReceivedEmail "received_1"

def doneJobId : String := "job:v1:publish-received-email:received_1"

/-- While a worker has one job, another one is done and pruned. The worker's lease expires, and
another worker takes its job. -/
def leaseAndPrune : List QueueLabel :=
  leaseOnce 10 ++ [.enqueue doneJob 0 3000 10, .lease "other" 60 1 3000 [],
    .acknowledge doneJobId "other" 4000, .pruneFinished 5000 10, .deleteCandidates 0,
    .lease "other" 60 1 62000 []]

theorem queue_leases_sample : ∃ q row,
    (system sampleDatabase).ReachableWhere (fun q l => q.prunesUnleased l = true) q ∧
      q.rows.get doneJobId = none ∧ q.rows.get sendJobId = some row ∧
      row.leaseOwner = some "other" ∧ q.granted sendJobId = some ⟨"other", 122000⟩ ∧
      Refuses q.rows sendJobId "worker" ∧ LeasesKept sampleDatabase q := by
  have hrun : ((system sampleDatabase).runWhere prunesUnleased {} leaseAndPrune).any (fun q =>
      (q.rows.get sendJobId).any (fun row => decide (row.leaseOwner = some "other")) &&
        decide (q.rows.get doneJobId = none ∧
          q.granted sendJobId = some ⟨"other", 122000⟩)) = true := by
    decide +kernel
  obtain ⟨q, hq, hend⟩ := TransitionSystem.exists_reachableWhere_of_run rfl hrun
  obtain ⟨hrow, hend⟩ := Bool.and_eq_true_iff.mp hend
  obtain ⟨hdone, hgranted⟩ := of_decide_eq_true hend
  obtain ⟨row, hrow, howner⟩ := (Option.any_eq_true _ _).mp hrow
  have howner := of_decide_eq_true howner
  refine ⟨q, row, hq, hdone, hrow, howner, hgranted, (queue_leases hq).refused _ _ _ hrow ?_,
    queue_leases hq⟩
  rw [howner]
  decide

/-- The job is recovered and leased by a worker while a pruning that has picked its row runs. The
row is deleted, the job is enqueued again, and another worker is handed it while the lease is
unexpired. -/
theorem leased_job_handed_over : ∃ q rows job other, (system sampleDatabase).Reachable q ∧
    q.clock ≤ 9000 ∧ lease q.rows "other" 60 1 9000 [] = .ok (rows, [job]) ∧ job.id = sendJobId ∧
      q.granted sendJobId = some other ∧ other.owner = "worker" ∧ 9000 < other.expiresAt := by
  have hrun : ((system sampleDatabase).run {} (recoverWhilePruned ++
      [.lease "worker" 60 1 6000 [], .deleteCandidates 0, .enqueue sendJob 0 8000 10])).any
      (fun q => decide (q.clock ≤ 9000 ∧ q.granted sendJobId = some ⟨"worker", 66000⟩ ∧
        (lease q.rows "other" 60 1 9000 []).toOption.map (·.2) =
          some [⟨sendJobId, sendJob, 1, 69000⟩])) = true := by
    decide +kernel
  obtain ⟨q, hq, hend⟩ := TransitionSystem.exists_reachable_of_run rfl hrun
  obtain ⟨hclock, hgranted, hlease⟩ := of_decide_eq_true hend
  obtain ⟨⟨rows, jobs⟩, hlease, rfl⟩ := Option.map_eq_some_iff.mp hlease
  exact ⟨q, rows, _, _, hq, hclock, toOption_eq_some.mp hlease, rfl, hgranted, rfl, by decide⟩

end HayaSend
