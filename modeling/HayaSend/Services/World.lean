import HayaSend.Services.EmailService
import HayaSend.Foundations.TransitionSystem

/-!
# The delivery system

Any number of calls run over one store and one queue. A step of the system is a step of one call,
the clock moving on, a call or a job arriving, or a crash. The queue is at least once: a job whose
handler throws or crashes goes back to it and may be delivered again at any later time, and a job
may reach the queue more than once. A job whose handler resolved is gone.
-/

namespace HayaSend

/-- A call and the job it handles. A call that is over is idle. -/
structure Process where
  job : Option Job := none
  task : Task
  deriving DecidableEq, Repr

structure World where
  now : ℕ
  store : MemoryStore := {}
  queue : List Job := []
  procs : List Process := []
  /-- The attempt ids drawn so far. -/
  issued : List String := []
  log : List Event := []
  deriving DecidableEq

/-- The steps of the system. -/
inductive Label
  | tick (ms : ℕ)
  /-- An email stored without a ledger. -/
  | createEmail (record : EmailRecord)
  | call (task : Task)
  /-- A job reaches the queue, again or from outside. -/
  | enqueue (job : Job)
  /-- A worker takes a job, with the receive count the queue reports and the worker's options. -/
  | deliver (index attempt : ℕ) (owner : String) (leaseSeconds limit : ℕ)
  | act (index : ℕ) (choice : Choice)
  | crash (index : ℕ)
  deriving DecidableEq, Repr

/-- The handler of a job. -/
def Job.handler (attempt : ℕ) (owner : String) (leaseSeconds limit : ℕ) : Job → Task
  | .sendEmail id _ => .send id attempt .getEmail
  | .reconcileOutbox _ => .sweep owner leaseSeconds limit .lease

/-- Ids are drawn at random, so a provider only reports on emails that exist. -/
def Task.mayCall (s : MemoryStore) : Task → Bool
  | .providerEvent id status receivedAt pc =>
    (Task.providerEvent id status receivedAt pc).isCall && s.emails.has id
  | task => task.isCall

/-- Where a call stands after a step. -/
def Next.process (proc : Process) : Next → Process
  | .goto task => { proc with task := task }
  | .resolve | .throw => { task := .idle }

/-- The jobs a step gives back to the queue. -/
def Next.returned (proc : Process) : Next → List Job
  | .throw => proc.job.toList
  | .goto _ | .resolve => []

namespace World

/-- The system after a step of one call. -/
def after (w : World) (index : ℕ) (proc : Process) (eff : Effect) : World :=
  { w with
    store := eff.store
    queue := w.queue ++ eff.enqueued ++ eff.next.returned proc
    procs := w.procs.set index (eff.next.process proc)
    issued := w.issued ++ eff.issued
    log := w.log ++ eff.log }

def step (w : World) : Label → Option World
  | .tick ms => some { w with now := w.now + ms }
  | .createEmail record =>
    if w.store.emails.has record.id then none
    else
      match w.store.createEmail record none w.now with
      | .error _ => none
      | .ok (s', _, _) => some { w with store := s' }
  | .call task =>
    if task.mayCall w.store then some { w with procs := w.procs ++ [{ task := task }] } else none
  | .enqueue job => some { w with queue := w.queue ++ [job] }
  | .deliver index attempt owner leaseSeconds limit =>
    (w.queue[index]?).map fun job => { w with
      queue := w.queue.eraseIdx index
      procs := w.procs ++
        [{ job := some job, task := job.handler attempt owner leaseSeconds limit }] }
  | .act index choice =>
    (w.procs[index]?).bind fun proc =>
      (proc.task.act w.now w.log.length w.issued w.store choice).map (w.after index proc)
  | .crash index =>
    (w.procs[index]?).map fun proc => { w with
      queue := w.queue ++ proc.job.toList
      procs := w.procs.set index { task := .idle } }

/-- Before the first call there is nothing; the clock may show any time. -/
def system : TransitionSystem World Label where
  init w := ∃ now, w = { now := now }
  step := step

end World

/-! ## Steps of calls and other steps -/

/-- A task that has not made a step yet, or makes none any more. -/
def Task.isStart : Task → Bool
  | .idle | .send _ _ .getEmail => true
  | task => task.isCall

/-- A process as it starts: a `processSend` call handles a job for its email, and an event is one
of an email that exists. -/
structure Process.Starting (s : MemoryStore) (x : Process) : Prop where
  start : x.task.isStart = true
  job : ∀ id attempt pc, x.task = .send id attempt pc →
    ∃ jobId, x.job = some (.sendEmail id jobId)
  event : ∀ id status receivedAt pc, x.task = .providerEvent id status receivedAt pc →
    ∃ e, s.emails.get id = some e

/-- What a step that is not a call's does: the store may gain an email without a ledger, the clock
may move, and calls may start or end. -/
structure World.Quiet (w w' : World) : Prop where
  now : w.now ≤ w'.now
  store : w'.store = w.store ∨ ∃ e : EmailRecord, w.store.emails.get e.id = none ∧
    w'.store = { w.store with emails := w.store.emails.set e.id e }
  issued : w'.issued = w.issued
  log : w'.log = w.log
  procs : ∀ (i : ℕ) (x : Process), w'.procs[i]? = some x →
    w.procs[i]? = some x ∨ x.Starting w.store

theorem World.procs_concat {w : World} {y : Process} {i : ℕ} {x : Process}
    (h : (w.procs ++ [y])[i]? = some x) : w.procs[i]? = some x ∨ x = y := by
  rcases Nat.lt_or_ge i w.procs.length with hi | hi
  · rw [List.getElem?_append_left hi] at h
    exact Or.inl h
  · rw [List.getElem?_append_right hi] at h
    right
    have hm := List.mem_of_getElem? h
    exact List.mem_singleton.mp hm

theorem World.procs_set {w : World} {p : ℕ} {y : Process} {i : ℕ} {x : Process}
    (h : (w.procs.set p y)[i]? = some x) : (i ≠ p ∧ w.procs[i]? = some x) ∨ (i = p ∧ x = y) := by
  rw [List.getElem?_set] at h
  split_ifs at h with hp hlt
  · rw [Option.some.injEq] at h
    exact Or.inr ⟨hp.symm, h.symm⟩
  · exact Or.inl ⟨fun heq => hp heq.symm, h⟩

theorem Task.isStart_of_isCall {task : Task} (h : task.isCall = true) : task.isStart = true := by
  cases task with
  | send id attempt pc => cases h
  | _ => first | exact h | rfl

theorem Process.idle_starting (s : MemoryStore) : Process.Starting s { task := .idle } where
  start := rfl
  job _ _ _ h := by cases h
  event _ _ _ _ h := by cases h

theorem Job.handler_starting (job : Job) (attempt : ℕ) (owner : String) (leaseSeconds limit : ℕ)
    (s : MemoryStore) : Process.Starting s
      { job := some job, task := job.handler attempt owner leaseSeconds limit } := by
  cases job with
  | sendEmail id jobId =>
    refine ⟨rfl, fun id' attempt' pc h => ?_, fun _ _ _ _ h => by simp [handler] at h⟩
    simp only [handler, Task.send.injEq] at h
    exact ⟨jobId, by rw [h.1]⟩
  | reconcileOutbox outboxId =>
    exact ⟨rfl, fun _ _ _ h => by simp [handler] at h, fun _ _ _ _ h => by simp [handler] at h⟩

theorem Task.mayCall_starting {task : Task} {s : MemoryStore} (h : task.mayCall s = true) :
    Process.Starting s { task := task } where
  start := by
    cases task with
    | providerEvent id status receivedAt pc =>
      exact Task.isStart_of_isCall (Bool.and_eq_true_iff.mp h).1
    | _ => exact Task.isStart_of_isCall h
  job := by
    rintro id attempt pc rfl
    cases h
  event := by
    rintro id status receivedAt pc rfl
    exact (OrderedMap.has_eq_true_iff _ _).mp (Bool.and_eq_true_iff.mp h).2

/-- A step is a step of a call, or quiet. -/
theorem World.step_cases {w w' : World} {l : Label} (h : w.step l = some w') :
    w.Quiet w' ∨ ∃ p choice proc eff, l = .act p choice ∧ w.procs[p]? = some proc ∧
      proc.task.act w.now w.log.length w.issued w.store choice = some eff ∧
      w' = w.after p proc eff := by
  cases l with
  | tick ms =>
    obtain rfl : _ = w' := by simpa [step] using h
    exact Or.inl ⟨Nat.le_add_right _ _, Or.inl rfl, rfl, rfl, fun _ _ => Or.inl⟩
  | createEmail record =>
    simp only [step] at h
    split_ifs at h with hhas
    obtain rfl : _ = w' := by simpa [MemoryStore.createEmail] using h
    refine Or.inl ⟨le_refl _, Or.inr ⟨record, ?_, rfl⟩, rfl, rfl, fun _ _ => Or.inl⟩
    rw [OrderedMap.get_eq_none_iff]
    simpa using hhas
  | call task =>
    simp only [step] at h
    split_ifs at h with hcall
    obtain rfl : _ = w' := by simpa using h
    refine Or.inl ⟨le_refl _, Or.inl rfl, rfl, rfl, fun i x hx => ?_⟩
    refine (procs_concat hx).imp id ?_
    rintro rfl
    exact Task.mayCall_starting hcall
  | enqueue job =>
    obtain rfl : _ = w' := by simpa [step] using h
    exact Or.inl ⟨le_refl _, Or.inl rfl, rfl, rfl, fun _ _ => Or.inl⟩
  | deliver index attempt owner leaseSeconds limit =>
    obtain ⟨job, -, rfl⟩ := Option.map_eq_some_iff.mp h
    refine Or.inl ⟨le_refl _, Or.inl rfl, rfl, rfl, fun i x hx => ?_⟩
    refine (procs_concat hx).imp id ?_
    rintro rfl
    exact job.handler_starting attempt owner leaseSeconds limit w.store
  | act p choice =>
    obtain ⟨proc, hp, h⟩ := Option.bind_eq_some_iff.mp h
    obtain ⟨eff, he, rfl⟩ := Option.map_eq_some_iff.mp h
    exact Or.inr ⟨p, choice, proc, eff, rfl, hp, he, rfl⟩
  | crash index =>
    obtain ⟨proc, hp, rfl⟩ := Option.map_eq_some_iff.mp h
    refine Or.inl ⟨le_refl _, Or.inl rfl, rfl, rfl, fun i x hx => ?_⟩
    rcases procs_set hx with ⟨-, hx⟩ | ⟨-, rfl⟩
    · exact Or.inl hx
    · exact Or.inr (Process.idle_starting _)

/-! ## A delivery -/

/-- A commit of an email to one address, due at once. -/
def sampleCommit : DeliveryCommit where
  email := {
    id := "email_0123456789abcdef"
    to_ := ["ada@example.com"]
    status := .queued
    lastEvent := .status .queued
    createdAt := 1000
    updatedAt := 1000
    requestHash := "00000000000000000000000000000000000000000000000000000000000000ff"
    attempts := 0 }
  message := {
    id := "email_0123456789abcdef"
    provider := ⟨"aws-ses", "1.0.0", "1.0.0"⟩
    intentDigest := "00000000000000000000000000000000000000000000000000000000000000ff"
    recipientIds := ["rcpt_000000000000000000000a"]
    status := .queued
    createdAt := 1000
    updatedAt := 1000 }
  recipients := [{
    id := "rcpt_000000000000000000000a"
    messageId := "email_0123456789abcdef"
    role := .to_
    ordinal := 0
    address := "ada@example.com"
    status := .queued
    createdAt := 1000
    updatedAt := 1000 }]
  outbox := {
    id := "outbox:v1:email_0123456789abcdef:dispatch-message:0"
    messageId := "email_0123456789abcdef"
    jobType := .dispatchMessage
    generation := 0
    dueAt := 1000
    attempts := 0
    createdAt := 1000
    updatedAt := 1000 }

namespace World

/-- The steps that commit the delivery and hand its job to a worker, the second process. -/
def deliverSample : List Label :=
  [.call (.create (.commit sampleCommit 1)), .act 0 .go,
    .enqueue (.sendEmail "email_0123456789abcdef" none), .deliver 0 1 "worker" 60 100]

/-- The steps of that worker up to the transport. -/
def sendSample : List Label :=
  [.act 1 .go, .act 1 .go, .act 1 (.suppressed false), .act 1 .go,
    .act 1 (.attemptId "attempt_0123456789abcdef012345"), .act 1 .go, .act 1 .go]

end World

end HayaSend
