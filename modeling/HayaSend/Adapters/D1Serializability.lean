import HayaSend.Adapters.CloudflareEvents
import HayaSend.Foundations.CallLog
import Mathlib.Data.List.Permutation

/-!
# Concurrent operations in the D1 store

Any number of calls of the delivery operations of `D1DeliveryStore` on one message, interleaved
between their queries. A claim or an update of the email is conditioned on the row that was read. A
ledger commit is conditioned on the revision alone: the revision does not count claims and updates,
and the three queries of a ledger need not see the same rows.

`d1_serializable`: where every ledger commit finds the rows that it read, the records are those of
the serial execution of the committed operations, in the order in which they committed.
-/

namespace HayaSend

inductive D1Operation
  | claimEmailForSend (attempt now : ℕ)
  | updateEmail (updates : EmailUpdates) (fromStatuses : Option (List EmailStatus))
  | ledger (req : LedgerRequest)
  | appendProviderEvent (event : ProviderEventRecord)
  deriving DecidableEq

/-- The records of one message. -/
structure D1Records where
  ledger : DeliveryLedgerState
  events : OrderedMap String ProviderEventRecord
  deriving DecidableEq

/-- An operation alone: the records after it, `none` where it changes nothing. -/
def D1Records.apply (s : D1Records) : D1Operation → Option D1Records
  | .claimEmailForSend attempt now =>
    let email := s.ledger.email
    if attempt ≠ 0 ∧ email.claimable now = true then
      some { s with
        ledger.email := email.claimed (StoreKind.d1.claimCounter attempt email.attempts) now }
    else none
  | .updateEmail updates fromStatuses =>
    if s.ledger.email.updatable fromStatuses then
      some { s with ledger.email := updates.applyTo s.ledger.email }
    else none
  | .ledger req =>
    match req.plan s.ledger with
    | .ok (some write) => (write.writeTo s.ledger).map fun ledger => { s with ledger := ledger }
    | _ => none
  | .appendProviderEvent event =>
    match planProviderEvent s.ledger event with
    | .error _ => none
    | .ok (plan, event) =>
      if s.events.has event.id then none
      else (PlannedWrite.writeTo { plan := plan.toDeliveryLedgerState } s.ledger).map
        fun ledger => ⟨ledger, s.events.set event.id event⟩

/-! ## Calls -/

/-- How far a call is. -/
inductive D1Pc
  /-- `appendProviderEvent` looks for the event. -/
  | replay
  | round (retries : ℕ)
  /-- `appendProviderEvent` looks for the event again, after a round that was not written. -/
  | existing (retries : ℕ)
  | committed
  /-- The call returned or threw without a write. -/
  | ended
  deriving DecidableEq, Repr

/-- `DELIVERY_LEDGER_RETRIES` -/
def D1Pc.deliveryLedgerRetries : ℕ := 8

/-- The round after one that was not written. -/
def D1Pc.retry (retries : ℕ) : D1Pc :=
  if retries + 1 < deliveryLedgerRetries then .round (retries + 1) else .ended

/-- A call, and what its queries have answered in this round. -/
structure D1Client where
  op : D1Operation
  pc : D1Pc
  read : LedgerRead := {}
  deriving DecidableEq

def D1Client.start (op : D1Operation) : D1Client where
  op := op
  pc := match op with
    | .appendProviderEvent _ => .replay
    | _ => .round 0

/-- What a call does after its queries. -/
inductive D1Act
  | writes (rows : LedgerRows) (events : OrderedMap String ProviderEventRecord)
  | goes (pc : D1Pc)
  deriving DecidableEq

/-- The rows, the calls, and the operations that have been written, with the index of the call,
oldest first. -/
structure D1World where
  rows : LedgerRows
  events : OrderedMap String ProviderEventRecord
  clients : List D1Client := []
  log : List (ℕ × D1Operation) := []
  deriving DecidableEq

inductive D1Label
  | start (op : D1Operation)
  | query (i : ℕ) (q : LedgerQuery)
  | go (i : ℕ)
  deriving DecidableEq

namespace D1World

def records (w : D1World) : D1Records := ⟨w.rows.ledger, w.events⟩

/-- The statement or the batch of a round, or a lookup of the event; `none` while a query has not
answered. -/
def act (w : D1World) (c : D1Client) : Option D1Act :=
  match c.pc, c.op with
  | .round _, .claimEmailForSend attempt now =>
    -- a `ValidationError`
    if attempt = 0 then some (.goes .ended)
    else (w.rows.claim .d1 c.read attempt now).map fun
      | some (rows, _) => .writes rows w.events
      | none => .goes .ended
  | .round _, .updateEmail updates fromStatuses => c.read.header.map fun (email, _) =>
    if email.updatable fromStatuses && w.rows.ledger.email == email then
      .writes { w.rows with ledger.email := updates.applyTo email } w.events
    else .goes .ended
  | .round retries, .ledger req => (w.rows.commit .d1 c.read req).map fun
    | .written rows => .writes rows w.events
    | .stale => .goes (.retry retries)
    | .failed _ | .replayed => .goes .ended
  | .replay, .appendProviderEvent event => some <| match event.parse with
    | .error _ => .goes .ended
    | .ok event => .goes (if w.events.has event.id then .ended else .round 0)
  | .round retries, .appendProviderEvent event => c.read.state.map fun read =>
    match w.rows.append w.events event read with
    | .error _ => .goes .ended
    | .ok (some (rows, events)) => .writes rows events
    | .ok none => .goes (.existing retries)
  | .existing retries, .appendProviderEvent event =>
    some (.goes (if w.events.has event.id then .ended else .retry retries))
  | _, _ => none

def step (w : D1World) : D1Label → Option D1World
  | .start op => some { w with clients := w.clients ++ [.start op] }
  | .query i q => (w.clients[i]?).map fun c =>
    { w with clients := w.clients.set i { c with read := w.rows.query c.read q } }
  | .go i => (w.clients[i]?).bind fun c => (w.act c).map fun
    | .writes rows events => {
        rows := rows
        events := events
        clients := w.clients.set i { c with pc := .committed }
        log := w.log ++ [(i, c.op)] }
    | .goes pc => { w with clients := w.clients.set i { c with pc := pc, read := {} } }

/-- The rows and the events that are stored, and no calls. -/
def system (rows : LedgerRows) (events : OrderedMap String ProviderEventRecord) :
    TransitionSystem D1World D1Label where
  init w := w = { rows := rows, events := events }
  step := step

/-- A ledger commit that the revision lets through finds the rows that it read. -/
def readsAreCurrent (w : D1World) : D1Label → Bool
  | .go i => (w.clients[i]?).all fun c =>
    match c.op with
    | .ledger _ | .appendProviderEvent _ => w.rows.readIsCurrent .d1 c.read
    | _ => true
  | _ => true

/-! ## Serial execution -/

variable {rows : LedgerRows} {events : OrderedMap String ProviderEventRecord} {w w' : D1World}
  {c : D1Client} {i : ℕ} {l : D1Label}

/-- What a commit that the revision lets through was planned on. -/
theorem eq_of_readIsCurrent {read : DeliveryLedgerState × ℕ}
    (hcur : w.rows.readIsCurrent .d1 c.read = true) (hread : c.read.state = some read)
    (hrevision : read.2 = w.rows.revision) : read.1 = w.rows.ledger := by
  simp only [LedgerRows.readIsCurrent, StoreKind.isAtomic, Bool.false_or, hread, Option.all_some,
    Bool.or_eq_true, bne_iff_ne, beq_iff_eq] at hcur
  exact hcur.resolve_left (not_not.mpr hrevision)

theorem apply_of_claim {attempt now : ℕ} {sending : EmailRecord} (hattempt : attempt ≠ 0)
    (h : w.rows.claim .d1 c.read attempt now = some (some (rows, sending))) :
    w.records.apply (.claimEmailForSend attempt now) = some ⟨rows.ledger, w.events⟩ := by
  obtain ⟨hclaimable, rfl, rfl⟩ := LedgerRows.claim_eq_some h
  exact if_pos ⟨hattempt, hclaimable⟩

theorem apply_of_commit {req : LedgerRequest} (hcur : w.rows.readIsCurrent .d1 c.read = true)
    (h : w.rows.commit .d1 c.read req = some (.written rows)) :
    w.records.apply (.ledger req) = some ⟨rows.ledger, w.events⟩ := by
  obtain ⟨read, hread, hbatch⟩ := Option.map_eq_some_iff.mp h
  unfold LedgerRows.batch at hbatch
  split at hbatch
  · cases hbatch
  · cases hbatch
  · rename_i write hplan
    split_ifs at hbatch with hrevision
    rw [eq_of_readIsCurrent hcur hread hrevision] at hplan
    split at hbatch
    · cases hbatch
    · rename_i ledger hwrite
      cases hbatch
      simp only [D1Records.apply, records, hplan, hwrite, Option.map_some]

theorem apply_of_append {event : ProviderEventRecord} {read : DeliveryLedgerState × ℕ}
    {events' : OrderedMap String ProviderEventRecord}
    (hcur : w.rows.readIsCurrent .d1 c.read = true) (hread : c.read.state = some read)
    (h : w.rows.append w.events event read = .ok (some (rows, events'))) :
    w.records.apply (.appendProviderEvent event) = some ⟨rows.ledger, events'⟩ := by
  obtain ⟨⟨plan, parsed⟩, hplan, h⟩ := bind_eq_ok.mp h
  simp only at h
  split_ifs at h with hwritten
  · obtain ⟨hrevision, hnew⟩ := Bool.and_eq_true_iff.mp hwritten
    rw [eq_of_readIsCurrent hcur hread (of_decide_eq_true hrevision)] at hplan
    obtain ⟨ledger, hwrite, heq⟩ := Option.map_eq_some_iff.mp ((pure_eq_ok _ _).mp h)
    obtain ⟨rfl, rfl⟩ := Prod.mk.inj heq
    have hnew' : w.events.has parsed.id = false := by simpa using hnew
    simp only [D1Records.apply, records, hplan, hnew', hwrite]
    rfl
  · cases h

/-- **A write** is that of the operation alone, on the records as they stand. -/
theorem apply_of_writes (hcur : w.readsAreCurrent (.go i) = true) (hc : w.clients[i]? = some c)
    (h : w.act c = some (.writes rows events)) :
    w.records.apply c.op = some ⟨rows.ledger, events⟩ := by
  rw [readsAreCurrent, hc, Option.all_some] at hcur
  unfold act at h
  split at h
  · rename_i retries attempt now hpc hop
    rw [hop]
    split_ifs at h with hattempt
    · cases h
    · obtain ⟨claimed, hclaim, h⟩ := Option.map_eq_some_iff.mp h
      match claimed with
      | none => cases h
      | some (claimed, sending) =>
        cases h
        exact apply_of_claim hattempt hclaim
  · rename_i retries updates fromStatuses hpc hop
    rw [hop]
    obtain ⟨⟨email, message, revision⟩, -, h⟩ := Option.map_eq_some_iff.mp h
    simp only at h
    split_ifs at h with hmatch
    rw [Bool.and_eq_true, beq_iff_eq] at hmatch
    obtain ⟨hupdatable, rfl⟩ := hmatch
    cases h
    exact if_pos hupdatable
  · rename_i retries req hpc hop
    rw [hop] at hcur ⊢
    obtain ⟨outcome, hcommit, h⟩ := Option.map_eq_some_iff.mp h
    cases outcome with
    | written rows' =>
      cases h
      exact apply_of_commit hcur hcommit
    | stale => cases h
    | failed e => cases h
    | replayed => cases h
  · obtain h := Option.some.inj h
    split at h <;> cases h
  · rename_i retries event hpc hop
    rw [hop] at hcur ⊢
    obtain ⟨read, hread, h⟩ := Option.map_eq_some_iff.mp h
    split at h
    · cases h
    · rename_i rows' events' happend
      cases h
      exact apply_of_append hcur hread happend
    · cases h
  · cases h
  · cases h

/-- **One step** leaves the records as they are, or logs one operation and applies it. -/
theorem serialStep (hcur : w.readsAreCurrent l = true) (hs : w.step l = some w') :
    TransitionSystem.SerialStep records (fun w => w.log.map Prod.snd) D1Records.apply w w' := by
  cases l with
  | start op =>
    obtain rfl := Option.some.inj hs
    exact Or.inl ⟨rfl, rfl⟩
  | query i q =>
    obtain ⟨c, -, rfl⟩ := Option.map_eq_some_iff.mp hs
    exact Or.inl ⟨rfl, rfl⟩
  | go i =>
    obtain ⟨c, hc, hs⟩ := Option.bind_eq_some_iff.mp hs
    obtain ⟨act, hact, rfl⟩ := Option.map_eq_some_iff.mp hs
    cases act with
    | goes pc => exact Or.inl ⟨rfl, rfl⟩
    | writes rows events =>
      refine Or.inr ⟨c.op, ?_, apply_of_writes hcur hc hact⟩
      exact List.map_append

/-! ## The log -/

/-- The log holds the committed calls, each once. -/
def LogInv (w : D1World) : Prop := CallLog D1Client.op (·.pc = .committed) w.clients w.log

/-- A committed call does nothing more. -/
theorem act_of_committed (h : c.pc = .committed) : w.act c = none := by
  unfold act
  split <;> simp_all

theorem retry_ne_committed (retries : ℕ) : D1Pc.retry retries ≠ .committed := by
  unfold D1Pc.retry
  split_ifs <;> exact D1Pc.noConfusion

theorem goes_ne_committed {pc : D1Pc} (h : w.act c = some (.goes pc)) : pc ≠ .committed := by
  unfold act at h
  split at h
  · split_ifs at h
    · cases h
      decide
    · obtain ⟨claimed, -, h⟩ := Option.map_eq_some_iff.mp h
      split at h <;> cases h
      decide
  · obtain ⟨⟨email, message, revision⟩, -, h⟩ := Option.map_eq_some_iff.mp h
    simp only at h
    split_ifs at h
    cases h
    decide
  · obtain ⟨outcome, -, h⟩ := Option.map_eq_some_iff.mp h
    split at h <;> cases h
    · exact retry_ne_committed _
    · decide
    · decide
  · obtain h := Option.some.inj h
    split at h
    · cases h
      decide
    · cases h
      split_ifs <;> decide
  · obtain ⟨read, -, h⟩ := Option.map_eq_some_iff.mp h
    split at h <;> cases h
    · decide
    · exact D1Pc.noConfusion
  · cases h
    split_ifs
    · decide
    · exact retry_ne_committed _
  · cases h

theorem start_ne_committed (op : D1Operation) : (D1Client.start op).pc ≠ .committed := by
  cases op <;> exact D1Pc.noConfusion

theorem LogInv.step (h : w.LogInv) (hs : w.step l = some w') : w'.LogInv := by
  cases l with
  | start op =>
    obtain rfl := Option.some.inj hs
    exact CallLog.start h (start_ne_committed op)
  | query i q =>
    obtain ⟨c, hc, rfl⟩ := Option.map_eq_some_iff.mp hs
    exact CallLog.set h hc rfl Iff.rfl
  | go i =>
    obtain ⟨c, hc, hs⟩ := Option.bind_eq_some_iff.mp hs
    obtain ⟨act, hact, rfl⟩ := Option.map_eq_some_iff.mp hs
    have hpc : c.pc ≠ .committed := fun hpc => by
      rw [act_of_committed hpc] at hact
      cases hact
    cases act with
    | goes pc => exact CallLog.set h hc rfl (iff_of_false (goes_ne_committed hact) hpc)
    | writes rows events => exact CallLog.commit h hc hpc rfl rfl

theorem LogInv.reachable (h : (system rows events).Reachable w) : w.LogInv := by
  refine h.invariant (I := LogInv) ?_ fun w w' l _ hinv hs => hinv.step hs
  rintro w rfl
  exact CallLog.empty

end D1World

open D1World

/-- **The operations of the D1 store are serializable** where every ledger commit that the revision
lets through finds the rows that it read: the records are those of the serial execution of the
committed operations, each once, in the order in which they committed. The other calls have changed
nothing. -/
theorem d1_serializable {rows : LedgerRows} {events : OrderedMap String ProviderEventRecord}
    {w : D1World}
    (h : (system rows events).ReachableWhere (fun w l => w.readsAreCurrent l = true) w) :
    TransitionSystem.serial D1Records.apply ⟨rows.ledger, events⟩ (w.log.map Prod.snd) =
        some w.records ∧
      (w.log.map Prod.fst).Nodup ∧
      (∀ i op, (i, op) ∈ w.log ↔
        ∃ c, w.clients[i]? = some c ∧ c.op = op ∧ c.pc = .committed) := by
  have hinv := LogInv.reachable h.reachable
  refine ⟨?_, hinv.nodup, fun i op => ⟨hinv.logged i op, ?_⟩⟩
  · refine h.serial_history records (fun w => w.log.map Prod.snd) D1Records.apply ?_
      fun w w' l _ hcur hs => serialStep hcur hs
    rintro w rfl
    exact ⟨rfl, rfl⟩
  · rintro ⟨c, hc, rfl, hpc⟩
    exact hinv.committed i c hc hpc

/-! ## Sample runs -/

/-- A queued message for Cloudflare. -/
def queuedLedger : DeliveryLedgerState :=
  ⟨sampleCommit.email, { sampleCommit.message with provider := cloudflareProvider },
    sampleCommit.recipients, []⟩

/-- The operations in turn; one that changes nothing is passed over. -/
def D1Records.execute (s : D1Records) (ops : List D1Operation) : D1Records :=
  ops.foldl (fun s op => (s.apply op).getD s) s

namespace D1World

/-- An attempt is begun. -/
def beginOperation : D1Operation := .ledger (.begin cloudflareAttempt)

/-- The queries of call `i`. -/
def queries (i : ℕ) : List D1Label := [.query i .header, .query i .recipients, .query i .attempts]

/-- A cancellation whose queries of the recipients and the attempts run before an attempt is begun,
and whose query of the revision runs after it. -/
def tornRead : List D1Label :=
  [.start (.ledger (.localState .canceled 4000)), .start beginOperation,
    .query 0 .recipients, .query 0 .attempts] ++ queries 1 ++ [.go 1, .query 0 .header, .go 0]

/-- An update of the email between the queries of an attempt's begin and its batch. -/
def lostUpdate : List D1Label :=
  [.start beginOperation, .start (.updateEmail { error := some (some "late") } none)] ++
    queries 0 ++ [.query 1 .header, .go 1, .go 0]

/-- The two calls have committed, and neither order of them leaves the records that are stored. -/
def isUnserializable (first second : D1Operation) (w : D1World) : Bool :=
  decide (w.clients.map (·.op) = [first, second]) &&
    (w.clients.all fun c => c.pc == .committed) &&
    (D1Records.execute ⟨queuedLedger, ∅⟩ [first, second] != w.records &&
      D1Records.execute ⟨queuedLedger, ∅⟩ [second, first] != w.records)

theorem exists_unserializable {first second : D1Operation} {ls : List D1Label}
    (h : ((system { ledger := queuedLedger } ∅).run
      { rows := { ledger := queuedLedger }, events := ∅ } ls).any
        (isUnserializable first second) = true) :
    ∃ w, (system { ledger := queuedLedger } ∅).Reachable w ∧
      w.clients.map (·.op) = [first, second] ∧ (∀ c ∈ w.clients, c.pc = .committed) ∧
      ∀ ops, ops.Perm (w.clients.map (·.op)) →
        D1Records.execute ⟨queuedLedger, ∅⟩ ops ≠ w.records := by
  obtain ⟨w, hw, h⟩ := TransitionSystem.exists_reachable_of_run rfl h
  simp only [isUnserializable, Bool.and_eq_true, decide_eq_true_eq, List.all_eq_true,
    beq_iff_eq, bne_iff_ne] at h
  obtain ⟨⟨hops, hcommitted⟩, hforth, hback⟩ := h
  refine ⟨w, hw, hops, hcommitted, fun ops hperm => ?_⟩
  rw [hops] at hperm
  rcases List.perm_pair.mp hperm with rfl | rfl
  · exact hforth
  · exact hback

end D1World

theorem d1_serializable_sample : ∃ w,
    (system { ledger := queuedLedger } ∅).ReachableWhere (fun w l => w.readsAreCurrent l = true) w ∧
      w.log.length = 2 ∧ TransitionSystem.serial D1Records.apply ⟨queuedLedger, ∅⟩
        (w.log.map Prod.snd) = some w.records := by
  have hrun : ((system { ledger := queuedLedger } ∅).runWhere readsAreCurrent
      { rows := { ledger := queuedLedger }, events := ∅ }
      ([.start (.claimEmailForSend 1 1500), .start beginOperation, .query 0 .header, .go 0] ++
        queries 1 ++ [.go 1])).any (fun w => decide (w.log.length = 2)) = true := by
    decide +kernel
  obtain ⟨w, hw, hlength⟩ := TransitionSystem.exists_reachableWhere_of_run rfl hrun
  exact ⟨w, hw, of_decide_eq_true hlength, (d1_serializable hw).1⟩

/-- A torn read lets a cancellation through that overwrites the recipients of a begun attempt; and a
commit overwrites an update of the email that came after its read. -/
theorem d1_not_serializable :
    (∃ w, (system { ledger := queuedLedger } ∅).Reachable w ∧ w.clients.map (·.op) =
        [.ledger (.localState .canceled 4000), beginOperation] ∧
      (∀ c ∈ w.clients, c.pc = .committed) ∧ ∀ ops, ops.Perm (w.clients.map (·.op)) →
        D1Records.execute ⟨queuedLedger, ∅⟩ ops ≠ w.records) ∧
    ∃ w, (system { ledger := queuedLedger } ∅).Reachable w ∧ w.clients.map (·.op) =
        [beginOperation, .updateEmail { error := some (some "late") } none] ∧
      (∀ c ∈ w.clients, c.pc = .committed) ∧ ∀ ops, ops.Perm (w.clients.map (·.op)) →
        D1Records.execute ⟨queuedLedger, ∅⟩ ops ≠ w.records := by
  constructor
  · exact @exists_unserializable _ _ tornRead (by decide +kernel)
  · exact @exists_unserializable _ _ lostUpdate (by decide +kernel)

end HayaSend
