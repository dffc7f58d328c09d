import HayaSend.Core.LedgerInvariant

/-!
# The rows of one message

A ledger operation of a store reads the ledger of a message, plans on what it read and writes the
plan back. Most stores do this in one piece. The D1 store reads the email row with the message row
and the revision of the ledger, the recipients and the attempts in three queries, and writes a
batch that is guarded by the revision alone (`LedgerRows.batch`). A claim is a write of the email
row that no revision counts.
-/

namespace HayaSend

inductive StoreKind
  | memory
  | postgres
  | d1
  | dynamo
  deriving DecidableEq, Repr

/-- The attempts counter `claimEmailForSend` writes, from the receive count of the job and the
counter it finds. -/
def StoreKind.claimCounter (attempt stored : ℕ) : StoreKind → ℕ
  | .memory | .postgres | .d1 => max (stored + 1) attempt
  | .dynamo => attempt

/-- Whether a ledger operation reads and writes in one piece: without waiting in between, under
row locks, or in a transaction conditioned on all it read. -/
def StoreKind.isAtomic : StoreKind → Bool
  | .memory | .postgres | .dynamo => true
  | .d1 => false

/-! ## Requests -/

/-- A ledger operation. -/
inductive LedgerRequest
  | begin (attempt : AttemptRecord)
  | complete (input : AttemptCompletion)
  | localState (status : LocalStatus) (updatedAt : ℕ)
  deriving DecidableEq, Repr

/-- What an operation writes: a plan, with the attempt row it inserts or updates. -/
structure PlannedWrite where
  plan : DeliveryLedgerState
  putAttempt : Option AttemptRecord := none
  updateAttempt : Option AttemptRecord := none
  deriving DecidableEq, Repr

/-- What an operation makes of the ledger it read; `none` when the operation was done before. -/
def LedgerRequest.plan (s : DeliveryLedgerState) :
    LedgerRequest → Except Failure (Option PlannedWrite)
  | .begin input => do
    let attempt ← input.parse
    match s.attempts.find? fun candidate =>
        candidate.id == attempt.id || candidate.sequence == attempt.sequence with
    | some existing => do
      throwIf (existing != attempt)
        (.conflict "Delivery attempt identity or sequence is already in use.")
      return none
    | none => do
      let (plan, attempt) ← planAttemptStart s attempt
      return some { plan := plan.toDeliveryLedgerState, putAttempt := some attempt }
  | .complete input =>
    match s.attempts.find? (·.id == input.attemptId) with
    | none => .error (.conflict "Delivery attempt does not exist.")
    | some existing =>
      if existing.status != .submitting then do
        throwIf (!(existing.status == input.status.toAttemptStatus &&
            existing.completedAt == some input.completedAt &&
            existing.providerMessageId == input.providerMessageId &&
            existing.diagnosticCategory == input.diagnosticCategory))
          (.conflict "Delivery attempt has already completed differently.")
        return none
      else do
        let (plan, attempt) ← planAttemptCompletion s input
        return some { plan := plan.toDeliveryLedgerState, updateAttempt := some attempt }
  | .localState status updatedAt => do
    let plan ← planLocalRecipientState s status updatedAt
    return some { plan := plan.toDeliveryLedgerState }

/-- The move an operation plans, on the ledger it read. -/
inductive LedgerRequest.Planned (s : DeliveryLedgerState) : LedgerRequest → PlannedWrite → Prop
  | begin (a : AttemptRecord) : attemptMatches s a = true → s.AllQueued →
      Planned s (.begin a) { plan := s.started a, putAttempt := some a }
  | complete (i : ℕ) (a : AttemptRecord) (input : AttemptCompletion) : s.attempts[i]? = some a →
      a.id = input.attemptId → a.status = .submitting →
      Planned s (.complete input)
        { plan := s.completed i a input, updateAttempt := some (completedAttempt input a) }
  | localState (status : LocalStatus) (updatedAt : ℕ) :
      (∀ a ∈ s.attempts, a.status ≠ .submitting) → (∀ r ∈ s.recipients, r.status ≠ .sending) →
      Planned s (.localState status updatedAt) { plan := s.localized status updatedAt }

theorem LedgerRequest.planned {s : DeliveryLedgerState} (ho : s.Ordered) {req : LedgerRequest}
    {w : PlannedWrite} (h : req.plan s = .ok (some w)) : req.Planned s w := by
  cases req with
  | begin input =>
    obtain ⟨attempt, hparse, h⟩ := bind_eq_ok.mp h
    obtain ⟨-, rfl⟩ := AttemptRecord.parse_eq_ok.mp hparse
    split at h
    · obtain ⟨_, -, h⟩ := bind_eq_ok.mp h
      cases h
    · obtain ⟨⟨plan, a'⟩, hplan, hw⟩ := bind_eq_ok.mp h
      obtain ⟨-, -, hm, hq, rfl, hs⟩ := planAttemptStart_eq_ok ho hplan
      rw [pure_eq_ok, Option.some.injEq] at hw
      obtain rfl := hw
      rw [hs]
      exact .begin a' hm hq
  | complete input =>
    simp only [plan] at h
    split at h
    · cases h
    · split_ifs at h
      · obtain ⟨_, -, h⟩ := bind_eq_ok.mp h
        cases h
      · obtain ⟨⟨plan, a'⟩, hplan, hw⟩ := bind_eq_ok.mp h
        obtain ⟨i, a, -, hi, hid, -, hst, -, rfl, hs⟩ := planAttemptCompletion_eq_ok ho hplan
        rw [pure_eq_ok, Option.some.injEq] at hw
        obtain rfl := hw
        rw [hs]
        exact .complete i a input hi hid hst
  | localState status updatedAt =>
    obtain ⟨plan, hplan, h⟩ := bind_eq_ok.mp h
    obtain ⟨-, hno, hns, hs⟩ := planLocalRecipientState_eq_ok ho hplan
    rw [pure_eq_ok, Option.some.injEq] at h
    obtain rfl := h
    rw [hs]
    exact .localState status updatedAt hno hns

theorem LedgerRequest.Planned.move {s : DeliveryLedgerState} {req : LedgerRequest}
    {w : PlannedWrite} (h : req.Planned s w) : LedgerMove s w.plan := by
  cases h with
  | begin a hm hq => exact .started a hm hq
  | complete i a input hi hid hst => exact .completed i a input hi hid hst
  | localState status updatedAt hno hns => exact .localized status updatedAt hno hns

/-- No ledger operation touches the attempts counter. -/
theorem LedgerRequest.Planned.email_attempts {s : DeliveryLedgerState} {req : LedgerRequest}
    {w : PlannedWrite} (h : req.Planned s w) : w.plan.email.attempts = s.email.attempts := by
  cases h with
  | begin => rfl
  | complete i a input =>
    show (completeEmail _ input).attempts = _
    unfold completeEmail
    split <;> rfl
  | localState => rfl

/-! ## Writing -/

/-- The rows after a write: those of the email, the message and the recipients are replaced, one
attempt row is inserted or updated. `none` when the inserted row violates a constraint. -/
def PlannedWrite.writeTo (w : PlannedWrite) (rows : DeliveryLedgerState) :
    Option DeliveryLedgerState :=
  if w.putAttempt.any fun a => rows.attempts.any fun b => b.id == a.id || b.sequence == a.sequence
  then none
  else some { w.plan with
    attempts := (rows.attempts.map fun b =>
      (w.updateAttempt.filter fun a => b.id = a.id).getD b) ++ w.putAttempt.toList }

/-- On the rows it was planned on, a write leaves the plan. -/
theorem LedgerRequest.Planned.writeTo {s : DeliveryLedgerState} (hn : (s.attempts.map (·.id)).Nodup)
    {req : LedgerRequest} {w : PlannedWrite} (h : req.Planned s w) :
    w.writeTo s = some w.plan := by
  cases h with
  | begin a hm hq =>
    simp only [attemptMatches, Bool.and_eq_true, Bool.not_eq_true'] at hm
    simp only [PlannedWrite.writeTo, Option.any_some, hm.1.2, Bool.false_eq_true, if_false,
      Option.filter_none, Option.getD_none, List.map_id', Option.toList_some]
    rfl
  | complete i a input hi hid hst =>
    have hmap : (s.attempts.map fun b =>
        ((some (completedAttempt input a)).filter fun a' => b.id = a'.id).getD b) =
          s.attempts.set i (completedAttempt input a) := by
      rw [← map_replace_eq_set hn hi]
      refine List.map_congr_left fun b _ => ?_
      have hid' : (completedAttempt input a).id = a.id := rfl
      rw [Option.filter_some, hid']
      by_cases hb : b.id = a.id
      · rw [if_pos hb, if_pos (decide_eq_true hb), Option.getD_some]
      · rw [if_neg hb, if_neg (by simpa using hb), Option.getD_none]
    simp only [PlannedWrite.writeTo, Option.any_none, Bool.false_eq_true, if_false, hmap,
      Option.toList_none, List.append_nil]
    rfl
  | localState status updatedAt =>
    simp only [PlannedWrite.writeTo, Option.any_none, Bool.false_eq_true, if_false,
      Option.filter_none, Option.getD_none, List.map_id', Option.toList_none, List.append_nil]
    rfl

/-! ## Reading, and what a store does with a request -/

structure LedgerRows where
  ledger : DeliveryLedgerState
  /-- `delivery_ledger_versions`, raised by every ledger write. -/
  revision : ℕ := 0
  deriving DecidableEq, Repr

/-- The answers of the three queries of `getStoredDeliveryState` that have come in. -/
structure LedgerRead where
  header : Option (EmailRecord × MessageRecord × ℕ) := none
  recipients : Option (List RecipientRecord) := none
  attempts : Option (List AttemptRecord) := none
  deriving DecidableEq, Repr

inductive LedgerQuery
  | header
  | recipients
  | attempts
  deriving DecidableEq, Repr

/-- The answer of a query, at the time it is run. -/
def LedgerRows.query (rows : LedgerRows) (read : LedgerRead) : LedgerQuery → LedgerRead
  | .header => { read with
      header := some (rows.ledger.email, rows.ledger.message, rows.revision) }
  | .recipients => { read with recipients := some rows.ledger.recipients }
  | .attempts => { read with attempts := some rows.ledger.attempts }

/-- `getStoredDeliveryState`: the ledger that was read, and its revision. -/
def LedgerRead.state (read : LedgerRead) : Option (DeliveryLedgerState × ℕ) := do
  let (email, message, revision) ← read.header
  let recipients ← read.recipients
  let attempts ← read.attempts
  return (⟨email, message, recipients, attempts⟩, revision)

/-- How one round of a ledger operation ends. -/
inductive LedgerOutcome
  | failed (e : Failure)
  | replayed
  /-- Another write came first. -/
  | stale
  | written (rows : LedgerRows)
  deriving DecidableEq

namespace LedgerRows

/-- The batch of `commitLedgerPlan`, planned on a ledger that was read before. -/
def batch (rows : LedgerRows) (req : LedgerRequest) (read : DeliveryLedgerState × ℕ) :
    LedgerOutcome :=
  match req.plan read.1 with
  | .error e => .failed e
  | .ok none => .replayed
  | .ok (some w) =>
    if read.2 = rows.revision then
      match w.writeTo rows.ledger with
      | none => .stale
      | some ledger => .written ⟨ledger, rows.revision + 1⟩
    else .stale

/-- One round of a ledger operation; `none` while a query has not answered. -/
def commit (k : StoreKind) (rows : LedgerRows) (read : LedgerRead) (req : LedgerRequest) :
    Option LedgerOutcome :=
  if k.isAtomic then some (rows.batch req (rows.ledger, rows.revision))
  else read.state.map (rows.batch req)

/-- The claim of an email row that was read, written only over that row. -/
def claimOver (k : StoreKind) (rows : LedgerRows) (attempt now : ℕ) (email : EmailRecord) :
    Option (LedgerRows × EmailRecord) :=
  if email.claimable now && rows.ledger.email == email then
    let sending := email.claimed (k.claimCounter attempt email.attempts) now
    some ({ rows with ledger := { rows.ledger with email := sending } }, sending)
  else none

/-- `claimEmailForSend`; the D1 store reads the row in a query of its own. -/
def claim (k : StoreKind) (rows : LedgerRows) (read : LedgerRead) (attempt now : ℕ) :
    Option (Option (LedgerRows × EmailRecord)) :=
  if k.isAtomic then some (rows.claimOver k attempt now rows.ledger.email)
  else read.header.map fun header => rows.claimOver k attempt now header.1

/-- The counter of a claim is above the one that is stored. -/
def counterRises (k : StoreKind) (rows : LedgerRows) (attempt : ℕ) : Bool :=
  decide (rows.ledger.email.attempts < k.claimCounter attempt rows.ledger.email.attempts)

/-- A batch that the revision lets through finds the rows it was planned on. -/
def readIsCurrent (k : StoreKind) (rows : LedgerRows) (read : LedgerRead) : Bool :=
  k.isAtomic || read.state.all fun r => r.2 != rows.revision || r.1 == rows.ledger

variable {k : StoreKind} {rows rows' : LedgerRows} {read : LedgerRead}

theorem claimOver_eq_some {attempt now : ℕ} {email sending : EmailRecord}
    (h : rows.claimOver k attempt now email = some (rows', sending)) :
    rows.ledger.email.claimable now = true ∧
      sending = rows.ledger.email.claimed
        (k.claimCounter attempt rows.ledger.email.attempts) now ∧
      rows' = { rows with ledger := { rows.ledger with email := sending } } := by
  unfold claimOver at h
  split_ifs at h with hc
  rw [Bool.and_eq_true, beq_iff_eq] at hc
  obtain ⟨hc, rfl⟩ := hc
  rw [Option.some.injEq, Prod.mk.injEq] at h
  obtain ⟨rfl, rfl⟩ := h
  exact ⟨hc, rfl, rfl⟩

/-- A claim that succeeds writes over the row as it stands. -/
theorem claim_eq_some {attempt now : ℕ} {sending : EmailRecord}
    (h : rows.claim k read attempt now = some (some (rows', sending))) :
    rows.ledger.email.claimable now = true ∧
      sending = rows.ledger.email.claimed
        (k.claimCounter attempt rows.ledger.email.attempts) now ∧
      rows' = { rows with ledger := { rows.ledger with email := sending } } := by
  unfold claim at h
  by_cases hk : k.isAtomic
  · rw [if_pos hk] at h
    exact claimOver_eq_some (Option.some.inj h)
  · rw [if_neg hk] at h
    obtain ⟨header, -, h⟩ := Option.map_eq_some_iff.mp h
    exact claimOver_eq_some h

/-- **A ledger write whose read is current** leaves what was planned on the rows as they stand. -/
theorem commit_written (hinv : LedgerInv rows.ledger) {req : LedgerRequest}
    (hcur : rows.readIsCurrent k read = true)
    (h : rows.commit k read req = some (.written rows')) :
    ∃ w, req.Planned rows.ledger w ∧ rows'.ledger = w.plan := by
  have hbatch : ∀ r : DeliveryLedgerState × ℕ, (r.2 = rows.revision → r.1 = rows.ledger) →
      rows.batch req r = .written rows' → ∃ w, req.Planned rows.ledger w ∧ rows'.ledger = w.plan := by
    intro r hr hb
    unfold batch at hb
    split at hb
    · cases hb
    · cases hb
    · rename_i w hplan
      split_ifs at hb with hrev
      rw [hr hrev] at hplan
      have hplanned := LedgerRequest.planned hinv.ordered hplan
      rw [hplanned.writeTo hinv.attempt_ids] at hb
      cases hb
      exact ⟨w, hplanned, rfl⟩
  unfold commit at h
  split_ifs at h with hk
  · exact hbatch _ (fun _ => rfl) (Option.some.inj h)
  · obtain ⟨r, hr, hb⟩ := Option.map_eq_some_iff.mp h
    refine hbatch r (fun hrev => ?_) hb
    simp only [readIsCurrent, hk, Bool.false_or, hr, Option.all_some, Bool.or_eq_true,
      bne_iff_ne, beq_iff_eq] at hcur
    exact hcur.resolve_left (not_not.mpr hrev)

/-- A round that is replayed found the operation done in what it read. -/
theorem commit_replayed {req : LedgerRequest} (h : rows.commit k read req = some .replayed) :
    ∃ s : DeliveryLedgerState, req.plan s = .ok none ∧
      (s.attempts = rows.ledger.attempts ∨ read.attempts = some s.attempts) := by
  have hbatch : ∀ r : DeliveryLedgerState × ℕ, rows.batch req r = .replayed →
      req.plan r.1 = .ok none := by
    intro r hb
    unfold batch at hb
    split at hb
    · cases hb
    · assumption
    · split_ifs at hb
      split at hb <;> cases hb
  unfold commit at h
  split_ifs at h
  · exact ⟨rows.ledger, hbatch _ (Option.some.inj h), Or.inl rfl⟩
  · obtain ⟨r, hr, hb⟩ := Option.map_eq_some_iff.mp h
    refine ⟨r.1, hbatch r hb, Or.inr ?_⟩
    obtain ⟨header, -, hr⟩ := Option.bind_eq_some_iff.mp hr
    obtain ⟨recipients, -, hr⟩ := Option.bind_eq_some_iff.mp hr
    obtain ⟨attempts, hattempts, hr⟩ := Option.bind_eq_some_iff.mp hr
    obtain rfl := Option.some.inj hr
    exact hattempts

end LedgerRows

/-- An attempt is only started again where an attempt with its id is found. -/
theorem LedgerRequest.mem_of_begin_replayed {s : DeliveryLedgerState} {a : AttemptRecord}
    (h : (LedgerRequest.begin a).plan s = .ok none) : a ∈ s.attempts := by
  obtain ⟨attempt, hparse, h⟩ := bind_eq_ok.mp h
  obtain ⟨-, rfl⟩ := AttemptRecord.parse_eq_ok.mp hparse
  split at h
  · rename_i existing hfind
    obtain ⟨_, heq, -⟩ := bind_eq_ok.mp h
    rw [throwIf_eq_ok, bne_eq_false_iff_eq] at heq
    exact heq ▸ List.mem_of_find?_eq_some hfind
  · obtain ⟨⟨plan, a'⟩, -, hw⟩ := bind_eq_ok.mp h
    cases hw

end HayaSend
