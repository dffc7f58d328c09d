import HayaSend.Adapters.DeliveryStoreRefinement

/-!
# The delivery stores agree

The four delivery stores are run side by side on the same commits, with the removal of expired
items from the DynamoDB table at any moment in between. The in-memory store and Postgres answer
every commit as promised (`memory_postgres_agree`). D1 inserts over an expired claim it does not
remove, and DynamoDB reads one it does not recognise as expired, so all four agree exactly when no
commit meets an expired claim of its key (`stores_agree_iff`).
-/

namespace HayaSend

/-! ## The stores side by side -/

/-- The four stores, and the claims their callers are promised. -/
structure DeliveryStores where
  claims : ClaimTable := ∅
  memory : MemoryStore := {}
  postgres : DeliveryTables := {}
  d1 : D1Tables := {}
  dynamo : DynamoTable := {}

/-- A call of `commitDelivery` on every store, or the removal of an expired item by DynamoDB. -/
inductive StoreCall
  | commitDelivery (input : DeliveryCommit) (nowEpochSeconds : ℕ)
  | expireClaim (keyHash : String) (nowEpochSeconds : ℕ)

namespace StoreCall

def now : StoreCall → ℕ
  | commitDelivery _ t | expireClaim _ t => t

/-- The delivery of a commit. -/
def delivery : StoreCall → Option DeliveryCommit
  | commitDelivery input _ => some input
  | expireClaim _ _ => none

end StoreCall

namespace DeliveryStores

def commitMemory (s : DeliveryStores) (input : DeliveryCommit) (now : ℕ) :
    MemoryStore × CommitOutcome :=
  observeCommit (·.idempotency) s.memory input (s.memory.commitDelivery input now)

def commitPostgres (s : DeliveryStores) (input : DeliveryCommit) (now : ℕ) :
    DeliveryTables × CommitOutcome :=
  observeCommit (·.idempotencyClaims) s.postgres input
    (PostgresDeliveryStore.commitDelivery s.postgres input now)

def commitD1 (s : DeliveryStores) (input : DeliveryCommit) (now : ℕ) : D1Tables × CommitOutcome :=
  observeCommit (·.idempotencyClaims) s.d1 input (D1DeliveryStore.commitDelivery s.d1 input now)

def commitDynamo (s : DeliveryStores) (input : DeliveryCommit) (now : ℕ) :
    DynamoTable × CommitOutcome :=
  observeCommit (·.idempotency) s.dynamo input (DynamoStore.commitDelivery s.dynamo input now)

/-- One call. -/
def apply (s : DeliveryStores) : StoreCall → DeliveryStores
  | .commitDelivery input now => {
      claims := (s.claims.commit input now).1
      memory := (s.commitMemory input now).1
      postgres := (s.commitPostgres input now).1
      d1 := (s.commitD1 input now).1
      dynamo := (s.commitDynamo input now).1 }
  | .expireClaim keyHash now => { s with dynamo := s.dynamo.expireClaim keyHash now }

/-- The stores after a sequence of calls from empty ones. -/
def run (calls : List StoreCall) : DeliveryStores := calls.foldl apply {}

/-- The in-memory store and Postgres answer the call as promised. -/
def AgreeMemoryPostgres (s : DeliveryStores) : StoreCall → Prop
  | .commitDelivery input now =>
    (s.commitMemory input now).2 = (s.claims.commit input now).2 ∧
      (s.commitPostgres input now).2 = (s.claims.commit input now).2
  | .expireClaim _ _ => True

/-- Every store answers the call as promised. -/
def Agree (s : DeliveryStores) : StoreCall → Prop
  | .commitDelivery input now =>
    (s.commitMemory input now).2 = (s.claims.commit input now).2 ∧
      (s.commitPostgres input now).2 = (s.claims.commit input now).2 ∧
      (s.commitD1 input now).2 = (s.claims.commit input now).2 ∧
      (s.commitDynamo input now).2 = (s.claims.commit input now).2
  | .expireClaim _ _ => True

/-- The call does not commit a valid delivery whose key has an expired claim. -/
def NoExpiredClaim (s : DeliveryStores) : StoreCall → Prop
  | .commitDelivery input now => ∀ c, validateDeliveryCommit input now = .ok c →
      ∀ entry, s.claims.stored c = some entry → now < entry.expiresAt
  | .expireClaim _ _ => True

/-- What holds of every call of a sequence, in the state it meets. -/
def Always (p : DeliveryStores → StoreCall → Prop) (calls : List StoreCall) : Prop :=
  ∀ pre call post, calls = pre ++ call :: post → p (run pre) call

end DeliveryStores

/-- The sequences of calls the stores receive: times that never decrease, identities of its own
for each commit, and no more recipients than an email may have. -/
structure StoreCall.WellFormed (calls : List StoreCall) : Prop where
  times : (calls.map now).Pairwise (· ≤ ·)
  fresh : (calls.filterMap delivery).Pairwise DeliveryCommit.Apart
  sizes : ∀ c ∈ calls.filterMap delivery, c.recipients.length ≤ D1DeliveryStore.maxRecipients

namespace DeliveryStores

open StoreCall

variable {s : DeliveryStores} {calls : List StoreCall} {call : StoreCall}
  {past : List DeliveryCommit} {p : DeliveryStores → StoreCall → Prop} {last : ℕ}

theorem run_concat (calls : List StoreCall) (call : StoreCall) :
    run (calls ++ [call]) = (run calls).apply call := by
  rw [run, List.foldl_append]
  rfl

theorem always_nil : Always p [] := by
  intro pre call post h
  simp at h

theorem always_concat : Always p (calls ++ [call]) ↔ Always p calls ∧ p (run calls) call := by
  constructor
  · refine fun h => ⟨fun pre c post heq => h pre c (post ++ [call]) ?_, h calls call [] rfl⟩
    rw [heq, List.append_assoc, List.cons_append]
  · rintro ⟨h, hlast⟩ pre c post heq
    rcases List.eq_nil_or_concat post with rfl | ⟨post, c', rfl⟩
    · obtain ⟨rfl, hc⟩ := List.append_inj' heq rfl
      obtain rfl : call = c := by simpa using hc
      exact hlast
    · rw [List.concat_eq_append, ← List.cons_append, ← List.append_assoc] at heq
      exact h pre c post (List.append_inj' heq rfl).1

theorem wellFormed_concat (h : WellFormed (calls ++ [call])) :
    WellFormed calls ∧ (∀ c ∈ calls, c.now ≤ call.now) ∧
      ∀ input, call.delivery = some input →
        (∀ c ∈ calls.filterMap delivery, c.Apart input) ∧
          input.recipients.length ≤ D1DeliveryStore.maxRecipients := by
  obtain ⟨htimes, hfresh, hsizes⟩ := h
  rw [List.map_append, List.pairwise_append] at htimes
  rw [List.filterMap_append, List.pairwise_append] at hfresh
  rw [List.filterMap_append] at hsizes
  refine ⟨⟨htimes.1, hfresh.1, fun c hc => hsizes c (List.mem_append_left _ hc)⟩,
    fun c hc => htimes.2.2 _ (List.mem_map_of_mem hc) _ (by simp), fun input hi => ?_⟩
  have hmem : input ∈ [call].filterMap delivery := by simp [hi]
  exact ⟨fun c hc => hfresh.2.2 c hc input hmem, hsizes input (List.mem_append_right _ hmem)⟩

/-! ## What the stores hold after a sequence of calls -/

/-- The in-memory store holds the past deliveries and the promised claims, and Postgres holds what
the in-memory store does. -/
structure Kept (s : DeliveryStores) (past : List DeliveryCommit) : Prop where
  delivered : s.memory.Delivered past
  claims : s.memory.idempotency = s.claims
  postgres : s.postgres.Mirrors s.memory

/-- D1 and DynamoDB, too, hold what the in-memory store does. -/
structure InSync (s : DeliveryStores) (past : List DeliveryCommit) (last : ℕ) : Prop extends
    Kept s past where
  d1 : s.d1.Mirrors s.memory
  dynamo : s.dynamo.Mirrors s.memory last

theorem inSync_empty : InSync {} [] last where
  delivered := ⟨MemoryStore.inv_empty, by simp, by simp, by simp, by simp, by simp⟩
  claims := rfl
  postgres := ⟨⟨rfl, rfl, rfl, rfl⟩, fun _ => rfl⟩
  d1 := ⟨⟨⟨rfl, rfl, rfl, rfl⟩, fun _ => rfl⟩, by simp⟩
  dynamo := ⟨rfl, rfl, fun _ _ => rfl, rfl, fun _ => Or.inl rfl⟩

/-- A commit on the in-memory store and on Postgres. -/
theorem Kept.commitDelivery (h : s.Kept past) {input : DeliveryCommit}
    (hapart : ∀ c ∈ past, c.Apart input) (now : ℕ) :
    (s.apply (.commitDelivery input now)).Kept (past ++ [input]) ∧
      s.memory.Settled (s.apply (.commitDelivery input now)).memory input now ∧
      s.AgreeMemoryPostgres (.commitDelivery input now) := by
  obtain ⟨m', hm', hs, hd⟩ := h.delivered.commitDelivery hapart now
  obtain ⟨t', ht', hmirrors⟩ :=
    PostgresDeliveryStore.commitDelivery_mirrors h.postgres h.delivered hapart hs
  have hmemory : (s.apply (.commitDelivery input now)).memory = m' := congrArg Prod.fst hm'
  have hpostgres : (s.apply (.commitDelivery input now)).postgres = t' := congrArg Prod.fst ht'
  refine ⟨⟨hmemory ▸ hd, ?_, hpostgres ▸ hmemory ▸ hmirrors⟩, hmemory ▸ hs, ?_, ?_⟩
  · rw [hmemory, hs.claims, h.claims]
    rfl
  · rw [commitMemory, hm', h.claims]
  · rw [commitPostgres, ht', h.claims]

theorem kept_run (hw : WellFormed calls) : (run calls).Kept (calls.filterMap delivery) := by
  induction calls using List.reverseRecOn with
  | nil => exact (@inSync_empty 0).toKept
  | append_singleton calls call ih =>
    obtain ⟨hw', -, hfresh⟩ := wellFormed_concat hw
    rw [run_concat, List.filterMap_append]
    cases call with
    | expireClaim _ _ =>
      obtain ⟨hdelivered, hclaims, hpostgres⟩ := ih hw'
      refine ⟨?_, hclaims, hpostgres⟩
      rw [show [expireClaim _ _].filterMap delivery = [] from rfl, List.append_nil]
      exact hdelivered
    | commitDelivery input now => exact ((ih hw').commitDelivery (hfresh input rfl).1 now).1

/-- **The in-memory store and Postgres answer every commit as promised**, whatever claims have
expired. -/
theorem memory_postgres_agree (hw : WellFormed calls) : Always AgreeMemoryPostgres calls := by
  induction calls using List.reverseRecOn with
  | nil => exact always_nil
  | append_singleton calls call ih =>
    obtain ⟨hw', -, hfresh⟩ := wellFormed_concat hw
    refine always_concat.mpr ⟨ih hw', ?_⟩
    cases call with
    | expireClaim _ _ => trivial
    | commitDelivery input now =>
      exact ((kept_run hw').commitDelivery (hfresh input rfl).1 now).2.2

/-- The call keeps the stores in sync and is answered alike by all of them, unless it meets an
expired claim. -/
theorem InSync.apply (h : s.InSync past last) (hle : last ≤ call.now)
    (hfresh : ∀ input, call.delivery = some input → (∀ c ∈ past, c.Apart input) ∧
      input.recipients.length ≤ D1DeliveryStore.maxRecipients)
    (hexpired : s.NoExpiredClaim call) :
    (s.apply call).InSync (past ++ call.delivery.toList) call.now ∧ s.Agree call := by
  cases call with
  | expireClaim keyHash now =>
    refine ⟨⟨⟨?_, h.claims, h.postgres⟩, h.d1, h.dynamo.expireClaim hle keyHash⟩, trivial⟩
    rw [StoreCall.delivery, Option.toList_none, List.append_nil]
    exact h.delivered
  | commitDelivery input now =>
    obtain ⟨hapart, hsize⟩ := hfresh input rfl
    obtain ⟨hkept, hs, hagree⟩ := h.toKept.commitDelivery hapart now
    have hnow : last ≤ now := hle
    have hexpired' : validateDeliveryCommit input now = .ok input → ∀ entry,
        ClaimTable.stored s.memory.idempotency input = some entry → now < entry.expiresAt := by
      rw [h.claims]
      exact hexpired input
    obtain ⟨d', hd', hd1⟩ :=
      D1DeliveryStore.commitDelivery_mirrors h.d1 h.delivered hapart hsize hs hexpired'
    obtain ⟨y', hy', hdynamo⟩ :=
      DynamoStore.commitDelivery_mirrors h.dynamo hnow h.delivered hapart hs hexpired'
    have hd1' : (s.apply (.commitDelivery input now)).d1 = d' := congrArg Prod.fst hd'
    have hdynamo' : (s.apply (.commitDelivery input now)).dynamo = y' := congrArg Prod.fst hy'
    refine ⟨⟨hkept, hd1' ▸ hd1, hdynamo' ▸ hdynamo⟩, hagree.1, hagree.2, ?_, ?_⟩
    · rw [commitD1, hd', h.claims]
    · rw [commitDynamo, hy', h.claims]

/-- A sequence of calls that meets no expired claim leaves the stores in sync. -/
theorem inSync_run (hw : WellFormed calls) (hexpired : Always NoExpiredClaim calls)
    (hlast : ∀ c ∈ calls, c.now ≤ last) :
    (run calls).InSync (calls.filterMap delivery) last := by
  induction calls using List.reverseRecOn generalizing last with
  | nil => exact inSync_empty
  | append_singleton calls call ih =>
    obtain ⟨hw', htimes, hfresh⟩ := wellFormed_concat hw
    obtain ⟨hexpired', hcall⟩ := always_concat.mp hexpired
    have h := ((ih hw' hexpired' htimes).apply le_rfl hfresh hcall).1
    rw [run_concat, List.filterMap_append]
    have hd : [call].filterMap delivery = call.delivery.toList := by
      cases hd : call.delivery <;> simp [hd]
    rw [hd]
    exact { h with dynamo := h.dynamo.mono (hlast call (by simp)) }

/-- **All four stores agree exactly when no commit meets an expired claim of its key.** -/
theorem stores_agree_iff (hw : WellFormed calls) :
    Always Agree calls ↔ Always NoExpiredClaim calls := by
  induction calls using List.reverseRecOn with
  | nil => exact ⟨fun _ => always_nil, fun _ => always_nil⟩
  | append_singleton calls call ih =>
    obtain ⟨hw', htimes, hfresh⟩ := wellFormed_concat hw
    rw [always_concat, always_concat, ih hw']
    refine and_congr_right fun hexpired => ?_
    have hsync := inSync_run hw' hexpired htimes
    refine ⟨fun hagree => ?_, fun hcall => (hsync.apply le_rfl hfresh hcall).2⟩
    cases call with
    | expireClaim _ _ => trivial
    | commitDelivery input now =>
      intro c hv entry hst
      obtain ⟨rfl, -⟩ := validateDeliveryCommit_eq_ok hv
      by_contra hnot
      -- the claim has expired: the promise is a new delivery, and D1 refuses it
      obtain ⟨hapart, hsize⟩ := hfresh input rfl
      have hd1 := hagree.2.2.1
      rw [← hsync.claims] at hst hd1
      rw [commitD1, D1DeliveryStore.commitDelivery_expired hsync.d1 hsync.delivered hapart hsize hv
        hst (Nat.le_of_not_lt hnot)] at hd1
      have hl : ClaimTable.live (run calls).memory.idempotency input now = none := by
        rw [ClaimTable.live, hst, Option.filter_some, if_neg (by simpa using hnot)]
      simp only [ClaimTable.commit, hv, hl] at hd1
      cases hd1

/-! ## A key used again after its claim expired -/

/-- A delivery to one address under a key, with identities that end in the given letter. -/
def keyedDelivery (letter : String) (expiresAt : ℕ) : DeliveryCommit where
  email := {
    id := "email_0123456789abcde" ++ letter
    to_ := ["ada@example.com"]
    status := .queued
    lastEvent := .status .queued
    createdAt := 1000
    updatedAt := 1000
    requestHash := "00000000000000000000000000000000000000000000000000000000000000ff"
    attempts := 0 }
  message := {
    id := "email_0123456789abcde" ++ letter
    provider := ⟨"aws-ses", "1.0.0", "1.0.0"⟩
    intentDigest := "00000000000000000000000000000000000000000000000000000000000000ff"
    recipientIds := ["rcpt_000000000000000000000" ++ letter]
    status := .queued
    createdAt := 1000
    updatedAt := 1000 }
  recipients := [{
    id := "rcpt_000000000000000000000" ++ letter
    messageId := "email_0123456789abcde" ++ letter
    role := .to_
    ordinal := 0
    address := "ada@example.com"
    status := .queued
    createdAt := 1000
    updatedAt := 1000 }]
  outbox := {
    id := "outbox:v1:email_0123456789abcde" ++ letter ++ ":dispatch-message:0"
    messageId := "email_0123456789abcde" ++ letter
    jobType := .dispatchMessage
    generation := 0
    dueAt := 1000
    attempts := 0
    createdAt := 1000
    updatedAt := 1000 }
  idempotency := some {
    keyHash := "key"
    requestHash := "00000000000000000000000000000000000000000000000000000000000000ff"
    expiresAt := expiresAt }

/-- Two commits under one key, at the given times, each with a claim for a day. -/
def sameKeyCalls (first second : ℕ) : List StoreCall :=
  [.commitDelivery (keyedDelivery "f" (first + 86400)) first,
    .commitDelivery (keyedDelivery "e" (second + 86400)) second]

theorem keyedDelivery_apart (a b : ℕ) : (keyedDelivery "f" a).Apart (keyedDelivery "e" b) := by
  have hemail : "email_0123456789abcde" ++ "f" ≠ "email_0123456789abcde" ++ "e" := by decide
  have hrecipient : List.Disjoint ["rcpt_000000000000000000000" ++ "f"]
      ["rcpt_000000000000000000000" ++ "e"] := List.disjoint_singleton.mpr (by decide)
  exact ⟨hemail, hrecipient⟩

theorem keyedDelivery_size (letter : String) (a : ℕ) :
    (keyedDelivery letter a).recipients.length ≤ D1DeliveryStore.maxRecipients := by
  have hone : 1 ≤ D1DeliveryStore.maxRecipients := by decide
  exact hone

theorem deliveries_sameKeyCalls (first second : ℕ) : (sameKeyCalls first second).filterMap delivery =
    [keyedDelivery "f" (first + 86400), keyedDelivery "e" (second + 86400)] := by
  simp [sameKeyCalls, delivery]

theorem wellFormed_sameKeyCalls {first second : ℕ} (h : first ≤ second) :
    WellFormed (sameKeyCalls first second) where
  times := by simpa [sameKeyCalls, StoreCall.now] using h
  fresh := by
    rw [deliveries_sameKeyCalls, List.pairwise_pair]
    exact keyedDelivery_apart _ _
  sizes := by
    intro c hc
    rw [deliveries_sameKeyCalls, List.mem_pair] at hc
    rcases hc with rfl | rfl
    · exact keyedDelivery_size _ _
    · exact keyedDelivery_size _ _

/-- A retry before the claim expires is answered alike by every store. -/
theorem stores_agree_iff_sample : WellFormed (sameKeyCalls 1 86400) ∧
    Always Agree (sameKeyCalls 1 86400) := by
  have hw : WellFormed (sameKeyCalls 1 86400) := wellFormed_sameKeyCalls (by decide)
  have hall : ∀ {s : DeliveryStores} {input now},
      (s.claims.stored input).all (fun e => decide (now < e.expiresAt)) = true →
        s.NoExpiredClaim (.commitDelivery input now) := by
    intro s input now h c hv entry hst
    rw [(validateDeliveryCommit_eq_ok hv).1] at h
    rw [hst] at h
    exact of_decide_eq_true h
  have hfirst : Always NoExpiredClaim ([] ++ [.commitDelivery (keyedDelivery "f" (1 + 86400)) 1]) :=
    always_concat.mpr ⟨always_nil, hall rfl⟩
  refine ⟨hw, (stores_agree_iff hw).mpr (always_concat.mpr ⟨hfirst, hall ?_⟩)⟩
  decide +kernel

/-- A retry after the claim has expired: the in-memory store creates the new email, and D1 and
DynamoDB do not. -/
theorem expired_key_disagrees : WellFormed (sameKeyCalls 1 86401) ∧
    ¬Always Agree (sameKeyCalls 1 86401) := by
  refine ⟨wellFormed_sameKeyCalls (by decide), fun h => ?_⟩
  have := h [.commitDelivery (keyedDelivery "f" 86401) 1]
    (.commitDelivery (keyedDelivery "e" 172801) 86401) [] rfl
  revert this
  unfold Agree
  decide +kernel

end DeliveryStores

end HayaSend
