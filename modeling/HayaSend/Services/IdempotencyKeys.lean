import HayaSend.Adapters.StoreAgreement
import HayaSend.Foundations.Segments

/-!
# Idempotency keys across requests

`create` stores its claim under the hash of the caller's key, `createBatch` stores the claim of
each element under the hash of the key, a colon and the element's index. Both share one claim
table. The elements of batches never share a claim across keys or indices, as an index holds no
colon (`EmailOrigin.batch_claimKey_inj`), but a key may itself end in a colon and a numeral: the
requests are kept apart exactly when no `create` uses the key of a batch element
(`separate_iff`).
-/

namespace HayaSend

/-! ## The keys of the claims -/

/-- Where an email with an idempotency claim came from. -/
inductive EmailOrigin
  | create (idempotencyKey : String)
  | batch (idempotencyKey : String) (index : ℕ)
  deriving DecidableEq, Repr

/-- The text whose hash is the key of the claim. -/
def EmailOrigin.claimKey : EmailOrigin → String
  | create idempotencyKey => idempotencyKey
  | batch idempotencyKey index => idempotencyKey ++ ":" ++ toString index

/-- `parseIdempotencyKey`, of a header that is there. -/
def parseIdempotencyKey (value : String) : Except Failure String :=
  if value.toList.length = 0 ∨ 256 < value.toList.length then
    .error (.validation "Idempotency-Key must contain between 1 and 256 characters.")
  else .ok value

/-- A call of `create` or `createBatch`, with the deliveries `prepareEmail` made of its inputs. -/
inductive EmailCall
  | create (delivery : DeliveryCommit) (idempotencyKey : Option String)
  | createBatch (deliveries : List DeliveryCommit) (idempotencyKey : Option String)

/-- A commit as the service hands it to the store. -/
structure SendRequest where
  origin : Option EmailOrigin
  commit : DeliveryCommit
  deriving DecidableEq

/-- The claim of an email, and the delivery with it. -/
def sendRequest (sha256 : String → String) (nowEpochSeconds : ℕ) (delivery : DeliveryCommit)
    (origin : Option EmailOrigin) : SendRequest where
  origin := origin
  commit := { delivery with
    idempotency := origin.map fun o => {
      keyHash := sha256 o.claimKey
      requestHash := delivery.email.requestHash
      expiresAt := nowEpochSeconds + 86400 } }

namespace EmailCall

def idempotencyKey : EmailCall → Option String
  | create _ key | createBatch _ key => key

/-- The calls the service accepts. -/
def Accepted (call : EmailCall) : Prop :=
  (∀ key, call.idempotencyKey = some key → parseIdempotencyKey key = .ok key) ∧
    match call with
    | create _ _ => True
    | createBatch deliveries _ => deliveries.length ≠ 0 ∧ deliveries.length ≤ 100

/-- The commits of a call. A key that is empty counts as none. -/
def requests (sha256 : String → String) (nowEpochSeconds : ℕ) : EmailCall → List SendRequest
  | create delivery key =>
      [sendRequest sha256 nowEpochSeconds delivery ((key.filter (· != "")).map .create)]
  | createBatch deliveries key => deliveries.mapIdx fun index delivery =>
      sendRequest sha256 nowEpochSeconds delivery ((key.filter (· != "")).map (.batch · index))

/-- The call has an email of the given origin. -/
def HasOrigin (call : EmailCall) : EmailOrigin → Prop
  | .create k => k ≠ "" ∧ ∃ delivery, call = create delivery (some k)
  | .batch k i => k ≠ "" ∧ ∃ deliveries, call = createBatch deliveries (some k) ∧
      i < deliveries.length

end EmailCall

/-! ## Two origins with one claim -/

namespace EmailOrigin

/-- A numeral has no colon. -/
theorem colon_notMem_toString (n : ℕ) : ':' ∉ (toString n).toList := fun h => by
  have := isDigit_of_mem_toString h
  revert this
  decide

theorem toList_claimKey_batch (k : String) (i : ℕ) :
    (batch k i).claimKey.toList = k.toList ++ ':' :: (toString i).toList := by
  simp only [claimKey, String.toList_append, List.append_assoc]
  rfl

/-- **Batches never collide**: the claim of a batch element determines the key and the index. -/
theorem batch_claimKey_inj {k k' : String} {i i' : ℕ}
    (h : (batch k i).claimKey = (batch k' i').claimKey) : k = k' ∧ i = i' := by
  have hlist := congrArg String.toList h
  rw [toList_claimKey_batch, toList_claimKey_batch] at hlist
  obtain ⟨hk, hi⟩ := append_sep_inj_right (colon_notMem_toString i) (colon_notMem_toString i') hlist
  exact ⟨String.toList_injective hk, toString_nat_injective (String.toList_injective hi)⟩

/-- Two origins with one claim are the same, or one is a `create` under the key of a batch
element. -/
theorem eq_of_claimKey {o o' : EmailOrigin} (h : o.claimKey = o'.claimKey)
    (hne : ∀ k k' i, k = (batch k' i).claimKey →
      ¬((o = create k ∧ o' = batch k' i) ∨ (o = batch k' i ∧ o' = create k))) : o = o' := by
  cases o with
  | create k =>
    cases o' with
    | create k' =>
      obtain rfl : k = k' := h
      rfl
    | batch k' i => exact absurd (Or.inl ⟨rfl, rfl⟩) (hne k k' i h)
  | batch k i =>
    cases o' with
    | create k' => exact absurd (Or.inr ⟨rfl, rfl⟩) (hne k' k i h.symm)
    | batch k' i' =>
      obtain ⟨rfl, rfl⟩ := batch_claimKey_inj h
      rfl

end EmailOrigin

/-! ## The emails of a sequence of calls -/

variable {sha256 : String → String} {calls : List (ℕ × EmailCall)}

theorem EmailCall.origin_of_mem_requests {call : EmailCall} {now : ℕ} {r : SendRequest}
    (h : r ∈ call.requests sha256 now) : ∃ delivery origin,
      r = sendRequest sha256 now delivery origin ∧ ∀ o, origin = some o → call.HasOrigin o := by
  cases call with
  | create delivery key =>
    refine ⟨delivery, _, List.mem_singleton.mp h, fun o ho => ?_⟩
    obtain ⟨k, hk, rfl⟩ := Option.map_eq_some_iff.mp ho
    obtain ⟨hk, hne⟩ := Option.filter_eq_some_iff.mp hk
    exact ⟨bne_iff_ne.mp hne, delivery, by rw [hk]⟩
  | createBatch deliveries key =>
    obtain ⟨i, hi, rfl⟩ := List.mem_mapIdx.mp h
    refine ⟨_, _, rfl, fun o ho => ?_⟩
    obtain ⟨k, hk, rfl⟩ := Option.map_eq_some_iff.mp ho
    obtain ⟨hk, hne⟩ := Option.filter_eq_some_iff.mp hk
    exact ⟨bne_iff_ne.mp hne, deliveries, by rw [hk], hi⟩

theorem EmailCall.HasOrigin.exists_request {call : EmailCall} {o : EmailOrigin}
    (h : call.HasOrigin o) (sha256 : String → String) (now : ℕ) :
    ∃ delivery, sendRequest sha256 now delivery (some o) ∈ call.requests sha256 now := by
  have hkey : ∀ k : String, k ≠ "" → (some k).filter (· != "") = some k := fun k hne => by
    rw [Option.filter_some, if_pos (bne_iff_ne.mpr hne)]
  cases o with
  | create k =>
    obtain ⟨hne, delivery, rfl⟩ := h
    refine ⟨delivery, ?_⟩
    rw [requests, hkey k hne]
    exact List.mem_singleton_self _
  | batch k i =>
    obtain ⟨hne, deliveries, rfl, hi⟩ := h
    refine ⟨deliveries[i], List.mem_mapIdx.mpr ⟨i, hi, ?_⟩⟩
    rw [hkey k hne]
    rfl

/-- The commits of a sequence of calls, each with the time of its call. -/
def sentRequests (sha256 : String → String) (calls : List (ℕ × EmailCall)) :
    List (ℕ × SendRequest) :=
  calls.flatMap fun call => (call.2.requests sha256 call.1).map (call.1, ·)

/-- Two emails use one stored claim only when they have one origin. -/
def SeparateClaims (sha256 : String → String) (calls : List (ℕ × EmailCall)) : Prop :=
  ∀ e ∈ sentRequests sha256 calls, ∀ e' ∈ sentRequests sha256 calls, ∀ claim claim',
    e.2.commit.idempotency = some claim → e'.2.commit.idempotency = some claim' →
      claim.keyHash = claim'.keyHash → e.2.origin = e'.2.origin

/-- The store after the given commits, each at its time. -/
def runRequests (log : List (ℕ × SendRequest)) : MemoryStore :=
  log.foldl (fun s e => (observeCommit (·.idempotency) s e.2.commit
    (s.commitDelivery e.2.commit e.1)).1) {}

/-- In every order in which the store may execute the commits, the claim a commit finds under its
key, which alone makes it a replay or a conflict, was stored by an email of the same origin. -/
def SeparateReplays (sha256 : String → String) (calls : List (ℕ × EmailCall)) : Prop :=
  ∀ log : List (ℕ × SendRequest), (∀ e ∈ log, e ∈ sentRequests sha256 calls) →
    ∀ pre e post, log = pre ++ e :: post → ∀ entry,
      ClaimTable.stored (runRequests pre).idempotency e.2.commit = some entry →
        ∃ e' ∈ pre, e'.2.commit.claimEntry = some entry ∧ e'.2.origin = e.2.origin

/-- No `create` uses the key of a batch, a colon and the index of one of the batch's emails. -/
def NoBatchKey (calls : List (ℕ × EmailCall)) : Prop :=
  ∀ k k' i, (∃ call ∈ calls, call.2.HasOrigin (.create k)) →
    (∃ call ∈ calls, call.2.HasOrigin (.batch k' i)) → k ≠ k' ++ ":" ++ toString i

theorem mem_sentRequests {e : ℕ × SendRequest} (h : e ∈ sentRequests sha256 calls) :
    ∃ delivery origin, e.2 = sendRequest sha256 e.1 delivery origin ∧
      ∀ o, origin = some o → ∃ call ∈ calls, call.2.HasOrigin o := by
  obtain ⟨call, hcall, h⟩ := List.mem_flatMap.mp h
  obtain ⟨r, hr, rfl⟩ := List.mem_map.mp h
  obtain ⟨delivery, origin, rfl, ho⟩ := EmailCall.origin_of_mem_requests hr
  exact ⟨delivery, origin, rfl, fun o hoo => ⟨call, hcall, ho o hoo⟩⟩

theorem exists_sentRequest {o : EmailOrigin} (sha256 : String → String)
    (h : ∃ call ∈ calls, call.2.HasOrigin o) : ∃ now delivery,
      (now, sendRequest sha256 now delivery (some o)) ∈ sentRequests sha256 calls := by
  obtain ⟨call, hcall, ho⟩ := h
  obtain ⟨delivery, hd⟩ := ho.exists_request sha256 call.1
  exact ⟨call.1, delivery, List.mem_flatMap.mpr ⟨call, hcall, List.mem_map_of_mem hd⟩⟩

/-- The origin of an email with a claim, and the claim's key. -/
theorem origin_of_claim {now : ℕ} {delivery : DeliveryCommit} {origin : Option EmailOrigin}
    {claim : IdempotencyClaim}
    (h : (sendRequest sha256 now delivery origin).commit.idempotency = some claim) :
    ∃ o, origin = some o ∧ claim.keyHash = sha256 o.claimKey := by
  obtain ⟨o, ho, rfl⟩ := Option.map_eq_some_iff.mp h
  exact ⟨o, ho, rfl⟩

theorem separateClaims_of_noBatchKey (hsha : Function.Injective sha256) (h : NoBatchKey calls) :
    SeparateClaims sha256 calls := by
  intro e he e' he' claim claim' hc hc' hkey
  obtain ⟨d, o?, hr, ho⟩ := mem_sentRequests he
  obtain ⟨d', o?', hr', ho'⟩ := mem_sentRequests he'
  rw [hr] at hc
  rw [hr'] at hc'
  obtain ⟨o, rfl, hk⟩ := origin_of_claim hc
  obtain ⟨o', rfl, hk'⟩ := origin_of_claim hc'
  rw [hk, hk'] at hkey
  have hoo : o = o' := by
    refine EmailOrigin.eq_of_claimKey (hsha hkey) fun k k' i heq hboth => ?_
    rcases hboth with ⟨rfl, rfl⟩ | ⟨rfl, rfl⟩
    · exact h k k' i (ho _ rfl) (ho' _ rfl) heq
    · exact h k k' i (ho' _ rfl) (ho _ rfl) heq
  rw [hr, hr', hoo]
  rfl

theorem noBatchKey_of_separateClaims (h : SeparateClaims sha256 calls) : NoBatchKey calls := by
  rintro k k' i hcreate hbatch rfl
  obtain ⟨now, d, hd⟩ := exists_sentRequest sha256 hcreate
  obtain ⟨now', d', hd'⟩ := exists_sentRequest sha256 hbatch
  have heq := h _ hd _ hd' _ _ rfl rfl rfl
  cases Option.some.inj heq

/-! ## The claims the store finds -/

/-- A stored claim was stored by a commit of the log. -/
theorem stored_of_log {log : List (ℕ × SendRequest)} {key : String} {entry : IdempotencyEntry}
    (h : (runRequests log).idempotency.get key = some entry) :
    entry.keyHash = key ∧ ∃ e ∈ log, e.2.commit.claimEntry = some entry := by
  induction log using List.reverseRecOn with
  | nil => cases h
  | append_singleton log e ih =>
    have hkeep : (runRequests log).idempotency.get key = some entry →
        entry.keyHash = key ∧ ∃ e' ∈ log ++ [e], e'.2.commit.claimEntry = some entry := fun h =>
      let ⟨hk, e', he', hc⟩ := ih h
      ⟨hk, e', List.mem_append_left _ he', hc⟩
    rw [runRequests, List.foldl_append] at h
    change (observeCommit (·.idempotency) (runRequests log) e.2.commit
      ((runRequests log).commitDelivery e.2.commit e.1)).1.idempotency.get key = some entry at h
    cases hres : (runRequests log).commitDelivery e.2.commit e.1 with
    | error f =>
      rw [hres] at h
      exact hkeep h
    | ok p =>
      obtain ⟨s', r⟩ := p
      rw [hres] at h
      change s'.idempotency.get key = some entry at h
      rcases MemoryStore.commitDelivery_idempotency hres with hs | ⟨-, hs⟩
      · rw [hs] at h
        exact hkeep h
      · rw [hs, ClaimTable.record] at h
        cases hc : e.2.commit.claimEntry with
        | none =>
          rw [hc] at h
          exact hkeep h
        | some entry' =>
          rw [hc, OrderedMap.get_set] at h
          split_ifs at h with hk
          · rw [Option.some.injEq] at h
            subst h
            exact ⟨hk.symm, e, List.mem_append_right _ List.mem_cons_self, hc⟩
          · exact hkeep h

theorem separateReplays_of_separateClaims (h : SeparateClaims sha256 calls) :
    SeparateReplays sha256 calls := by
  rintro log hlog pre e post rfl entry hentry
  obtain ⟨claim, hi, hg⟩ := Option.bind_eq_some_iff.mp hentry
  obtain ⟨hkey, e', he', hc⟩ := stored_of_log hg
  refine ⟨e', he', hc, ?_⟩
  obtain ⟨claim', hi', rfl⟩ := Option.map_eq_some_iff.mp hc
  exact h e' (hlog e' (List.mem_append_left _ he'))
    e (hlog e (List.mem_append_right _ List.mem_cons_self)) claim' claim hi' hi hkey

/-- **Requests are kept apart exactly when no `create` uses the key of a batch element.** -/
theorem separate_iff (hsha : Function.Injective sha256) :
    (SeparateClaims sha256 calls ∧ SeparateReplays sha256 calls) ↔ NoBatchKey calls := by
  constructor
  · exact fun h => noBatchKey_of_separateClaims h.1
  · intro h
    have hclaims := separateClaims_of_noBatchKey hsha h
    exact ⟨hclaims, separateReplays_of_separateClaims hclaims⟩

/-! ## A key that looks like a batch element -/

/-- SHA-256 on the keys below. -/
def sampleDigest (text : String) : String :=
  if text = "order" then "3eeb7e96e59ce40f9cb1a089daba079fd699f6867a30f6634af8570967b2375a"
  else if text = "order:0" then "4d01955a1da2989d1381ba74f145e808d0324f1647a6bd127f7c640539fbd352"
  else if text = "order-7" then "df8cf80227ec3237922df0ecd88385c546e4a31bdb8127b033f01e6f21f175df"
  else "#" ++ text

theorem sampleDigest_injective : Function.Injective sampleDigest := by
  have hdigit : ∀ d ∈ ["3eeb7e96e59ce40f9cb1a089daba079fd699f6867a30f6634af8570967b2375a",
      "4d01955a1da2989d1381ba74f145e808d0324f1647a6bd127f7c640539fbd352",
      "df8cf80227ec3237922df0ecd88385c546e4a31bdb8127b033f01e6f21f175df"],
      d.toList.head? ≠ some '#' := by decide
  have hhash : ∀ text : String, ("#" ++ text).toList.head? = some '#' := fun text => by
    rw [String.toList_append]
    rfl
  intro a b h
  unfold sampleDigest at h
  split_ifs at h with ha hb hb' hb'' ha' hb hb' hb'' ha'' hb hb' hb'' hb hb' hb''
  -- two keys of the table, a key of the table and another text, or two other texts
  · exact ha.trans hb.symm
  · exact absurd h (by decide)
  · exact absurd h (by decide)
  · exact absurd (h ▸ hhash b) (hdigit _ (by simp))
  · exact absurd h (by decide)
  · exact ha'.trans hb'.symm
  · exact absurd h (by decide)
  · exact absurd (h ▸ hhash b) (hdigit _ (by simp))
  · exact absurd h (by decide)
  · exact absurd h (by decide)
  · exact ha''.trans hb''.symm
  · exact absurd (h ▸ hhash b) (hdigit _ (by simp))
  · exact absurd (h ▸ hhash a) (hdigit _ (by simp))
  · exact absurd (h ▸ hhash a) (hdigit _ (by simp))
  · exact absurd (h ▸ hhash a) (hdigit _ (by simp))
  · have hlist := congrArg String.toList h
    rw [String.toList_append, String.toList_append] at hlist
    exact String.toList_injective (List.append_cancel_left hlist)

/-- A batch of one email, and a single email under the given key. -/
def orderCalls (key : String) : List (ℕ × EmailCall) :=
  [(1, .createBatch [DeliveryStores.keyedDelivery "f" 0] (some "order")),
    (1, .create (DeliveryStores.keyedDelivery "e" 0) (some key))]

/-- The origins of the emails of these calls. -/
theorem hasOrigin_orderCalls {key : String} {o : EmailOrigin} :
    (∃ call ∈ orderCalls key, call.2.HasOrigin o) →
      o = .batch "order" 0 ∨ o = .create key := by
  rintro ⟨call, hcall, ho⟩
  rcases List.mem_pair.mp hcall with rfl | rfl
  · cases o with
    | create k =>
      obtain ⟨-, _, h⟩ := ho
      cases h
    | batch k i =>
      obtain ⟨-, _, h, hi⟩ := ho
      injection h with hd hk
      rw [← hd] at hi
      obtain rfl : i = 0 := Nat.lt_one_iff.mp hi
      exact Or.inl (by rw [Option.some.inj hk])
  · cases o with
    | create k =>
      obtain ⟨-, _, h⟩ := ho
      injection h with _ hk
      exact Or.inr (by rw [Option.some.inj hk])
    | batch k i =>
      obtain ⟨-, _, h, -⟩ := ho
      cases h

theorem separate_iff_sample : Function.Injective sampleDigest ∧
    SeparateClaims sampleDigest (orderCalls "order-7") ∧
    SeparateReplays sampleDigest (orderCalls "order-7") := by
  refine ⟨sampleDigest_injective, (separate_iff sampleDigest_injective).mpr ?_⟩
  intro k k' i hcreate hbatch
  rcases hasOrigin_orderCalls hcreate with h | h <;> cases h
  rcases hasOrigin_orderCalls hbatch with h | h <;> cases h
  decide

/-- A `create` under the key of the batch's first element is accepted, and replays that element
instead of sending its own email. -/
theorem create_replays_batch_element :
    (∀ call ∈ orderCalls "order:0", call.2.Accepted) ∧
      ¬SeparateClaims sampleDigest (orderCalls "order:0") ∧
      ∃ first second, sentRequests sampleDigest (orderCalls "order:0") = [first, second] ∧
        (observeCommit (·.idempotency) (runRequests [first]) second.2.commit
          ((runRequests [first]).commitDelivery second.2.commit second.1)).2 =
            .replayed "email_0123456789abcdef" := by
  have hcreate : ∃ call ∈ orderCalls "order:0", call.2.HasOrigin (.create "order:0") :=
    ⟨_, List.mem_cons_of_mem _ List.mem_cons_self, by decide, _, rfl⟩
  have hbatch : ∃ call ∈ orderCalls "order:0", call.2.HasOrigin (.batch "order" 0) :=
    ⟨_, List.mem_cons_self, by decide, _, rfl, by decide⟩
  refine ⟨?_, fun h => noBatchKey_of_separateClaims h _ _ _ hcreate hbatch rfl, _, _, rfl, ?_⟩
  · intro call hcall
    rcases List.mem_pair.mp hcall with rfl | rfl
    · exact ⟨fun key hkey => by cases hkey; rfl, by decide, by decide⟩
    · exact ⟨fun key hkey => by cases hkey; rfl, trivial⟩
  · decide +kernel

end HayaSend
