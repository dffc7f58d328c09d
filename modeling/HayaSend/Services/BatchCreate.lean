import HayaSend.Services.CreateReplay
import HayaSend.Services.IdempotencyKeys

/-!
# Batches

`EmailService.createBatch` prepares every element before it commits any. The commits then run on
their own, each by its own claim, and all of them run: an element that the store refuses does not
take back the others. Where the ids drawn are unused, a commit finds the claims and the deliveries
that decide it as they were before the batch (`Unused.committed`), so a batch that is refused has
added nothing exactly when all its elements were decided already (`refused_batch_adds_nothing_iff`).
-/

namespace HayaSend

/-! ## The batch -/

/-- `${idempotencyKey}:${index}` -/
def batchKey (idempotencyKey : Option String) (index : ℕ) : Option String :=
  (idempotencyKey.filter (· != "")).map fun key => key ++ ":" ++ toString index

/-- Why a batch rejects: before or at the commit of some element, or at the publication of an event
after all of them are committed. -/
inductive BatchRejection
  | refused (failure : Failure)
  | unpublished (failure : Failure)
  deriving DecidableEq, Repr

/-- What a commit of `commitPreparedEmail` returns, with the delivery it was for. -/
abbrev CommitResult := Except Failure (DeliveryCommit × DeliveryCommitResult)

structure BatchOutcome where
  store : MemoryStore
  effects : List CreateEffect := []
  result : Except BatchRejection (List CreateEmailResult)

/-- One element: its delivery is made, which may fail, and committed. -/
def commitElement (s : MemoryStore) (nowEpochSeconds : ℕ) (delivery : Except Failure DeliveryCommit) :
    MemoryStore × CommitResult :=
  match delivery with
  | .error e => (s, .error e)
  | .ok d =>
    match s.commitDelivery d nowEpochSeconds with
    | .error e => (s, .error e)
    | .ok (s', created) => (s', .ok (d, created))

/-- The commits of all elements, in their order. -/
def commitElements (s : MemoryStore) (nowEpochSeconds : ℕ) :
    List (Except Failure DeliveryCommit) → MemoryStore × List CommitResult
  | [] => (s, [])
  | delivery :: deliveries =>
    let first := commitElement s nowEpochSeconds delivery
    let rest := commitElements first.1 nowEpochSeconds deliveries
    (rest.1, first.2 :: rest.2)

/-- The effects of an element, where it was committed. -/
def CommitResult.effects (c : Collaborators) : CommitResult → List CreateEffect
  | .error _ => []
  | .ok (d, created) => (afterCommit c d.email created).1

/-- The result of a batch whose elements are all committed. -/
def publishElements (c : Collaborators) (commits : List (DeliveryCommit × DeliveryCommitResult)) :
    Except BatchRejection (List CreateEmailResult) :=
  match commits.mapM fun commit => (afterCommit c commit.1.email commit.2).2 with
  | .error e => .error (.unpublished e)
  | .ok results => .ok results

/-- The preparation of all elements. -/
def prepareBatch (p : Platform) (options : EmailServiceOptions) (c : Collaborators)
    (uuid : ℕ → ℕ → String) (inputs : List SendEmailInput) (idempotencyKey : Option String)
    (now : ℕ) : Except Failure (List PreparedEmail) := do
  throwIf (inputs.isEmpty || decide (100 < inputs.length))
    (.validation "A batch must contain between 1 and 100 emails.")
  throwIf (decide (maxSerializedEmailBytes < (Json.arr (inputs.map fun input =>
      input.toJson (input.attachments.map (·.map EmailAttachmentInput.toJson)))
      ).stringify.utf8ByteSize))
    (.validation "The serialized batch request must not exceed 9 MiB.")
  inputs.zipIdx.mapM fun (input, i) =>
    prepareEmail p options c (createId "email" (uuid i 0)) input (batchKey idempotencyKey i) now

/-- The deliveries of the elements; each draws the ids of its recipients. -/
def batchDeliveries (p : Platform) (options : EmailServiceOptions) (uuid : ℕ → ℕ → String)
    (prepared : List PreparedEmail) : List (Except Failure DeliveryCommit) :=
  prepared.mapIdx fun i email => email.delivery p options fun j => createId "rcpt" (uuid i (j + 1))

/-- `createBatch`; the first commit that fails decides the result, before any publication. -/
def EmailService.createBatch (p : Platform) (options : EmailServiceOptions) (c : Collaborators)
    (uuid : ℕ → ℕ → String) (s : MemoryStore) (inputs : List SendEmailInput)
    (idempotencyKey : Option String) (now : ℕ) : BatchOutcome :=
  match prepareBatch p options c uuid inputs idempotencyKey now with
  | .error e => { store := s, result := .error (.refused e) }
  | .ok prepared =>
    let commits := commitElements s (epochSeconds now) (batchDeliveries p options uuid prepared)
    { store := commits.1
      effects := commits.2.flatMap (CommitResult.effects c)
      result := match commits.2.mapM id with
        | .error e => .error (.refused e)
        | .ok committed => publishElements c committed }

/-! ## Unused ids -/

namespace MemoryStore

/-- The store holds nothing of a delivery and refers nowhere to its ids. -/
structure Unused (s : MemoryStore) (d : DeliveryCommit) : Prop extends Free s d where
  unclaimed : ∀ key entry, s.idempotency.get key = some entry → entry.emailId ≠ d.message.id
  unlisted : ∀ k m, s.deliveryMessages.get k = some m → ∀ r ∈ d.recipients, r.id ∉ m.recipientIds
  unindexed : ∀ k id, s.outboxByMessage.get k = some id → id ≠ d.outbox.id

variable {s s' : MemoryStore} {d d' : DeliveryCommit}

theorem unused_iff : s.Unused d ↔ s.emails.get d.email.id = none ∧
    s.deliveryMessages.get d.message.id = none ∧
    (∀ r ∈ d.recipients, s.deliveryRecipients.get r.id = none) ∧
    (∀ e ∈ s.deliveryRecipients.entries, e.2.messageId ≠ d.message.id) ∧
    s.outboxItems.get d.outbox.id = none ∧
    (∀ e ∈ s.outboxItems.entries, e.2.messageId ≠ d.message.id) ∧
    (∀ e ∈ s.idempotency.entries, e.2.emailId ≠ d.message.id) ∧
    (∀ e ∈ s.deliveryMessages.entries, ∀ r ∈ d.recipients, r.id ∉ e.2.recipientIds) ∧
    ∀ e ∈ s.outboxByMessage.entries, e.2 ≠ d.outbox.id := by
  constructor
  · intro h
    exact ⟨h.email, h.message, h.recipient, OrderedMap.forall_get_iff.mp h.position, h.item,
      OrderedMap.forall_get_iff.mp h.message_item, OrderedMap.forall_get_iff.mp h.unclaimed,
      OrderedMap.forall_get_iff.mp h.unlisted, OrderedMap.forall_get_iff.mp h.unindexed⟩
  · rintro ⟨hemail, hmessage, hrecipient, hposition, hitem, hmessageItem, hunclaimed, hunlisted,
      hunindexed⟩
    exact ⟨⟨hemail, hmessage, hrecipient, OrderedMap.forall_get_iff.mpr hposition, hitem,
      OrderedMap.forall_get_iff.mpr hmessageItem⟩, OrderedMap.forall_get_iff.mpr hunclaimed,
      OrderedMap.forall_get_iff.mpr hunlisted, OrderedMap.forall_get_iff.mpr hunindexed⟩

instance : Decidable (s.Unused d) := decidable_of_iff _ unused_iff.symm

/-- The commit of a delivery leaves the ids of another one unused. -/
theorem Unused.committed (h : s.Unused d') (hcons : d'.Consistent) (hc : Committed s s' d)
    (hclaims : s'.idempotency = ClaimTable.record s.idempotency d) (hapart : d.Apart d') :
    s'.Unused d' := by
  have hmessage : d'.message.id ≠ d.message.id := by
    rw [← hcons.email_id, ← hc.consistent.email_id]
    exact hapart.1.symm
  have houtbox : d'.outbox.id ≠ d.outbox.id := by
    intro hid
    refine hmessage ?_
    rw [← hcons.outbox_fields.1, ← hc.consistent.outbox_fields.1]
    exact hcons.outbox_valid.messageId_eq hc.consistent.outbox_valid hid
  have hrecipient : ∀ r ∈ d'.recipients, r.id ∉ d.recipients.map (·.id) := fun r hr hmem =>
    hapart.2 hmem (List.mem_map_of_mem hr)
  exact {
    email := by
      rw [hc.emails, OrderedMap.get_set_ne _ _ (hcons.email_id ▸ hmessage)]
      exact h.email
    message := by
      rw [hc.messages, OrderedMap.get_set_ne _ _ hmessage]
      exact h.message
    recipient := by
      intro r hr
      rw [hc.recipients, OrderedMap.get_setAll_of_notMem (hrecipient r hr)]
      exact h.recipient r hr
    position := by
      intro k r hr
      by_cases hk : k ∈ d.recipients.map (·.id)
      · obtain ⟨r', hr', rfl⟩ := List.mem_map.mp hk
        rw [hc.get_recipient hr', Option.some.injEq] at hr
        rw [← hr, (hc.consistent.recipient hr').1]
        exact hmessage.symm
      · rw [hc.recipients, OrderedMap.get_setAll_of_notMem hk] at hr
        exact h.position k r hr
    item := by
      rw [hc.items, OrderedMap.get_set_ne _ _ houtbox]
      exact h.item
    message_item := by
      intro k o ho
      rw [hc.items, OrderedMap.get_set] at ho
      split_ifs at ho
      · rw [← Option.some.inj ho, hc.consistent.outbox_fields.1]
        exact hmessage.symm
      · exact h.message_item k o ho
    unclaimed := by
      intro key entry hentry
      rw [hclaims, ClaimTable.record] at hentry
      split at hentry
      · exact h.unclaimed key entry hentry
      · rename_i own hown
        rw [OrderedMap.get_set] at hentry
        split_ifs at hentry
        · obtain ⟨claim, -, rfl⟩ := Option.map_eq_some_iff.mp hown
          rw [← Option.some.inj hentry]
          exact fun heq => hmessage (hc.consistent.email_id ▸ heq).symm
        · exact h.unclaimed key entry hentry
    unlisted := by
      intro k m hm r hr
      rw [hc.messages, OrderedMap.get_set] at hm
      split_ifs at hm
      · rw [← Option.some.inj hm, ← hc.consistent.recipient_ids.mem_iff]
        exact hrecipient r hr
      · exact h.unlisted k m hm r hr
    unindexed := by
      intro k id hid
      rw [hc.by_message, OrderedMap.get_set] at hid
      split_ifs at hid
      · rw [← Option.some.inj hid]
        exact houtbox.symm
      · exact h.unindexed k id hid }

/-- The commit of a delivery with unused ids does not touch whether another one can be read. -/
theorem Unused.deliveryResult_isSome (h : s.Unused d) (hc : Committed s s' d) {k : String}
    (hk : k ≠ d.message.id) :
    (s'.deliveryResult k true).isSome = (s.deliveryResult k true).isSome := by
  have houtbox : s'.outboxOf k = s.outboxOf k := by
    rw [outboxOf, outboxOf, hc.by_message, OrderedMap.get_set_ne _ _ hk, hc.items]
    cases hid : s.outboxByMessage.get k with
    | none => rfl
    | some id => exact OrderedMap.get_set_ne _ _ (h.unindexed k id hid)
  have hrecipients : ∀ m, s.deliveryMessages.get k = some m →
      s'.recipientsOf m = s.recipientsOf m := by
    intro m hm
    refine mapM_option_congr fun id hid => ?_
    rw [hc.recipients, OrderedMap.get_setAll_of_notMem]
    intro hmem
    obtain ⟨r, hr, rfl⟩ := List.mem_map.mp hmem
    exact h.unlisted k m hm r hr hid
  simp only [deliveryResult, hc.emails, hc.messages, OrderedMap.get_set_ne _ _ hk, houtbox,
    Option.bind_eq_bind, Option.pure_def]
  cases s.emails.get k with
  | none => rfl
  | some e =>
    cases hm : s.deliveryMessages.get k with
    | none => rfl
    | some m =>
      simp only [Option.bind_some, hrecipients m hm]
      cases s.outboxOf k with
      | none => rfl
      | some o => cases s.recipientsOf m <;> rfl

end MemoryStore

/-! ## The elements, as the store stands before the batch -/

/-- The element would be refused: its delivery is not made or does not pass the checks, its key is
taken by another request, or the delivery of its claim cannot be read. -/
def isRefused (s : MemoryStore) (now : ℕ) (delivery : Except Failure DeliveryCommit) : Bool :=
  match delivery with
  | .error _ => true
  | .ok d =>
    match validateDeliveryCommit d now with
    | .error _ => true
    | .ok c => (ClaimTable.live s.idempotency c now).any fun entry =>
      (c.idempotency.any fun claim => entry.requestHash != claim.requestHash) ||
        (s.deliveryResult entry.emailId true).isNone

/-- The element would be added: it passes the checks, and no live claim decides it. -/
def isNew (s : MemoryStore) (now : ℕ) (delivery : Except Failure DeliveryCommit) : Bool :=
  match delivery with
  | .error _ => false
  | .ok d =>
    match validateDeliveryCommit d now with
    | .error _ => false
    | .ok c => (ClaimTable.live s.idempotency c now).isNone

/-- Two elements draw different ids and have different keys. -/
def Separate (x y : Except Failure DeliveryCommit) : Prop :=
  ∀ d d', x = .ok d → y = .ok d' → d.Apart d' ∧
    ∀ claim claim', d.idempotency = some claim → d'.idempotency = some claim' →
      claim.keyHash ≠ claim'.keyHash

section Commit

variable {s s' : MemoryStore} {now : ℕ} {x : Except Failure DeliveryCommit}

/-- **What the commit of one element does**, which draws unused ids. -/
inductive ElementCommit (s : MemoryStore) (now : ℕ) (x : Except Failure DeliveryCommit) : Prop
  | refused (e : Failure) (hrefused : isRefused s now x = true) (hnew : isNew s now x = false)
      (hc : commitElement s now x = (s, .error e))
  | replayed (r : DeliveryCommit × DeliveryCommitResult) (hrefused : isRefused s now x = false)
      (hnew : isNew s now x = false) (hc : commitElement s now x = (s, .ok r))
  | added (d : DeliveryCommit) (s' : MemoryStore) (r : DeliveryCommit × DeliveryCommitResult)
      (hx : x = .ok d) (hrefused : isRefused s now x = false) (hnew : isNew s now x = true)
      (hc : commitElement s now x = (s', .ok r)) (hcommitted : MemoryStore.Committed s s' d)
      (hclaims : s'.idempotency = ClaimTable.record s.idempotency d)

theorem elementCommit (now : ℕ) (hunused : ∀ d, x = .ok d → d.Consistent → s.Unused d) :
    ElementCommit s now x := by
  cases x with
  | error e => exact .refused e rfl rfl rfl
  | ok d =>
    rcases ClaimTable.answer s.idempotency d now with ⟨e, hv, -⟩ | ⟨claim, entry, hv, hi, hg, hl,
      hr, -⟩ | ⟨claim, entry, hv, hi, hg, hl, hr, -⟩ | ⟨hv, hl, -⟩
    · refine .refused e ?_ ?_ ?_
      · simp only [isRefused, hv]
      · simp only [isNew, hv]
      · simp only [commitElement, MemoryStore.commitDelivery, hv]
        rfl
    · have hlive := ClaimTable.live_eq_some.mpr ⟨claim, hi, hg, hl⟩
      refine .refused keyConflict ?_ ?_ ?_
      · simp only [isRefused, hv, hlive, Option.any_some, hi, bne_iff_ne.mpr hr, Bool.true_or]
      · simp only [isNew, hv, hlive]
        rfl
      · simp only [commitElement, MemoryStore.commitDelivery_live hv hi hg hl, if_pos hr]
    · have hlive := ClaimTable.live_eq_some.mpr ⟨claim, hi, hg, hl⟩
      have hcommit := MemoryStore.commitDelivery_live hv hi hg hl
      rw [if_neg (not_not.mpr hr)] at hcommit
      have hnew : isNew s now (.ok d) = false := by
        simp only [isNew, hv, hlive]
        rfl
      cases hres : s.deliveryResult entry.emailId true with
      | none =>
        rw [hres] at hcommit
        obtain ⟨e, he⟩ : ∃ e, s.commitDelivery d now = .error e := ⟨_, hcommit⟩
        refine .refused e ?_ hnew ?_
        · simp only [isRefused, hv, hlive, Option.any_some, hres, Option.isNone_none, Bool.or_true]
        · simp only [commitElement, he]
      | some r =>
        rw [hres] at hcommit
        refine .replayed (d, r) ?_ hnew ?_
        · simp [isRefused, hv, hlive, hi, hres, hr]
        · simp only [commitElement, hcommit]
    · have hcons := (validateDeliveryCommit_eq_ok hv).2
      obtain ⟨s', hs', hclaims⟩ :=
        MemoryStore.commitDelivery_new hv hl (hunused d rfl hcons).toFree
      have hcommitted : MemoryStore.Committed s s' d := by
        rcases MemoryStore.commitDelivery_eq_ok hs' with ⟨-, hrep⟩ | ⟨hcom, -⟩
        · cases hrep
        · exact hcom
      refine .added d s' _ rfl ?_ ?_ (by simp only [commitElement, hs']; rfl) hcommitted hclaims
      · simp only [isRefused, hv, hl, Option.any_none]
      · simp only [isNew, hv, hl, Option.isNone_none]

/-- The commit of a delivery decides no other element. -/
theorem decided_of_committed {d d' : DeliveryCommit} (h : s.Unused d)
    (hc : MemoryStore.Committed s s' d)
    (hclaims : s'.idempotency = ClaimTable.record s.idempotency d)
    (hkeys : ∀ claim claim', d.idempotency = some claim → d'.idempotency = some claim' →
      claim.keyHash ≠ claim'.keyHash) :
    isRefused s' now (.ok d') = isRefused s now (.ok d') ∧
      isNew s' now (.ok d') = isNew s now (.ok d') := by
  cases hv : validateDeliveryCommit d' now with
  | error e => simp only [isRefused, isNew, hv, and_self]
  | ok c' =>
    obtain ⟨rfl, -⟩ := validateDeliveryCommit_eq_ok hv
    have hlive : ClaimTable.live s'.idempotency d' now = ClaimTable.live s.idempotency d' now := by
      cases hi' : d'.idempotency with
      | none => simp only [ClaimTable.live, ClaimTable.stored, hi', Option.bind_none]
      | some claim' =>
        simp only [ClaimTable.live, ClaimTable.stored, hi', Option.bind_some, hclaims,
          ClaimTable.record, DeliveryCommit.claimEntry]
        cases hi : d.idempotency with
        | none => rfl
        | some claim =>
          simp only [Option.map_some, OrderedMap.get_set_ne _ _ (hkeys claim claim' hi hi').symm]
    simp only [isRefused, isNew, hv, hlive, and_true]
    cases hentry : ClaimTable.live s.idempotency d' now with
    | none => rfl
    | some entry =>
      obtain ⟨claim, -, hg, -⟩ := ClaimTable.live_eq_some.mp hentry
      have hsome := h.deliveryResult_isSome hc (h.unclaimed _ _ hg)
      rw [Option.any_some, Option.any_some, ← Option.not_isSome, ← Option.not_isSome, hsome]

end Commit

/-! ## All elements -/

/-- The elements draw unused ids and differ in ids and keys. -/
structure DrawsUnused (s : MemoryStore) (xs : List (Except Failure DeliveryCommit)) : Prop where
  unused : ∀ d, .ok d ∈ xs → d.Consistent → s.Unused d
  separate : xs.Pairwise Separate

/-- **What the commits of all elements do**, by what the store held before the first. -/
structure ElementsCommitted (s : MemoryStore) (now : ℕ) (xs : List (Except Failure DeliveryCommit))
    (out : MemoryStore × List CommitResult) : Prop where
  refused : (∃ e, out.2.mapM id = .error e) ↔ ∃ x ∈ xs, isRefused s now x = true
  kept : (∀ x ∈ xs, isNew s now x = false) → out.1 = s
  added : (∃ x ∈ xs, isNew s now x = true) →
    ∃ id, s.emails.get id = none ∧ out.1.emails.get id ≠ none
  stays : ∀ id, s.emails.get id ≠ none → out.1.emails.get id ≠ none

theorem mapM_cons_error {x : CommitResult} {xs : List CommitResult} :
    (∃ e, (x :: xs).mapM id = .error e) ↔ (∃ e, x = .error e) ∨ ∃ e, xs.mapM id = .error e := by
  rw [List.mapM_cons]
  cases x with
  | error e => simp
  | ok r =>
    cases xs.mapM id with
    | error e => simp
    | ok rs => simp

theorem elementsCommitted (now : ℕ) {s : MemoryStore} {xs : List (Except Failure DeliveryCommit)}
    (h : DrawsUnused s xs) : ElementsCommitted s now xs (commitElements s now xs) := by
  induction xs generalizing s with
  | nil =>
    exact {
      refused := by simp [commitElements, pure, Except.pure]
      kept := fun _ => rfl
      added := by simp
      stays := fun _ hid => hid }
  | cons x xs ih =>
    obtain ⟨hx, hxs⟩ := List.pairwise_cons.mp h.separate
    have hunused : ∀ d, x = .ok d → d.Consistent → s.Unused d := by
      rintro d rfl hcons
      exact h.unused d List.mem_cons_self hcons
    rcases elementCommit now hunused with ⟨e, hrefused, hnew, hc⟩ |
      ⟨r, hrefused, hnew, hc⟩ | ⟨d, s', r, rfl, hrefused, hnew, hc, hcommitted, hclaims⟩
    · obtain ⟨hrefs, hkept, hadded, hstays⟩ :=
        ih ⟨fun d hd => h.unused d (List.mem_cons_of_mem _ hd), hxs⟩
      simp only [commitElements, hc]
      exact {
        refused := by simp [hrefused]
        kept := fun hold => hkept fun y hy => hold y (List.mem_cons_of_mem _ hy)
        added := by
          rintro ⟨y, hy, hynew⟩
          rcases List.mem_cons.mp hy with rfl | hy
          · rw [hnew] at hynew
            cases hynew
          · exact hadded ⟨y, hy, hynew⟩
        stays := hstays }
    · obtain ⟨hrefs, hkept, hadded, hstays⟩ :=
        ih ⟨fun d hd => h.unused d (List.mem_cons_of_mem _ hd), hxs⟩
      simp only [commitElements, hc]
      exact {
        refused := by
          rw [mapM_cons_error, hrefs]
          simp [hrefused]
        kept := fun hold => hkept fun y hy => hold y (List.mem_cons_of_mem _ hy)
        added := by
          rintro ⟨y, hy, hynew⟩
          rcases List.mem_cons.mp hy with rfl | hy
          · rw [hnew] at hynew
            cases hynew
          · exact hadded ⟨y, hy, hynew⟩
        stays := hstays }
    · -- the rest is committed to the store with `d`, where it is decided as before
      have hd := h.unused d List.mem_cons_self hcommitted.consistent
      have hrest : DrawsUnused s' xs := by
        refine ⟨fun d' hd' hcons => ?_, hxs⟩
        exact (h.unused d' (List.mem_cons_of_mem _ hd') hcons).committed hcons hcommitted hclaims
          (hx _ hd' d d' rfl rfl).1
      have hdecided : ∀ y ∈ xs, isRefused s' now y = isRefused s now y ∧
          isNew s' now y = isNew s now y := by
        rintro (e | d') hy
        · exact ⟨rfl, rfl⟩
        · exact decided_of_committed hd hcommitted hclaims (hx _ hy d d' rfl rfl).2
      obtain ⟨hrefs, -, -, hstays⟩ := ih hrest
      simp only [commitElements, hc]
      have hemails : ∀ id, s.emails.get id ≠ none → s'.emails.get id ≠ none := by
        intro id hid
        rw [hcommitted.emails, OrderedMap.get_set]
        split_ifs
        · exact Option.some_ne_none _
        · exact hid
      exact {
        refused := by
          rw [mapM_cons_error, hrefs]
          simp only [List.exists_mem_cons_iff, hrefused, reduceCtorEq, exists_false, false_or,
            Bool.false_eq_true]
          refine exists_congr fun y => and_congr_right fun hy => ?_
          rw [(hdecided y hy).1]
        kept := fun hold => by
          have := hold _ List.mem_cons_self
          rw [hnew] at this
          cases this
        added := fun _ => by
          refine ⟨d.message.id, ?_, hstays _ ?_⟩
          · rw [← hcommitted.consistent.email_id]
            exact hd.email
          · rw [hcommitted.emails, OrderedMap.get_set_self]
            exact Option.some_ne_none _
        stays := fun id hid => hstays id (hemails id hid) }

/-! ## The deliveries of a batch -/

section Batch

variable {p : Platform} {options : EmailServiceOptions} {c : Collaborators}
  {uuid : ℕ → ℕ → String} {inputs : List SendEmailInput} {key : Option String} {now : ℕ}
  {prepared : List PreparedEmail}

/-- The ids and the claim of an element are of its index. -/
theorem delivery_of_batch (h : prepareBatch p options c uuid inputs key now = .ok prepared) {i : ℕ}
    (hi : i < prepared.length) {d : DeliveryCommit}
    (hd : prepared[i].delivery p options (fun j => createId "rcpt" (uuid i (j + 1))) = .ok d) :
    i < 100 ∧ d.email.id = createId "email" (uuid i 0) ∧
      (∀ r ∈ d.recipients, ∃ j < 50, r.id = createId "rcpt" (uuid i (j + 1))) ∧
      ∀ claim, d.idempotency = some claim → ∃ k, key = some k ∧
        claim.keyHash = p.sha256 (EmailOrigin.batch k i).claimKey := by
  obtain ⟨_, hcount, h⟩ := bind_eq_ok.mp h
  obtain ⟨_, -, h⟩ := bind_eq_ok.mp h
  obtain ⟨hlen, hget⟩ := List.forall₂_iff_get.mp (mapM_eq_ok.mp h)
  have hlt : i < 100 := by
    rw [throwIf_eq_ok, Bool.or_eq_false_iff, decide_eq_false_iff_not] at hcount
    rw [List.length_zipIdx] at hlen
    omega
  have hprepare := hget i (hlen ▸ hi) hi
  simp only [List.get_eq_getElem, List.getElem_zipIdx, Nat.zero_add] at hprepare
  obtain ⟨places, hplaces, hd⟩ := bind_eq_ok.mp hd
  obtain ⟨outboxId, -, hd⟩ := bind_eq_ok.mp hd
  rw [pure_eq_ok] at hd
  subst hd
  have hcount := places_length hprepare hplaces
  obtain ⟨_, at_, attachments, suppressed, recipients, -, -, -, -, -, -, hp⟩ :=
    prepareEmail_eq_ok.mp hprepare
  rw [hp]
  refine ⟨hlt, rfl, fun r hr => ?_, fun claim hclaim => ?_⟩
  · obtain ⟨j, hj, rfl⟩ := mem_newRecipients.mp hr
    exact ⟨j, by omega, rfl⟩
  · obtain ⟨k, hk, rfl⟩ := Option.map_eq_some_iff.mp hclaim
    obtain ⟨hk, -⟩ := Option.filter_eq_some_iff.mp hk
    obtain ⟨k', hk', rfl⟩ := Option.map_eq_some_iff.mp hk
    exact ⟨k', (Option.filter_eq_some_iff.mp hk').1, rfl⟩

theorem createId_injective {start uuid uuid' : String}
    (h : createId start uuid = createId start uuid') : uuid = uuid' := by
  have hlist := congrArg String.toList h
  simp only [createId, String.toList_append, List.append_cancel_left_eq] at hlist
  exact String.toList_injective hlist

/-- No random text is drawn twice for at most 100 emails of at most 50 recipients, and the digest
tells the keys of the elements apart. -/
structure DrawsApart (p : Platform) (uuid : ℕ → ℕ → String) (key : Option String) : Prop where
  uuid : ∀ i < 100, ∀ j ≤ 50, ∀ i' < 100, ∀ j' ≤ 50, uuid i j = uuid i' j' → i = i' ∧ j = j'
  digest : ∀ k, key = some k → ∀ i < 100, ∀ i' < 100, p.sha256 (EmailOrigin.batch k i).claimKey =
    p.sha256 (EmailOrigin.batch k i').claimKey →
      (EmailOrigin.batch k i).claimKey = (EmailOrigin.batch k i').claimKey

theorem DrawsApart.separate (hdraws : DrawsApart p uuid key)
    (h : prepareBatch p options c uuid inputs key now = .ok prepared) :
    (batchDeliveries p options uuid prepared).Pairwise Separate := by
  rw [List.pairwise_iff_getElem]
  intro i i' hi hi' hlt d d' hd hd'
  simp only [batchDeliveries, List.length_mapIdx, List.getElem_mapIdx] at hi hi' hd hd'
  obtain ⟨hi, hid, hrecipients, hclaims⟩ := delivery_of_batch h hi hd
  obtain ⟨hi', hid', hrecipients', hclaims'⟩ := delivery_of_batch h hi' hd'
  refine ⟨⟨fun heq => ?_, fun x hx hx' => ?_⟩, fun claim claim' hclaim hclaim' heq => ?_⟩
  · rw [hid, hid'] at heq
    exact hlt.ne (hdraws.uuid _ hi _ (Nat.zero_le 50) _ hi' _ (Nat.zero_le 50)
      (createId_injective heq)).1
  · obtain ⟨r, hr, rfl⟩ := List.mem_map.mp hx
    obtain ⟨r', hr', heq⟩ := List.mem_map.mp hx'
    obtain ⟨j, hj, hr⟩ := hrecipients r hr
    obtain ⟨j', hj', hr'⟩ := hrecipients' r' hr'
    rw [hr, hr'] at heq
    exact hlt.ne' (hdraws.uuid _ hi' _ hj' _ hi _ hj (createId_injective heq)).1
  · obtain ⟨k, hk, hhash⟩ := hclaims claim hclaim
    obtain ⟨k', hk', hhash'⟩ := hclaims' claim' hclaim'
    obtain rfl := Option.some.inj (hk.symm.trans hk')
    rw [hhash, hhash'] at heq
    exact hlt.ne (EmailOrigin.batch_claimKey_inj (hdraws.digest k hk _ hi _ hi' heq)).2

end Batch

/-! ## Refused batches -/

/-- The store holds no new email, message, recipient, outbox item or claim. -/
structure AddsNothing (s s' : MemoryStore) : Prop where
  email : ∀ k, s.emails.get k = none → s'.emails.get k = none
  message : ∀ k, s.deliveryMessages.get k = none → s'.deliveryMessages.get k = none
  recipient : ∀ k, s.deliveryRecipients.get k = none → s'.deliveryRecipients.get k = none
  item : ∀ k, s.outboxItems.get k = none → s'.outboxItems.get k = none
  claim : ∀ k, s.idempotency.get k = none → s'.idempotency.get k = none

/-- **When a refused batch adds nothing**: exactly when its elements cannot all be prepared, or the
store refuses none of them (so that the batch is not refused), or all of them were decided already,
each being refused or replayed. -/
theorem refused_batch_adds_nothing_iff {p : Platform} {options : EmailServiceOptions}
    {c : Collaborators} {uuid : ℕ → ℕ → String} {s : MemoryStore} {inputs : List SendEmailInput}
    {key : Option String} {now : ℕ} (hdraws : DrawsApart p uuid key)
    (hunused : ∀ prepared, prepareBatch p options c uuid inputs key now = .ok prepared →
      ∀ d, .ok d ∈ batchDeliveries p options uuid prepared → d.Consistent → s.Unused d) :
    ((∃ e, (EmailService.createBatch p options c uuid s inputs key now).result =
        .error (.refused e)) →
      AddsNothing s (EmailService.createBatch p options c uuid s inputs key now).store) ↔
    ∀ prepared, prepareBatch p options c uuid inputs key now = .ok prepared →
      (∀ x ∈ batchDeliveries p options uuid prepared, isRefused s (epochSeconds now) x = false) ∨
      ∀ x ∈ batchDeliveries p options uuid prepared, isNew s (epochSeconds now) x = false := by
  cases hp : prepareBatch p options c uuid inputs key now with
  | error e =>
    simp only [EmailService.createBatch, hp, reduceCtorEq, false_implies, implies_true, iff_true]
    exact fun _ => ⟨fun _ h => h, fun _ h => h, fun _ h => h, fun _ h => h, fun _ h => h⟩
  | ok prepared =>
    have hall := elementsCommitted (epochSeconds now)
      ⟨hunused prepared hp, hdraws.separate hp⟩
    have hrefused : (∃ e, (EmailService.createBatch p options c uuid s inputs key now).result =
        .error (.refused e)) ↔ ∃ x ∈ batchDeliveries p options uuid prepared,
          isRefused s (epochSeconds now) x = true := by
      rw [← hall.refused]
      simp only [EmailService.createBatch, hp]
      cases (commitElements s (epochSeconds now) (batchDeliveries p options uuid prepared)).2.mapM
        id with
      | error e => simp
      | ok committed =>
        simp only [publishElements, reduceCtorEq, exists_false, iff_false]
        rintro ⟨e, he⟩
        split at he <;> cases he
    have hstore : (EmailService.createBatch p options c uuid s inputs key now).store =
        (commitElements s (epochSeconds now) (batchDeliveries p options uuid prepared)).1 := by
      simp only [EmailService.createBatch, hp]
    rw [hrefused, hstore]
    simp only [Except.ok.injEq, forall_eq']
    constructor
    · intro hadds
      by_contra hboth
      simp only [not_or, not_forall, Bool.not_eq_false] at hboth
      obtain ⟨⟨x, hx, hxr⟩, y, hy, hyn⟩ := hboth
      obtain ⟨id, hbefore, hafter⟩ := hall.added ⟨y, hy, hyn⟩
      exact hafter ((hadds ⟨x, hx, hxr⟩).email id hbefore)
    · rintro (hno | hold) ⟨x, hx, hxr⟩
      · rw [hno x hx] at hxr
        cases hxr
      · rw [hall.kept hold]
        exact ⟨fun _ h => h, fun _ h => h, fun _ h => h, fun _ h => h, fun _ h => h⟩

/-! ## Reports in batches -/

/-- A report; its digest depends on the name. -/
def report (name : String) : SendEmailInput where
  from_ := some "reports@example.com"
  to_ := ["team@example.com"]
  subject := some name
  text := some "All well."

/-- A checksum of a text, of five digits. -/
def checksum (text : String) : ℕ :=
  text.toList.foldl (fun n c => (31 * n + c.toNat) % 100000) 0

/-- A platform whose digest ends in the checksum. -/
def checksumPlatform : Platform where
  parseDate _ := none
  toLowerCase := String.toLower
  localeCompare a b := decide (a ≤ b)
  convertHtml html _ := html
  base64Length _ := none
  sha256 text := String.ofList (List.replicate 59 '0' ++
    [Nat.digitChar (checksum text / 10000), Nat.digitChar (checksum text / 1000 % 10),
      Nat.digitChar (checksum text / 100 % 10), Nat.digitChar (checksum text / 10 % 10),
      Nat.digitChar (checksum text % 10)])

theorem checksum_lt (text : String) : checksum text < 100000 := by
  have hlt : ∀ (cs : List Char) (n : ℕ), n < 100000 →
      cs.foldl (fun n c => (31 * n + c.toNat) % 100000) n < 100000 := by
    intro cs
    induction cs with
    | nil => exact fun n hn => hn
    | cons c cs ih => exact fun n _ => ih _ (Nat.mod_lt _ (by decide))
  exact hlt _ 0 (by decide)

theorem checksum_inj {text text' : String}
    (h : checksumPlatform.sha256 text = checksumPlatform.sha256 text') :
    checksum text = checksum text' := by
  have hlt := checksum_lt text
  have hlt' := checksum_lt text'
  have hlist := List.append_cancel_left (String.ofList_injective h)
  simp only [List.cons.injEq, and_true] at hlist
  obtain ⟨h₁, h₂, h₃, h₄, h₅⟩ := hlist
  have := digitChar_inj (by omega) (by omega) h₁
  have := digitChar_inj (by omega) (by omega) h₂
  have := digitChar_inj (by omega) (by omega) h₃
  have := digitChar_inj (by omega) (by omega) h₄
  have := digitChar_inj (by omega) (by omega) h₅
  omega

/-- Random texts that begin with the given digits. -/
def reportUuid (start : String) (i j : ℕ) : String :=
  String.ofList (start.toList ++ [Nat.digitChar (i / 10), Nat.digitChar (i % 10),
    Nat.digitChar (j / 10), Nat.digitChar (j % 10)])

theorem reportUuid_injective (start : String) {i j i' j' : ℕ} (hi : i < 100) (hj : j ≤ 50)
    (hi' : i' < 100) (hj' : j' ≤ 50) (h : reportUuid start i j = reportUuid start i' j') :
    i = i' ∧ j = j' := by
  have hlist := List.append_cancel_left (String.ofList_injective h)
  simp only [List.cons.injEq, and_true] at hlist
  obtain ⟨h₁, h₂, h₃, h₄⟩ := hlist
  have := digitChar_inj (by omega) (by omega) h₁
  have := digitChar_inj (by omega) (by omega) h₂
  have := digitChar_inj (by omega) (by omega) h₃
  have := digitChar_inj (by omega) (by omega) h₄
  omega

/-- The digest tells the keys of the elements apart. -/
theorem drawsApart_reports (start : String) :
    DrawsApart checksumPlatform (reportUuid start) (some "reports") := by
  refine ⟨fun i hi j hj i' hi' j' hj' h => reportUuid_injective _ hi hj hi' hj' h, ?_⟩
  intro k hk i hi i' hi' h
  obtain rfl := Option.some.inj hk
  have hkeys : ∀ i < 100, checksum (EmailOrigin.batch "reports" i).claimKey =
      if i < 10 then 91029 + i else 21947 + 31 * (i / 10) + i % 10 := by
    decide +kernel
  have hsum := checksum_inj h
  rw [hkeys i hi, hkeys i' hi'] at hsum
  have hi : i = i' := by
    split_ifs at hsum <;> omega
  rw [hi]

/-- A batch of reports under a key. -/
def reportBatch (start : String) (s : MemoryStore) (names : List String) (now : ℕ) : BatchOutcome :=
  EmailService.createBatch checksumPlatform sampleOptions sampleCollaborators (reportUuid start) s
    (names.map report) (some "reports") now

/-- The reports "A" and "B". -/
def bothReports : BatchOutcome :=
  reportBatch "0000000000000000000000000000" {} ["A", "B"] 1893455990000

/-- The deliveries of "A" and "C". -/
def replacedDeliveries : List (Except Failure DeliveryCommit) :=
  ((prepareBatch checksumPlatform sampleOptions sampleCollaborators
    (reportUuid "0000000000000000000000000001") (["A", "C"].map report) (some "reports")
    1893455995000).toOption.map (batchDeliveries checksumPlatform sampleOptions
      (reportUuid "0000000000000000000000000001"))).getD []

/-- The batch with "C" in place of "B": its first report is replayed, its second one is refused, and
nothing is added. -/
theorem refused_batch_adds_nothing_sample :
    (replacedDeliveries.map (isRefused bothReports.store 1893455995) = [false, true] ∧
      replacedDeliveries.map (isNew bothReports.store 1893455995) = [false, false]) ∧
    (∃ e, (reportBatch "0000000000000000000000000001" bothReports.store ["A", "C"]
      1893455995000).result = .error (.refused e)) ∧
    AddsNothing bothReports.store (reportBatch "0000000000000000000000000001" bothReports.store
      ["A", "C"] 1893455995000).store := by
  obtain ⟨hresult, hrefused, hnew, hunused⟩ :
      (reportBatch "0000000000000000000000000001" bothReports.store ["A", "C"]
        1893455995000).result = .error (.refused keyConflict) ∧
        replacedDeliveries.map (isRefused bothReports.store 1893455995) = [false, true] ∧
        replacedDeliveries.map (isNew bothReports.store 1893455995) = [false, false] ∧
        ∀ x ∈ replacedDeliveries, ∀ d ∈ x.toOption, bothReports.store.Unused d := by
    decide +kernel
  have hdeliveries : ∀ prepared, prepareBatch checksumPlatform sampleOptions sampleCollaborators
      (reportUuid "0000000000000000000000000001") (["A", "C"].map report) (some "reports")
      1893455995000 = .ok prepared → batchDeliveries checksumPlatform sampleOptions
        (reportUuid "0000000000000000000000000001") prepared = replacedDeliveries := by
    intro prepared hprepared
    rw [replacedDeliveries, hprepared]
    rfl
  refine ⟨⟨hrefused, hnew⟩, ⟨_, hresult⟩,
    (refused_batch_adds_nothing_iff (drawsApart_reports _) ?_).mpr ?_ ⟨_, hresult⟩⟩
  · intro prepared hprepared d hd _
    rw [hdeliveries prepared hprepared] at hd
    exact hunused _ hd d rfl
  · intro prepared hprepared
    right
    rw [hdeliveries prepared hprepared]
    have hmem : ∀ b ∈ replacedDeliveries.map (isNew bothReports.store 1893455995), b = false := by
      rw [hnew]
      decide
    exact fun x hx => hmem _ (List.mem_map_of_mem hx)

/-- The report "A" in a batch under a key. -/
def firstReports : BatchOutcome :=
  reportBatch "0000000000000000000000000000" {} ["A"] 1893455990000

/-- A batch under the same key whose first report is another one, with a second report. -/
def changedReports : BatchOutcome :=
  reportBatch "0000000000000000000000000001" firstReports.store ["B", "C"] 1893455995000

/-- The changed batch is refused for its first report, and its second one is added. -/
theorem changed_batch_adds_report :
    changedReports.result = .error (.refused keyConflict) ∧
      ¬ AddsNothing firstReports.store changedReports.store := by
  obtain ⟨hresult, hbefore, hafter⟩ :
      changedReports.result = .error (.refused keyConflict) ∧
        firstReports.store.emails.get
          (createId "email" (reportUuid "0000000000000000000000000001" 1 0)) = none ∧
        (changedReports.store.emails.get
          (createId "email" (reportUuid "0000000000000000000000000001" 1 0))).isSome = true := by
    decide +kernel
  refine ⟨hresult, fun h => ?_⟩
  rw [h.email _ hbefore] at hafter
  cases hafter

end HayaSend
