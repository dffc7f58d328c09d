import HayaSend.Adapters.MemoryStoreSteps
import HayaSend.Adapters.SqlDeliveryStores

/-!
# Idempotency claims

`ClaimTable.commit` is what a delivery store promises its callers about a claim: while the stored
claim of the key is unexpired the commit is replayed, or refused when the request differs; once it
has expired, or where there is none, the delivery is created and its claim stored.
`ClaimTable.answer` lists the three cases.

The in-memory store keeps the promise in every state a sequence of commits leads to
(`Delivered.commitDelivery`).
-/

namespace HayaSend

/-! ## The promise -/

/-- What the caller of a commit observes: the new email with the claim then stored under its key,
the email replayed, or the error. -/
inductive CommitOutcome
  | created (emailId : String) (claim : Option IdempotencyEntry)
  | replayed (emailId : String)
  | failed (failure : Failure)
  deriving DecidableEq, Repr

/-- The conflict of a key used with another request. -/
def keyConflict : Failure :=
  .conflict "The Idempotency-Key has already been used with a different request."

/-- The claims a store holds, by the hash of their key. -/
abbrev ClaimTable := OrderedMap String IdempotencyEntry

namespace ClaimTable

/-- The claim stored under the key of a commit. -/
def stored (claims : ClaimTable) (c : DeliveryCommit) : Option IdempotencyEntry :=
  c.idempotency.bind fun claim => claims.get claim.keyHash

/-- The stored claim, while it is unexpired. -/
def live (claims : ClaimTable) (c : DeliveryCommit) (now : ℕ) : Option IdempotencyEntry :=
  (claims.stored c).filter fun entry => now < entry.expiresAt

/-- The claims after a commit stored its own. -/
def record (claims : ClaimTable) (c : DeliveryCommit) : ClaimTable :=
  match c.claimEntry with
  | none => claims
  | some entry => claims.set entry.keyHash entry

/-- A commit, as its caller is promised it. -/
def commit (claims : ClaimTable) (input : DeliveryCommit) (now : ℕ) : ClaimTable × CommitOutcome :=
  match validateDeliveryCommit input now with
  | .error e => (claims, .failed e)
  | .ok c =>
    match claims.live c now with
    | some entry =>
      if c.idempotency.any fun claim => entry.requestHash != claim.requestHash then
        (claims, .failed keyConflict)
      else (claims, .replayed entry.emailId)
    | none => (claims.record c, .created c.email.id c.claimEntry)

end ClaimTable

/-- The outcome of a commit on a store, and the store it leaves. -/
def observeCommit {σ : Type} (claims : σ → ClaimTable) (s : σ) (input : DeliveryCommit) :
    Except Failure (σ × DeliveryCommitResult) → σ × CommitOutcome
  | .error e => (s, .failed e)
  | .ok (s', result) => (s',
      if result.replayed then .replayed result.email.id
      else .created result.email.id ((claims s').stored input))

namespace ClaimTable

/-- The three answers to a commit: refused, decided by a live claim, or created. -/
inductive Answer (claims : ClaimTable) (input : DeliveryCommit) (now : ℕ) : Prop
  | invalid (e : Failure) (hv : validateDeliveryCommit input now = .error e)
      (hc : claims.commit input now = (claims, .failed e))
  | conflict (claim : IdempotencyClaim) (entry : IdempotencyEntry)
      (hv : validateDeliveryCommit input now = .ok input)
      (hi : input.idempotency = some claim) (hg : claims.get claim.keyHash = some entry)
      (hl : now < entry.expiresAt) (hr : entry.requestHash ≠ claim.requestHash)
      (hc : claims.commit input now = (claims, .failed keyConflict))
  | replay (claim : IdempotencyClaim) (entry : IdempotencyEntry)
      (hv : validateDeliveryCommit input now = .ok input)
      (hi : input.idempotency = some claim) (hg : claims.get claim.keyHash = some entry)
      (hl : now < entry.expiresAt) (hr : entry.requestHash = claim.requestHash)
      (hc : claims.commit input now = (claims, .replayed entry.emailId))
  | create (hv : validateDeliveryCommit input now = .ok input)
      (hl : claims.live input now = none)
      (hc : claims.commit input now =
        (claims.record input, .created input.email.id input.claimEntry))

theorem live_eq_some {claims : ClaimTable} {c : DeliveryCommit} {now : ℕ}
    {entry : IdempotencyEntry} : claims.live c now = some entry ↔
      ∃ claim, c.idempotency = some claim ∧ claims.get claim.keyHash = some entry ∧
        now < entry.expiresAt := by
  simp only [live, stored, Option.filter_eq_some_iff, Option.bind_eq_some_iff, decide_eq_true_eq]
  constructor
  · rintro ⟨⟨claim, hi, hg⟩, hl⟩
    exact ⟨claim, hi, hg, hl⟩
  · rintro ⟨claim, hi, hg, hl⟩
    exact ⟨⟨claim, hi, hg⟩, hl⟩

theorem answer (claims : ClaimTable) (input : DeliveryCommit) (now : ℕ) :
    Answer claims input now := by
  cases hv : validateDeliveryCommit input now with
  | error e => exact .invalid e hv (by rw [commit, hv])
  | ok c =>
    obtain ⟨rfl, -⟩ := validateDeliveryCommit_eq_ok hv
    cases hl : claims.live input now with
    | none => exact .create hv hl (by simp only [commit, hv, hl])
    | some entry =>
      obtain ⟨claim, hi, hg, hlt⟩ := live_eq_some.mp hl
      by_cases hr : entry.requestHash = claim.requestHash
      · exact .replay claim entry hv hi hg hlt hr (by simp [commit, hv, hl, hi, hr])
      · exact .conflict claim entry hv hi hg hlt hr (by simp [commit, hv, hl, hi, hr])

theorem stored_record (claims : ClaimTable) (c : DeliveryCommit) :
    (claims.record c).stored c = c.claimEntry := by
  cases hi : c.idempotency with
  | none => simp [stored, DeliveryCommit.claimEntry, hi]
  | some claim => simp [stored, record, DeliveryCommit.claimEntry, hi]

/-- Storing the claim of a commit keeps every claim, where none of the key is live, that has not
expired. -/
theorem get_record_of_not_live {claims : ClaimTable} {c : DeliveryCommit} {now : ℕ}
    (hl : claims.live c now = none) {key : String} {entry : IdempotencyEntry}
    (hk : claims.get key = some entry) (he : now < entry.expiresAt) :
    (claims.record c).get key = some entry := by
  unfold record
  cases hi : c.idempotency with
  | none => simpa [DeliveryCommit.claimEntry, hi] using hk
  | some claim =>
    simp only [DeliveryCommit.claimEntry, hi, Option.map_some]
    rw [OrderedMap.get_set_ne, hk]
    rintro rfl
    rw [live_eq_some.mpr ⟨claim, hi, hk, he⟩] at hl
    cases hl

end ClaimTable

/-! ## The in-memory store -/

/-- Two commits share no identity: each caller creates its own. -/
def DeliveryCommit.Apart (c c' : DeliveryCommit) : Prop :=
  c.email.id ≠ c'.email.id ∧ List.Disjoint (c.recipients.map (·.id)) (c'.recipients.map (·.id))

namespace MemoryStore

/-- The store holds the deliveries of past commits. -/
structure Delivered (s : MemoryStore) (past : List DeliveryCommit) : Prop where
  inv : s.Inv
  email : ∀ k e, s.emails.get k = some e → ∃ c ∈ past, c.email.id = k
  message : ∀ k m, s.deliveryMessages.get k = some m → m.Valid
  recipient : ∀ k r, s.deliveryRecipients.get k = some r → r.Valid ∧
    ∃ c ∈ past, c.email.id = r.messageId ∧ k ∈ c.recipients.map (·.id)
  item : ∀ k o, s.outboxItems.get k = some o →
    o.Valid ∧ o.jobType = .dispatchMessage ∧ o.generation = 0
  claimed : ∀ k entry, s.idempotency.get k = some entry →
    ∃ m, s.deliveryMessages.get entry.emailId = some m

/-- The store holds nothing of a delivery. -/
structure Free (s : MemoryStore) (c : DeliveryCommit) : Prop where
  email : s.emails.get c.email.id = none
  message : s.deliveryMessages.get c.message.id = none
  recipient : ∀ r ∈ c.recipients, s.deliveryRecipients.get r.id = none
  position : ∀ k r, s.deliveryRecipients.get k = some r → r.messageId ≠ c.message.id
  item : s.outboxItems.get c.outbox.id = none
  message_item : ∀ k o, s.outboxItems.get k = some o → o.messageId ≠ c.message.id

namespace Delivered

variable {s : MemoryStore} {past : List DeliveryCommit}

/-- A commit apart from the past ones finds its identities free. -/
theorem free (h : s.Delivered past) {c : DeliveryCommit} (hc : c.Consistent)
    (hapart : ∀ c' ∈ past, c'.Apart c) : s.Free c := by
  have hemail : s.emails.get c.email.id = none := by
    cases he : s.emails.get c.email.id with
    | none => rfl
    | some e =>
      obtain ⟨c', hc', hid⟩ := h.email _ e he
      exact absurd hid (hapart c' hc').1
  have hmessage : s.deliveryMessages.get c.message.id = none := by
    cases hm : s.deliveryMessages.get c.message.id with
    | none => rfl
    | some m =>
      obtain ⟨e, he⟩ := h.inv.has_email _ m hm
      rw [← hc.email_id, hemail] at he
      cases he
  have hitem : ∀ k o, s.outboxItems.get k = some o → o.messageId ≠ c.message.id := by
    intro k o ho hk
    obtain ⟨m, hm⟩ := h.inv.outbox_has_message k o ho
    rw [hk, hmessage] at hm
    cases hm
  exact {
    email := hemail
    message := hmessage
    recipient := by
      intro r hr
      cases hg : s.deliveryRecipients.get r.id with
      | none => rfl
      | some r' =>
        obtain ⟨-, c', hc', -, hmem⟩ := h.recipient _ r' hg
        exact absurd (List.mem_map_of_mem hr) ((hapart c' hc').2 hmem)
    position := by
      intro k r hr hk
      obtain ⟨-, c', hc', hid, -⟩ := h.recipient k r hr
      exact (hapart c' hc').1 (hid.trans (hk.trans hc.email_id.symm))
    item := by
      cases hg : s.outboxItems.get c.outbox.id with
      | none => rfl
      | some o =>
        have hid := (h.item _ o hg).1.messageId_eq hc.outbox_valid (h.inv.outbox_id _ o hg).1
        exact absurd (hid.trans hc.outbox_fields.1) (hitem _ o hg)
    message_item := hitem }

/-- A stored delivery is read back. -/
theorem deliveryResult (h : s.Delivered past) {k : String} {m : MessageRecord}
    (hm : s.deliveryMessages.get k = some m) (replayed : Bool) :
    ∃ r, s.deliveryResult k replayed = some r ∧ r.email.id = k ∧ r.replayed = replayed := by
  obtain ⟨e, he⟩ := h.inv.has_email k m hm
  obtain ⟨id, item, hid, hitem⟩ := h.inv.has_outbox k m hm
  obtain ⟨st, hst⟩ := h.inv.exists_ledgerState hm
  obtain ⟨-, hm', hrs, -⟩ := h.inv.ledgerState_eq_some.mp hst
  rw [hm, Option.some.injEq] at hm'
  rw [← hm'] at hrs
  have ho : s.outboxOf k = some item := by rw [outboxOf, hid]; exact hitem
  refine ⟨⟨⟨e, m, st.recipients, item,
    (s.idempotency.values.find? (·.emailId == k)).map (·.toIdempotencyClaim)⟩, replayed⟩, ?_,
    h.inv.email_id k e he, rfl⟩
  simp only [MemoryStore.deliveryResult, he, hm, ho, hrs, Option.bind_eq_bind, Option.bind_some,
    Option.pure_def]

end Delivered

theorem stageRecipients_of_free {m : OrderedMap String RecipientRecord} {rs : List RecipientRecord}
    (hfree : ∀ r ∈ rs, m.get r.id = none) (hn : (rs.map (·.id)).Nodup) :
    stageRecipients m rs = .ok (m.setAll (·.id) rs) := by
  induction rs generalizing m with
  | nil => rfl
  | cons r rs ih =>
    obtain ⟨hr, hn⟩ := List.nodup_cons.mp hn
    rw [stageRecipients, (OrderedMap.get_eq_none_iff _ _).mp (hfree r List.mem_cons_self)]
    refine ih (fun r' hr' => ?_) hn
    rw [OrderedMap.get_set_ne _ _ fun heq => hr (List.mem_map.mpr ⟨r', hr', heq⟩)]
    exact hfree r' (List.mem_cons_of_mem _ hr')

theorem commitDelivery_live {s : MemoryStore} {input : DeliveryCommit} {now : ℕ}
    (hv : validateDeliveryCommit input now = .ok input) {entry : IdempotencyEntry}
    {claim : IdempotencyClaim} (hi : input.idempotency = some claim)
    (hg : s.idempotency.get claim.keyHash = some entry) (hl : now < entry.expiresAt) :
    s.commitDelivery input now =
      if entry.requestHash ≠ claim.requestHash then .error keyConflict
      else match s.deliveryResult entry.emailId true with
        | none => .error (.conflict
            "The idempotent delivery exists but its atomic records are unavailable.")
        | some replay => .ok (s, replay) := by
  have hfilter : (some entry).filter (fun e => decide (now < e.expiresAt)) = some entry := by
    simp [hl]
  simp only [commitDelivery, hv, ok_bind, hi, Option.bind_some, hg, hfilter]
  exact if_congr (by rw [Option.any_some, bne_iff_ne]) rfl rfl

theorem commitDelivery_new {s : MemoryStore} {input : DeliveryCommit} {now : ℕ}
    (hv : validateDeliveryCommit input now = .ok input)
    (hl : ClaimTable.live s.idempotency input now = none) (hf : s.Free input) :
    ∃ s', s.commitDelivery input now = .ok (s', { input with replayed := false }) ∧
      s'.idempotency = ClaimTable.record s.idempotency input := by
  have hcons := (validateDeliveryCommit_eq_ok hv).2
  have hn : (input.recipients.map (·.id)).Nodup :=
    hcons.recipient_ids.nodup_iff.mpr hcons.message_valid.nodup
  have hthrow : throwIf (s.emails.has input.email.id || s.deliveryMessages.has input.message.id ||
      s.outboxItems.has input.outbox.id)
      (Failure.conflict "Delivery identity is already in use.") = .ok () := by
    rw [(OrderedMap.get_eq_none_iff _ _).mp hf.email, (OrderedMap.get_eq_none_iff _ _).mp hf.message,
      (OrderedMap.get_eq_none_iff _ _).mp hf.item]
    rfl
  simp only [ClaimTable.live, ClaimTable.stored] at hl
  simp only [commitDelivery, hv, ok_bind, hl, hthrow, stageRecipients_of_free hf.recipient hn]
  refine ⟨_, rfl, ?_⟩
  cases hi : input.idempotency <;> simp [ClaimTable.record, DeliveryCommit.claimEntry, hi]

/-- A commit stores its own claim, where no claim of the key is live, or none. -/
theorem commitDelivery_idempotency {s s' : MemoryStore} {input : DeliveryCommit} {now : ℕ}
    {r : DeliveryCommitResult} (h : s.commitDelivery input now = .ok (s', r)) :
    s'.idempotency = s.idempotency ∨ ClaimTable.live s.idempotency input now = none ∧
      s'.idempotency = ClaimTable.record s.idempotency input := by
  obtain ⟨c, hc, h⟩ := bind_eq_ok.mp h
  obtain ⟨rfl, -⟩ := validateDeliveryCommit_eq_ok hc
  dsimp only at h
  split at h
  · split_ifs at h
    split at h
    · cases h
    · rw [Except.ok.injEq, Prod.mk.injEq] at h
      exact Or.inl (by rw [← h.1])
  · rename_i hlive
    obtain ⟨_, -, h⟩ := bind_eq_ok.mp h
    obtain ⟨_, -, h⟩ := bind_eq_ok.mp h
    rw [pure_eq_ok, Prod.mk.injEq] at h
    refine Or.inr ⟨hlive, ?_⟩
    rw [← h.1]
    cases hi : input.idempotency <;> simp [ClaimTable.record, DeliveryCommit.claimEntry, hi]

/-- A delivery added to the store is one more past commit. -/
theorem Delivered.committed {s s' : MemoryStore} {past : List DeliveryCommit} {c : DeliveryCommit}
    (h : s.Delivered past) (hc : Committed s s' c)
    (hi : s'.idempotency = ClaimTable.record s.idempotency c) : s'.Delivered (past ++ [c]) := by
  have hmem : ∀ {p : DeliveryCommit → Prop}, (∃ c' ∈ past, p c') → ∃ c' ∈ past ++ [c], p c' :=
    fun ⟨c', hc', hp⟩ => ⟨c', List.mem_append_left _ hc', hp⟩
  have hself : c ∈ past ++ [c] := List.mem_append_right _ List.mem_cons_self
  have hstays : ∀ {k}, (∃ m, s.deliveryMessages.get k = some m) →
      ∃ m, s'.deliveryMessages.get k = some m := fun hk => by
    rw [hc.messages]
    exact s.deliveryMessages.exists_get_set hk _ _
  exact {
    inv := hc.inv h.inv
    email := by
      intro k e he
      rw [hc.emails, OrderedMap.get_set] at he
      split_ifs at he with hk
      · exact ⟨c, hself, hc.consistent.email_id.trans hk.symm⟩
      · exact hmem (h.email k e he)
    message := by
      intro k m hm
      rw [hc.messages, OrderedMap.get_set] at hm
      split_ifs at hm with hk
      · rw [← Option.some.inj hm]
        exact hc.consistent.message_valid
      · exact h.message k m hm
    recipient := by
      intro k r hr
      by_cases hk : k ∈ c.recipients.map (·.id)
      · obtain ⟨r', hr', rfl⟩ := List.mem_map.mp hk
        rw [hc.get_recipient hr', Option.some.injEq] at hr
        subst hr
        exact ⟨hc.consistent.recipients_valid r' hr', c, hself,
          hc.consistent.email_id.trans (hc.consistent.recipient hr').1.symm, hk⟩
      · rw [hc.recipients, OrderedMap.get_setAll_of_notMem hk] at hr
        exact (h.recipient k r hr).imp_right hmem
    item := by
      intro k o ho
      rw [hc.items, OrderedMap.get_set] at ho
      split_ifs at ho with hk
      · rw [← Option.some.inj ho]
        exact ⟨hc.consistent.outbox_valid, hc.consistent.outbox_kind⟩
      · exact h.item k o ho
    claimed := by
      intro k entry hk
      rw [hi] at hk
      cases hid : c.idempotency with
      | none =>
        simp only [ClaimTable.record, DeliveryCommit.claimEntry, hid, Option.map_none] at hk
        exact hstays (h.claimed k entry hk)
      | some claim =>
        simp only [ClaimTable.record, DeliveryCommit.claimEntry, hid, Option.map_some,
          OrderedMap.get_set] at hk
        split_ifs at hk with heq
        · rw [← Option.some.inj hk, hc.messages, hc.consistent.email_id]
          exact ⟨c.message, OrderedMap.get_set_self _ _ _⟩
        · exact hstays (h.claimed k entry hk) }

/-- What a commit does to the in-memory store: a delivery is created when the commit is valid and
no live claim decides it, and otherwise nothing changes. -/
structure Settled (s s' : MemoryStore) (input : DeliveryCommit) (now : ℕ) : Prop where
  claims : s'.idempotency = (ClaimTable.commit s.idempotency input now).1
  created : validateDeliveryCommit input now = .ok input →
    ClaimTable.live s.idempotency input now = none → Committed s s' input
  kept : (validateDeliveryCommit input now = .ok input →
    ∃ entry, ClaimTable.live s.idempotency input now = some entry) → s' = s

/-- **The in-memory store keeps the promise** on a commit with fresh identities, whatever the
claims it holds. -/
theorem Delivered.commitDelivery {s : MemoryStore} {past : List DeliveryCommit}
    (h : s.Delivered past) {input : DeliveryCommit} (hapart : ∀ c ∈ past, c.Apart input)
    (now : ℕ) : ∃ s', observeCommit (·.idempotency) s input (s.commitDelivery input now) =
      (s', (ClaimTable.commit s.idempotency input now).2) ∧ Settled s s' input now ∧
      s'.Delivered (past ++ [input]) := by
  have hkept : s.Delivered (past ++ [input]) := { h with
    email := fun k e he =>
      let ⟨c, hc, hid⟩ := h.email k e he
      ⟨c, List.mem_append_left _ hc, hid⟩
    recipient := fun k r hr =>
      let ⟨hv, c, hc, hid⟩ := h.recipient k r hr
      ⟨hv, c, List.mem_append_left _ hc, hid⟩ }
  rcases ClaimTable.answer s.idempotency input now with ⟨e, hv, hc⟩ | ⟨claim, entry, hv, hi, hg, hl,
    hr, hc⟩ | ⟨claim, entry, hv, hi, hg, hl, hr, hc⟩ | ⟨hv, hl, hc⟩
  · refine ⟨s, ?_, ⟨by rw [hc], fun hv' => ?_, fun _ => rfl⟩, hkept⟩
    · rw [MemoryStore.commitDelivery, hv, hc]
      rfl
    · rw [hv] at hv'
      cases hv'
  · have hlive := ClaimTable.live_eq_some.mpr ⟨claim, hi, hg, hl⟩
    refine ⟨s, ?_, ⟨by rw [hc], fun _ hn => ?_, fun _ => rfl⟩, hkept⟩
    · rw [commitDelivery_live hv hi hg hl, if_pos hr, hc]
      rfl
    · rw [hlive] at hn
      cases hn
  · have hlive := ClaimTable.live_eq_some.mpr ⟨claim, hi, hg, hl⟩
    obtain ⟨m, hm⟩ := h.claimed _ _ hg
    obtain ⟨r, hres, hid, hrep⟩ := h.deliveryResult hm true
    refine ⟨s, ?_, ⟨by rw [hc], fun _ hn => ?_, fun _ => rfl⟩, hkept⟩
    · rw [commitDelivery_live hv hi hg hl, if_neg (not_not.mpr hr), hres, hc]
      simp only [observeCommit, hrep, if_true, hid]
    · rw [hlive] at hn
      cases hn
  · obtain ⟨s', hs', hidem⟩ := commitDelivery_new hv hl (h.free (validateDeliveryCommit_eq_ok hv).2
      hapart)
    have hcommitted : Committed s s' input := by
      rcases commitDelivery_eq_ok hs' with ⟨-, hrep⟩ | ⟨hcom, -⟩
      · cases hrep
      · exact hcom
    refine ⟨s', ?_, ⟨by rw [hc, hidem], fun _ _ => hcommitted, fun hlive => ?_⟩,
      h.committed hcommitted hidem⟩
    · rw [hs', hc]
      simp only [observeCommit, hidem, ClaimTable.stored_record, Bool.false_eq_true, if_false]
    · obtain ⟨entry, hentry⟩ := hlive hv
      rw [hl] at hentry
      cases hentry

end MemoryStore
end HayaSend
