import HayaSend.Adapters.DynamoStore
import HayaSend.Adapters.IdempotencyClaims

/-!
# The other delivery stores, against the in-memory one

`DeliveryTables.Mirrors` and `DynamoTable.Mirrors` say that a store holds the rows of the
in-memory store. A relational store that mirrors it reads every delivery back and inserts every
free one. Postgres then answers each commit as the in-memory store does. D1 does where the key of
the commit has no expired claim, and fails the insertion where it has one
(`D1Tables.commit_expired`). DynamoDB may have lost some expired claims; it too answers alike where
the key has no expired claim.
-/

namespace HayaSend

namespace DeliveryTables

/-- The delivery tables hold the rows of the in-memory store. -/
structure SameRows (t : DeliveryTables) (m : MemoryStore) : Prop where
  emails : t.emails = m.emails
  messages : t.deliveryMessages = m.deliveryMessages
  recipients : t.deliveryRecipients = m.deliveryRecipients
  items : t.outboxItems = m.outboxItems

/-- The delivery tables hold the rows and the claims of the in-memory store. -/
structure Mirrors (t : DeliveryTables) (m : MemoryStore) : Prop extends SameRows t m where
  claims : ∀ k, t.idempotencyClaims.get k = m.idempotency.get k

variable {t : DeliveryTables} {m : MemoryStore} {past : List DeliveryCommit}

theorem Mirrors.stored (h : t.Mirrors m) (c : DeliveryCommit) :
    ClaimTable.stored t.idempotencyClaims c = ClaimTable.stored m.idempotency c := by
  simp only [ClaimTable.stored, h.claims]

theorem Mirrors.live (h : t.Mirrors m) (c : DeliveryCommit) (now : ℕ) :
    ClaimTable.live t.idempotencyClaims c now = ClaimTable.live m.idempotency c now := by
  rw [ClaimTable.live, ClaimTable.live, h.stored]

/-! ## Reads -/

/-- A stored delivery is read back. -/
theorem SameRows.getDelivery (h : t.SameRows m) (hd : m.Delivered past) {k : String}
    {msg : MessageRecord} (hm : m.deliveryMessages.get k = some msg) :
    ∃ r, t.getDelivery k = .ok (some r) ∧ r.email.id = k := by
  obtain ⟨e, he⟩ := hd.inv.has_email k msg hm
  obtain ⟨id, item, hid, hitem⟩ := hd.inv.has_outbox k msg hm
  have hkey : item.messageId = k := by
    obtain ⟨item', hitem', hk'⟩ := hd.inv.outbox_message k id hid
    rw [hitem, Option.some.injEq] at hitem'
    rw [hitem', hk']
  obtain ⟨o, ho⟩ : ∃ o, m.outboxItems.values.find? (·.messageId == k) = some o :=
    Option.isSome_iff_exists.mp (List.find?_isSome.mpr
      ⟨item, (OrderedMap.mem_values_iff _ _).mpr ⟨id, hitem⟩, beq_iff_eq.mpr hkey⟩)
  obtain ⟨k', hk'⟩ := (OrderedMap.mem_values_iff _ _).mp (List.mem_of_find?_eq_some ho)
  have hrows : (m.deliveryRecipients.values.filter (·.messageId == k)).mapM RecipientRecord.parse =
      .ok (m.deliveryRecipients.values.filter (·.messageId == k)) := by
    refine mapM_parse_eq_ok.mpr ⟨fun r hr => ?_, rfl⟩
    obtain ⟨k', hk'⟩ := (OrderedMap.mem_values_iff _ _).mp (List.mem_filter.mp hr).1
    exact (hd.recipient k' r hk').1
  obtain ⟨rs, hrs⟩ : ∃ rs, (msg.recipientIds.mapM fun id =>
      (m.deliveryRecipients.values.filter (·.messageId == k)).find? (·.id == id)) = some rs := by
    refine exists_mapM_eq_some fun id hid => ?_
    obtain ⟨r, hr, hrk⟩ := hd.inv.has_recipient k msg hm id hid
    refine Option.isSome_iff_exists.mp (List.find?_isSome.mpr ⟨r, List.mem_filter.mpr
      ⟨(OrderedMap.mem_values_iff _ _).mpr ⟨id, hr⟩, beq_iff_eq.mpr hrk⟩, ?_⟩)
    exact beq_iff_eq.mpr (hd.inv.recipient_id id r hr)
  refine ⟨⟨⟨e, msg, rs, o, (t.claimOf k).map (·.toIdempotencyClaim)⟩, false⟩, ?_,
    hd.inv.email_id k e he⟩
  simp only [DeliveryTables.getDelivery, h.emails, h.messages, h.recipients, h.items, he, hm, ho,
    MessageRecord.parse_eq_ok.mpr ⟨hd.message k msg hm, rfl⟩, hrows, hrs,
    OutboxItemRecord.parse_eq_ok.mpr ⟨(hd.item k' o hk').1, rfl⟩, ok_bind]
  rfl

theorem replayOf_of_not_live {c : DeliveryCommit} {now : ℕ}
    (hl : ClaimTable.live t.idempotencyClaims c now = none) : t.replayOf c now = .ok none := by
  unfold replayOf
  cases hi : c.idempotency with
  | none => rfl
  | some claim =>
    simp only [ClaimTable.live, ClaimTable.stored, hi, Option.bind_some] at hl
    simp only [replayForIdempotency, hl]

theorem replayOf_live {c : DeliveryCommit} {now : ℕ} {claim : IdempotencyClaim}
    {entry : IdempotencyEntry} (hi : c.idempotency = some claim)
    (hg : t.idempotencyClaims.get claim.keyHash = some entry) (hl : now < entry.expiresAt) :
    t.replayOf c now =
      if entry.requestHash ≠ claim.requestHash then .error keyConflict
      else do
        match ← t.getDelivery entry.emailId with
        | none => .error (.conflict
            "The idempotent delivery exists but its atomic records are unavailable.")
        | some replay => return some { replay with idempotency := some claim, replayed := true } := by
  have hfilter : (some entry).filter (fun e => decide (now < e.expiresAt)) = some entry := by
    simp [hl]
  simp only [replayOf, hi, replayForIdempotency, hg, hfilter]
  exact if_congr bne_iff_ne rfl rfl

/-! ## Insertions -/

/-- The tables with the rows of a delivery, and with the given claims. -/
def withDelivery (t : DeliveryTables) (c : DeliveryCommit) (claims : ClaimTable) :
    DeliveryTables where
  emails := t.emails.set c.email.id c.email
  deliveryMessages := t.deliveryMessages.set c.message.id c.message
  deliveryRecipients := t.deliveryRecipients.setAll (·.id) c.recipients
  outboxItems := t.outboxItems.set c.outbox.id c.outbox
  idempotencyClaims := claims

/-- Every row of a free delivery is inserted. -/
theorem SameRows.insertDelivery (h : t.SameRows m) {c : DeliveryCommit} (hc : c.Consistent)
    (hp : (c.recipients.map fun r => (r.role, r.ordinal)).Nodup) (hf : m.Free c) :
    t.insertDelivery c = some (t.withDelivery c t.idempotencyClaims) := by
  have hn : (c.recipients.map (·.id)).Nodup :=
    hc.recipient_ids.nodup_iff.mpr hc.message_valid.nodup
  have hapart : c.recipients.Pairwise fun v w =>
      w.id ≠ v.id ∧ ¬(v.role = w.role ∧ v.ordinal = w.ordinal) := by
    refine (List.Pairwise.and (List.pairwise_map.mp hn) (List.pairwise_map.mp hp)).imp ?_
    rintro v w ⟨hid, hpos⟩
    refine ⟨Ne.symm hid, fun hsame => hpos ?_⟩
    rw [hsame.1, hsame.2]
  have hrecipients : c.recipients.foldlM insertRecipient t.deliveryRecipients =
      some (t.deliveryRecipients.setAll (·.id) c.recipients) := by
    refine OrderedMap.foldlM_eq_setAll
      (fun rows r => rows.get r.id = none ∧ ∀ k r', rows.get k = some r' →
        ¬(r'.messageId = r.messageId ∧ r'.role = r.role ∧ r'.ordinal = r.ordinal)) ?_ ?_ ?_ hapart
    · rintro rows r ⟨hid, hpos⟩
      have hany : (rows.values.any fun r' => r'.messageId == r.messageId && r'.role == r.role &&
          r'.ordinal == r.ordinal) = false := by
        rw [List.any_eq_false]
        intro r' hr'
        obtain ⟨k, hk⟩ := (OrderedMap.mem_values_iff _ _).mp hr'
        simpa [and_assoc] using hpos k r' hk
      rw [insertRecipient, hany]
      exact OrderedMap.insertRow_of_absent hid r
    · rintro rows v w ⟨hid, hpos⟩ ⟨hwid, hwpos⟩
      refine ⟨by rw [OrderedMap.get_set_ne _ _ hid, hwid], fun k r' hk => ?_⟩
      rw [OrderedMap.get_set] at hk
      split_ifs at hk with heq
      · rw [← Option.some.inj hk]
        exact fun hsame => hpos hsame.2
      · exact hwpos k r' hk
    · intro r hr
      rw [h.recipients]
      refine ⟨hf.recipient r hr, fun k r' hk hpos => hf.position k r' hk ?_⟩
      rw [hpos.1, (hc.recipient hr).1]
  have hitem : insertOutboxItem t.outboxItems c.outbox =
      some (t.outboxItems.set c.outbox.id c.outbox) := by
    have hany : (t.outboxItems.values.any (·.messageId == c.outbox.messageId)) = false := by
      rw [List.any_eq_false, h.items, hc.outbox_fields.1]
      intro o ho
      obtain ⟨k, hk⟩ := (OrderedMap.mem_values_iff _ _).mp ho
      simpa using hf.message_item k o hk
    rw [insertOutboxItem, hany]
    exact OrderedMap.insertRow_of_absent (by rw [h.items]; exact hf.item) _
  rw [DeliveryTables.insertDelivery, OrderedMap.insertRow_of_absent (by rw [h.emails]; exact hf.email),
    OrderedMap.insertRow_of_absent (by rw [h.messages]; exact hf.message), hrecipients, hitem]
  rfl

theorem insertClaim_of_absent {c : DeliveryCommit} {claims : ClaimTable}
    (h : claims.stored c = none) : (t.withDelivery c claims).insertClaim c =
      some (t.withDelivery c (claims.record c)) := by
  unfold insertClaim ClaimTable.record
  cases hi : c.idempotency with
  | none => simp only [DeliveryCommit.claimEntry, hi, Option.map_none]
  | some claim =>
    simp only [ClaimTable.stored, hi, Option.bind_some] at h
    simp only [DeliveryCommit.claimEntry, hi, Option.map_some, withDelivery,
      OrderedMap.insertRow_of_absent h]
    rfl

theorem insertClaim_of_present {c : DeliveryCommit} {claims : ClaimTable} {entry : IdempotencyEntry}
    (h : claims.stored c = some entry) : (t.withDelivery c claims).insertClaim c = none := by
  obtain ⟨claim, hi, hg⟩ := Option.bind_eq_some_iff.mp h
  simp only [insertClaim, DeliveryCommit.claimEntry, hi, Option.map_some, withDelivery,
    OrderedMap.insertRow_of_present hg]
  rfl

/-- The claims after a commit, read through another map with the same claims. -/
theorem get_record {claims claims' : ClaimTable} {c : DeliveryCommit} (k : String)
    (h : ∀ claim, c.idempotency = some claim → k ≠ claim.keyHash → claims.get k = claims'.get k)
    (hn : c.idempotency = none → claims.get k = claims'.get k) :
    (claims.record c).get k = (claims'.record c).get k := by
  cases hi : c.idempotency with
  | none => simpa [ClaimTable.record, DeliveryCommit.claimEntry, hi] using hn hi
  | some claim =>
    simp only [ClaimTable.record, DeliveryCommit.claimEntry, hi, Option.map_some,
      OrderedMap.get_set]
    split_ifs with hk
    · rfl
    · exact h claim hi hk

/-! ## Commits -/

/-- A live claim of the key decides the replay. -/
theorem Mirrors.replayOf_conflict (h : t.Mirrors m) {c : DeliveryCommit} {now : ℕ}
    {claim : IdempotencyClaim} {entry : IdempotencyEntry} (hi : c.idempotency = some claim)
    (hg : m.idempotency.get claim.keyHash = some entry) (hl : now < entry.expiresAt)
    (hr : entry.requestHash ≠ claim.requestHash) : t.replayOf c now = .error keyConflict := by
  rw [replayOf_live hi (by rw [h.claims, hg]) hl, if_pos hr]

theorem Mirrors.replayOf_replay (h : t.Mirrors m) (hd : m.Delivered past) {c : DeliveryCommit}
    {now : ℕ} {claim : IdempotencyClaim} {entry : IdempotencyEntry}
    (hi : c.idempotency = some claim) (hg : m.idempotency.get claim.keyHash = some entry)
    (hl : now < entry.expiresAt) (hr : entry.requestHash = claim.requestHash) :
    ∃ r, t.replayOf c now = .ok (some r) ∧ r.email.id = entry.emailId ∧ r.replayed = true := by
  obtain ⟨msg, hm⟩ := hd.claimed _ _ hg
  obtain ⟨r, hres, hid⟩ := h.toSameRows.getDelivery hd hm
  refine ⟨{ r with idempotency := some claim, replayed := true }, ?_, hid, rfl⟩
  rw [replayOf_live hi (by rw [h.claims, hg]) hl, if_neg (not_not.mpr hr), hres]
  rfl

/-- The tables after a delivery was created hold the rows of the in-memory store after it. -/
theorem SameRows.committed (h : t.SameRows m) {m' : MemoryStore} {c : DeliveryCommit}
    (hc : m.Committed m' c) (claims : ClaimTable) : (t.withDelivery c claims).SameRows m' where
  emails := by
    rw [hc.emails, withDelivery, hc.consistent.email_id, h.emails]
  messages := by
    rw [hc.messages, withDelivery, h.messages]
  recipients := by
    rw [hc.recipients, withDelivery, h.recipients]
  items := by
    rw [hc.items, withDelivery, h.items]

theorem SameRows.deleteExpiredClaim (h : t.SameRows m) (keyHash : String) (now : ℕ) :
    (t.deleteExpiredClaim keyHash now).SameRows m := by
  unfold DeliveryTables.deleteExpiredClaim
  split_ifs
  · exact ⟨h.emails, h.messages, h.recipients, h.items⟩
  · exact h

/-- What is left of the claims once the expired one of the key is deleted. -/
theorem get_deleteExpiredClaim (keyHash : String) (now : ℕ) (k : String) :
    (t.deleteExpiredClaim keyHash now).idempotencyClaims.get k =
      if k = keyHash then (t.idempotencyClaims.get k).filter fun e => now < e.expiresAt
      else t.idempotencyClaims.get k := by
  unfold DeliveryTables.deleteExpiredClaim
  by_cases hk : k = keyHash
  · subst hk
    rw [if_pos rfl]
    cases hg : t.idempotencyClaims.get k with
    | none => simp [hg]
    | some e =>
      by_cases he : e.expiresAt ≤ now
      · simp [he, OrderedMap.get_erase, Option.filter_some, Nat.not_lt.mpr he]
      · simp [he, hg, Option.filter_some, Nat.lt_of_not_le he]
  · rw [if_neg hk]
    split_ifs
    · rw [OrderedMap.get_erase, if_neg hk]
    · rfl

theorem SameRows.clearClaim (h : t.SameRows m) (c : DeliveryCommit) (now : ℕ) :
    (t.clearClaim c now).SameRows m := by
  unfold DeliveryTables.clearClaim
  split
  · exact h
  · exact h.deleteExpiredClaim _ _

/-- Once cleared, the tables hold no claim of the key unless it is live. -/
theorem stored_clearClaim (c : DeliveryCommit) (now : ℕ) :
    ClaimTable.stored (t.clearClaim c now).idempotencyClaims c =
      ClaimTable.live t.idempotencyClaims c now := by
  unfold DeliveryTables.clearClaim ClaimTable.live ClaimTable.stored
  cases hi : c.idempotency with
  | none => rfl
  | some claim => simp only [Option.bind_some, get_deleteExpiredClaim, if_true]

theorem get_clearClaim_other {c : DeliveryCommit} (now : ℕ) {k : String}
    (hk : ∀ claim, c.idempotency = some claim → k ≠ claim.keyHash) :
    (t.clearClaim c now).idempotencyClaims.get k = t.idempotencyClaims.get k := by
  unfold DeliveryTables.clearClaim
  cases hi : c.idempotency with
  | none => rfl
  | some claim => simp only [get_deleteExpiredClaim, if_neg (hk claim hi)]

end DeliveryTables

/-- **Postgres keeps the promise**: it answers every commit as the in-memory store does. -/
theorem PostgresDeliveryStore.commitDelivery_mirrors {t : DeliveryTables} {m m' : MemoryStore}
    {past : List DeliveryCommit} {input : DeliveryCommit} {now : ℕ} (h : t.Mirrors m)
    (hd : m.Delivered past) (hapart : ∀ c ∈ past, c.Apart input) (hs : m.Settled m' input now) :
    ∃ t', observeCommit (·.idempotencyClaims) t input
        (PostgresDeliveryStore.commitDelivery t input now) =
      (t', (ClaimTable.commit m.idempotency input now).2) ∧ t'.Mirrors m' := by
  rcases ClaimTable.answer m.idempotency input now with ⟨e, hv, hc⟩ | ⟨claim, entry, hv, hi, hg, hl,
    hr, hc⟩ | ⟨claim, entry, hv, hi, hg, hl, hr, hc⟩ | ⟨hv, hl, hc⟩
  · refine ⟨t, ?_, ?_⟩
    · rw [commitDelivery, hv, hc]
      rfl
    · rw [hs.kept fun hv' => by rw [hv] at hv'; cases hv']
      exact h
  · refine ⟨t, ?_, ?_⟩
    · rw [commitDelivery, hv, ok_bind, h.replayOf_conflict hi hg hl hr, hc]
      rfl
    · rw [hs.kept fun _ => ⟨entry, ClaimTable.live_eq_some.mpr ⟨claim, hi, hg, hl⟩⟩]
      exact h
  · obtain ⟨r, hres, hid, hrep⟩ := h.replayOf_replay hd hi hg hl hr
    refine ⟨t, ?_, ?_⟩
    · rw [commitDelivery, hv, ok_bind, hres, hc, ← hid]
      simp [observeCommit, hrep, pure, Except.pure]
    · rw [hs.kept fun _ => ⟨entry, ClaimTable.live_eq_some.mpr ⟨claim, hi, hg, hl⟩⟩]
      exact h
  · have hcons := (validateDeliveryCommit_eq_ok hv).2
    have hlive := (h.live input now).trans hl
    have hstored := (DeliveryTables.stored_clearClaim (t := t) input now).trans hlive
    have hins := (h.toSameRows.clearClaim input now).insertDelivery hcons
      (validateDeliveryCommit_unique hv).2 (hd.free hcons hapart)
    refine ⟨_, ?_, (h.toSameRows.clearClaim input now).committed (hs.created hv hl)
      (ClaimTable.record (t.clearClaim input now).idempotencyClaims input), ?_⟩
    · rw [commitDelivery, hv, ok_bind, DeliveryTables.replayOf_of_not_live hlive, ok_bind]
      simp only [hins, Option.bind_some, DeliveryTables.insertClaim_of_absent hstored, hc]
      simp only [observeCommit, pure, Except.pure, Bool.false_eq_true, if_false,
        DeliveryTables.withDelivery, ClaimTable.stored_record]
    · intro k
      rw [hs.claims, hc]
      refine DeliveryTables.get_record k (fun claim hi hk => ?_) (fun hn => ?_)
      · rw [DeliveryTables.get_clearClaim_other now, h.claims]
        intro claim' hi'
        rw [hi, Option.some.injEq] at hi'
        exact hi' ▸ hk
      · rw [DeliveryTables.get_clearClaim_other now, h.claims]
        intro claim' hi'
        rw [hn] at hi'
        cases hi'

/-! ## D1 -/

/-- The tables of the D1 store hold the rows and the claims of the in-memory store; a ledger has a
revision when its message is stored. -/
structure D1Tables.Mirrors (t : D1Tables) (m : MemoryStore) : Prop extends
    t.toDeliveryTables.Mirrors m where
  version : ∀ k v, t.ledgerVersions.get k = some v → ∃ msg, m.deliveryMessages.get k = some msg

namespace D1DeliveryStore

variable {t : D1Tables} {m m' : MemoryStore} {past : List DeliveryCommit} {input : DeliveryCommit}
  {now : ℕ}

theorem throwIf_size (hsize : input.recipients.length ≤ maxRecipients) {e : Failure} :
    throwIf (decide (maxRecipients < input.recipients.length)) e = .ok () := by
  rw [decide_eq_false (Nat.not_lt.mpr hsize)]
  rfl

/-- The batch of a free delivery whose key has no stored claim. -/
theorem insertDelivery_free (h : t.Mirrors m) (hcons : input.Consistent)
    (hp : (input.recipients.map fun r => (r.role, r.ordinal)).Nodup) (hf : m.Free input) :
    t.insertDelivery input = (DeliveryTables.insertClaim
      (t.toDeliveryTables.withDelivery input t.idempotencyClaims) input).map
        fun tables => ⟨tables, t.ledgerVersions.set input.message.id 0⟩ := by
  have hversion : t.ledgerVersions.get input.message.id = none := by
    cases hg : t.ledgerVersions.get input.message.id with
    | none => rfl
    | some v =>
      obtain ⟨msg, hm⟩ := h.version _ v hg
      rw [hf.message] at hm
      cases hm
  rw [D1Tables.insertDelivery, h.toSameRows.insertDelivery hcons hp hf,
    OrderedMap.insertRow_of_absent hversion]
  simp only [Option.bind_eq_bind, Option.bind_some, Option.pure_def]
  cases DeliveryTables.insertClaim (t.toDeliveryTables.withDelivery input t.idempotencyClaims)
    input <;> rfl

/-- **D1 keeps the promise** on a commit whose key has no expired claim. -/
theorem commitDelivery_mirrors (h : t.Mirrors m) (hd : m.Delivered past)
    (hapart : ∀ c ∈ past, c.Apart input) (hsize : input.recipients.length ≤ maxRecipients)
    (hs : m.Settled m' input now)
    (hexpired : validateDeliveryCommit input now = .ok input →
      ∀ entry, ClaimTable.stored m.idempotency input = some entry → now < entry.expiresAt) :
    ∃ t', observeCommit (·.idempotencyClaims) t input (commitDelivery t input now) =
      (t', (ClaimTable.commit m.idempotency input now).2) ∧ t'.Mirrors m' := by
  rcases ClaimTable.answer m.idempotency input now with ⟨e, hv, hc⟩ | ⟨claim, entry, hv, hi, hg, hl,
    hr, hc⟩ | ⟨claim, entry, hv, hi, hg, hl, hr, hc⟩ | ⟨hv, hl, hc⟩
  · refine ⟨t, ?_, ?_⟩
    · rw [commitDelivery, hv, hc]
      rfl
    · rw [hs.kept fun hv' => by rw [hv] at hv'; cases hv']
      exact h
  · refine ⟨t, ?_, ?_⟩
    · rw [commitDelivery, hv, ok_bind, throwIf_size hsize, ok_bind,
        h.toMirrors.replayOf_conflict hi hg hl hr, hc]
      rfl
    · rw [hs.kept fun _ => ⟨entry, ClaimTable.live_eq_some.mpr ⟨claim, hi, hg, hl⟩⟩]
      exact h
  · obtain ⟨r, hres, hid, hrep⟩ := h.toMirrors.replayOf_replay hd hi hg hl hr
    refine ⟨t, ?_, ?_⟩
    · rw [commitDelivery, hv, ok_bind, throwIf_size hsize, ok_bind, hres, hc, ← hid]
      simp [observeCommit, hrep, pure, Except.pure]
    · rw [hs.kept fun _ => ⟨entry, ClaimTable.live_eq_some.mpr ⟨claim, hi, hg, hl⟩⟩]
      exact h
  · have hcons := (validateDeliveryCommit_eq_ok hv).2
    have hcommitted := hs.created hv hl
    have hlive := (h.toMirrors.live input now).trans hl
    have hnone : ClaimTable.stored t.idempotencyClaims input = none := by
      rw [h.toMirrors.stored]
      cases hst : ClaimTable.stored m.idempotency input with
      | none => rfl
      | some entry =>
        rw [ClaimTable.live, hst, Option.filter_some,
          if_pos (decide_eq_true (hexpired hv entry hst))] at hl
        cases hl
    have hins := insertDelivery_free h hcons (validateDeliveryCommit_unique hv).2
      (hd.free hcons hapart)
    rw [DeliveryTables.insertClaim_of_absent hnone, Option.map_some] at hins
    refine ⟨⟨_, t.ledgerVersions.set input.message.id 0⟩, ?_, ⟨⟨h.toSameRows.committed hcommitted
      (ClaimTable.record t.idempotencyClaims input), fun k => ?_⟩, fun k v hk => ?_⟩⟩
    · rw [commitDelivery, hv, ok_bind, throwIf_size hsize, ok_bind,
        DeliveryTables.replayOf_of_not_live hlive, ok_bind]
      simp only [hins, hc]
      simp only [observeCommit, pure, Except.pure, Bool.false_eq_true, if_false,
        DeliveryTables.withDelivery, ClaimTable.stored_record]
    · rw [hs.claims, hc]
      exact DeliveryTables.get_record k (fun _ _ _ => h.claims k) fun _ => h.claims k
    · rw [hcommitted.messages]
      rw [OrderedMap.get_set] at hk
      split_ifs at hk with heq
      · exact ⟨input.message, by rw [heq, OrderedMap.get_set_self]⟩
      · exact m.deliveryMessages.exists_get_set (h.version k v hk) _ _

/-- **D1 refuses the commit when the key has an expired claim**: the claim is not replayed, and
its row still holds the key. -/
theorem commitDelivery_expired (h : t.Mirrors m) (hd : m.Delivered past)
    (hapart : ∀ c ∈ past, c.Apart input) (hsize : input.recipients.length ≤ maxRecipients)
    (hv : validateDeliveryCommit input now = .ok input) {entry : IdempotencyEntry}
    (hst : ClaimTable.stored m.idempotency input = some entry) (he : entry.expiresAt ≤ now) :
    observeCommit (·.idempotencyClaims) t input (commitDelivery t input now) =
      (t, .failed (.conflict "Delivery identity is already in use.")) := by
  have hcons := (validateDeliveryCommit_eq_ok hv).2
  have hstored := (h.toMirrors.stored input).trans hst
  have hlive : ClaimTable.live t.idempotencyClaims input now = none := by
    rw [ClaimTable.live, hstored, Option.filter_some,
      if_neg (by simpa using Nat.not_lt.mpr he)]
  have hins := insertDelivery_free h hcons (validateDeliveryCommit_unique hv).2
    (hd.free hcons hapart)
  rw [DeliveryTables.insertClaim_of_present hstored, Option.map_none] at hins
  rw [commitDelivery, hv, ok_bind, throwIf_size hsize, ok_bind,
    DeliveryTables.replayOf_of_not_live hlive, ok_bind]
  simp only [hins]
  rfl

end D1DeliveryStore

/-! ## DynamoDB -/

/-- The table holds the rows of the in-memory store, and of its claims all but some that expired
by the time `last`. -/
structure DynamoTable.Mirrors (t : DynamoTable) (m : MemoryStore) (last : ℕ) : Prop where
  emails : t.emails = m.emails
  messages : t.deliveryMessages = m.deliveryMessages
  recipients : ∀ k id, t.recipients.get (k, id) =
    (m.deliveryRecipients.get id).filter fun r => r.messageId = k
  items : t.outboxItems = m.outboxItems
  claims : ∀ k, t.idempotency.get k = m.idempotency.get k ∨
    t.idempotency.get k = none ∧ ∃ e, m.idempotency.get k = some e ∧ e.expiresAt ≤ last

namespace DynamoTable

variable {t : DynamoTable} {m m' : MemoryStore} {past : List DeliveryCommit}
  {input : DeliveryCommit} {last now : ℕ}

theorem Mirrors.mono (h : t.Mirrors m last) (hle : last ≤ now) : t.Mirrors m now :=
  { h with claims := fun k => (h.claims k).imp_right fun ⟨hn, e, he, hexp⟩ =>
      ⟨hn, e, he, hexp.trans hle⟩ }

/-- A claim that has not expired is still in the table. -/
theorem Mirrors.get_unexpired (h : t.Mirrors m last) (hle : last ≤ now) {k : String}
    {entry : IdempotencyEntry} (hg : m.idempotency.get k = some entry)
    (hl : now < entry.expiresAt) : t.idempotency.get k = some entry := by
  rcases h.claims k with hk | ⟨-, e, he, hexp⟩
  · rw [hk, hg]
  · rw [hg, Option.some.injEq] at he
    subst he
    omega

/-- The removal of an expired item keeps the table so. -/
theorem Mirrors.expireClaim (h : t.Mirrors m last) (hle : last ≤ now) (keyHash : String) :
    (t.expireClaim keyHash now).Mirrors m now := by
  unfold DynamoTable.expireClaim
  split_ifs with hexp
  · refine ⟨h.emails, h.messages, h.recipients, h.items, fun k => ?_⟩
    show (t.idempotency.erase keyHash).get k = _ ∨ (t.idempotency.erase keyHash).get k = none ∧ _
    rw [OrderedMap.get_erase]
    split_ifs with hk
    · subst hk
      obtain ⟨e, he, hle'⟩ := (Option.any_eq_true _ _).mp hexp
      rcases h.claims k with hk' | ⟨hk', -⟩
      · exact Or.inr ⟨rfl, e, by rw [← hk', he], of_decide_eq_true hle'⟩
      · rw [hk'] at he
        cases he
    · exact (h.mono hle).claims k
  · exact h.mono hle

/-- A stored delivery is read back. -/
theorem Mirrors.getDelivery (h : t.Mirrors m last) (hd : m.Delivered past) {k : String}
    {msg : MessageRecord} (hm : m.deliveryMessages.get k = some msg) :
    ∃ r, t.getDelivery k = .ok (some r) ∧ r.email.id = k := by
  obtain ⟨e, he⟩ := hd.inv.has_email k msg hm
  obtain ⟨id, item, hid, hitem⟩ := hd.inv.has_outbox k msg hm
  obtain ⟨hvalid, hjob, hgen⟩ := hd.item id item hitem
  have hidentity : createOutboxIdentity k .dispatchMessage 0 = .ok id := by
    obtain ⟨item', hitem', hk'⟩ := hd.inv.outbox_message k id hid
    rw [hitem, Option.some.injEq] at hitem'
    rw [← hk', ← hitem', ← hjob, ← hgen, hvalid.identity, (hd.inv.outbox_id id item hitem).1]
  have houtbox : t.getOutboxItem id = .ok (some item) := by
    rw [getOutboxItem, h.items, hitem]
    exact congrArg (Except.map some) (OutboxItemRecord.parse_eq_ok.mpr ⟨hvalid, rfl⟩)
  have hget : ∀ rid ∈ msg.recipientIds, ∃ r, t.recipients.get (k, rid) = some r := by
    intro rid hrid
    obtain ⟨r, hr, hrk⟩ := hd.inv.has_recipient k msg hm rid hrid
    exact ⟨r, by rw [h.recipients, hr, Option.filter_some, if_pos (decide_eq_true hrk)]⟩
  have hany : t.recipients.keys.any (·.1 == k) = true := by
    obtain ⟨rid, hrid⟩ := List.exists_mem_of_ne_nil _ (hd.message k msg hm).ne_nil
    obtain ⟨r, hr⟩ := hget rid hrid
    exact List.any_eq_true.mpr ⟨(k, rid), (OrderedMap.mem_keys_iff_has _ _).mpr
      ((OrderedMap.has_eq_true_iff _ _).mpr ⟨r, hr⟩), beq_iff_eq.mpr rfl⟩
  obtain ⟨rs, hrs⟩ := exists_mapM_eq_some hget
  have hparse : rs.mapM RecipientRecord.parse = .ok rs := by
    refine mapM_parse_eq_ok.mpr ⟨fun r hr => ?_, rfl⟩
    have hmem : some r ∈ rs.map some := List.mem_map_of_mem hr
    rw [← mapM_eq_some.mp hrs] at hmem
    obtain ⟨rid, -, hrid⟩ := List.mem_map.mp hmem
    rw [h.recipients, Option.filter_eq_some_iff] at hrid
    exact (hd.recipient rid r hrid.1).1
  refine ⟨⟨⟨e, msg, rs, item, none⟩, false⟩, ?_, hd.inv.email_id k e he⟩
  simp only [DynamoTable.getDelivery, hidentity, houtbox, h.emails, h.messages, he, hm, hany, hrs,
    MessageRecord.parse_eq_ok.mpr ⟨hd.message k msg hm, rfl⟩, hparse, ok_bind]
  rfl

/-- The table with the items of a delivery. -/
def withDelivery (t : DynamoTable) (c : DeliveryCommit) : DynamoTable where
  emails := t.emails.set c.email.id c.email
  deliveryMessages := t.deliveryMessages.set c.message.id c.message
  recipients := t.recipients.setAll (fun r => (c.message.id, r.id)) c.recipients
  outboxItems := t.outboxItems.set c.outbox.id c.outbox
  idempotency := ClaimTable.record t.idempotency c
  undispatched := if c.outbox.dispatchedAt.isNone then t.undispatched + 1 else t.undispatched

/-- The transaction of a free delivery is decided by the claim of its key. -/
theorem Mirrors.transactDelivery (h : t.Mirrors m last) (hc : input.Consistent)
    (hf : m.Free input) : t.transactDelivery input =
      if (ClaimTable.stored t.idempotency input).isSome then none
      else some (t.withDelivery input) := by
  have hn : (input.recipients.map (·.id)).Nodup :=
    hc.recipient_ids.nodup_iff.mpr hc.message_valid.nodup
  have hrecipients : input.recipients.foldlM
      (fun rows r => OrderedMap.insertRow rows (input.message.id, r.id) r) t.recipients =
        some (t.recipients.setAll (fun r => (input.message.id, r.id)) input.recipients) := by
    refine OrderedMap.foldlM_eq_setAll (fun rows r => rows.get (input.message.id, r.id) = none)
      (fun _ r hr => OrderedMap.insertRow_of_absent hr r) ?_ ?_ (List.pairwise_map.mp hn)
    · intro rows v w hid hw
      rw [OrderedMap.get_set_ne _ _ fun heq => hid (Prod.mk.inj heq).2.symm, hw]
    · intro r hr
      rw [h.recipients, hf.recipient r hr]
      rfl
  rw [DynamoTable.transactDelivery, OrderedMap.insertRow_of_absent (by rw [h.emails]; exact hf.email),
    OrderedMap.insertRow_of_absent (by rw [h.messages]; exact hf.message), hrecipients,
    OrderedMap.insertRow_of_absent (by rw [h.items]; exact hf.item)]
  cases hi : input.idempotency with
  | none =>
    simp only [withDelivery, DeliveryCommit.claimEntry, ClaimTable.record, ClaimTable.stored, hi,
      Option.map_none, Option.bind_none]
    rfl
  | some claim =>
    simp only [withDelivery, DeliveryCommit.claimEntry, ClaimTable.record, ClaimTable.stored, hi,
      Option.map_some, Option.bind_some]
    cases hg : t.idempotency.get claim.keyHash with
    | none =>
      rw [OrderedMap.insertRow_of_absent hg]
      rfl
    | some entry =>
      rw [OrderedMap.insertRow_of_present hg]
      rfl

/-- The recipients of the new delivery are in the partition of its message. -/
theorem Mirrors.recipients_committed (h : t.Mirrors m last) (hc : m.Committed m' input)
    (k id : String) :
    (t.recipients.setAll (fun r => (input.message.id, r.id)) input.recipients).get (k, id) =
      (m'.deliveryRecipients.get id).filter fun r => r.messageId = k := by
  have hn : (input.recipients.map fun r => (input.message.id, r.id)).Nodup := by
    have := hc.recipients_nodup.map (Prod.mk_right_injective input.message.id)
    rwa [List.map_map] at this
  by_cases hid : id ∈ input.recipients.map (·.id)
  · obtain ⟨r, hr, rfl⟩ := List.mem_map.mp hid
    have hmsg := (hc.consistent.recipient hr).1
    rw [hc.get_recipient hr, Option.filter_some]
    by_cases hk : input.message.id = k
    · subst hk
      rw [if_pos (decide_eq_true hmsg)]
      exact OrderedMap.get_setAll_of_mem hn hr t.recipients
    · rw [if_neg (by simpa [hmsg] using hk), OrderedMap.get_setAll_of_notMem, h.recipients,
        hc.no_recipient r hr]
      · rfl
      · simpa using fun _ _ heq => absurd heq hk
  · rw [hc.recipients, OrderedMap.get_setAll_of_notMem hid, OrderedMap.get_setAll_of_notMem,
      h.recipients]
    simp only [List.mem_map, Prod.mk.injEq, not_exists, not_and]
    exact fun r hr _ heq => hid (List.mem_map.mpr ⟨r, hr, heq⟩)

end DynamoTable

/-- **DynamoDB keeps the promise** on a commit whose key has no expired claim, however late it
removes the expired ones. -/
theorem DynamoStore.commitDelivery_mirrors {t : DynamoTable} {m m' : MemoryStore}
    {past : List DeliveryCommit} {input : DeliveryCommit} {last now : ℕ} (h : t.Mirrors m last)
    (hle : last ≤ now) (hd : m.Delivered past) (hapart : ∀ c ∈ past, c.Apart input)
    (hs : m.Settled m' input now)
    (hexpired : validateDeliveryCommit input now = .ok input →
      ∀ entry, ClaimTable.stored m.idempotency input = some entry → now < entry.expiresAt) :
    ∃ t', observeCommit (·.idempotency) t input (commitDelivery t input now) =
      (t', (ClaimTable.commit m.idempotency input now).2) ∧ t'.Mirrors m' now := by
  rcases ClaimTable.answer m.idempotency input now with ⟨e, hv, hc⟩ | ⟨claim, entry, hv, hi, hg, hl,
    hr, hc⟩ | ⟨claim, entry, hv, hi, hg, hl, hr, hc⟩ | ⟨hv, hl, hc⟩
  · refine ⟨t, ?_, ?_⟩
    · rw [commitDelivery, hv, hc]
      rfl
    · rw [hs.kept fun hv' => by rw [hv] at hv'; cases hv']
      exact h.mono hle
  · have hcons := (validateDeliveryCommit_eq_ok hv).2
    have hget := h.get_unexpired hle hg hl
    have htransact := h.transactDelivery hcons (hd.free hcons hapart)
    rw [ClaimTable.stored, hi, Option.bind_some, hget, Option.isSome_some, if_pos rfl] at htransact
    refine ⟨t, ?_, ?_⟩
    · rw [commitDelivery, hv, ok_bind, hc]
      simp only [htransact, hi, hget, bne_iff_ne.mpr hr, if_true]
      rfl
    · rw [hs.kept fun _ => ⟨entry, ClaimTable.live_eq_some.mpr ⟨claim, hi, hg, hl⟩⟩]
      exact h.mono hle
  · have hcons := (validateDeliveryCommit_eq_ok hv).2
    have hget := h.get_unexpired hle hg hl
    have htransact := h.transactDelivery hcons (hd.free hcons hapart)
    rw [ClaimTable.stored, hi, Option.bind_some, hget, Option.isSome_some, if_pos rfl] at htransact
    obtain ⟨msg, hm⟩ := hd.claimed _ _ hg
    obtain ⟨r, hres, hid⟩ := h.getDelivery hd hm
    refine ⟨t, ?_, ?_⟩
    · rw [commitDelivery, hv, ok_bind, hc, ← hid]
      simp only [htransact, hi, hget, hr, bne_self_eq_false, Bool.false_eq_true, if_false, hres,
        ok_bind]
      rfl
    · rw [hs.kept fun _ => ⟨entry, ClaimTable.live_eq_some.mpr ⟨claim, hi, hg, hl⟩⟩]
      exact h.mono hle
  · have hcons := (validateDeliveryCommit_eq_ok hv).2
    have hcommitted := hs.created hv hl
    have hnone : ClaimTable.stored m.idempotency input = none := by
      cases hst : ClaimTable.stored m.idempotency input with
      | none => rfl
      | some entry =>
        rw [ClaimTable.live, hst, Option.filter_some,
          if_pos (decide_eq_true (hexpired hv entry hst))] at hl
        cases hl
    have hnone' : ClaimTable.stored t.idempotency input = none := by
      cases hi : input.idempotency with
      | none => rw [ClaimTable.stored, hi]; rfl
      | some claim =>
        rw [ClaimTable.stored, hi, Option.bind_some] at hnone ⊢
        rcases h.claims claim.keyHash with hk | ⟨hk, -⟩
        · rw [hk, hnone]
        · exact hk
    have htransact := h.transactDelivery hcons (hd.free hcons hapart)
    rw [hnone', Option.isSome_none, if_neg Bool.false_ne_true] at htransact
    refine ⟨t.withDelivery input, ?_, ?_, ?_, h.recipients_committed hcommitted, ?_, fun k => ?_⟩
    · rw [commitDelivery, hv, ok_bind, hc]
      simp only [htransact]
      simp only [observeCommit, pure, Except.pure, Bool.false_eq_true, if_false,
        DynamoTable.withDelivery, ClaimTable.stored_record]
    · rw [hcommitted.emails, ← hcons.email_id, ← h.emails]
      rfl
    · rw [hcommitted.messages, ← h.messages]
      rfl
    · rw [hcommitted.items, ← h.items]
      rfl
    · rw [hs.claims, hc]
      have hk := (h.mono hle).claims k
      cases hi : input.idempotency with
      | none =>
        simpa only [DynamoTable.withDelivery, ClaimTable.record, DeliveryCommit.claimEntry, hi,
          Option.map_none] using hk
      | some claim =>
        simp only [DynamoTable.withDelivery, ClaimTable.record, DeliveryCommit.claimEntry, hi,
          Option.map_some, OrderedMap.get_set]
        split_ifs
        · exact Or.inl rfl
        · exact hk

end HayaSend
