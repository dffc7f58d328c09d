import HayaSend.Services.CreateReplay

/-!
# Committing a prepared email

`commitPreparedEmail` builds the records of a delivery from what `prepareEmail` returns, and
`validateDeliveryCommit` checks them. Everything agrees by construction but the addresses:
`normalizeRecipients` drops a recipient that was named before, yet a list of which nothing is left
does not replace the list of the request. The delivery passes exactly when every list that names
somebody names somebody new (`prepared_commits_iff`).
-/

namespace HayaSend

/-! ## Addresses -/

/-- The addresses of the recipients of a list. -/
def envelopeAddresses (p : Platform) (values : List String) : List String :=
  values.filterMap fun value => (normalizeEnvelopeAddress p value).toOption

/-- Every list that names somebody names somebody who is not in the lists before it. -/
def SendEmailInput.NamesSomebodyNew (p : Platform) (input : SendEmailInput) : Prop :=
  let to_ := envelopeAddresses p input.to_
  let cc := envelopeAddresses p (input.cc.getD [])
  let bcc := envelopeAddresses p (input.bcc.getD [])
  (cc = [] ∨ ∃ address ∈ cc, address ∉ to_) ∧ (bcc = [] ∨ ∃ address ∈ bcc, address ∉ to_ ++ cc)

/-- Of the addresses `all`, those `new` that are not among `seen`; `seen'` has them too. -/
structure NewAmong (seen all new seen' : List String) : Prop where
  nodup : new.Nodup
  mem : ∀ a ∈ new, a ∈ all
  fresh : ∀ a ∈ new, a ∉ seen
  covers : ∀ a ∈ all, a ∈ seen ∨ a ∈ new
  seen : ∀ a, a ∈ seen' ↔ a ∈ seen ∨ a ∈ new

namespace NewAmong

variable {seen seen' all new : List String} {address : String}

theorem nil (seen : List String) : NewAmong seen [] [] seen :=
  ⟨List.nodup_nil, by simp, by simp, by simp, by simp⟩

theorem cons_seen (h : NewAmong seen all new seen') (ha : address ∈ seen) :
    NewAmong seen (address :: all) new seen' where
  nodup := h.nodup
  mem a hmem := List.mem_cons_of_mem _ (h.mem a hmem)
  fresh := h.fresh
  covers a hmem := by
    rcases List.mem_cons.mp hmem with rfl | hmem
    · exact Or.inl ha
    · exact h.covers a hmem
  seen := h.seen

theorem cons_new (h : NewAmong (address :: seen) all new seen') (ha : address ∉ seen) :
    NewAmong seen (address :: all) (address :: new) seen' where
  nodup := List.nodup_cons.mpr ⟨fun hmem => h.fresh _ hmem List.mem_cons_self, h.nodup⟩
  mem := List.forall_mem_cons.mpr
    ⟨List.mem_cons_self, fun a hmem => List.mem_cons_of_mem _ (h.mem a hmem)⟩
  fresh := List.forall_mem_cons.mpr
    ⟨ha, fun a hmem hseen => h.fresh a hmem (List.mem_cons_of_mem _ hseen)⟩
  covers := List.forall_mem_cons.mpr ⟨Or.inr List.mem_cons_self, fun a hmem => by
    rcases h.covers a hmem with hseen | hnew
    · rcases List.mem_cons.mp hseen with rfl | hseen
      · exact Or.inr List.mem_cons_self
      · exact Or.inl hseen
    · exact Or.inr (List.mem_cons_of_mem _ hnew)⟩
  seen a := by rw [h.seen, List.mem_cons, List.mem_cons, or_assoc, or_left_comm]

theorem mem_seen (h : NewAmong seen all new seen') (a : String) :
    a ∈ seen' ↔ a ∈ seen ∨ a ∈ all := by
  rw [h.seen]
  constructor
  · exact Or.imp_right (h.mem a)
  · rintro (hseen | hall)
    · exact Or.inl hseen
    · exact h.covers a hall

/-- Something is new when not everything was seen. -/
theorem ne_nil_iff (h : NewAmong seen all new seen') : new ≠ [] ↔ ∃ a ∈ all, a ∉ seen := by
  constructor
  · intro hne
    obtain ⟨a, hmem⟩ := List.exists_mem_of_ne_nil _ hne
    exact ⟨a, h.mem a hmem, h.fresh a hmem⟩
  · rintro ⟨a, hmem, hseen⟩
    exact List.ne_nil_of_mem ((h.covers a hmem).resolve_left hseen)

end NewAmong

/-- The addresses of a list of the record: those that were kept, or all if none was. -/
def mergedAddresses (all new : List String) : List String := if new = [] then all else new

/-- The addresses of the record are distinct when no list was emptied. -/
theorem nodup_mergedAddresses {toAll ccAll bccAll to_ cc bcc seen₁ seen₂ seen₃ : List String}
    (hto : NewAmong [] toAll to_ seen₁) (hcc : NewAmong seen₁ ccAll cc seen₂)
    (hbcc : NewAmong seen₂ bccAll bcc seen₃) :
    (to_ ++ mergedAddresses ccAll cc ++ mergedAddresses bccAll bcc).Nodup ↔
      (ccAll = [] ∨ ∃ a ∈ ccAll, a ∉ toAll) ∧ (bccAll = [] ∨ ∃ a ∈ bccAll, a ∉ toAll ++ ccAll) := by
  have hseen₁ : ∀ a, a ∈ seen₁ ↔ a ∈ toAll := fun a => by
    rw [hto.mem_seen, List.mem_nil_iff, false_or]
  have hseen₂ : ∀ a, a ∈ seen₂ ↔ a ∈ toAll ++ ccAll := fun a => by
    rw [hcc.mem_seen, hseen₁, List.mem_append]
  have hccNew := hcc.ne_nil_iff
  have hbccNew := hbcc.ne_nil_iff
  simp only [hseen₁] at hccNew
  simp only [hseen₂] at hbccNew
  rw [← hccNew, ← hbccNew]
  constructor
  · intro hnodup
    obtain ⟨hfirst, -, hlast⟩ := List.nodup_append.mp hnodup
    obtain ⟨-, -, hmiddle⟩ := List.nodup_append.mp hfirst
    constructor
    · -- the whole cc list was seen, so an address of it is in to
      by_contra hemptied
      push Not at hemptied
      obtain ⟨hne, hnone⟩ := hemptied
      obtain ⟨a, hmem⟩ := List.exists_mem_of_ne_nil _ hne
      have hto' : a ∈ to_ := by
        rcases hcc.covers a hmem with hseen | hnew
        · exact ((hto.seen a).mp hseen).resolve_left List.not_mem_nil
        · exact absurd hnew (hnone ▸ List.not_mem_nil)
      exact hmiddle a hto' a (by rwa [mergedAddresses, if_pos hnone]) rfl
    · by_contra hemptied
      push Not at hemptied
      obtain ⟨hne, hnone⟩ := hemptied
      obtain ⟨a, hmem⟩ := List.exists_mem_of_ne_nil _ hne
      have hbefore : a ∈ to_ ++ mergedAddresses ccAll cc := by
        rw [List.mem_append]
        rcases hbcc.covers a hmem with hseen | hnew
        · rcases (hcc.seen a).mp hseen with hseen | hnew
          · exact Or.inl (((hto.seen a).mp hseen).resolve_left List.not_mem_nil)
          · refine Or.inr ?_
            rwa [mergedAddresses, if_neg (List.ne_nil_of_mem hnew)]
        · exact absurd hnew (hnone ▸ List.not_mem_nil)
      exact hlast a hbefore a (by rwa [mergedAddresses, if_pos hnone]) rfl
  · rintro ⟨hccKept, hbccKept⟩
    have hmerged : ∀ {all new : List String}, all = [] ∨ new ≠ [] → (∀ a ∈ new, a ∈ all) →
        mergedAddresses all new = new := by
      intro all new h hsub
      unfold mergedAddresses
      split_ifs with hnone
      · rcases h with rfl | hne
        · exact hnone.symm
        · exact absurd hnone hne
      · rfl
    rw [hmerged hccKept hcc.mem, hmerged hbccKept hbcc.mem, List.nodup_append, List.nodup_append]
    refine ⟨⟨hto.nodup, hcc.nodup, ?_⟩, hbcc.nodup, ?_⟩
    · rintro a ha _ hmem rfl
      exact hcc.fresh a hmem ((hto.seen a).mpr (Or.inr ha))
    · rintro a ha _ hmem rfl
      refine hbcc.fresh a hmem ((hcc.seen a).mpr ?_)
      rcases List.mem_append.mp ha with ha | ha
      · exact Or.inl ((hto.seen a).mpr (Or.inr ha))
      · exact Or.inr ha

/-! ## Recipients -/

section Recipients

variable {p : Platform}

/-- `collect` keeps the values whose addresses are new. -/
theorem collectRecipients_spec {seen seen' values kept : List String}
    (h : collectRecipients p seen values = .ok (kept, seen')) :
    ∃ all new, values.mapM (normalizeEnvelopeAddress p) = .ok all ∧
      kept.mapM (normalizeEnvelopeAddress p) = .ok new ∧ NewAmong seen all new seen' := by
  induction values generalizing seen kept with
  | nil =>
    cases h
    exact ⟨[], [], rfl, rfl, .nil _⟩
  | cons value values ih =>
    unfold collectRecipients at h
    obtain ⟨address, haddress, h⟩ := bind_eq_ok.mp h
    split_ifs at h with hcontains
    · obtain ⟨all, new, hall, hnew, hspec⟩ := ih h
      refine ⟨address :: all, new, ?_, hnew, hspec.cons_seen (List.contains_iff_mem.mp hcontains)⟩
      rw [List.mapM_cons, haddress, ok_bind, hall]
      rfl
    · obtain ⟨⟨kept', seen''⟩, hkept, h⟩ := bind_eq_ok.mp h
      rw [pure_eq_ok, Prod.mk.injEq] at h
      obtain ⟨rfl, rfl⟩ := h
      obtain ⟨all, new, hall, hnew, hspec⟩ := ih hkept
      refine ⟨address :: all, address :: new, ?_, ?_,
        hspec.cons_new fun hmem => hcontains (List.contains_iff_mem.mpr hmem)⟩
      · rw [List.mapM_cons, haddress, ok_bind, hall]
        rfl
      · rw [List.mapM_cons, haddress, ok_bind, hnew]
        rfl

/-- A list of the record after the merge. -/
theorem merged_mapM {values : Option (List String)} {kept all new : List String}
    (hall : (values.getD []).mapM (normalizeEnvelopeAddress p) = .ok all)
    (hnew : kept.mapM (normalizeEnvelopeAddress p) = .ok new) :
    ((if kept.isEmpty then values else some kept).getD []).mapM (normalizeEnvelopeAddress p) =
      .ok (mergedAddresses all new) := by
  have hlength := (mapM_eq_ok.mp hnew).length_eq
  unfold mergedAddresses
  cases kept with
  | nil =>
    rw [List.eq_nil_of_length_eq_zero hlength.symm, if_pos rfl]
    exact hall
  | cons value kept =>
    rw [if_neg (List.ne_nil_of_length_pos (by rw [← hlength]; exact Nat.succ_pos _))]
    exact hnew

/-- The places of a record have the addresses of its recipients, in order. -/
theorem mapM_places {envelope : List (EnvelopeRole × ℕ × String)} {addresses : List String}
    (h : (envelope.map (·.2.2)).mapM (normalizeEnvelopeAddress p) = .ok addresses) :
    ∃ places, envelope.mapM (fun place => do
        let address ← normalizeEnvelopeAddress p place.2.2
        return (place.1, place.2.1, address)) = .ok places ∧
      places.map (·.2.2) = addresses ∧
      places.map (fun place => (place.1, place.2.1)) =
        envelope.map fun place => (place.1, place.2.1) := by
  induction envelope generalizing addresses with
  | nil =>
    cases h
    exact ⟨[], rfl, rfl, rfl⟩
  | cons place envelope ih =>
    rw [List.map_cons, List.mapM_cons] at h
    obtain ⟨address, haddress, h⟩ := bind_eq_ok.mp h
    obtain ⟨rest, hrest, h⟩ := bind_eq_ok.mp h
    rw [pure_eq_ok] at h
    subst h
    obtain ⟨places, hplaces, haddresses, hpositions⟩ := ih hrest
    refine ⟨(place.1, place.2.1, address) :: places, ?_, by rw [List.map_cons, haddresses],
      by rw [List.map_cons, List.map_cons, hpositions]⟩
    rw [List.mapM_cons, haddress, ok_bind, pure_bind, hplaces]
    rfl

/-- No two recipients of a record have the same place on the envelope. -/
theorem nodup_envelope (record : EmailRecord) :
    (record.envelope.map fun place => (place.1, place.2.1)).Nodup := by
  have hplaces : ∀ (role : EnvelopeRole) (values : List String),
      (values.mapIdx fun ordinal address => (role, ordinal, address)).map
        (fun place => (place.1, place.2.1)) = (List.range values.length).map (role, ·) := by
    intro role values
    refine List.ext_getElem (by simp) fun i h₁ h₂ => ?_
    simp
  have hrole : ∀ (role : EnvelopeRole) (n : ℕ), ((List.range n).map (role, ·)).Nodup :=
    fun role n => List.nodup_range.map (Prod.mk_right_injective role)
  have hother : ∀ {role role' : EnvelopeRole} {n m : ℕ}, role ≠ role' →
      ∀ a ∈ (List.range n).map (role, ·), ∀ b ∈ (List.range m).map (role', ·), a ≠ b := by
    rintro role role' n m hne a ha b hb rfl
    obtain ⟨i, -, rfl⟩ := List.mem_map.mp ha
    obtain ⟨j, -, heq⟩ := List.mem_map.mp hb
    exact hne (congrArg Prod.fst heq).symm
  rw [EmailRecord.envelope, List.map_append, List.map_append, hplaces, hplaces, hplaces]
  refine List.nodup_append.mpr ⟨List.nodup_append.mpr
    ⟨hrole _ _, hrole _ _, hother (by decide)⟩, hrole _ _, fun a ha b hb => ?_⟩
  rcases List.mem_append.mp ha with ha | ha
  · exact hother (by decide) a ha b hb
  · exact hother (by decide) a ha b hb

theorem envelopeAddresses_of_mapM {values all : List String}
    (h : values.mapM (normalizeEnvelopeAddress p) = .ok all) : envelopeAddresses p values = all :=
  (mapM_eq_ok_filterMap.mp h).2

/-- The places of a record with normalized recipients. -/
theorem normalizeRecipients_places {input recipients : SendEmailInput}
    (h : normalizeRecipients p input = .ok recipients) {record : EmailRecord}
    (hto : record.to_ = recipients.to_) (hcc : record.cc = recipients.cc)
    (hbcc : record.bcc = recipients.bcc) :
    ∃ places, record.places p = .ok places ∧
      ((places.map (·.2.2)).Nodup ↔ input.NamesSomebodyNew p) ∧
      (places.map fun place => (place.1, place.2.1)).Nodup ∧
      (∀ place ∈ places, ∃ value, normalizeEnvelopeAddress p value = .ok place.2.2) ∧
      (places = [] → input.recipients = []) := by
  obtain ⟨⟨to_, seen₁⟩, htoKept, h⟩ := bind_eq_ok.mp h
  obtain ⟨⟨cc, seen₂⟩, hccKept, h⟩ := bind_eq_ok.mp h
  obtain ⟨⟨bcc, seen₃⟩, hbccKept, h⟩ := bind_eq_ok.mp h
  rw [pure_eq_ok] at h
  subst h
  obtain ⟨toAll, toNew, htoAll, htoNew, htoSpec⟩ := collectRecipients_spec htoKept
  obtain ⟨ccAll, ccNew, hccAll, hccNew, hccSpec⟩ := collectRecipients_spec hccKept
  obtain ⟨bccAll, bccNew, hbccAll, hbccNew, hbccSpec⟩ := collectRecipients_spec hbccKept
  have hlist : ∀ (role : EnvelopeRole) (values : List String),
      (values.mapIdx fun ordinal address => (role, ordinal, address)).map (·.2.2) = values := by
    intro role values
    refine List.ext_getElem (by simp) fun i h₁ h₂ => ?_
    simp
  have henvelope : record.envelope.map (·.2.2) =
      record.to_ ++ record.cc.getD [] ++ record.bcc.getD [] := by
    rw [EmailRecord.envelope, List.map_append, List.map_append, hlist, hlist, hlist]
  have haddresses : (record.envelope.map (·.2.2)).mapM (normalizeEnvelopeAddress p) =
      .ok (toNew ++ mergedAddresses ccAll ccNew ++ mergedAddresses bccAll bccNew) := by
    rw [henvelope, hto, hcc, hbcc, List.mapM_append, List.mapM_append, htoNew,
      merged_mapM hccAll hccNew, merged_mapM hbccAll hbccNew]
    rfl
  obtain ⟨places, hplaces, hmap, hpositions⟩ := mapM_places haddresses
  refine ⟨places, hplaces, ?_, ?_, fun place hplace => ?_, ?_⟩
  · rw [hmap, nodup_mergedAddresses htoSpec hccSpec hbccSpec, SendEmailInput.NamesSomebodyNew,
      envelopeAddresses_of_mapM htoAll, envelopeAddresses_of_mapM hccAll,
      envelopeAddresses_of_mapM hbccAll]
  · rw [hpositions]
    exact nodup_envelope record
  · have hmem : place.2.2 ∈ places.map (·.2.2) := List.mem_map_of_mem hplace
    rw [hmap, ← (mapM_eq_ok_filterMap.mp haddresses).2] at hmem
    obtain ⟨value, -, hvalue⟩ := List.mem_filterMap.mp hmem
    exact ⟨value, toOption_eq_some.mp hvalue⟩
  · rintro rfl
    -- no list of the record has an address, so none of the request had one
    have hnone := hmap.symm
    rw [List.map_nil, List.append_eq_nil_iff, List.append_eq_nil_iff] at hnone
    obtain ⟨⟨htoNone, hccNone⟩, hbccNone⟩ := hnone
    have hempty : ∀ {values all : List String},
        values.mapM (normalizeEnvelopeAddress p) = .ok all → all = [] → values = [] := by
      rintro values all hall rfl
      exact List.eq_nil_of_length_eq_zero (mapM_eq_ok.mp hall).length_eq
    have hmerged : ∀ {all new : List String}, mergedAddresses all new = [] → all = [] := by
      intro all new h
      unfold mergedAddresses at h
      split_ifs at h with hnew
      · exact h
      · exact absurd h hnew
    have htoEmpty : toAll = [] := by
      by_contra hne
      obtain ⟨a, hmem⟩ := List.exists_mem_of_ne_nil _ hne
      exact htoSpec.ne_nil_iff.mpr ⟨a, hmem, List.not_mem_nil⟩ htoNone
    rw [SendEmailInput.recipients, hempty htoAll htoEmpty, hempty hccAll (hmerged hccNone),
      hempty hbccAll (hmerged hbccNone)]
    rfl

end Recipients

/-! ## Commits -/

/-- What `commitPreparedEmail` makes of a prepared email passes the checks of the commit. -/
def PreparedEmail.Commits (p : Platform) (options : EmailServiceOptions) (uuid : ℕ → String)
    (prepared : PreparedEmail) (now : ℕ) : Prop :=
  ∃ delivery, prepared.delivery p options (fun i => createId "rcpt" (uuid (i + 1))) = .ok delivery ∧
    validateDeliveryCommit delivery (epochSeconds now) = .ok delivery

/-- An accepted address as the schema of the recipients wants it. -/
theorem isEmailAddress_of_normalize {p : Platform} {value address : String}
    (h : normalizeEnvelopeAddress p value = .ok address) :
    isEmailAddress address = true ∧ address.toList.length ≤ 320 := by
  obtain ⟨normalized, -, h⟩ := bind_eq_ok.mp h
  obtain ⟨_, hvalid, h⟩ := bind_eq_ok.mp h
  rw [pure_eq_ok] at h
  subst h
  simpa using hvalid

/-- An accepted address is in lower case. -/
theorem toLower_of_normalize {p : Platform}
    (hlower : ∀ text, (p.toLowerCase text).toLower = p.toLowerCase text) {value address : String}
    (h : normalizeEnvelopeAddress p value = .ok address) : address.toLower = address := by
  obtain ⟨normalized, hnormalized, h⟩ := bind_eq_ok.mp h
  obtain ⟨_, -, h⟩ := bind_eq_ok.mp h
  rw [pure_eq_ok] at h
  subst h
  unfold normalizeMailbox at hnormalized
  dsimp only at hnormalized
  split_ifs at hnormalized
  rw [← Except.ok.inj hnormalized, hlower]

/-- The claim of a prepared email is for its digest, and it lasts. -/
theorem assembleEmail_claim {p : Platform} {emailId : String} {input normalized : SendEmailInput}
    {at_ : Option ℕ} {attachments : Option (List EmailAttachment)}
    {suppressed : List SuppressionRecord} {key : Option String} {now : ℕ}
    {claim : IdempotencyClaim} (h : (assembleEmail p emailId input normalized at_ attachments
      suppressed key now).idempotency = some claim) :
    claim.requestHash = requestHash p (stableRequest input normalized attachments) ∧
      epochSeconds now < claim.expiresAt := by
  obtain ⟨k, -, rfl⟩ := Option.map_eq_some_iff.mp h
  exact ⟨rfl, Nat.lt_add_of_pos_right (by decide)⟩

/-- **A prepared email commits** exactly when every list of its request that names somebody names
somebody new. -/
theorem prepared_commits_iff {p : Platform} {options : EmailServiceOptions} {c : Collaborators}
    {uuid : ℕ → String} {input : SendEmailInput} {key : Option String} {now : ℕ}
    {prepared : PreparedEmail}
    (hsha : ∀ text, sha256Schema (p.sha256 text) = true)
    (hlower : ∀ text, (p.toLowerCase text).toLower = p.toLowerCase text)
    (hprovider : options.provider.issues = []) (hids : RandomIds uuid)
    (h : prepareEmail p options c (createId "email" (uuid 0)) input key now = .ok prepared) :
    prepared.Commits p options uuid now ↔ input.NamesSomebodyNew p := by
  obtain ⟨content, at_, attachments, suppressed, recipients, hcontent, -, -, -, hrecipients, -,
    hassembled⟩ := prepareEmail_eq_ok.mp h
  obtain ⟨hne, -⟩ := resolveContent_recipients hcontent
  obtain ⟨template, from_, subject, html, text, replyTo, hfields⟩ := resolveContent_eq hcontent
  have hnames : content.NamesSomebodyNew p ↔ input.NamesSomebodyNew p := by rw [hfields]; rfl
  have hto : prepared.record.to_ = recipients.to_ := by rw [hassembled]; rfl
  have hcc : prepared.record.cc = recipients.cc := by rw [hassembled]; rfl
  have hbcc : prepared.record.bcc = recipients.bcc := by rw [hassembled]; rfl
  obtain ⟨places, hplaces, haddresses, hpositions, hnormalized, hempty⟩ :=
    normalizeRecipients_places hrecipients hto hcc hbcc
  have hid : prepared.record.id = createId "email" (uuid 0) := by rw [hassembled]; rfl
  obtain ⟨outboxId, houtbox⟩ := hids.outboxIdentity
  rw [← hid] at houtbox
  have hdelivery : prepared.delivery p options (fun i => createId "rcpt" (uuid (i + 1))) =
      .ok (newDelivery options prepared.record (newRecipients prepared.record
        (fun i => createId "rcpt" (uuid (i + 1))) places) outboxId prepared.idempotency) :=
    bind_eq_ok.mpr ⟨places, hplaces, bind_eq_ok.mpr ⟨outboxId, houtbox, rfl⟩⟩
  have hlowered : places.map (·.2.2.toLower) = places.map (·.2.2) := by
    refine List.map_congr_left fun place hplace => ?_
    obtain ⟨value, hvalue⟩ := hnormalized place hplace
    exact toLower_of_normalize hlower hvalue
  rw [← hnames, ← haddresses]
  constructor
  · rintro ⟨delivery, hd, hvalid⟩
    rw [hdelivery] at hd
    rw [← Except.ok.inj hd] at hvalid
    rw [← hlowered]
    exact (Deliverable.of_validate hvalid).addresses
  · intro hnodup
    have hdeliverable : Deliverable options prepared.record.requestHash places := by
      refine ⟨hprovider, ?_, fun hnil => hne (hempty hnil), fun place hplace => ?_, ?_, hpositions⟩
      · rw [hassembled]
        exact hsha _
      · obtain ⟨value, hvalue⟩ := hnormalized place hplace
        exact isEmailAddress_of_normalize hvalue
      · rw [hlowered]
        exact hnodup
    have hnew : prepared.record.IsNew := hassembled ▸ assembleEmail_isNew _ _ _ _ _
    refine ⟨_, hdelivery, hdeliverable.validate rfl hnew hids (places_length h hplaces) hid houtbox
      (fun claim hclaim => ?_) rfl⟩
    rw [hassembled] at hclaim ⊢
    exact assembleEmail_claim hclaim

/-! ## A copy to the recipient -/

theorem Char.toLower_toLower (c : Char) : c.toLower.toLower = c.toLower := by
  unfold Char.toLower
  split_ifs with hupper hagain
  · exfalso
    have hlow : 65 ≤ c.val.toNat := hupper.1
    have hhigh : c.val.toNat ≤ 90 := hupper.2
    have hlowered : (c.val + 32).toNat ≤ 90 := hagain.2
    have h32 : (32 : UInt32).toNat = 32 := rfl
    rw [UInt32.toNat_add] at hlowered
    omega
  · rfl
  · rfl

theorem String.toLower_toLower (s : String) : s.toLower.toLower = s.toLower := by
  refine String.toList_injective ?_
  show ((s.map Char.toLower).map Char.toLower).toList = (s.map Char.toLower).toList
  rw [String.toList_map, String.toList_map, List.map_map]
  exact List.map_congr_left fun c _ => Char.toLower_toLower c

theorem sha256Schema_samplePlatform (text : String) :
    sha256Schema (samplePlatform.sha256 text) = true := by
  show sha256Schema (String.ofList (List.replicate 64 (if text = datedReportRequest then 'a' else
    'b'))) = true
  split_ifs <;> decide +kernel

/-- A report that goes to one address, with copies. -/
def reportTo (copies : List String) : SendEmailInput where
  from_ := some "r@x.io"
  to_ := ["Ada <A@x.io>"]
  cc := some copies
  subject := some "Report"
  text := some "All well."

def preparedCopy (copies : List String) : Except Failure PreparedEmail :=
  prepareEmail samplePlatform sampleOptions sampleCollaborators (createId "email" (sampleUuid 0))
    (reportTo copies) none 0

theorem prepared_commits_iff_sample : ∃ prepared, preparedCopy ["a@x.io", "g@x.io"] = .ok prepared ∧
    prepared.Commits samplePlatform sampleOptions sampleUuid 0 := by
  obtain ⟨prepared, hprepared⟩ : ∃ prepared, preparedCopy ["a@x.io", "g@x.io"] = .ok prepared := by
    have hok : (preparedCopy ["a@x.io", "g@x.io"]).toOption.isSome = true := by decide +kernel
    obtain ⟨prepared, hsome⟩ := Option.isSome_iff_exists.mp hok
    exact ⟨prepared, toOption_eq_some.mp hsome⟩
  refine ⟨prepared, hprepared, (prepared_commits_iff sha256Schema_samplePlatform
    String.toLower_toLower (by decide +kernel) randomIds_sampleUuid hprepared).mpr ?_⟩
  refine ⟨Or.inr ⟨"g@x.io", ?_⟩, Or.inl rfl⟩
  decide +kernel

/-- A copy to nobody but the recipient is prepared, and the commit fails. -/
theorem copy_not_committed : ∃ prepared, preparedCopy ["a@X.io"] = .ok prepared ∧
    ¬ prepared.Commits samplePlatform sampleOptions sampleUuid 0 := by
  have hto : collectRecipients samplePlatform [] ["Ada <A@x.io>"] =
      .ok (["Ada <A@x.io>"], ["a@x.io"]) := by decide +kernel
  have hcc : collectRecipients samplePlatform ["a@x.io"] ["a@X.io"] = .ok ([], ["a@x.io"]) := by
    decide +kernel
  -- nothing is left of the copies, and those of the request stay
  have hrecipients : normalizeRecipients samplePlatform (reportTo ["a@X.io"]) =
      .ok (reportTo ["a@X.io"]) :=
    bind_eq_ok.mpr ⟨_, hto, bind_eq_ok.mpr ⟨_, hcc, rfl⟩⟩
  have hcontent : resolveContent samplePlatform sampleCollaborators (reportTo ["a@X.io"]) =
      .ok (reportTo ["a@X.io"]) := by decide +kernel
  have hmailboxes : (reportTo ["a@X.io"]).recipients.mapM (normalizeMailbox samplePlatform) =
      .ok ["a@x.io", "a@x.io"] := by decide +kernel
  have hsuppressed : sampleCollaborators.suppressions.findSuppressed samplePlatform
      (reportTo ["a@X.io"]).recipients = .ok [] :=
    bind_eq_ok.mpr ⟨_, hmailboxes, by decide +kernel⟩
  refine ⟨_, prepareEmail_eq_ok.mpr ⟨_, none, none, [], _, hcontent, rfl, rfl, hsuppressed,
    hrecipients, rfl, rfl⟩, ?_⟩
  rintro ⟨delivery, hdelivery, hvalid⟩
  obtain ⟨places, hplaces, hdelivery⟩ := bind_eq_ok.mp hdelivery
  obtain ⟨outboxId, -, hdelivery⟩ := bind_eq_ok.mp hdelivery
  rw [pure_eq_ok] at hdelivery
  rw [← hdelivery] at hvalid
  have hsame : EmailRecord.places samplePlatform (assembleEmail samplePlatform
      (createId "email" (sampleUuid 0)) (reportTo ["a@X.io"]) (reportTo ["a@X.io"]).uniqueReplyTo
      none none [] none 0).record = .ok [(.to_, 0, "a@x.io"), (.cc, 0, "a@x.io")] := by
    decide +kernel
  rw [← Except.ok.inj (hsame.symm.trans hplaces)] at hvalid
  exact absurd (Deliverable.of_validate hvalid).addresses (by simp)

end HayaSend
