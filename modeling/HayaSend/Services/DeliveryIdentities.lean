import HayaSend.Adapters.MemoryStoreOutbox
import HayaSend.Foundations.PrefixCodes
import HayaSend.Services.TemplateVersions

/-!
# Delivery identities

The identity of an outbox item and of a provider event: the parts, percent-encoded, between colons.
No part has a colon after the encoding, which triples a part at most, so an identity whose parts pass
their schemas passes its own, and no two inputs share one (`delivery_identities`).
-/

namespace HayaSend

/-! ## The schemas of the identities -/

/-- What `.` does not match. -/
def isLineTerminator (c : Char) : Bool := ['\n', '\r', '\u2028', '\u2029'].contains c

/-- `^provider-event:v1:[^:]+:(?:id|digest):.+$`, of length 1 to 2048. -/
def providerEventIdentitySchema (s : String) : Bool :=
  let rest := s.toList.drop "provider-event:v1:".length
  let tail := rest.dropWhile (· != ':')
  "provider-event:v1:".toList.isPrefixOf s.toList && !(rest.takeWhile (· != ':')).isEmpty &&
    ([":id:", ":digest:"].any fun kind =>
      let value := tail.drop kind.length
      kind.toList.isPrefixOf tail && !value.isEmpty && value.all fun c => !isLineTerminator c) &&
    1 ≤ utf16Length s && utf16Length s ≤ 2048

/-- `[a-z][a-z0-9-]+` -/
def isJobTypeText : List Char → Bool
  | [] => false
  | c :: cs => c.isLower && !cs.isEmpty && cs.all fun c => c.isLower || c.isDigit || c == '-'

/-- `^outbox:v1:[^:]+:[a-z][a-z0-9-]+:[0-9]+$`, of length 1 to 512. -/
def outboxIdentitySchema (s : String) : Bool :=
  let rest := s.toList.drop "outbox:v1:".length
  let tail := (rest.dropWhile (· != ':')).drop 1
  let generation := (tail.dropWhile (· != ':')).drop 1
  "outbox:v1:".toList.isPrefixOf s.toList && !(rest.takeWhile (· != ':')).isEmpty &&
    isJobTypeText (tail.takeWhile (· != ':')) &&
    !generation.isEmpty && generation.all Char.isDigit &&
    1 ≤ utf16Length s && utf16Length s ≤ 512

/-- `Number.MAX_SAFE_INTEGER` -/
def maxSafeInteger : ℕ := 2 ^ 53 - 1

/-- The schema of the value of a source. -/
def ProviderEventSource.valueSchema : ProviderEventSource → Bool
  | .providerEventId value => providerOpaqueIdSchema value
  | .normalizedEventDigest value => sha256Schema value

/-! ## Segments -/

/-- What `encodeURIComponent` keeps. -/
def isUnreserved (c : Char) : Bool := c.isAlphanum || "-_.!~*'()".toList.contains c

/-- `%` and two digits. -/
def percentByte (b : UInt8) : List Char :=
  ['%', (Nat.digitChar (b.toNat / 16)).toUpper, (Nat.digitChar (b.toNat % 16)).toUpper]

/-- The word of a character. -/
def percentChar (c : Char) : List Char :=
  if isUnreserved c then [c] else (String.utf8EncodeChar c).flatMap percentByte

theorem toList_identitySegment (s : String) :
    (identitySegment s).toList = s.toList.flatMap percentChar := by
  rw [identitySegment, String.toList_ofList]
  rfl

theorem prefixCode_percentByte : PrefixCode percentByte := by
  refine .of_length (fun _ => rfl) (by decide : 3 ≠ 0) fun a b heq => ?_
  have hdigit : ∀ m n : Fin 16, (Nat.digitChar m).toUpper = (Nat.digitChar n).toUpper → m = n := by
    decide
  have hbound : a.toNat < 256 ∧ b.toNat < 256 := ⟨a.toNat_lt, b.toNat_lt⟩
  simp only [percentByte, List.cons.injEq, and_true, true_and] at heq
  have hhigh := hdigit ⟨a.toNat / 16, by omega⟩ ⟨b.toNat / 16, by omega⟩ heq.1
  have hlow := hdigit ⟨a.toNat % 16, by omega⟩ ⟨b.toNat % 16, by omega⟩ heq.2
  rw [Fin.mk.injEq] at hhigh hlow
  exact UInt8.toNat_inj.mp (by omega)

theorem prefixCode_percentChar : PrefixCode percentChar := by
  refine (prefixCode_utf8.comp prefixCode_percentByte).escape (fun c => ?_) (by decide :
    isUnreserved '%' = false)
  obtain ⟨b, bs, hbytes⟩ := List.exists_cons_of_ne_nil (prefixCode_utf8.ne_nil c)
  rw [hbytes, List.flatMap_cons]
  exact ⟨_, rfl⟩

/-- **A segment determines its text.** -/
theorem identitySegment_injective : Function.Injective identitySegment := by
  intro s t heq
  refine String.toList_injective (prefixCode_percentChar.flatMap_injective ?_)
  dsimp only
  rw [← toList_identitySegment, heq, toList_identitySegment]

/-- The characters of an identity. -/
def isIdentityChar (c : Char) : Bool := isUnreserved c || c == '%' || c == ':'

theorem toNat_lt_of_isAlphanum {c : Char} (h : c.isAlphanum = true) : c.toNat < 128 := by
  have := toNat_of_isAlphanum h
  omega

theorem toNat_lt_of_isIdentityChar {c : Char} (h : isIdentityChar c = true) : c.toNat < 128 := by
  have hmarks : ∀ d ∈ "-_.!~*'()".toList, decide (d.toNat < 128) = true :=
    List.all_eq_true.mp (by decide)
  simp only [isIdentityChar, isUnreserved, Bool.or_eq_true, beq_iff_eq] at h
  rcases h with ((h | h) | rfl) | rfl
  · exact toNat_lt_of_isAlphanum h
  · exact of_decide_eq_true (hmarks c (List.contains_iff_mem.mp h))
  · decide
  · decide

/-- An identity has as many code units as characters. -/
theorem utf16Length_eq_length {s : String} (h : ∀ c ∈ s.toList, isIdentityChar c = true) :
    utf16Length s = s.toList.length := by
  have hone : (s.toList.map fun c => if c.toNat < 0x10000 then 1 else 2) =
      s.toList.map fun _ => 1 :=
    List.map_congr_left fun c hc =>
      if_pos ((toNat_lt_of_isIdentityChar (h c hc)).trans (by decide))
  rw [utf16Length, hone]
  simp

/-- A segment has no colon, and no character that `.` does not match. -/
theorem mem_identitySegment {s : String} {c : Char} (h : c ∈ (identitySegment s).toList) :
    isIdentityChar c = true ∧ c ≠ ':' := by
  have hdigit : ∀ n : Fin 16, (Nat.digitChar n).toUpper.isAlphanum = true := by decide
  have halnum : ∀ d : Char, d.isAlphanum = true → isIdentityChar d = true ∧ d ≠ ':' := by
    rintro d hd
    refine ⟨by simp [isIdentityChar, isUnreserved, hd], ?_⟩
    rintro rfl
    exact absurd hd (by decide)
  rw [toList_identitySegment, List.mem_flatMap] at h
  obtain ⟨d, -, hc⟩ := h
  rw [percentChar] at hc
  split_ifs at hc with hd
  · obtain rfl := List.mem_singleton.mp hc
    refine ⟨by simp [isIdentityChar, hd], ?_⟩
    rintro rfl
    exact absurd hd (by decide)
  · obtain ⟨b, -, hc⟩ := List.mem_flatMap.mp hc
    have hbound := b.toNat_lt
    simp only [percentByte, List.mem_cons, List.not_mem_nil, or_false] at hc
    rcases hc with rfl | rfl | rfl
    · exact ⟨rfl, by decide⟩
    · exact halnum _ (hdigit ⟨b.toNat / 16, by omega⟩)
    · exact halnum _ (hdigit ⟨b.toNat % 16, by omega⟩)

theorem not_isLineTerminator {c : Char} (h : isIdentityChar c = true) :
    isLineTerminator c = false := by
  have hnone : ∀ d ∈ ['\n', '\r', '\u2028', '\u2029'], (!isIdentityChar d) = true :=
    List.all_eq_true.mp (by decide)
  by_contra hline
  rw [Bool.not_eq_false] at hline
  have hnot := hnone c (List.contains_iff_mem.mp hline)
  rw [h] at hnot
  cases hnot

theorem identitySegment_ne_nil {s : String} (h : s.toList ≠ []) :
    (identitySegment s).toList ≠ [] := by
  obtain ⟨c, cs, hs⟩ := List.exists_cons_of_ne_nil h
  rw [toList_identitySegment, hs, List.flatMap_cons]
  exact fun hnil => prefixCode_percentChar.ne_nil c (List.append_eq_nil_iff.mp hnil).1

/-- The encoding of ASCII grows to three times the length at most. -/
theorem length_flatMap_percentChar_le {cs : List Char} (h : ∀ c ∈ cs, c.toNat < 128) :
    (cs.flatMap percentChar).length ≤ 3 * cs.length := by
  induction cs with
  | nil => exact Nat.zero_le _
  | cons c cs ih =>
    obtain ⟨hc, hcs⟩ := List.forall_mem_cons.mp h
    have hsize : c.utf8Size = 1 := by
      rw [Char.utf8Size, if_pos]
      exact UInt32.le_iff_toNat_le.mpr (Nat.le_of_lt_succ hc)
    have hword : (percentChar c).length ≤ 3 := by
      rw [percentChar]
      split_ifs
      · exact Nat.le_add_left 1 2
      · rw [String.utf8EncodeChar_eq_singleton hsize]
        exact le_rfl
    rw [List.flatMap_cons, List.length_append, List.length_cons]
    have := ih hcs
    omega

/-! ## Provider events -/

theorem toNat_lt_of_providerName {s : String} (h : providerNameSchema s = true) :
    s.toList ≠ [] ∧ s.toList.length ≤ 64 ∧ ∀ c ∈ s.toList, c.toNat < 128 := by
  rw [providerNameSchema] at h
  split at h
  · cases h
  · rename_i c cs hs
    simp only [Bool.and_eq_true, List.all_eq_true, decide_eq_true_eq] at h
    obtain ⟨⟨⟨hc, hcs⟩, -⟩, hlength⟩ := h
    refine ⟨by rw [hs]; exact List.cons_ne_nil _ _, by rw [hs, List.length_cons]; omega, ?_⟩
    rw [hs]
    refine List.forall_mem_cons.mpr ⟨toNat_lt_of_isAlphanum (isAlphanum_of_isLower hc), fun d hd => ?_⟩
    have hd := hcs d hd
    simp only [Bool.or_eq_true, beq_iff_eq] at hd
    rcases hd with (hd | hd) | rfl
    · exact toNat_lt_of_isAlphanum (isAlphanum_of_isLower hd)
    · exact toNat_lt_of_isAlphanum (isAlphanum_of_isDigit hd)
    · decide

/-- The value of a source. -/
def ProviderEventSource.value : ProviderEventSource → String
  | .providerEventId value => value
  | .normalizedEventDigest value => value

/-- `sourceKind` -/
def ProviderEventSource.sourceKind : ProviderEventSource → String
  | .providerEventId _ => "id"
  | .normalizedEventDigest _ => "digest"

theorem toNat_lt_of_valueSchema {source : ProviderEventSource} (h : source.valueSchema = true) :
    source.value.toList ≠ [] ∧ source.value.toList.length ≤ 512 ∧
      ∀ c ∈ source.value.toList, c.toNat < 128 := by
  cases source with
  | providerEventId value =>
    simp only [ProviderEventSource.valueSchema, providerOpaqueIdSchema, providerMessageIdSchema,
      Bool.and_eq_true, List.all_eq_true, decide_eq_true_eq] at h
    obtain ⟨⟨⟨hchars, hpos⟩, hlength⟩, -⟩ := h
    exact ⟨List.ne_nil_of_length_pos hpos, hlength, fun c hc =>
      (hchars c hc).2.trans_lt (by decide)⟩
  | normalizedEventDigest value =>
    simp only [ProviderEventSource.valueSchema, sha256Schema, Bool.and_eq_true,
      List.all_eq_true, Bool.or_eq_true, decide_eq_true_eq, beq_iff_eq] at h
    obtain ⟨hchars, hlength⟩ := h
    refine ⟨List.ne_nil_of_length_pos (by rw [ProviderEventSource.value, hlength]; decide),
      (by rw [ProviderEventSource.value, hlength]; decide), fun c hc => ?_⟩
    rcases hchars c hc with hdigit | ⟨-, hle⟩
    · exact toNat_lt_of_isAlphanum (isAlphanum_of_isDigit hdigit)
    · have hle := UInt32.le_iff_toNat_le.mp (Char.le_def.mp hle)
      change c.toNat ≤ 102 at hle
      omega

theorem ProviderEventSource.sourceKind_cases (source : ProviderEventSource) :
    source.sourceKind = "id" ∨ source.sourceKind = "digest" := by
  cases source
  · exact Or.inl rfl
  · exact Or.inr rfl

/-- The identity of a provider event. -/
def providerEventIdentity (provider : String) (source : ProviderEventSource) : String :=
  "provider-event:v1:" ++ identitySegment provider ++ ":" ++ source.sourceKind ++ ":" ++
    identitySegment source.value

theorem toList_joinColons (start a b c : String) :
    (start ++ a ++ ":" ++ b ++ ":" ++ c).toList =
      start.toList ++ (a.toList ++ ':' :: (b.toList ++ ':' :: c.toList)) := by
  simp

theorem toList_providerEventIdentity (provider : String) (source : ProviderEventSource) :
    (providerEventIdentity provider source).toList = "provider-event:v1:".toList ++
      ((identitySegment provider).toList ++ ':' :: (source.sourceKind.toList ++
        ':' :: (identitySegment source.value).toList)) :=
  toList_joinColons _ _ _ _

theorem providerEventIdentity_injective {provider provider' : String}
    {source source' : ProviderEventSource}
    (h : providerEventIdentity provider source = providerEventIdentity provider' source') :
    provider = provider' ∧ source = source' := by
  have hlist := congrArg String.toList h
  rw [toList_providerEventIdentity, toList_providerEventIdentity] at hlist
  have hsegment : ∀ s : String, ':' ∉ (identitySegment s).toList := fun s hmem =>
    (mem_identitySegment hmem).2 rfl
  have hkind : ∀ source : ProviderEventSource, ':' ∉ source.sourceKind.toList := fun source => by
    rcases source.sourceKind_cases with hkind | hkind <;> rw [hkind] <;> decide
  obtain ⟨hprovider, hrest⟩ := append_sep_inj_left (hsegment provider) (hsegment provider')
    (List.append_cancel_left hlist)
  obtain ⟨hsourceKind, hvalue⟩ := append_sep_inj_left (hkind source) (hkind source') hrest
  have hvalue := identitySegment_injective (String.toList_injective hvalue)
  refine ⟨identitySegment_injective (String.toList_injective hprovider), ?_⟩
  have hne : "id".toList ≠ "digest".toList := by decide
  cases source <;> cases source'
  · exact congrArg _ hvalue
  · exact absurd hsourceKind hne
  · exact absurd hsourceKind hne.symm
  · exact congrArg _ hvalue

theorem isIdentityChar_providerEventIdentity {provider : String} {source : ProviderEventSource} :
    ∀ c ∈ (providerEventIdentity provider source).toList, isIdentityChar c = true := by
  have hstart : ∀ c ∈ "provider-event:v1:".toList, isIdentityChar c = true :=
    List.all_eq_true.mp (by decide)
  have hkind : ∀ c ∈ source.sourceKind.toList, isIdentityChar c = true := by
    rcases source.sourceKind_cases with hkind | hkind <;> rw [hkind] <;>
      exact List.all_eq_true.mp (by decide)
  intro c hc
  rw [toList_providerEventIdentity] at hc
  simp only [List.mem_append, List.mem_cons] at hc
  rcases hc with hc | hc | rfl | hc | rfl | hc
  · exact hstart c hc
  · exact (mem_identitySegment hc).1
  · rfl
  · exact hkind c hc
  · rfl
  · exact (mem_identitySegment hc).1

theorem providerEventIdentitySchema_of_valid {provider : String} {source : ProviderEventSource}
    (hprovider : providerNameSchema provider = true) (hsource : source.valueSchema = true) :
    (providerEventIdentity provider source).toList.length ≤ 2048 ∧
      providerEventIdentitySchema (providerEventIdentity provider source) = true := by
  obtain ⟨hne, hlength, hascii⟩ := toNat_lt_of_providerName hprovider
  obtain ⟨hne', hlength', hascii'⟩ := toNat_lt_of_valueSchema hsource
  have hbound := length_flatMap_percentChar_le hascii
  have hbound' := length_flatMap_percentChar_le hascii'
  rw [← toList_identitySegment] at hbound hbound'
  have hkind : source.sourceKind.toList.length ≤ 6 := by
    rcases source.sourceKind_cases with hkind | hkind <;> rw [hkind] <;> decide
  have htotal : (providerEventIdentity provider source).toList.length ≤ 2048 := by
    have hstart : "provider-event:v1:".toList.length = 18 := rfl
    rw [toList_providerEventIdentity]
    simp only [List.length_append, List.length_cons, hstart]
    omega
  refine ⟨htotal, ?_⟩
  have hrest : (providerEventIdentity provider source).toList.drop "provider-event:v1:".length =
      (identitySegment provider).toList ++ ':' :: (source.sourceKind.toList ++
        ':' :: (identitySegment source.value).toList) := by
    rw [toList_providerEventIdentity]
    exact List.drop_left
  have hsep : ':' ∉ (identitySegment provider).toList := fun hmem =>
    (mem_identitySegment hmem).2 rfl
  have hcut : ∀ x, ((identitySegment provider).toList ++ ':' :: x).takeWhile (· != ':') =
      (identitySegment provider).toList ∧
        ((identitySegment provider).toList ++ ':' :: x).dropWhile (· != ':') = ':' :: x :=
    fun x => takeWhile_append_sep hsep
  have hvalue : (identitySegment source.value).toList.all (fun c => !isLineTerminator c) = true :=
    List.all_eq_true.mpr fun c hc => by
      rw [not_isLineTerminator (mem_identitySegment hc).1]
      rfl
  have hnonempty : ∀ s : String, s.toList ≠ [] → (identitySegment s).toList.isEmpty = false :=
    fun s hs => List.isEmpty_eq_false_iff.mpr (identitySegment_ne_nil hs)
  have hpos : 1 ≤ (providerEventIdentity provider source).toList.length := by
    rw [toList_providerEventIdentity, List.length_append]
    exact Nat.le_add_right_of_le (by decide)
  rw [providerEventIdentitySchema]
  dsimp only
  rw [utf16Length_eq_length isIdentityChar_providerEventIdentity, hrest, (hcut _).1, (hcut _).2,
    hnonempty _ hne, decide_eq_true hpos, decide_eq_true htotal]
  have hstart : "provider-event:v1:".toList.isPrefixOf
      (providerEventIdentity provider source).toList = true := by
    rw [toList_providerEventIdentity, List.isPrefixOf_iff_prefix]
    exact List.prefix_append _ _
  rw [hstart]
  have hid : ":id:".toList = [':', 'i', 'd', ':'] ∧ ":id:".length = 4 := by decide
  have hdigest : ":digest:".toList = [':', 'd', 'i', 'g', 'e', 's', 't', ':'] ∧
      ":digest:".length = 8 := by decide
  rcases source.sourceKind_cases with hkind | hkind
  · have hlist : source.sourceKind.toList = ['i', 'd'] := by rw [hkind]; rfl
    simp [hlist, hid, hvalue, hnonempty _ hne']
  · have hlist : source.sourceKind.toList = ['d', 'i', 'g', 'e', 's', 't'] := by rw [hkind]; rfl
    simp [hlist, hdigest, hvalue, hnonempty _ hne']

theorem createProviderEventIdentity_eq_ok {provider id : String} {source : ProviderEventSource}
    (h : createProviderEventIdentity provider source = .ok id) :
    id = providerEventIdentity provider source := by
  cases source with
  | providerEventId value =>
    simp only [createProviderEventIdentity] at h
    split_ifs at h
    exact (Except.ok.inj h).symm
  | normalizedEventDigest value =>
    simp only [createProviderEventIdentity] at h
    split_ifs at h
    exact (Except.ok.inj h).symm

theorem createProviderEventIdentity_of_valid {provider : String} {source : ProviderEventSource}
    (hprovider : providerNameSchema provider = true) (hsource : source.valueSchema = true) :
    createProviderEventIdentity provider source = .ok (providerEventIdentity provider source) := by
  have hlength := (providerEventIdentitySchema_of_valid hprovider hsource).1
  cases source with
  | providerEventId value =>
    refine if_pos ?_
    simp only [List.append_eq_nil_iff, issueUnless_eq_nil]
    exact ⟨⟨hprovider, hsource⟩, decide_eq_true hlength⟩
  | normalizedEventDigest value =>
    refine if_pos ?_
    simp only [List.append_eq_nil_iff, issueUnless_eq_nil]
    exact ⟨⟨hprovider, hsource⟩, decide_eq_true hlength⟩

/-! ## Outbox items -/

/-- The identity of an outbox item. -/
def outboxIdentity (messageId : String) (jobType : OutboxJobType) (generation : ℕ) : String :=
  "outbox:v1:" ++ identitySegment messageId ++ ":" ++ jobType.text ++ ":" ++ toString generation

theorem toList_outboxIdentity (messageId : String) (jobType : OutboxJobType) (generation : ℕ) :
    (outboxIdentity messageId jobType generation).toList = "outbox:v1:".toList ++
      ((identitySegment messageId).toList ++ ':' :: (jobType.text.toList ++
        ':' :: (toString generation).toList)) :=
  toList_joinColons _ _ _ _

theorem OutboxJobType.colon_notMem (jobType : OutboxJobType) : ':' ∉ jobType.text.toList := by
  cases jobType <;> decide

theorem OutboxJobType.text_injective : Function.Injective OutboxJobType.text := by
  intro j j' h
  cases j <;> cases j' <;> first | rfl | exact absurd h (by decide)

theorem outboxIdentity_injective {m m' : String} {j j' : OutboxJobType} {g g' : ℕ}
    (h : outboxIdentity m j g = outboxIdentity m' j' g') : m = m' ∧ j = j' ∧ g = g' := by
  have hlist := congrArg String.toList h
  rw [toList_outboxIdentity, toList_outboxIdentity] at hlist
  have hsegment : ∀ s : String, ':' ∉ (identitySegment s).toList := fun s hmem =>
    (mem_identitySegment hmem).2 rfl
  obtain ⟨hmessage, hrest⟩ := append_sep_inj_left (hsegment m) (hsegment m')
    (List.append_cancel_left hlist)
  obtain ⟨hjob, hgeneration⟩ := append_sep_inj_left j.colon_notMem j'.colon_notMem hrest
  exact ⟨identitySegment_injective (String.toList_injective hmessage),
    OutboxJobType.text_injective (String.toList_injective hjob),
    toString_nat_injective (String.toList_injective hgeneration)⟩

theorem isIdentityChar_outboxIdentity {m : String} {j : OutboxJobType} {g : ℕ} :
    ∀ c ∈ (outboxIdentity m j g).toList, isIdentityChar c = true := by
  have hstart : ∀ c ∈ "outbox:v1:".toList, isIdentityChar c = true :=
    List.all_eq_true.mp (by decide)
  have hjob : ∀ c ∈ j.text.toList, isIdentityChar c = true := by
    cases j <;> exact List.all_eq_true.mp (by decide)
  intro c hc
  rw [toList_outboxIdentity] at hc
  simp only [List.mem_append, List.mem_cons] at hc
  rcases hc with hc | hc | rfl | hc | rfl | hc
  · exact hstart c hc
  · exact (mem_identitySegment hc).1
  · rfl
  · exact hjob c hc
  · rfl
  · have := isAlphanum_of_isDigit (isDigit_of_mem_toString hc)
    simp [isIdentityChar, isUnreserved, this]

theorem outboxIdentitySchema_of_valid {m : String} {j : OutboxJobType} {g : ℕ}
    (hm : messageIdSchema m = true) (hg : g ≤ maxSafeInteger) :
    (outboxIdentity m j g).toList.length ≤ 512 ∧
      outboxIdentitySchema (outboxIdentity m j g) = true := by
  have hlength : m.toList.length ≤ 134 ∧ m.toList ≠ [] := by
    simp only [messageIdSchema, isOpaqueId, Bool.and_eq_true, decide_eq_true_eq,
      List.length_drop] at hm
    have hstart : "email_".length = 6 := rfl
    obtain ⟨⟨-, hlo⟩, hhi⟩ := hm
    rw [hstart] at hlo hhi
    exact ⟨by omega, List.ne_nil_of_length_pos (by omega)⟩
  have hgeneration : (toString g).toList.length ≤ 16 := by
    rw [Nat.toString_eq_ofList_toDigits, String.toList_ofList]
    exact (Nat.length_toDigits_le_iff (by decide) (by decide)).mpr (hg.trans_lt (by decide))
  have hjob : j.text.toList.length ≤ 22 ∧ isJobTypeText j.text.toList = true := by
    cases j <;> decide
  have htotal : (outboxIdentity m j g).toList.length ≤ 512 := by
    have hstart : "outbox:v1:".toList.length = 10 := rfl
    rw [toList_outboxIdentity, identitySegment_eq_self hm]
    simp only [List.length_append, List.length_cons, hstart]
    omega
  refine ⟨htotal, ?_⟩
  have hrest : (outboxIdentity m j g).toList.drop "outbox:v1:".length =
      m.toList ++ ':' :: (j.text.toList ++ ':' :: (toString g).toList) := by
    rw [toList_outboxIdentity, identitySegment_eq_self hm]
    exact List.drop_left
  have hcut : ∀ x, (m.toList ++ ':' :: x).takeWhile (· != ':') = m.toList ∧
      (m.toList ++ ':' :: x).dropWhile (· != ':') = ':' :: x :=
    fun x => takeWhile_append_sep (colon_notMem hm)
  have hcut' : ∀ x, (j.text.toList ++ ':' :: x).takeWhile (· != ':') = j.text.toList ∧
      (j.text.toList ++ ':' :: x).dropWhile (· != ':') = ':' :: x :=
    fun x => takeWhile_append_sep j.colon_notMem
  have hdigits : (toString g).toList.all Char.isDigit = true :=
    List.all_eq_true.mpr fun c hc => isDigit_of_mem_toString hc
  have hne : (toString g).toList.isEmpty = false := by
    rw [Nat.toString_eq_ofList_toDigits, String.toList_ofList, List.isEmpty_eq_false_iff]
    exact Nat.toDigits_ne_nil
  have hpos : 1 ≤ (outboxIdentity m j g).toList.length := by
    rw [toList_outboxIdentity, List.length_append]
    exact Nat.le_add_right_of_le (by decide)
  have hstart : "outbox:v1:".toList.isPrefixOf (outboxIdentity m j g).toList = true := by
    rw [toList_outboxIdentity, List.isPrefixOf_iff_prefix]
    exact List.prefix_append _ _
  rw [outboxIdentitySchema]
  rw [utf16Length_eq_length isIdentityChar_outboxIdentity, hrest, (hcut _).1, (hcut _).2,
    List.drop_one, List.tail_cons, (hcut' _).1, (hcut' _).2, List.drop_one, List.tail_cons,
    hstart, hjob.2, hdigits, hne, List.isEmpty_eq_false_iff.mpr hlength.2, decide_eq_true hpos,
    decide_eq_true htotal]
  rfl

theorem createOutboxIdentity_eq_ok {m id : String} {j : OutboxJobType} {g : ℕ}
    (h : createOutboxIdentity m j g = .ok id) : id = outboxIdentity m j g := by
  simp only [createOutboxIdentity] at h
  split_ifs at h
  exact (Except.ok.inj h).symm

theorem createOutboxIdentity_of_valid {m : String} {j : OutboxJobType} {g : ℕ}
    (hm : messageIdSchema m = true) (hg : g ≤ maxSafeInteger) :
    createOutboxIdentity m j g = .ok (outboxIdentity m j g) := by
  refine if_pos ?_
  simp only [List.append_eq_nil_iff, issueUnless_eq_nil]
  exact ⟨hm, decide_eq_true (outboxIdentitySchema_of_valid hm hg).1⟩

/-! ## Both -/

/-- **Identities are well formed and distinct.** The inputs whose fields pass their schemas have an
identity, which passes its own, and no two inputs share one. -/
theorem delivery_identities :
    (∀ m j g, messageIdSchema m = true → g ≤ maxSafeInteger →
      ∃ id, createOutboxIdentity m j g = .ok id ∧ outboxIdentitySchema id = true) ∧
    (∀ m j g m' j' g' id, createOutboxIdentity m j g = .ok id →
      createOutboxIdentity m' j' g' = .ok id → m = m' ∧ j = j' ∧ g = g') ∧
    (∀ provider source, providerNameSchema provider = true → source.valueSchema = true →
      ∃ id, createProviderEventIdentity provider source = .ok id ∧
        providerEventIdentitySchema id = true) ∧
    ∀ provider source provider' source' id, createProviderEventIdentity provider source = .ok id →
      createProviderEventIdentity provider' source' = .ok id →
      provider = provider' ∧ source = source' := by
  refine ⟨fun m j g hm hg => ⟨_, createOutboxIdentity_of_valid hm hg,
    (outboxIdentitySchema_of_valid hm hg).2⟩, fun m j g m' j' g' id h h' => ?_,
    fun provider source hprovider hsource => ⟨_,
      createProviderEventIdentity_of_valid hprovider hsource,
      (providerEventIdentitySchema_of_valid hprovider hsource).2⟩,
    fun provider source provider' source' id h h' => ?_⟩
  · exact outboxIdentity_injective
      ((createOutboxIdentity_eq_ok h).symm.trans (createOutboxIdentity_eq_ok h'))
  · exact providerEventIdentity_injective
      ((createProviderEventIdentity_eq_ok h).symm.trans (createProviderEventIdentity_eq_ok h'))

theorem delivery_identities_sample :
    (∃ id, createOutboxIdentity "email_0123456789abcdef" .dispatchMessage 7 = .ok id ∧
      outboxIdentitySchema id = true) ∧
    ∃ id, createProviderEventIdentity "aws-ses" (.providerEventId "a:b%c") = .ok id ∧
      providerEventIdentitySchema id = true :=
  ⟨delivery_identities.1 _ _ _ (by decide) (by decide),
    delivery_identities.2.2.1 _ _ (by decide) (by decide)⟩

end HayaSend
