import HayaSend.Foundations.TransitionSystem
import HayaSend.Services.EmailIntake
import HayaSend.Services.TemplateVersions
import Mathlib.Data.Nat.Bitwise
import Mathlib.Logic.Relation

/-!
# API keys

Keys are created over `POST /api-keys` by whoever a token or a session of the console authenticates,
with scopes of its own choice, and revoked by their ids. A principal that does not hold the scope
of everything passes on only what it holds, and so do the keys it creates, and theirs
(`scopes_not_escalated`).
-/

namespace HayaSend

/-! ## Records -/

/-- A scope; `all` is `*`. -/
inductive ApiScope
  | all
  | emailsSend
  | emailsRead
  | diagnosticsRead
  | templatesRead
  | templatesWrite
  | domainsRead
  | domainsWrite
  | webhooksRead
  | webhooksWrite
  | suppressionsRead
  | suppressionsWrite
  | apiKeysRead
  | apiKeysWrite
  deriving DecidableEq, Repr

/-- `apiScopeSchema`, which has no `*`. -/
def apiScopeSchema : String → Option ApiScope
  | "emails:send" => some .emailsSend
  | "emails:read" => some .emailsRead
  | "diagnostics:read" => some .diagnosticsRead
  | "templates:read" => some .templatesRead
  | "templates:write" => some .templatesWrite
  | "domains:read" => some .domainsRead
  | "domains:write" => some .domainsWrite
  | "webhooks:read" => some .webhooksRead
  | "webhooks:write" => some .webhooksWrite
  | "suppressions:read" => some .suppressionsRead
  | "suppressions:write" => some .suppressionsWrite
  | "api_keys:read" => some .apiKeysRead
  | "api_keys:write" => some .apiKeysWrite
  | _ => none

structure AuthenticatedPrincipal where
  id : String
  name : String
  scopes : List ApiScope
  bootstrap : Bool
  deriving DecidableEq, Repr

structure ApiKeyRecord where
  id : String
  name : String
  prefix_ : String
  keyHash : String
  scopes : List ApiScope
  createdAt : ℕ
  expiresAt : Option ℕ := none
  revokedAt : Option ℕ := none
  deriving DecidableEq, Repr

/-- The functions of the schema library: whether a text is a date and time, and how the issues of
a body are written out. -/
structure SchemaLibrary where
  isDatetime : String → Bool
  issues : Json → String

/-! ## Tokens -/

/-- `secretsEqual`, over the bytes of the texts. -/
def secretsEqual (left right : String) : Bool :=
  let leftBytes := left.toUTF8.data.toList
  let rightBytes := right.toUTF8.data.toList
  let length := max leftBytes.length rightBytes.length
  (List.range length).foldl
    (fun difference i => difference ||| ((leftBytes[i]?.getD 0) ^^^ (rightBytes[i]?.getD 0)).toNat)
    (leftBytes.length ^^^ rightBytes.length) == 0

theorem foldl_or_eq_zero {α : Type*} (f : α → ℕ) (xs : List α) (d : ℕ) :
    xs.foldl (fun difference x => difference ||| f x) d = 0 ↔ d = 0 ∧ ∀ x ∈ xs, f x = 0 := by
  induction xs generalizing d with
  | nil => simp
  | cons x xs ih => simp [ih, Nat.or_eq_zero_iff, and_assoc]

/-- The texts differ in length or in some byte, or they are the same. -/
theorem secretsEqual_iff (left right : String) :
    secretsEqual left right = true ↔ left = right := by
  unfold secretsEqual
  rw [beq_iff_eq, foldl_or_eq_zero, Nat.xor_eq_zero_iff]
  constructor
  · rintro ⟨hlength, hbytes⟩
    simp only [String.toUTF8_eq_toByteArray] at hlength hbytes
    rw [← String.toByteArray_inj]
    refine ByteArray.ext (Array.toList_inj.mp (List.ext_getElem hlength fun i hi hi' => ?_))
    have hbyte := hbytes i (List.mem_range.mpr (hi.trans_le (Nat.le_max_left _ _)))
    rw [List.getElem?_eq_getElem hi, List.getElem?_eq_getElem hi', Option.getD_some,
      Option.getD_some, ← UInt8.toNat_zero, UInt8.toNat_inj, UInt8.xor_eq_zero_iff] at hbyte
    exact hbyte
  · rintro rfl
    simp

def isLowerHex (c : Char) : Bool := c.isDigit || ('a' ≤ c && c ≤ 'f')

/-- `[A-Za-z0-9_-]` -/
def isBase64Url (c : Char) : Bool := c.isAlphanum || c == '_' || c == '-'

/-- The id in a token of the shape `re_hs_(key_[a-f0-9]{32})\.[A-Za-z0-9_-]{43}`. -/
def scopedKeyId (token : String) : Option String :=
  let cs := token.toList
  let id := (cs.drop 6).take 36
  if cs.length = 86 ∧ cs.take 6 = "re_hs_".toList ∧ id.take 4 = "key_".toList ∧
      (id.drop 4).all isLowerHex ∧ cs[42]? = some '.' ∧ (cs.drop 43).all isBase64Url then
    some (String.ofList id)
  else none

/-! ## The service -/

def unauthorized : Failure := .unauthorized "The API key is invalid or missing."

def bootstrapPrincipal : AuthenticatedPrincipal where
  id := "bootstrap"
  name := "Bootstrap administrator"
  scopes := [.all]
  bootstrap := true

/-- Whom the token of a key authenticates. -/
def ApiKeyRecord.principal (record : ApiKeyRecord) : AuthenticatedPrincipal where
  id := record.id
  name := record.name
  scopes := record.scopes
  bootstrap := false

/-- `getApiKey`, when the token has the shape of a key. -/
def findApiKey (apiKeys : OrderedMap String ApiKeyRecord) (token : String) :
    Option ApiKeyRecord :=
  (scopedKeyId token).bind apiKeys.get

/-- `authenticate`, with the record that was found for the token. -/
def authenticate (p : Platform) (bootstrapKey : String) (now : ℕ) (token : String)
    (found : Option ApiKeyRecord) : Except Failure AuthenticatedPrincipal :=
  match scopedKeyId token with
  | some _ =>
    match found with
    | none => .error unauthorized
    | some record =>
      if record.revokedAt.isSome || record.expiresAt.any (· ≤ now) ||
          !secretsEqual record.keyHash (p.sha256 token) then .error unauthorized
      else .ok record.principal
  | none =>
    if "re_hs_".toList.isPrefixOf token.toList && token.toList.contains '.' then
      .error unauthorized
    else if secretsEqual token bootstrapKey then .ok bootstrapPrincipal
    else .error unauthorized

structure ApiKeyInput where
  name : String
  scopes : List ApiScope
  expiresAt : Option String
  deriving DecidableEq, Repr

/-- `createId("key")`, for the hexadecimal digits of a `randomUUID`. -/
def keyId (uuid : String) : String := "key_" ++ uuid

/-- The time of `expires_at`, when it is given. -/
def keyExpiry (p : Platform) (now : ℕ) (expiresAt : Option String) :
    Except Failure (Option ℕ) :=
  match expiresAt.filter (· != "") with
  | none => .ok none
  | some text =>
    match p.parseDate text with
    | none => .error (.error "Invalid time value")
    | some time =>
      if time ≤ now then .error (.validation "expires_at must be in the future.")
      else .ok (some time)

/-- `create`: the record and the token of a new key. -/
def createApiKey (p : Platform) (input : ApiKeyInput) (now : ℕ) (uuid secret : String) :
    Except Failure (ApiKeyRecord × String) := do
  let expiresAt ← keyExpiry p now input.expiresAt
  let token := "re_hs_" ++ keyId uuid ++ "." ++ secret
  return ({
    id := keyId uuid
    name := input.name
    prefix_ := String.ofList (token.toList.take 20) ++ "…"
    keyHash := p.sha256 token
    scopes := input.scopes.eraseDups
    createdAt := now
    expiresAt := expiresAt }, token)

/-- `revoke` -/
def revokeApiKey (apiKeys : OrderedMap String ApiKeyRecord) (id : String) (now : ℕ) :
    Except Failure (OrderedMap String ApiKeyRecord) :=
  match apiKeys.get id with
  | none => .error (.notFound "API key")
  | some record => .ok (apiKeys.set id { record with revokedAt := some now })

/-! ## The endpoints -/

def hasScope (principal : AuthenticatedPrincipal) (scope : ApiScope) : Bool :=
  principal.scopes.contains .all || principal.scopes.contains scope

/-- `requireScope` -/
def requireScope (principal : AuthenticatedPrincipal) (scope : ApiScope) (name : String) :
    Except Failure Unit :=
  throwIf (!hasScope principal scope)
    (.forbidden ("This operation requires the " ++ name ++ " scope."))

/-- A member of an object. -/
def Json.member (members : List (String × Json)) (key : String) : Option Json :=
  (members.find? (·.1 == key)).map (·.2)

/-- The text of a scope, read by its schema. -/
def scopeOf : Json → Option ApiScope
  | .str text => apiScopeSchema text
  | _ => none

/-- `expires_at` in a body: absent, or a text that is a date and time. -/
def readExpiry (library : SchemaLibrary) : Option Json → Option (Option String)
  | none => some none
  | some (.str text) => if library.isDatetime text then some (some text) else none
  | some _ => none

/-- `apiKeySchema` -/
def apiKeySchema (library : SchemaLibrary) : Json → Option ApiKeyInput
  | .obj members => do
    guard (members.all fun member => ["name", "scopes", "expires_at"].contains member.1)
    match Json.member members "name", Json.member members "scopes" with
    | some (.str name), some (.arr items) => do
      let name := String.ofList (trim name.toList)
      guard (1 ≤ utf16Length name ∧ utf16Length name ≤ 100 ∧ items ≠ [])
      let scopes ← items.mapM scopeOf
      let expiresAt ← readExpiry library (Json.member members "expires_at")
      return { name := name, scopes := scopes, expiresAt := expiresAt }
    | _, _ => none
  | _ => none

/-- `POST /api-keys` -/
def postApiKeys (p : Platform) (library : SchemaLibrary) (principal : AuthenticatedPrincipal)
    (body : Json) (now : ℕ) (uuid secret : String) : Except Failure (ApiKeyRecord × String) := do
  requireScope principal .apiKeysWrite "api_keys:write"
  match apiKeySchema library body with
  | none => throw (.validation ("Request validation failed: " ++ library.issues body))
  | some input => do
    throwIf (!principal.scopes.contains .all &&
        input.scopes.any fun scope => !principal.scopes.contains scope)
      (.forbidden "An API key cannot delegate scopes it does not have.")
    createApiKey p input now uuid secret

/-- `DELETE /api-keys/:id` -/
def deleteApiKey (principal : AuthenticatedPrincipal) (apiKeys : OrderedMap String ApiKeyRecord)
    (id : String) (now : ℕ) : Except Failure (OrderedMap String ApiKeyRecord) := do
  requireScope principal .apiKeysWrite "api_keys:write"
  revokeApiKey apiKeys id now

/-- The principal of a session of the console. -/
def consolePrincipal (userId name : String) : AuthenticatedPrincipal where
  id := "user:" ++ userId
  name := name
  scopes := [.all]
  bootstrap := false

/-! ## Runs -/

/-- A call of `authenticate` that has read the record of its token, and the ids of the keys that
had been revoked before. -/
structure KeyLookup where
  token : String
  found : Option ApiKeyRecord
  revokedBefore : List String
  deriving DecidableEq, Repr

/-- A call of `authenticate` that has returned. -/
structure Authentication where
  token : String
  principal : AuthenticatedPrincipal
  at_ : ℕ
  revokedBefore : List String
  deriving DecidableEq, Repr

/-- A key that was created, and by whom. -/
structure KeyCreation where
  creator : AuthenticatedPrincipal
  record : ApiKeyRecord
  deriving DecidableEq, Repr

/-- The clock and the keys; the calls of `authenticate` that have begun and that have returned, the
principals of requests, the keys created and the ids of those revoked. -/
structure KeyWorld where
  clock : ℕ := 0
  apiKeys : OrderedMap String ApiKeyRecord := ∅
  lookups : List KeyLookup := []
  authentications : List Authentication := []
  principals : List AuthenticatedPrincipal := []
  created : List KeyCreation := []
  revoked : List String := []

inductive KeyLabel
  | clock (now : ℕ)
  /-- A call of `authenticate` reads the record of its token. -/
  | find (token : String)
  /-- A call that has read its record ends. -/
  | authenticate (lookup : ℕ) (bootstrapKey : String)
  | session (userId name : String)
  | create (principal : ℕ) (body : Json) (uuid secret : String)
  | revoke (principal : ℕ) (id : String)

/-- Authentications, creations and revocations, in any interleaving. The id of a key is none that
a key has. -/
def keySystem (p : Platform) (library : SchemaLibrary) : TransitionSystem KeyWorld KeyLabel where
  init w := w = {}
  step w
    | .clock now => some { w with clock := now }
    | .find token => some { w with
        lookups := w.lookups ++ [⟨token, findApiKey w.apiKeys token, w.revoked⟩] }
    | .authenticate i bootstrapKey => do
      let lookup ← w.lookups[i]?
      let principal ← (authenticate p bootstrapKey w.clock lookup.token lookup.found).toOption
      return { w with
        authentications := w.authentications ++
          [⟨lookup.token, principal, w.clock, lookup.revokedBefore⟩]
        principals := w.principals ++ [principal] }
    | .session userId name => some { w with
        principals := w.principals ++ [consolePrincipal userId name] }
    | .create i body uuid secret => do
      let principal ← w.principals[i]?
      let (record, _) ← (postApiKeys p library principal body w.clock uuid secret).toOption
      guard (w.apiKeys.get record.id = none)
      return { w with
        apiKeys := w.apiKeys.set record.id record
        created := w.created ++ [⟨principal, record⟩] }
    | .revoke i id => do
      let principal ← w.principals[i]?
      let apiKeys ← (deleteApiKey principal w.apiKeys id w.clock).toOption
      return { w with
        apiKeys := apiKeys
        revoked := w.revoked ++ [id] }

/-- The principal or key with the first id created the key with the second. -/
def KeyWorld.CreatedBy (w : KeyWorld) (creator key : String) : Prop :=
  ∃ creation ∈ w.created, creation.creator.id = creator ∧ creation.record.id = key

/-- A chain of creations leads from the first id to the second. -/
def KeyWorld.Descends (w : KeyWorld) : String → String → Prop := Relation.TransGen w.CreatedBy

/-! ## What the operations do -/

section Operations

variable {p : Platform} {library : SchemaLibrary} {principal : AuthenticatedPrincipal}
  {now : ℕ}

/-- No text is read as `*`. -/
theorem apiScopeSchema_ne_all (text : String) : apiScopeSchema text ≠ some .all := by
  unfold apiScopeSchema
  split <;> simp

theorem apiKeySchema_scopes {body : Json} {input : ApiKeyInput}
    (h : apiKeySchema library body = some input) : ApiScope.all ∉ input.scopes := by
  cases body with
  | obj members =>
    obtain ⟨_, -, h⟩ := Option.bind_eq_some_iff.mp h
    split at h
    · rename_i items _ hitems
      obtain ⟨_, -, h⟩ := Option.bind_eq_some_iff.mp h
      obtain ⟨scopes, hscopes, h⟩ := Option.bind_eq_some_iff.mp h
      obtain ⟨expiresAt, -, h⟩ := Option.bind_eq_some_iff.mp h
      obtain rfl := Option.some.inj h
      intro hall
      have hread : some ApiScope.all ∈ items.map scopeOf := by
        rw [mapM_eq_some.mp hscopes]
        exact List.mem_map_of_mem hall
      obtain ⟨item, -, hitem⟩ := List.mem_map.mp hread
      unfold scopeOf at hitem
      split at hitem
      · exact apiScopeSchema_ne_all _ hitem
      · cases hitem
    · cases h
  | _ => cases h

theorem createApiKey_spec {input : ApiKeyInput} {uuid secret token : String}
    {record : ApiKeyRecord} (h : createApiKey p input now uuid secret = .ok (record, token)) :
    record.id = keyId uuid ∧ record.scopes = input.scopes.eraseDups ∧ record.revokedAt = none := by
  obtain ⟨expiresAt, -, h⟩ := bind_eq_ok.mp h
  rw [pure_eq_ok, Prod.mk.injEq] at h
  obtain ⟨rfl, -⟩ := h
  exact ⟨rfl, rfl, rfl⟩

/-- **A key that is created** has no scope of everything, and of a creator without it no scope the
creator has not. -/
theorem postApiKeys_spec {body : Json} {uuid secret token : String} {record : ApiKeyRecord}
    (h : postApiKeys p library principal body now uuid secret = .ok (record, token)) :
    record.id = keyId uuid ∧ ApiScope.all ∉ record.scopes ∧ record.revokedAt = none ∧
      (ApiScope.all ∈ principal.scopes ∨ record.scopes ⊆ principal.scopes) := by
  obtain ⟨_, -, h⟩ := bind_eq_ok.mp h
  split at h
  · cases h
  · rename_i input hinput
    obtain ⟨_, hdelegates, h⟩ := bind_eq_ok.mp h
    obtain ⟨hid, hscopes, hrevoked⟩ := createApiKey_spec h
    refine ⟨hid, ?_, hrevoked, ?_⟩
    · rw [hscopes, List.mem_eraseDups]
      exact apiKeySchema_scopes hinput
    · by_cases hall : ApiScope.all ∈ principal.scopes
      · exact .inl hall
      · refine .inr fun scope hscope => ?_
        rw [hscopes, List.mem_eraseDups] at hscope
        rw [throwIf_eq_ok] at hdelegates
        simp only [List.contains_eq_mem, hall, decide_false, Bool.not_false, Bool.true_and,
          List.any_eq_false, Bool.not_eq_true', decide_eq_false_iff_not, not_not] at hdelegates
        exact hdelegates scope hscope

/-- **Whom a token authenticates**: the key it was found under, neither revoked nor expired, or the
bootstrap administrator, if it has not the shape of a key's. -/
theorem authenticate_spec {bootstrapKey token : String} {found : Option ApiKeyRecord}
    (h : authenticate p bootstrapKey now token found = .ok principal) :
    (∃ record, found = some record ∧ principal = record.principal ∧ record.revokedAt = none ∧
        record.keyHash = p.sha256 token ∧
        ∀ expiresAt, record.expiresAt = some expiresAt → now < expiresAt) ∨
      scopedKeyId token = none ∧ token = bootstrapKey ∧ principal = bootstrapPrincipal := by
  unfold authenticate at h
  split at h
  · split at h
    · cases h
    · rename_i record
      split_ifs at h with hrefused
      obtain rfl := Except.ok.inj h
      simp only [Bool.or_eq_true, not_or, Bool.not_eq_true, Option.isSome_eq_false_iff,
        Option.isNone_iff_eq_none, Bool.not_eq_false', secretsEqual_iff] at hrefused
      refine .inl ⟨record, rfl, rfl, hrefused.1.1, hrefused.2, fun expiresAt hexpires => ?_⟩
      simpa [hexpires] using hrefused.1.2
  · rename_i htoken
    split_ifs at h with _ hequal
    exact .inr ⟨htoken, (secretsEqual_iff _ _).mp hequal, (Except.ok.inj h).symm⟩

end Operations

/-! ## What holds in every state -/

/-- What becomes of a key: it may be revoked, and stays so. -/
structure ApiKeyRecord.Evolves (r r' : ApiKeyRecord) : Prop where
  id : r'.id = r.id
  scopes : r'.scopes = r.scopes
  expiresAt : r'.expiresAt = r.expiresAt
  revoked : r.revokedAt.isSome → r'.revokedAt.isSome

theorem ApiKeyRecord.Evolves.refl (r : ApiKeyRecord) : r.Evolves r :=
  ⟨rfl, rfl, rfl, fun h => h⟩

theorem ApiKeyRecord.Evolves.trans {r r' r'' : ApiKeyRecord} (h : r.Evolves r')
    (h' : r'.Evolves r'') : r.Evolves r'' :=
  ⟨h'.id.trans h.id, h'.scopes.trans h.scopes, h'.expiresAt.trans h.expiresAt,
    fun hr => h'.revoked (h.revoked hr)⟩

/-- A key that once was is stored, as it has become. -/
def KeyStored (apiKeys : OrderedMap String ApiKeyRecord) (record : ApiKeyRecord) : Prop :=
  ∃ r, apiKeys.get record.id = some r ∧ record.Evolves r

/-- No key is lost. -/
def KeysKept (apiKeys apiKeys' : OrderedMap String ApiKeyRecord) : Prop :=
  ∀ record, KeyStored apiKeys record → KeyStored apiKeys' record

/-- A principal has the scope of everything, under an id no key has, or is that of a key. -/
def AuthenticatedPrincipal.Known (apiKeys : OrderedMap String ApiKeyRecord)
    (principal : AuthenticatedPrincipal) : Prop :=
  (ApiScope.all ∈ principal.scopes ∧ ∀ uuid, principal.id ≠ keyId uuid) ∨
    ∃ record, KeyStored apiKeys record ∧ record.id = principal.id ∧
      record.scopes = principal.scopes

structure KeyInvariant (w : KeyWorld) : Prop where
  filed : ∀ id record, w.apiKeys.get id = some record →
    record.id = id ∧ ApiScope.all ∉ record.scopes ∧ ∃ uuid, id = keyId uuid
  revoked : ∀ id ∈ w.revoked, ∃ record, w.apiKeys.get id = some record ∧ record.revokedAt.isSome
  lookups : ∀ lookup ∈ w.lookups, ∀ record, lookup.found = some record →
    KeyStored w.apiKeys record ∧ (record.revokedAt = none → record.id ∉ lookup.revokedBefore)
  principals : ∀ principal ∈ w.principals, principal.Known w.apiKeys
  created : ∀ creation ∈ w.created, creation.creator ∈ w.principals ∧
    KeyStored w.apiKeys creation.record ∧ (ApiScope.all ∈ creation.creator.scopes ∨
      creation.record.scopes ⊆ creation.creator.scopes)
  authentications : ∀ a ∈ w.authentications,
    ((scopedKeyId a.token).isSome → a.principal.bootstrap = false) ∧
      (a.principal.bootstrap = false → a.principal.id ∉ a.revokedBefore ∧
        ∃ record, KeyStored w.apiKeys record ∧ record.id = a.principal.id ∧
          ∀ expiresAt, record.expiresAt = some expiresAt → a.at_ < expiresAt)

theorem keyId_ne_user (uuid userId : String) : "user:" ++ userId ≠ keyId uuid := by
  intro h
  have hlist := congrArg String.toList h
  simp [keyId] at hlist

theorem keyId_ne_bootstrap (uuid : String) : "bootstrap" ≠ keyId uuid := by
  intro h
  have hlist := congrArg String.toList h
  simp [keyId] at hlist

section Runs

variable {p : Platform} {library : SchemaLibrary} {w w' : KeyWorld}

theorem KeyStored.of_get {apiKeys : OrderedMap String ApiKeyRecord} {id : String}
    {record : ApiKeyRecord} (h : apiKeys.get id = some record) (hid : record.id = id) :
    KeyStored apiKeys record := ⟨record, hid ▸ h, .refl record⟩

theorem keysKept_of_set {apiKeys : OrderedMap String ApiKeyRecord} {id : String}
    {record : ApiKeyRecord}
    (h : ∀ r, apiKeys.get id = some r → r.Evolves record) :
    KeysKept apiKeys (apiKeys.set id record) := by
  rintro old ⟨r, hr, hevolves⟩
  by_cases hid : old.id = id
  · exact ⟨record, by rw [hid, OrderedMap.get_set_self], hevolves.trans (h r (hid ▸ hr))⟩
  · exact ⟨r, by rw [OrderedMap.get_set_ne _ _ hid, hr], hevolves⟩

theorem AuthenticatedPrincipal.Known.mono {apiKeys apiKeys' : OrderedMap String ApiKeyRecord}
    {principal : AuthenticatedPrincipal} (h : principal.Known apiKeys)
    (hkept : KeysKept apiKeys apiKeys') : principal.Known apiKeys' := by
  rcases h with hall | ⟨record, hstored, hsame⟩
  · exact .inl hall
  · exact .inr ⟨record, hkept record hstored, hsame⟩

namespace KeyInvariant

/-- The keys change, and none is lost. -/
theorem of_kept {apiKeys : OrderedMap String ApiKeyRecord} {revoked : List String}
    (h : KeyInvariant w) (hkept : KeysKept w.apiKeys apiKeys)
    (hfiled : ∀ id record, apiKeys.get id = some record →
      record.id = id ∧ ApiScope.all ∉ record.scopes ∧ ∃ uuid, id = keyId uuid)
    (hrevoked : ∀ id ∈ revoked, ∃ record, apiKeys.get id = some record ∧
      record.revokedAt.isSome) :
    KeyInvariant { w with apiKeys := apiKeys, revoked := revoked } where
  filed := hfiled
  revoked := hrevoked
  lookups lookup hlookup record hfound :=
    ⟨hkept record (h.lookups lookup hlookup record hfound).1,
      (h.lookups lookup hlookup record hfound).2⟩
  principals principal hprincipal := (h.principals principal hprincipal).mono hkept
  created creation hcreation := by
    obtain ⟨hcreator, hstored, hscopes⟩ := h.created creation hcreation
    exact ⟨hcreator, hkept _ hstored, hscopes⟩
  authentications a ha := by
    obtain ⟨hshape, hkey⟩ := h.authentications a ha
    refine ⟨hshape, fun hboot => ?_⟩
    obtain ⟨hnotRevoked, record, hstored, hid, hexpires⟩ := hkey hboot
    exact ⟨hnotRevoked, record, hkept record hstored, hid, hexpires⟩

theorem find (h : KeyInvariant w) (token : String) :
    KeyInvariant { w with
      lookups := w.lookups ++ [⟨token, findApiKey w.apiKeys token, w.revoked⟩] } := by
  refine { h with lookups := fun lookup hlookup record hfound => ?_ }
  rcases List.mem_append.mp hlookup with hlookup | hlookup
  · exact h.lookups lookup hlookup record hfound
  · rw [List.mem_singleton.mp hlookup] at hfound ⊢
    obtain ⟨id, -, hget⟩ := Option.bind_eq_some_iff.mp hfound
    have hid := (h.filed id record hget).1
    refine ⟨.of_get hget hid, fun hnot hrevoked => ?_⟩
    obtain ⟨r, hr, hset⟩ := h.revoked record.id hrevoked
    rw [hid, hget, Option.some.injEq] at hr
    rw [← hr, hnot] at hset
    cases hset

theorem authenticate {lookup : KeyLookup} {bootstrapKey : String}
    {principal : AuthenticatedPrincipal} (h : KeyInvariant w) (hlookup : lookup ∈ w.lookups)
    (hprincipal : HayaSend.authenticate p bootstrapKey w.clock lookup.token lookup.found =
      .ok principal) :
    KeyInvariant { w with
      authentications := w.authentications ++
        [⟨lookup.token, principal, w.clock, lookup.revokedBefore⟩]
      principals := w.principals ++ [principal] } := by
  refine { h with
    principals := fun other hother => ?_
    created := fun creation hcreation =>
      ⟨List.mem_append_left _ (h.created creation hcreation).1, (h.created creation hcreation).2⟩
    authentications := fun a ha => ?_ }
  · rcases List.mem_append.mp hother with hother | hother
    · exact h.principals other hother
    · rw [List.mem_singleton.mp hother]
      rcases authenticate_spec hprincipal with ⟨record, hfound, rfl, -⟩ | ⟨-, -, rfl⟩
      · exact .inr ⟨record, (h.lookups lookup hlookup record hfound).1, rfl, rfl⟩
      · exact .inl ⟨List.mem_singleton_self _, keyId_ne_bootstrap⟩
  · rcases List.mem_append.mp ha with ha | ha
    · exact h.authentications a ha
    · rw [List.mem_singleton.mp ha]
      rcases authenticate_spec hprincipal with ⟨record, hfound, rfl, hnot, -, hexpires⟩ |
        ⟨hshape, -, rfl⟩
      · obtain ⟨hstored, hrevoked⟩ := h.lookups lookup hlookup record hfound
        exact ⟨fun _ => rfl, fun _ => ⟨hrevoked hnot, record, hstored, rfl, hexpires⟩⟩
      · refine ⟨fun hsome => ?_, fun hboot => ?_⟩
        · rw [hshape] at hsome
          cases hsome
        · cases hboot

theorem session (h : KeyInvariant w) (userId name : String) :
    KeyInvariant { w with principals := w.principals ++ [consolePrincipal userId name] } := by
  refine { h with
    principals := fun other hother => ?_
    created := fun creation hcreation =>
      ⟨List.mem_append_left _ (h.created creation hcreation).1, (h.created creation hcreation).2⟩ }
  rcases List.mem_append.mp hother with hother | hother
  · exact h.principals other hother
  · rw [List.mem_singleton.mp hother]
    exact .inl ⟨List.mem_singleton_self _, fun uuid => keyId_ne_user uuid userId⟩

theorem create {principal : AuthenticatedPrincipal} {record : ApiKeyRecord} {body : Json}
    {uuid secret token : String} (h : KeyInvariant w) (hprincipal : principal ∈ w.principals)
    (hrecord : postApiKeys p library principal body w.clock uuid secret = .ok (record, token))
    (hfresh : w.apiKeys.get record.id = none) :
    KeyInvariant { w with
      apiKeys := w.apiKeys.set record.id record
      created := w.created ++ [⟨principal, record⟩] } := by
  obtain ⟨hid, hall, -, hscopes⟩ := postApiKeys_spec hrecord
  have hkept : KeysKept w.apiKeys (w.apiKeys.set record.id record) := by
    refine keysKept_of_set fun r hr => ?_
    rw [hfresh] at hr
    cases hr
  have hstored : KeyStored (w.apiKeys.set record.id record) record :=
    .of_get (OrderedMap.get_set_self _ _ _) rfl
  have hstep : KeyInvariant { w with
      apiKeys := w.apiKeys.set record.id record
      revoked := w.revoked } := by
    refine h.of_kept hkept (fun id r hr => ?_) (fun id hrevoked => ?_)
    · rw [OrderedMap.get_set] at hr
      split_ifs at hr with hkey
      · obtain rfl := Option.some.inj hr
        exact ⟨hkey.symm, hall, uuid, hkey.trans hid⟩
      · exact h.filed id r hr
    · obtain ⟨r, hr, hset⟩ := h.revoked id hrevoked
      have hne : id ≠ record.id := by
        rintro rfl
        rw [hfresh] at hr
        cases hr
      exact ⟨r, by rw [OrderedMap.get_set_ne _ _ hne, hr], hset⟩
  refine { hstep with created := fun creation hcreation => ?_ }
  rcases List.mem_append.mp hcreation with hcreation | hcreation
  · exact hstep.created creation hcreation
  · rw [List.mem_singleton.mp hcreation]
    exact ⟨hprincipal, hstored, hscopes⟩

theorem revoke {principal : AuthenticatedPrincipal} {apiKeys : OrderedMap String ApiKeyRecord}
    {id : String} (h : KeyInvariant w)
    (hrevoke : deleteApiKey principal w.apiKeys id w.clock = .ok apiKeys) :
    KeyInvariant { w with apiKeys := apiKeys, revoked := w.revoked ++ [id] } := by
  obtain ⟨_, -, hrevoke⟩ := bind_eq_ok.mp hrevoke
  unfold revokeApiKey at hrevoke
  split at hrevoke
  · cases hrevoke
  · rename_i record hrecord
    obtain rfl := Except.ok.inj hrevoke
    obtain ⟨hid, hall, uuid, huuid⟩ := h.filed id record hrecord
    have hkept : KeysKept w.apiKeys
        (w.apiKeys.set id { record with revokedAt := some w.clock }) := by
      refine keysKept_of_set fun r hr => ?_
      obtain rfl : record = r := Option.some.inj (hrecord.symm.trans hr)
      exact ⟨rfl, rfl, rfl, fun _ => rfl⟩
    refine h.of_kept hkept (fun other r hr => ?_) (fun other hother => ?_)
    · rw [OrderedMap.get_set] at hr
      split_ifs at hr with hkey
      · obtain rfl := Option.some.inj hr
        exact ⟨hid.trans hkey.symm, hall, uuid, hkey.trans huuid⟩
      · exact h.filed other r hr
    · by_cases hkey : other = id
      · exact ⟨_, by rw [hkey, OrderedMap.get_set_self], rfl⟩
      · rcases List.mem_append.mp hother with hother | hother
        · obtain ⟨r, hr, hset⟩ := h.revoked other hother
          exact ⟨r, by rw [OrderedMap.get_set_ne _ _ hkey, hr], hset⟩
        · exact absurd (List.mem_singleton.mp hother) hkey

theorem step {l : KeyLabel} (h : KeyInvariant w) (hs : (keySystem p library).step w l = some w') :
    KeyInvariant w' := by
  cases l with
  | clock now =>
    obtain rfl := Option.some.inj hs
    exact { h with }
  | find token =>
    obtain rfl := Option.some.inj hs
    exact h.find token
  | authenticate i bootstrapKey =>
    obtain ⟨lookup, hlookup, hs⟩ := Option.bind_eq_some_iff.mp hs
    obtain ⟨principal, hprincipal, hs⟩ := Option.bind_eq_some_iff.mp hs
    obtain rfl := Option.some.inj hs
    exact h.authenticate (List.mem_of_getElem? hlookup) (toOption_eq_some.mp hprincipal)
  | session userId name =>
    obtain rfl := Option.some.inj hs
    exact h.session userId name
  | create i body uuid secret =>
    obtain ⟨principal, hprincipal, hs⟩ := Option.bind_eq_some_iff.mp hs
    obtain ⟨⟨record, token⟩, hrecord, hs⟩ := Option.bind_eq_some_iff.mp hs
    obtain ⟨_, hfresh, hs⟩ := Option.bind_eq_some_iff.mp hs
    obtain rfl := Option.some.inj hs
    exact h.create (List.mem_of_getElem? hprincipal) (toOption_eq_some.mp hrecord)
      (by simpa using hfresh)
  | revoke i id =>
    obtain ⟨principal, -, hs⟩ := Option.bind_eq_some_iff.mp hs
    obtain ⟨apiKeys, hrevoke, hs⟩ := Option.bind_eq_some_iff.mp hs
    obtain rfl := Option.some.inj hs
    exact h.revoke (toOption_eq_some.mp hrevoke)

end KeyInvariant

theorem keyInvariant_of_reachable (h : (keySystem p library).Reachable w) : KeyInvariant w := by
  refine h.invariant (fun w h₀ => ?_) fun _ _ _ _ hi hs => hi.step hs
  obtain rfl := h₀
  exact ⟨by simp, by simp, by simp, by simp, by simp, by simp⟩

/-! ## Scopes are not escalated -/

namespace KeyInvariant

variable (h : KeyInvariant w)

include h in
/-- Two principals of one id, neither with the scope of everything, have the same scopes. -/
theorem scopes_eq {principal : AuthenticatedPrincipal} {record : ApiKeyRecord}
    (hprincipal : principal.Known w.apiKeys) (hstored : KeyStored w.apiKeys record)
    (hid : record.id = principal.id) : principal.scopes = record.scopes := by
  obtain ⟨r, hr, hevolves⟩ := hstored
  rcases hprincipal with ⟨-, hnone⟩ | ⟨record', ⟨r', hr', hevolves'⟩, hid', hscopes'⟩
  · obtain ⟨-, -, uuid, huuid⟩ := h.filed _ r hr
    exact absurd (hid.symm.trans huuid) (hnone uuid)
  · rw [hid'.trans hid.symm, hr, Option.some.injEq] at hr'
    subst hr'
    rw [← hscopes', ← hevolves'.scopes, hevolves.scopes]

include h in
/-- The key that a principal without the scope of everything created has only scopes of its. -/
theorem created_scopes {creation : KeyCreation} {record : ApiKeyRecord}
    (hcreation : creation ∈ w.created) (hstored : KeyStored w.apiKeys record)
    (hid : record.id = creation.creator.id) : creation.record.scopes ⊆ record.scopes := by
  obtain ⟨hcreator, -, hscopes⟩ := h.created creation hcreation
  have hsame := h.scopes_eq (h.principals _ hcreator) hstored hid
  rw [hsame] at hscopes
  refine hscopes.resolve_left ?_
  obtain ⟨r, hr, hevolves⟩ := hstored
  rw [← hevolves.scopes]
  exact (h.filed _ r hr).2.1

include h in
/-- Along a chain of creations, scopes are only lost. -/
theorem descends_scopes {id key : String} (hdescends : w.Descends id key) {record : ApiKeyRecord}
    (hstored : KeyStored w.apiKeys record) (hid : record.id = id) :
    ∀ creation ∈ w.created, creation.record.id = key → creation.record.scopes ⊆ record.scopes := by
  -- two creations of one id are of the same scopes
  have hsame : ∀ creation ∈ w.created, ∀ other ∈ w.created,
      creation.record.id = other.record.id → creation.record.scopes = other.record.scopes := by
    intro creation hcreation other hother heq
    obtain ⟨-, ⟨r, hr, hevolves⟩, -⟩ := h.created creation hcreation
    obtain ⟨-, ⟨r', hr', hevolves'⟩, -⟩ := h.created other hother
    rw [heq, hr', Option.some.injEq] at hr
    rw [← hevolves.scopes, ← hevolves'.scopes, hr]
  induction hdescends with
  | single hcreated =>
    obtain ⟨creation, hcreation, hcreator, rfl⟩ := hcreated
    intro other hother heq
    rw [hsame other hother creation hcreation heq]
    exact h.created_scopes hcreation hstored (hid.trans hcreator.symm)
  | tail hchain hcreated ih =>
    obtain ⟨creation, hcreation, rfl, rfl⟩ := hcreated
    intro other hother heq
    rw [hsame other hother creation hcreation heq]
    -- the creator is itself a key that was created
    obtain ⟨parent, hparent, hparentId⟩ : ∃ parent ∈ w.created,
        parent.record.id = creation.creator.id := by
      cases hchain with
      | single hlast => exact ⟨hlast.choose, hlast.choose_spec.1, hlast.choose_spec.2.2⟩
      | tail _ hlast => exact ⟨hlast.choose, hlast.choose_spec.1, hlast.choose_spec.2.2⟩
    have hkept := h.created_scopes hcreation (h.created parent hparent).2.1 hparentId
    exact List.Subset.trans hkept (ih parent hparent hparentId)

end KeyInvariant

/-- **Scopes are not escalated.** In every state of every run: a key that a principal without the
scope of everything created, or a chain of keys from it, has only scopes of that principal; a token
of the shape of a key's never authenticates the bootstrap administrator; and a call of
`authenticate` that returns a key read its record before the key was revoked and returned before it
expired. -/
theorem scopes_not_escalated (h : (keySystem p library).Reachable w) :
    (∀ principal ∈ w.principals, ApiScope.all ∉ principal.scopes →
      ∀ creation ∈ w.created, w.Descends principal.id creation.record.id →
        creation.record.scopes ⊆ principal.scopes) ∧
    (∀ a ∈ w.authentications, (scopedKeyId a.token).isSome → a.principal.bootstrap = false) ∧
    ∀ a ∈ w.authentications, a.principal.bootstrap = false →
      a.principal.id ∉ a.revokedBefore ∧
        ∀ record, w.apiKeys.get a.principal.id = some record →
          ∀ expiresAt, record.expiresAt = some expiresAt → a.at_ < expiresAt := by
  have hi := keyInvariant_of_reachable h
  refine ⟨fun principal hprincipal hall creation hcreation hdescends => ?_,
    fun a ha => (hi.authentications a ha).1, fun a ha hboot => ?_⟩
  · rcases hi.principals principal hprincipal with hknown | ⟨record, hstored, hid, hscopes⟩
    · exact absurd hknown.1 hall
    · rw [← hscopes]
      exact hi.descends_scopes hdescends hstored hid creation hcreation rfl
  · obtain ⟨hnotRevoked, record, ⟨r, hr, hevolves⟩, hid, hexpires⟩ :=
      (hi.authentications a ha).2 hboot
    refine ⟨hnotRevoked, fun stored hstored expiresAt hexpiresAt => hexpires expiresAt ?_⟩
    rw [← hid, hr, Option.some.injEq] at hstored
    rw [← hevolves.expiresAt, hstored, hexpiresAt]

end Runs

/-! ## Sample runs -/

/-- The token of a key whose id and secret repeat one character. -/
def sampleToken (c : Char) : String :=
  "re_hs_" ++ keyId (String.ofList (List.replicate 32 c)) ++ "." ++
    String.ofList (List.replicate 43 's')

/-- A platform that knows the digests of two tokens. -/
def keyPlatform : Platform where
  parseDate _ := none
  toLowerCase := String.toLower
  localeCompare a b := decide (a ≤ b)
  convertHtml html _ := html
  base64Length _ := none
  sha256 text :=
    if text = sampleToken 'a' then
      "43637aa9b400775b746638e08d32f529638e47d3f6cd5620a75bf496ce8b07c5"
    else if text = sampleToken 'b' then
      "5021e17e98cce6e2afc5b22c9e44450f31e9da6552dffca7049c5ea84c2c67f9"
    else "0000000000000000000000000000000000000000000000000000000000000000"

def keySchemas : SchemaLibrary where
  isDatetime _ := false
  issues _ := "[]"

/-- A body that asks for a key with scopes. -/
def keyBody (scopes : List String) : Json :=
  .obj [("name", .str "Key"), ("scopes", .arr (scopes.map .str))]

/-- The id of a key, for the repeated digit of its random text. -/
def sampleKeyId (c : Char) : String := keyId (String.ofList (List.replicate 32 c))

/-- The bootstrap administrator creates a key that may create keys. -/
def administrator : List KeyLabel :=
  [.find "secret", .authenticate 0 "secret",
    .create 0 (keyBody ["api_keys:write", "emails:send"]) (String.ofList (List.replicate 32 'a'))
      (String.ofList (List.replicate 43 's')),
    .find (sampleToken 'a')]

/-- The key creates another and is then revoked; the other one still authenticates. -/
def delegatedKey : List KeyLabel :=
  administrator ++ [.authenticate 1 "secret",
    .create 1 (keyBody ["emails:send"]) (String.ofList (List.replicate 32 'b'))
      (String.ofList (List.replicate 43 's')),
    .revoke 0 (sampleKeyId 'a'), .find (sampleToken 'b'), .authenticate 2 "secret"]

theorem scopes_not_escalated_sample : ∃ w principal creation a,
    (keySystem keyPlatform keySchemas).Reachable w ∧ principal ∈ w.principals ∧
      principal.scopes = [.apiKeysWrite, .emailsSend] ∧ creation ∈ w.created ∧
      w.Descends principal.id creation.record.id ∧
      creation.record.scopes ⊆ principal.scopes ∧
      a ∈ w.authentications ∧ a.principal.id = creation.record.id ∧
      principal.id ∈ a.revokedBefore ∧ a.principal.id ∉ a.revokedBefore ∧
      ((scopedKeyId a.token).isSome → a.principal.bootstrap = false) := by
  have hrun : ((keySystem keyPlatform keySchemas).run {} delegatedKey).any (fun w =>
      decide ((⟨sampleKeyId 'a', "Key", [.apiKeysWrite, .emailsSend], false⟩ :
          AuthenticatedPrincipal) ∈ w.principals ∧
        (∃ creation ∈ w.created, creation.creator.id = sampleKeyId 'a' ∧
          creation.record.id = sampleKeyId 'b') ∧
        ∃ a ∈ w.authentications, a.principal.bootstrap = false ∧
          a.principal.id = sampleKeyId 'b' ∧ sampleKeyId 'a' ∈ a.revokedBefore)) = true := by
    decide +kernel
  obtain ⟨w, hw, hend⟩ := TransitionSystem.exists_reachable_of_run rfl hrun
  obtain ⟨hprincipal, ⟨creation, hcreation, hcreator, hid⟩, a, ha, hboot, haid, hbefore⟩ :=
    of_decide_eq_true hend
  obtain ⟨hdelegated, hbootstrap, hrevoked⟩ := scopes_not_escalated hw
  have hdescends : w.Descends (sampleKeyId 'a') creation.record.id :=
    .single ⟨creation, hcreation, hcreator, rfl⟩
  exact ⟨w, _, creation, a, hw, hprincipal, rfl, hcreation, hdescends,
    hdelegated _ hprincipal (by decide) creation hcreation hdescends, ha, haid.trans hid.symm,
    hbefore, (hrevoked a ha hboot).1, hbootstrap a ha⟩

/-- A call of `authenticate` that has read the record of a key returns it after the key is
revoked. -/
theorem revoked_key_authenticated : ∃ w a record,
    (keySystem keyPlatform keySchemas).Reachable w ∧ a ∈ w.authentications ∧
      w.apiKeys.get a.principal.id = some record ∧ record.revokedAt = some 1000 ∧
      a.at_ = 5000 := by
  have hrun : ((keySystem keyPlatform keySchemas).run {} (administrator ++
      [.clock 1000, .revoke 0 (sampleKeyId 'a'), .clock 5000, .authenticate 1 "secret"])).any
      (fun w => decide (∃ a ∈ w.authentications, a.at_ = 5000 ∧
        (w.apiKeys.get a.principal.id).any (decide <| ·.revokedAt = some 1000) = true)) = true := by
    decide +kernel
  obtain ⟨w, hw, hend⟩ := TransitionSystem.exists_reachable_of_run rfl hrun
  obtain ⟨a, ha, hat, hany⟩ := of_decide_eq_true hend
  obtain ⟨record, hrecord, hrevoked⟩ := (Option.any_eq_true _ _).mp hany
  exact ⟨w, a, record, hw, ha, hrecord, of_decide_eq_true hrevoked, hat⟩

end HayaSend
