import HayaSend.Core.Types
import HayaSend.Foundations.Fallible
import HayaSend.Foundations.Subnets
import HayaSend.Foundations.TransitionSystem

/-!
# Where a webhook may connect

A webhook is sent to an address that its host is, or that a lookup supplies. The host is checked
before the request and again in every lookup of the connection, each time with the answer that the
resolver gives then. Whatever it answers, the request connects only to addresses that were checked,
and none of them is a private one, in whatever form an IPv6 address can carry it
(`webhook_targets_public`).
-/

namespace HayaSend

/-! ## Addresses -/

/-- An address, as `isIP` and `BlockList` read its text. -/
inductive IpAddress
  | v4 (address : BitVec 32)
  | v6 (address : BitVec 128)
  deriving DecidableEq, Repr

/-- The address `a.b.c.d`. -/
def ipv4 (a b c d : BitVec 8) : BitVec 32 :=
  .ofNat 32 (a.toNat * 2 ^ 24 + b.toNat * 2 ^ 16 + c.toNat * 2 ^ 8 + d.toNat)

/-- The address `a:b:c:d:e:f:g:h`. -/
def ipv6 (a b c d e f g h : BitVec 16) : BitVec 128 :=
  .ofNat 128 (a.toNat * 2 ^ 112 + b.toNat * 2 ^ 96 + c.toNat * 2 ^ 80 + d.toNat * 2 ^ 64 +
    e.toNat * 2 ^ 48 + f.toNat * 2 ^ 32 + g.toNat * 2 ^ 16 + h.toNat)

/-- The first two and the last two bytes of an IPv4 address. -/
def highHalf (a : BitVec 32) : BitVec 16 := .ofNat 16 (a.toNat / 2 ^ 16)
def lowHalf (a : BitVec 32) : BitVec 16 := .ofNat 16 a.toNat

/-- The IPv4 address that an IPv4-mapped address stands for. -/
def mappedIpv4 (a : BitVec 128) : Option (BitVec 32) :=
  if a.toNat / 2 ^ 32 = 0xffff then some (.ofNat 32 a.toNat) else none

/-! ## The block list -/

/-- `BlockList`: its subnets by family. -/
structure BlockList where
  ipv4 : List (Subnet 32)
  ipv6 : List (Subnet 128)
  deriving DecidableEq, Repr

/-- `check`. The rules for IPv4 also apply to IPv4-mapped addresses. -/
def BlockList.check (list : BlockList) : IpAddress → Bool
  | .v4 a => list.ipv4.any (·.contains a)
  | .v6 a => list.ipv6.any (·.contains a) ||
      (mappedIpv4 a).any fun b => list.ipv4.any (·.contains b)

def nonPublicAddresses : BlockList where
  ipv4 := [⟨ipv4 0 0 0 0, 8⟩, ⟨ipv4 10 0 0 0, 8⟩, ⟨ipv4 100 64 0 0, 10⟩, ⟨ipv4 127 0 0 0, 8⟩,
    ⟨ipv4 169 254 0 0, 16⟩, ⟨ipv4 172 16 0 0, 12⟩, ⟨ipv4 192 0 0 0, 24⟩, ⟨ipv4 192 0 2 0, 24⟩,
    ⟨ipv4 192 88 99 0, 24⟩, ⟨ipv4 192 168 0 0, 16⟩, ⟨ipv4 198 18 0 0, 15⟩,
    ⟨ipv4 198 51 100 0, 24⟩, ⟨ipv4 203 0 113 0, 24⟩, ⟨ipv4 224 0 0 0, 4⟩, ⟨ipv4 240 0 0 0, 4⟩]
  ipv6 := [⟨ipv6 0 0 0 0 0 0 0 0, 96⟩, ⟨ipv6 0 0 0 0 0 0 0 1, 128⟩,
    ⟨ipv6 0 0 0 0 0xffff 0 0 0, 96⟩, ⟨ipv6 0x64 0xff9b 0 0 0 0 0 0, 96⟩,
    ⟨ipv6 0x64 0xff9b 1 0 0 0 0 0, 48⟩, ⟨ipv6 0x100 0 0 0 0 0 0 0, 64⟩,
    ⟨ipv6 0x100 0 0 1 0 0 0 0, 64⟩, ⟨ipv6 0x2001 0 0 0 0 0 0 0, 23⟩,
    ⟨ipv6 0x2001 0xdb8 0 0 0 0 0 0, 32⟩, ⟨ipv6 0x2002 0 0 0 0 0 0 0, 16⟩,
    ⟨ipv6 0x3fff 0 0 0 0 0 0 0, 20⟩, ⟨ipv6 0x5f00 0 0 0 0 0 0 0, 16⟩,
    ⟨ipv6 0xfc00 0 0 0 0 0 0 0, 7⟩, ⟨ipv6 0xfe80 0 0 0 0 0 0 0, 10⟩,
    ⟨ipv6 0xfec0 0 0 0 0 0 0 0, 10⟩, ⟨ipv6 0xff00 0 0 0 0 0 0 0, 8⟩]

/-! ## Lookups -/

/-- An address a resolver answers with. -/
structure LookupAddress where
  address : String
  family : ℕ
  deriving DecidableEq, Repr

/-- What a resolver answers, `none` when it does not in time. -/
abbrev ResolverAnswer := Option (Except Failure (List LookupAddress))

section Checks

variable (parseIp : String → Option IpAddress)

/-- `isIP` -/
def isIP (text : String) : ℕ :=
  match parseIp text with
  | none => 0
  | some (.v4 _) => 4
  | some (.v6 _) => 6

def isPublicIpAddress (address : String) : Bool :=
  (parseIp address).any fun ip => !nonPublicAddresses.check ip

def normalizedIpHostname (hostname : String) : String :=
  if hostname.toList.head? = some '[' ∧ hostname.toList.getLast? = some ']' then
    String.ofList (hostname.toList.drop 1).dropLast
  else hostname

/-- What the resolver says of a host that is no address. -/
def resolved : ResolverAnswer → Except Failure (List LookupAddress)
  | none => .error (.error "Webhook DNS resolution timed out.")
  | some answer => answer

/-- The addresses of a host: itself, or what the resolver answers. -/
def hostAddresses (hostname : String) (answer : ResolverAnswer) :
    Except Failure (List LookupAddress) :=
  let normalized := normalizedIpHostname hostname
  let literalFamily := isIP parseIp normalized
  if literalFamily ≠ 0 then .ok [⟨normalized, literalFamily⟩] else resolved answer

/-- `publicAddresses`, with what the resolver answers. -/
def publicAddresses (hostname : String) (answer : ResolverAnswer) :
    Except Failure (List LookupAddress) := do
  let addresses ← hostAddresses parseIp hostname answer
  throwIf (addresses.isEmpty || addresses.any fun a =>
      a.family != isIP parseIp a.address || !isPublicIpAddress parseIp a.address)
    (.validation "Webhook endpoints must resolve only to public IP addresses.")
  return addresses

/-- A URL, as the parser leaves it: its texts, and that only an address is put in brackets. -/
structure EndpointUrl where
  href : String
  protocol : String
  username : String
  password : String
  hash : String
  hostname : String
  bracketed : hostname.toList.head? = some '[' → hostname.toList.getLast? = some ']'

/-- `assertWebhookEndpointShape` -/
def assertWebhookEndpointShape (endpoint : EndpointUrl) : Except Failure Unit :=
  throwIf (2048 < endpoint.href.length ||
      !(["http:", "https:"].contains endpoint.protocol) ||
      endpoint.username != "" || endpoint.password != "" || endpoint.hash != "")
    (.validation ("Webhook endpoint must be an HTTP(S) URL of at most 2048 characters without " ++
      "credentials or a fragment."))

/-- An error of the check, as it is thrown on: those of validation as they are. -/
def endpointError : Failure → Failure
  | .validation message => .validation message
  | _ => .validation "Webhook endpoint hostname could not be resolved."

/-- `assertPublicWebhookEndpoint` -/
def assertPublicWebhookEndpoint (endpoint : EndpointUrl) (answer : ResolverAnswer) :
    Except Failure Unit := do
  assertWebhookEndpointShape endpoint
  throwIf (endpoint.protocol != "https:")
    (.validation "Webhook endpoint must be a public HTTPS URL.")
  match publicAddresses parseIp endpoint.hostname answer with
  | .ok _ => return ()
  | .error e => throw (endpointError e)

/-- `createPublicLookup`: the addresses its callback is given, for a family of 4 or 6 if the
options name one, all of them or the first. -/
def createPublicLookup (hostname : String) (family : ℕ) (all : Bool) (answer : ResolverAnswer) :
    Except Failure (List LookupAddress) := do
  let addresses ← publicAddresses parseIp hostname answer
  let candidates := if family = 4 ∨ family = 6 then addresses.filter (·.family == family)
    else addresses
  throwIf candidates.isEmpty
    (.error "Webhook endpoint has no public address in the requested family.")
  return if all then candidates else candidates.take 1

end Checks

/-! ## A request -/

/-- The host a request to a URL connects to: `urlToHttpOptions` takes off the brackets. -/
def connectionHost (endpoint : EndpointUrl) : String :=
  if endpoint.hostname.toList.head? = some '[' then
    String.ofList (endpoint.hostname.toList.drop 1).dropLast
  else endpoint.hostname

/-- A lookup of the connection that succeeded: what the resolver answered, and what it supplied. -/
structure WebhookLookup where
  hostname : String
  answer : ResolverAnswer
  supplied : List LookupAddress

/-- A connection, and the lookup that supplied its address, `none` when the host is an address. -/
structure WebhookConnection where
  address : String
  lookup : Option WebhookLookup

/-- A fetch: whether the check of its endpoint has passed, its lookups and its connections. -/
structure WebhookFetch where
  isChecked : Bool := false
  lookups : List WebhookLookup := []
  connections : List WebhookConnection := []

inductive WebhookFetchLabel
  | check (answer : ResolverAnswer)
  | lookup (family : ℕ) (all : Bool) (answer : ResolverAnswer)
  | connectLiteral
  | connect (lookup address : ℕ)

/-- The fetch of `createSafeWebhookFetch`, with whatever the resolver answers at each call. A request
connects to its host, if that is an address, or to an address that a lookup supplied. -/
def webhookFetch (parseIp : String → Option IpAddress) (endpoint : EndpointUrl) :
    TransitionSystem WebhookFetch WebhookFetchLabel where
  init f := f = {}
  step f
    | .check answer => do
      let _ ← (assertPublicWebhookEndpoint parseIp endpoint answer).toOption
      return { f with isChecked := true }
    | .lookup family all answer => do
      guard (f.isChecked ∧ isIP parseIp (connectionHost endpoint) = 0)
      let supplied ←
        (createPublicLookup parseIp (connectionHost endpoint) family all answer).toOption
      return { f with lookups := f.lookups ++ [⟨connectionHost endpoint, answer, supplied⟩] }
    | .connectLiteral => do
      guard (f.isChecked ∧ isIP parseIp (connectionHost endpoint) ≠ 0)
      return { f with connections := f.connections ++ [⟨connectionHost endpoint, none⟩] }
    | .connect i j => do
      let lookup ← f.lookups[i]?
      let target ← lookup.supplied[j]?
      return { f with connections := f.connections ++ [⟨target.address, some lookup⟩] }

/-! ## Ranges -/

/-- The first, second and third byte of an IPv4 address. -/
def firstByte (a : BitVec 32) : ℕ := a.toNat / 2 ^ 24
def secondByte (a : BitVec 32) : ℕ := a.toNat / 2 ^ 16 % 256
def thirdByte (a : BitVec 32) : ℕ := a.toNat / 2 ^ 8 % 256

/-- The IPv4 addresses of which none is to be reached. -/
inductive NonPublicIpv4 (a : BitVec 32) : Prop
  | loopback (h : firstByte a = 127)
  | privateClassA (h : firstByte a = 10)
  | privateClassB (h : firstByte a = 172) (h' : 16 ≤ secondByte a ∧ secondByte a ≤ 31)
  | privateClassC (h : firstByte a = 192) (h' : secondByte a = 168)
  | linkLocal (h : firstByte a = 169) (h' : secondByte a = 254)
  | carrierGradeNat (h : firstByte a = 100) (h' : 64 ≤ secondByte a ∧ secondByte a ≤ 127)
  | multicast (h : 224 ≤ firstByte a ∧ firstByte a ≤ 239)
  | reserved (h : 240 ≤ firstByte a)
  | thisNetwork (h : firstByte a = 0)
  | protocolAssignments (h : firstByte a = 192) (h' : secondByte a = 0) (h'' : thirdByte a = 0)
  | documentation1 (h : firstByte a = 192) (h' : secondByte a = 0) (h'' : thirdByte a = 2)
  | relayAnycast (h : firstByte a = 192) (h' : secondByte a = 88) (h'' : thirdByte a = 99)
  | benchmarking (h : firstByte a = 198) (h' : 18 ≤ secondByte a ∧ secondByte a ≤ 19)
  | documentation2 (h : firstByte a = 198) (h' : secondByte a = 51) (h'' : thirdByte a = 100)
  | documentation3 (h : firstByte a = 203) (h' : secondByte a = 0) (h'' : thirdByte a = 113)

/-- The IPv6 addresses that carry an IPv4 address. -/
inductive Embeds (a : BitVec 32) : BitVec 128 → Prop
  | mapped : Embeds a (ipv6 0 0 0 0 0 0xffff (highHalf a) (lowHalf a))
  | compatible : Embeds a (ipv6 0 0 0 0 0 0 (highHalf a) (lowHalf a))
  | translated : Embeds a (ipv6 0 0 0 0 0xffff 0 (highHalf a) (lowHalf a))
  | nat64 : Embeds a (ipv6 0x64 0xff9b 0 0 0 0 (highHalf a) (lowHalf a))
  /-- The prefix for local use, wherever it keeps the address. -/
  | localNat64 (d e f g h : BitVec 16) : Embeds a (ipv6 0x64 0xff9b 1 d e f g h)
  | sixToFour (d e f g h : BitVec 16) : Embeds a (ipv6 0x2002 (highHalf a) (lowHalf a) d e f g h)
  | teredoServer (e f g h : BitVec 16) :
      Embeds a (ipv6 0x2001 0 (highHalf a) (lowHalf a) e f g h)
  | teredoClient (c d e f : BitVec 16) :
      Embeds a (ipv6 0x2001 0 c d e f (~~~highHalf a) (~~~lowHalf a))

def IsUniqueLocal (b : BitVec 128) : Prop := b.toNat / 2 ^ 121 = 0xfc / 2
def IsLinkLocal (b : BitVec 128) : Prop := b.toNat / 2 ^ 118 = 0xfe80 / 2 ^ 6
def IsMulticast (b : BitVec 128) : Prop := b.toNat / 2 ^ 120 = 0xff

/-- An address that may be reached. -/
def IpAddress.IsPublic : IpAddress → Prop
  | v4 a => ¬NonPublicIpv4 a
  | v6 b => (∀ a, NonPublicIpv4 a → ¬Embeds a b) ∧ ¬IsUniqueLocal b ∧ ¬IsLinkLocal b ∧
      ¬IsMulticast b

theorem ipv4_toNat (a b c d : BitVec 8) : (ipv4 a b c d).toNat =
    a.toNat * 2 ^ 24 + b.toNat * 2 ^ 16 + c.toNat * 2 ^ 8 + d.toNat := by
  rw [ipv4, BitVec.toNat_ofNat]
  have ha := a.isLt
  have hb := b.isLt
  have hc := c.isLt
  have hd := d.isLt
  omega

theorem ipv6_toNat (a b c d e f g h : BitVec 16) : (ipv6 a b c d e f g h).toNat =
    a.toNat * 2 ^ 112 + b.toNat * 2 ^ 96 + c.toNat * 2 ^ 80 + d.toNat * 2 ^ 64 +
      e.toNat * 2 ^ 48 + f.toNat * 2 ^ 32 + g.toNat * 2 ^ 16 + h.toNat := by
  rw [ipv6, BitVec.toNat_ofNat]
  have ha := a.isLt
  have hb := b.isLt
  have hc := c.isLt
  have hd := d.isLt
  have he := e.isLt
  have hf := f.isLt
  have hg := g.isLt
  have hh := h.isLt
  omega

/-- **Every such range** is covered by a rule. -/
theorem NonPublicIpv4.covered {a : BitVec 32} (h : NonPublicIpv4 a) :
    nonPublicAddresses.ipv4.any (·.contains a) = true := by
  have hlt := a.isLt
  -- it is enough to name a rule whose leading bits the address has
  have hrule : ∀ s ∈ nonPublicAddresses.ipv4,
      a.toNat / 2 ^ (32 - s.prefixLength) = s.network.toNat / 2 ^ (32 - s.prefixLength) →
      nonPublicAddresses.ipv4.any (·.contains a) = true := fun s hs hbits =>
    List.any_eq_true.mpr ⟨s, hs, (s.contains_iff a).mpr hbits⟩
  cases h with
  | loopback h =>
    simp only [firstByte] at h
    exact hrule ⟨ipv4 127 0 0 0, 8⟩ (by simp [nonPublicAddresses]) (by simp [ipv4_toNat]; omega)
  | privateClassA h =>
    simp only [firstByte] at h
    exact hrule ⟨ipv4 10 0 0 0, 8⟩ (by simp [nonPublicAddresses]) (by simp [ipv4_toNat]; omega)
  | privateClassB h h' =>
    simp only [firstByte, secondByte] at h h'
    exact hrule ⟨ipv4 172 16 0 0, 12⟩ (by simp [nonPublicAddresses]) (by simp [ipv4_toNat]; omega)
  | privateClassC h h' =>
    simp only [firstByte, secondByte] at h h'
    exact hrule ⟨ipv4 192 168 0 0, 16⟩ (by simp [nonPublicAddresses])
      (by simp [ipv4_toNat]; omega)
  | linkLocal h h' =>
    simp only [firstByte, secondByte] at h h'
    exact hrule ⟨ipv4 169 254 0 0, 16⟩ (by simp [nonPublicAddresses])
      (by simp [ipv4_toNat]; omega)
  | carrierGradeNat h h' =>
    simp only [firstByte, secondByte] at h h'
    exact hrule ⟨ipv4 100 64 0 0, 10⟩ (by simp [nonPublicAddresses]) (by simp [ipv4_toNat]; omega)
  | multicast h =>
    simp only [firstByte] at h
    exact hrule ⟨ipv4 224 0 0 0, 4⟩ (by simp [nonPublicAddresses]) (by simp [ipv4_toNat]; omega)
  | reserved h =>
    simp only [firstByte] at h
    exact hrule ⟨ipv4 240 0 0 0, 4⟩ (by simp [nonPublicAddresses]) (by simp [ipv4_toNat]; omega)
  | thisNetwork h =>
    simp only [firstByte] at h
    exact hrule ⟨ipv4 0 0 0 0, 8⟩ (by simp [nonPublicAddresses]) (by simp [ipv4_toNat]; omega)
  | protocolAssignments h h' h'' =>
    simp only [firstByte, secondByte, thirdByte] at h h' h''
    exact hrule ⟨ipv4 192 0 0 0, 24⟩ (by simp [nonPublicAddresses]) (by simp [ipv4_toNat]; omega)
  | documentation1 h h' h'' =>
    simp only [firstByte, secondByte, thirdByte] at h h' h''
    exact hrule ⟨ipv4 192 0 2 0, 24⟩ (by simp [nonPublicAddresses]) (by simp [ipv4_toNat]; omega)
  | relayAnycast h h' h'' =>
    simp only [firstByte, secondByte, thirdByte] at h h' h''
    exact hrule ⟨ipv4 192 88 99 0, 24⟩ (by simp [nonPublicAddresses])
      (by simp [ipv4_toNat]; omega)
  | benchmarking h h' =>
    simp only [firstByte, secondByte] at h h'
    exact hrule ⟨ipv4 198 18 0 0, 15⟩ (by simp [nonPublicAddresses]) (by simp [ipv4_toNat]; omega)
  | documentation2 h h' h'' =>
    simp only [firstByte, secondByte, thirdByte] at h h' h''
    exact hrule ⟨ipv4 198 51 100 0, 24⟩ (by simp [nonPublicAddresses])
      (by simp [ipv4_toNat]; omega)
  | documentation3 h h' h'' =>
    simp only [firstByte, secondByte, thirdByte] at h h' h''
    exact hrule ⟨ipv4 203 0 113 0, 24⟩ (by simp [nonPublicAddresses])
      (by simp [ipv4_toNat]; omega)

theorem halves_toNat (a : BitVec 32) :
    (highHalf a).toNat = a.toNat / 2 ^ 16 ∧ (lowHalf a).toNat = a.toNat % 2 ^ 16 := by
  have hlt := a.isLt
  constructor
  · rw [highHalf, BitVec.toNat_ofNat]
    omega
  · rw [lowHalf, BitVec.toNat_ofNat]

theorem mappedIpv4_mapped (a : BitVec 32) :
    mappedIpv4 (ipv6 0 0 0 0 0 0xffff (highHalf a) (lowHalf a)) = some a := by
  obtain ⟨hhigh, hlow⟩ := halves_toNat a
  have hlt := a.isLt
  have hvalue : (ipv6 0 0 0 0 0 0xffff (highHalf a) (lowHalf a)).toNat =
      0xffff * 2 ^ 32 + a.toNat := by
    rw [ipv6_toNat, hhigh, hlow]
    simp
    omega
  rw [mappedIpv4, hvalue, if_pos (by omega), Option.some.injEq]
  apply BitVec.eq_of_toNat_eq
  rw [BitVec.toNat_ofNat]
  omega

/-- A rule whose leading bits an IPv6 address has rejects it. -/
theorem check_v6_of_bits {b : BitVec 128} (s : Subnet 128) (hs : s ∈ nonPublicAddresses.ipv6)
    (hbits : b.toNat / 2 ^ (128 - s.prefixLength) =
      s.network.toNat / 2 ^ (128 - s.prefixLength)) :
    nonPublicAddresses.check (.v6 b) = true := by
  rw [BlockList.check, Bool.or_eq_true]
  exact .inl (List.any_eq_true.mpr ⟨s, hs, (s.contains_iff b).mpr hbits⟩)

/-- **An IPv6 address** that carries an address of these ranges is rejected. -/
theorem Embeds.rejected {a : BitVec 32} {b : BitVec 128} (h : Embeds a b)
    (ha : NonPublicIpv4 a) : nonPublicAddresses.check (.v6 b) = true := by
  obtain ⟨hhigh, hlow⟩ := halves_toNat a
  have hlt := a.isLt
  cases h with
  | mapped =>
    rw [BlockList.check, mappedIpv4_mapped, Option.any_some, ha.covered, Bool.or_true]
  | compatible =>
    refine check_v6_of_bits ⟨ipv6 0 0 0 0 0 0 0 0, 96⟩ (by simp [nonPublicAddresses]) ?_
    simp only [ipv6_toNat, hhigh, hlow]
    simp
    omega
  | translated =>
    refine check_v6_of_bits ⟨ipv6 0 0 0 0 0xffff 0 0 0, 96⟩ (by simp [nonPublicAddresses]) ?_
    simp only [ipv6_toNat, hhigh, hlow]
    simp
    omega
  | nat64 =>
    refine check_v6_of_bits ⟨ipv6 0x64 0xff9b 0 0 0 0 0 0, 96⟩ (by simp [nonPublicAddresses]) ?_
    simp only [ipv6_toNat, hhigh, hlow]
    simp
    omega
  | localNat64 d e f g h =>
    refine check_v6_of_bits ⟨ipv6 0x64 0xff9b 1 0 0 0 0 0, 48⟩ (by simp [nonPublicAddresses]) ?_
    have hd := d.isLt
    have he := e.isLt
    have hf := f.isLt
    have hg := g.isLt
    have hh := h.isLt
    simp only [ipv6_toNat]
    simp
    omega
  | sixToFour d e f g h =>
    refine check_v6_of_bits ⟨ipv6 0x2002 0 0 0 0 0 0 0, 16⟩ (by simp [nonPublicAddresses]) ?_
    have hd := d.isLt
    have he := e.isLt
    have hf := f.isLt
    have hg := g.isLt
    have hh := h.isLt
    simp only [ipv6_toNat, hhigh, hlow]
    simp
    omega
  | teredoServer e f g h =>
    refine check_v6_of_bits ⟨ipv6 0x2001 0 0 0 0 0 0 0, 23⟩ (by simp [nonPublicAddresses]) ?_
    have he := e.isLt
    have hf := f.isLt
    have hg := g.isLt
    have hh := h.isLt
    simp only [ipv6_toNat, hhigh, hlow]
    simp
    omega
  | teredoClient c d e f =>
    refine check_v6_of_bits ⟨ipv6 0x2001 0 0 0 0 0 0 0, 23⟩ (by simp [nonPublicAddresses]) ?_
    have hc := c.isLt
    have hd := d.isLt
    have he := e.isLt
    have hf := f.isLt
    have hg := (~~~highHalf a).isLt
    have hh := (~~~lowHalf a).isLt
    simp only [ipv6_toNat]
    generalize (~~~highHalf a).toNat = g at *
    generalize (~~~lowHalf a).toNat = h at *
    simp
    omega

/-- **What the block list lets through** is public. -/
theorem isPublic_of_check {ip : IpAddress} (h : nonPublicAddresses.check ip = false) :
    ip.IsPublic := by
  cases ip with
  | v4 a =>
    intro ha
    rw [BlockList.check, ha.covered] at h
    cases h
  | v6 b =>
    have hrule : ∀ s ∈ nonPublicAddresses.ipv6, b.toNat / 2 ^ (128 - s.prefixLength) ≠
        s.network.toNat / 2 ^ (128 - s.prefixLength) := by
      intro s hs hbits
      rw [check_v6_of_bits s hs hbits] at h
      cases h
    refine ⟨fun a ha hembeds => ?_, fun hlocal => ?_, fun hlocal => ?_, fun hmulticast => ?_⟩
    · rw [hembeds.rejected ha] at h
      cases h
    · refine hrule ⟨ipv6 0xfc00 0 0 0 0 0 0 0, 7⟩ (by simp [nonPublicAddresses]) ?_
      simp only [IsUniqueLocal] at hlocal
      simp [ipv6_toNat]
      omega
    · refine hrule ⟨ipv6 0xfe80 0 0 0 0 0 0 0, 10⟩ (by simp [nonPublicAddresses]) ?_
      simp only [IsLinkLocal] at hlocal
      simp [ipv6_toNat]
      omega
    · refine hrule ⟨ipv6 0xff00 0 0 0 0 0 0 0, 8⟩ (by simp [nonPublicAddresses]) ?_
      simp only [IsMulticast] at hmulticast
      simp [ipv6_toNat]
      omega

/-! ## Checked addresses -/

section Runs

variable {parseIp : String → Option IpAddress} {endpoint : EndpointUrl} {f f' : WebhookFetch}

/-- What `publicAddresses` returns is what was found, each with its family and public. -/
theorem publicAddresses_spec {hostname : String} {answer : ResolverAnswer}
    {addresses : List LookupAddress}
    (h : publicAddresses parseIp hostname answer = .ok addresses) :
    ∀ a ∈ addresses, isPublicIpAddress parseIp a.address = true := by
  obtain ⟨found, -, h⟩ := bind_eq_ok.mp h
  obtain ⟨_, hchecked, h⟩ := bind_eq_ok.mp h
  rw [pure_eq_ok] at h
  subst h
  rw [throwIf_eq_ok, Bool.or_eq_false_iff, List.any_eq_false] at hchecked
  intro a ha
  have hpublic := hchecked.2 a ha
  rw [Bool.not_eq_true, Bool.or_eq_false_iff, Bool.not_eq_false'] at hpublic
  exact hpublic.2

/-- A host that is an address is checked as it is, whatever the resolver would answer. -/
theorem publicAddresses_literal {hostname : String} {answer : ResolverAnswer}
    {addresses : List LookupAddress} (hliteral : isIP parseIp (normalizedIpHostname hostname) ≠ 0)
    (h : publicAddresses parseIp hostname answer = .ok addresses) :
    addresses = [⟨normalizedIpHostname hostname, isIP parseIp (normalizedIpHostname hostname)⟩] := by
  obtain ⟨found, hfound, h⟩ := bind_eq_ok.mp h
  obtain ⟨_, -, h⟩ := bind_eq_ok.mp h
  rw [pure_eq_ok] at h
  subst h
  rw [hostAddresses, if_pos hliteral, Except.ok.injEq] at hfound
  exact hfound.symm

/-- One address that is not public, and the whole answer is rejected. -/
theorem publicAddresses_rejects {hostname : String} {addresses : List LookupAddress}
    (hname : isIP parseIp (normalizedIpHostname hostname) = 0)
    (h : ∃ a ∈ addresses, isPublicIpAddress parseIp a.address = false) :
    publicAddresses parseIp hostname (some (.ok addresses)) =
      .error (.validation "Webhook endpoints must resolve only to public IP addresses.") := by
  obtain ⟨a, ha, hprivate⟩ := h
  have hany : (addresses.isEmpty || addresses.any fun a =>
      a.family != isIP parseIp a.address || !isPublicIpAddress parseIp a.address) = true := by
    rw [Bool.or_eq_true, List.any_eq_true]
    exact .inr ⟨a, ha, by rw [hprivate]; simp⟩
  have hfound : hostAddresses parseIp hostname (some (.ok addresses)) = .ok addresses := by
    rw [hostAddresses, if_neg (not_not_intro hname)]
    rfl
  rw [publicAddresses, hfound]
  change (throwIf _ _ >>= fun _ => pure addresses) = _
  rw [hany]
  rfl

/-- What a lookup supplies was checked in it. -/
theorem createPublicLookup_spec {hostname : String} {family : ℕ} {all : Bool}
    {answer : ResolverAnswer} {supplied : List LookupAddress}
    (h : createPublicLookup parseIp hostname family all answer = .ok supplied) :
    ∃ addresses, publicAddresses parseIp hostname answer = .ok addresses ∧
      ∀ a ∈ supplied, a ∈ addresses := by
  obtain ⟨addresses, haddresses, h⟩ := bind_eq_ok.mp h
  obtain ⟨_, -, h⟩ := bind_eq_ok.mp h
  rw [pure_eq_ok] at h
  subst h
  refine ⟨addresses, haddresses, fun a ha => ?_⟩
  have hcandidate : a ∈ (if family = 4 ∨ family = 6 then addresses.filter (·.family == family)
      else addresses) := by
    split at ha
    · exact ha
    · exact List.mem_of_mem_take ha
  split_ifs at hcandidate
  · exact List.mem_of_mem_filter hcandidate
  · exact hcandidate

theorem isPublic_of_accepted {address : String}
    (h : isPublicIpAddress parseIp address = true) :
    ∃ ip, parseIp address = some ip ∧ ip.IsPublic := by
  obtain ⟨ip, hip, hpublic⟩ := (Option.any_eq_true _ _).mp h
  rw [Bool.not_eq_true'] at hpublic
  exact ⟨ip, hip, isPublic_of_check hpublic⟩

/-! ## The fetch -/

/-- The request goes to the host that was checked. -/
theorem connectionHost_eq (endpoint : EndpointUrl) :
    connectionHost endpoint = normalizedIpHostname endpoint.hostname := by
  unfold connectionHost normalizedIpHostname
  by_cases hopen : endpoint.hostname.toList.head? = some '['
  · rw [if_pos hopen, if_pos ⟨hopen, endpoint.bracketed hopen⟩]
  · rw [if_neg hopen, if_neg fun h => hopen h.1]

/-- A connection to an address that was checked, as the host or in the lookup that supplied it. -/
def WebhookConnection.Checked (parseIp : String → Option IpAddress) (endpoint : EndpointUrl)
    (c : WebhookConnection) : Prop :=
  match c.lookup with
  | none => ∃ answer, publicAddresses parseIp endpoint.hostname answer =
      .ok [⟨c.address, isIP parseIp c.address⟩]
  | some lookup => ∃ addresses,
      publicAddresses parseIp lookup.hostname lookup.answer = .ok addresses ∧
        ∃ a ∈ addresses, a.address = c.address

structure FetchInvariant (parseIp : String → Option IpAddress) (endpoint : EndpointUrl)
    (f : WebhookFetch) : Prop where
  checked : f.isChecked = true →
    ∃ answer addresses, publicAddresses parseIp endpoint.hostname answer = .ok addresses
  lookups : ∀ lookup ∈ f.lookups, ∃ addresses,
    publicAddresses parseIp lookup.hostname lookup.answer = .ok addresses ∧
      ∀ a ∈ lookup.supplied, a ∈ addresses
  connections : ∀ c ∈ f.connections, c.Checked parseIp endpoint

theorem assertPublicWebhookEndpoint_spec {answer : ResolverAnswer}
    (h : assertPublicWebhookEndpoint parseIp endpoint answer = .ok ()) :
    ∃ addresses, publicAddresses parseIp endpoint.hostname answer = .ok addresses := by
  obtain ⟨_, -, h⟩ := bind_eq_ok.mp h
  obtain ⟨_, -, h⟩ := bind_eq_ok.mp h
  split at h
  · rename_i addresses haddresses
    exact ⟨addresses, haddresses⟩
  · cases h

theorem FetchInvariant.step {l : WebhookFetchLabel} (h : FetchInvariant parseIp endpoint f)
    (hs : (webhookFetch parseIp endpoint).step f l = some f') :
    FetchInvariant parseIp endpoint f' := by
  cases l with
  | check answer =>
    obtain ⟨_, hcheck, hs⟩ := Option.bind_eq_some_iff.mp hs
    obtain rfl := Option.some.inj hs
    exact { h with
      checked := fun _ => ⟨answer, assertPublicWebhookEndpoint_spec (toOption_eq_some.mp hcheck)⟩ }
  | lookup family all answer =>
    obtain ⟨_, -, hs⟩ := Option.bind_eq_some_iff.mp hs
    obtain ⟨supplied, hsupplied, hs⟩ := Option.bind_eq_some_iff.mp hs
    obtain rfl := Option.some.inj hs
    refine { h with lookups := fun lookup hlookup => ?_ }
    rcases List.mem_append.mp hlookup with hlookup | hlookup
    · exact h.lookups lookup hlookup
    · rw [List.mem_singleton.mp hlookup]
      exact createPublicLookup_spec (toOption_eq_some.mp hsupplied)
  | connectLiteral =>
    obtain ⟨_, hguard, hs⟩ := Option.bind_eq_some_iff.mp hs
    obtain rfl := Option.some.inj hs
    obtain ⟨hchecked, hliteral⟩ : f.isChecked = true ∧
        isIP parseIp (connectionHost endpoint) ≠ 0 := by
      by_contra hno
      rw [guard, if_neg hno] at hguard
      cases hguard
    refine { h with connections := fun c hc => ?_ }
    rcases List.mem_append.mp hc with hc | hc
    · exact h.connections c hc
    · rw [List.mem_singleton.mp hc]
      obtain ⟨answer, addresses, haddresses⟩ := h.checked hchecked
      rw [connectionHost_eq] at hliteral
      refine ⟨answer, ?_⟩
      rw [haddresses, publicAddresses_literal hliteral haddresses, connectionHost_eq]
  | connect i j =>
    obtain ⟨lookup, hlookup, hs⟩ := Option.bind_eq_some_iff.mp hs
    obtain ⟨target, htarget, hs⟩ := Option.bind_eq_some_iff.mp hs
    obtain rfl := Option.some.inj hs
    refine { h with connections := fun c hc => ?_ }
    rcases List.mem_append.mp hc with hc | hc
    · exact h.connections c hc
    · rw [List.mem_singleton.mp hc]
      obtain ⟨addresses, haddresses, hsupplied⟩ :=
        h.lookups lookup (List.mem_of_getElem? hlookup)
      exact ⟨addresses, haddresses, target, hsupplied target (List.mem_of_getElem? htarget), rfl⟩

theorem fetchInvariant_of_reachable (h : (webhookFetch parseIp endpoint).Reachable f) :
    FetchInvariant parseIp endpoint f := by
  refine h.invariant (fun f h₀ => ?_) fun _ _ _ _ hi hs => hi.step hs
  obtain rfl := h₀
  exact ⟨by simp, by simp, by simp⟩

/-- **A webhook cannot be steered to a private address.** Whatever the resolver answers at each
call: every address that the fetch connects to is a host that was checked, or was checked in the
lookup that supplied it, and is public; and a lookup whose answer has one address that is not
public is rejected as a whole. -/
theorem webhook_targets_public (h : (webhookFetch parseIp endpoint).Reachable f) :
    (∀ c ∈ f.connections, c.Checked parseIp endpoint ∧
      ∃ ip, parseIp c.address = some ip ∧ ip.IsPublic) ∧
    ∀ hostname family all addresses, isIP parseIp (normalizedIpHostname hostname) = 0 →
      (∃ a ∈ addresses, isPublicIpAddress parseIp a.address = false) →
      createPublicLookup parseIp hostname family all (some (.ok addresses)) =
        .error (.validation "Webhook endpoints must resolve only to public IP addresses.") := by
  refine ⟨fun c hc => ?_, fun hostname family all addresses hname hprivate => ?_⟩
  · have hchecked := (fetchInvariant_of_reachable h).connections c hc
    refine ⟨hchecked, isPublic_of_accepted ?_⟩
    unfold WebhookConnection.Checked at hchecked
    split at hchecked
    · obtain ⟨answer, hanswer⟩ := hchecked
      exact publicAddresses_spec hanswer _ (List.mem_singleton_self _)
    · obtain ⟨addresses, haddresses, a, ha, haddress⟩ := hchecked
      rw [← haddress]
      exact publicAddresses_spec haddresses a ha
  · rw [createPublicLookup, publicAddresses_rejects hname hprivate]
    rfl

end Runs

/-- A fetch whose resolver changes its answer: the first lookup is refused, the second is not. -/
theorem webhook_targets_public_sample :
    let parseIp : String → Option IpAddress := fun text =>
      if text = "1.1.1.1" then some (.v4 (ipv4 1 1 1 1))
      else if text = "169.254.169.254" then some (.v4 (ipv4 169 254 169 254))
      else none
    let endpoint : EndpointUrl := ⟨"https://example.com/hooks", "https:", "", "", "",
      "example.com", by decide⟩
    let rebound : ResolverAnswer := some (.ok [⟨"1.1.1.1", 4⟩, ⟨"169.254.169.254", 4⟩])
    createPublicLookup parseIp "example.com" 0 true rebound =
        .error (.validation "Webhook endpoints must resolve only to public IP addresses.") ∧
      ∃ f, (webhookFetch parseIp endpoint).Reachable f ∧
        f.connections.map (·.address) = ["1.1.1.1"] ∧
        ∀ c ∈ f.connections, ∃ ip, parseIp c.address = some ip ∧ ip.IsPublic := by
  intro parseIp endpoint rebound
  obtain ⟨f, hf, hconnections⟩ : ∃ f, (webhookFetch parseIp endpoint).Reachable f ∧
      f.connections.map (·.address) = ["1.1.1.1"] := by
    have hrun : ((webhookFetch parseIp endpoint).run {}
        [.check (some (.ok [⟨"1.1.1.1", 4⟩])), .lookup 0 true (some (.ok [⟨"1.1.1.1", 4⟩])),
          .connect 0 0]).any (fun f => f.connections.map (·.address) = ["1.1.1.1"]) = true := by
      decide +kernel
    obtain ⟨f, hf, h⟩ := TransitionSystem.exists_reachable_of_run rfl hrun
    exact ⟨f, hf, of_decide_eq_true h⟩
  have htargets := webhook_targets_public hf
  refine ⟨htargets.2 _ _ _ _ (by decide) ?_, f, hf, hconnections, fun c hc =>
    (htargets.1 c hc).2⟩
  exact ⟨_, .tail _ (.head _), by decide⟩

end HayaSend
