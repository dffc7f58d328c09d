import HayaSend.Core.CanonicalForms
import HayaSend.Services.EmailIntake

/-!
# Request hashes

The hash under which a request is idempotent. `canonicalize` sorts the members of every object by
`localeCompare`, which does not tell canonically equivalent keys apart, and a stable sort leaves
these in the order in which they came: two requests that differ in the order of such keys have two
hashes. Otherwise the hash says which request it is, up to the order of members and to members that
are undefined (`canonicalHashing_iff`).
-/

namespace HayaSend

/-! ## Values with undefined members -/

/-- A JSON value whose objects may have members that are undefined. -/
inductive JsonValue
  | null
  | bool (value : Bool)
  | num (text : String)
  | str (value : String)
  | arr (items : List JsonValue)
  | obj (members : List (String × Option JsonValue))

namespace JsonValue

mutual

/-- The value without its undefined members, which `canonicalize` filters out before it sorts. -/
def defined : JsonValue → Json
  | null => .null
  | bool value => .bool value
  | num text => .num text
  | str value => .str value
  | arr items => .arr (definedItems items)
  | obj members => .obj (definedMembers members)

def definedItems : List JsonValue → List Json
  | [] => []
  | item :: items => item.defined :: definedItems items

def definedMembers : List (String × Option JsonValue) → List (String × Json)
  | [] => []
  | (key, some value) :: members => (key, value.defined) :: definedMembers members
  | (_, none) :: members => definedMembers members

end

/-- Equal up to the order of members and to undefined members, at every depth. -/
def Same (v w : JsonValue) : Prop := v.defined.EqualUpToOrder w.defined

end JsonValue

/-! ## Hashes -/

open Json

variable {p : Platform} {v w : JsonValue}

/-- The text and the hash say which value it is. -/
structure CanonicalHashing (p : Platform) (v w : JsonValue) : Prop where
  text : canonicalText p v.defined = canonicalText p w.defined ↔ v.Same w
  hash : requestHash p v.defined = requestHash p w.defined ↔ v.Same w

/-- Where the values are the same, keys that `localeCompare` does not tell apart come in one order. -/
def KeysInOrder (p : Platform) (v w : JsonValue) : Prop :=
  v.Same w → v.defined.Alike (TiesKept p.localeCompare) w.defined

theorem canonicalText_eq_iff (hlocale : KeyPreorder p.localeCompare) (hv : v.defined.Valid)
    (hw : w.defined.Valid) : canonicalText p v.defined = canonicalText p w.defined ↔
      v.defined.Alike (TiesKept p.localeCompare) w.defined := by
  rw [← canonicalize_eq_iff hlocale hv hw]
  exact ⟨eq_of_stringify hv.canonicalize hw.canonicalize, congrArg stringify⟩

/-- **When a hash stands for a request**: exactly when keys that the comparison does not tell apart
come in one order. -/
theorem canonicalHashing_iff (hlocale : KeyPreorder p.localeCompare)
    (hsha256 : Function.Injective p.sha256) (hv : v.defined.Valid) (hw : w.defined.Valid) :
    CanonicalHashing p v w ↔ KeysInOrder p v w := by
  have htext := canonicalText_eq_iff hlocale hv hw
  have hhash : requestHash p v.defined = requestHash p w.defined ↔
      canonicalText p v.defined = canonicalText p w.defined := hsha256.eq_iff
  constructor
  · exact fun h hsame => htext.mp (h.text.mpr hsame)
  · intro h
    have hiff : canonicalText p v.defined = canonicalText p w.defined ↔ v.Same w :=
      htext.trans ⟨fun halike => halike.mono fun _ _ _ => trivial, h⟩
    exact ⟨hiff, hhash.trans hiff⟩

/-! ## Two spellings of a header -/

/-- The canonical decomposition of `é`. -/
def decomposed (text : String) : String :=
  String.ofList (text.toList.flatMap fun c => if c = '\u00E9' then ['e', '\u0301'] else [c])

/-- A platform that compares texts as they are decomposed. -/
def decomposingPlatform : Platform where
  parseDate _ := none
  toLowerCase := String.toLower
  localeCompare a b := decide (decomposed a ≤ decomposed b)
  convertHtml html _ := html
  base64Length _ := none
  sha256 text := text

theorem keyPreorder_decomposing : KeyPreorder decomposingPlatform.localeCompare where
  total a b := by
    simpa [decomposingPlatform] using String.le_total (decomposed a) (decomposed b)
  trans a b c hab hbc := by
    simp only [decomposingPlatform, decide_eq_true_eq] at hab hbc ⊢
    exact String.le_trans hab hbc

/-- The headers of a request, and a member that is undefined. -/
def headersRequest (headers : List (String × String)) : JsonValue :=
  .obj [("scheduled_at", none),
    ("headers", some (.obj (headers.map fun header => (header.1, some (.str header.2)))))]

theorem defined_headersRequest (headers : List (String × String)) :
    (headersRequest headers).defined =
      .obj [("headers", .obj (headers.map fun header => (header.1, .str header.2)))] := by
  have hmembers : JsonValue.definedMembers (headers.map fun header =>
      (header.1, some (.str header.2))) = headers.map fun header => (header.1, .str header.2) := by
    induction headers with
    | nil => rfl
    | cons header headers ih => rw [List.map_cons, JsonValue.definedMembers, ih, List.map_cons]; rfl
  rw [headersRequest, JsonValue.defined, JsonValue.definedMembers, JsonValue.definedMembers,
    JsonValue.defined, hmembers]
  rfl

section Headers

variable {headers headers' : List (String × String)} (hn : (headers.map Prod.fst).Nodup)
include hn

theorem valid_headers : Valid (.obj (headers.map fun header => (header.1, .str header.2))) := by
  refine .obj ?_ fun member hmember => ?_
  · rwa [List.map_map]
  · obtain ⟨header, -, rfl⟩ := List.mem_map.mp hmember
    exact .str header.2

theorem valid_headersRequest : (headersRequest headers).defined.Valid := by
  rw [defined_headersRequest]
  refine .obj (List.nodup_singleton _) fun member hmember => ?_
  obtain rfl := List.mem_singleton.mp hmember
  exact valid_headers hn

theorem same_headersRequest (hperm : headers.Perm headers') :
    (headersRequest headers).Same (headersRequest headers') := by
  rw [JsonValue.Same, defined_headersRequest, defined_headersRequest]
  refine .obj (List.Perm.refl _) trivial fun key a b ha hb => ?_
  obtain ⟨rfl, rfl⟩ := Prod.mk.inj (List.mem_singleton.mp ha)
  obtain ⟨-, rfl⟩ := Prod.mk.inj (List.mem_singleton.mp hb)
  exact EqualUpToOrder.of_perm (valid_headers hn) (hperm.map _)

end Headers

/-- Headers that are told apart, in two orders. -/
theorem canonicalHashing_headers :
    CanonicalHashing decomposingPlatform (headersRequest [("X-B", "1"), ("X-A", "2")])
      (headersRequest [("X-A", "2"), ("X-B", "1")]) := by
  have hv : (headersRequest [("X-B", "1"), ("X-A", "2")]).defined.Valid :=
    valid_headersRequest (by decide)
  have hw : (headersRequest [("X-A", "2"), ("X-B", "1")]).defined.Valid :=
    valid_headersRequest (by decide)
  refine (canonicalHashing_iff keyPreorder_decomposing Function.injective_id hv hw).mpr fun _ => ?_
  exact (canonicalText_eq_iff keyPreorder_decomposing hv hw).mp (by decide +kernel)

/-- **Two orders of two spellings** of a header name have two hashes. -/
theorem equivalent_headers_hash_apart :
    ¬CanonicalHashing decomposingPlatform
      (headersRequest [("X-\u00E9", "1"), ("X-e\u0301", "2")])
      (headersRequest [("X-e\u0301", "2"), ("X-\u00E9", "1")]) := by
  intro h
  have hsame : (headersRequest [("X-\u00E9", "1"), ("X-e\u0301", "2")]).Same
      (headersRequest [("X-e\u0301", "2"), ("X-\u00E9", "1")]) :=
    same_headersRequest (by decide) (List.Perm.swap _ _ [])
  exact absurd (h.text.mpr hsame) (by decide +kernel)

end HayaSend
