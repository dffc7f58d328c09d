import HayaSend.Foundations.OrderedMap
import HayaSend.Foundations.Utf8Decoding
import HayaSend.Services.ReceivedEmails

/-!
# The content of a received email

`structuredContent` keeps the bodies and the headers of a parsed message up to a number of bytes.
`truncateUtf8` encodes a text, keeps the first bytes and reads them again. A limit that falls within
a character leaves a replacement character, which the text does not have there, and a mark of byte
order at the start of the text is not read back. The text is cut cleanly exactly where neither
happens (`truncateUtf8_iff`).
-/

namespace HayaSend

/-! ## truncateUtf8 -/

/-- The mark of byte order. -/
def byteOrderMark : Char := '\uFEFF'

/-- A mark of byte order at the start is left out. -/
def dropMark (cs : List Char) : List Char := if cs.head? = some byteOrderMark then cs.tail else cs

/-- `new TextDecoder().decode(bytes)` -/
def textDecoder (bytes : List UInt8) : String := String.ofList (dropMark (decodeUtf8 bytes))

def truncationMarker : String :=
  "\n[HayaSend: content truncated; use raw.download_url for the complete message]"

/-- `truncateUtf8`: the value, and whether it was truncated. -/
def truncateUtf8 (value : Option String) (limit : ℕ) : Option String × Bool :=
  match value with
  | none => (none, false)
  | some value =>
    let encoded := encodeUtf8 value.toList
    if encoded.length ≤ limit then (some value, false)
    else (some (textDecoder (encoded.take limit) ++ truncationMarker), true)

theorem length_encodeUtf8 (s : String) : (encodeUtf8 s.toList).length = s.utf8ByteSize := by
  have h : (String.ofList s.toList).toByteArray = (encodeUtf8 s.toList).toByteArray :=
    String.toByteArray_ofList
  rw [String.ofList_toList] at h
  rw [String.utf8ByteSize, h, List.size_toByteArray]

theorem truncateUtf8_truncated (value : Option String) (limit : ℕ) :
    (truncateUtf8 value limit).2 = isTruncated value limit := by
  cases value with
  | none => rfl
  | some value =>
    rw [truncateUtf8, isTruncated, Option.any_some, ← length_encodeUtf8]
    split_ifs with hle
    · exact (decide_eq_false hle.not_gt).symm
    · exact (decide_eq_true (not_le.mp hle)).symm

/-! ## structuredContent -/

structure ReceivedEmailContent where
  html : Option String
  text : Option String
  headers : OrderedMap String String
  deriving DecidableEq

/-- The names of headers that are left out. -/
def isUnsafeHeader (key : String) : Bool := ["__proto__", "constructor", "prototype"].contains key

/-- A header, appended to one of its name. -/
def addHeader (headers : OrderedMap String String) (header : String × String) :
    OrderedMap String String :=
  if isUnsafeHeader header.1 then headers
  else
    let value := ((truncateUtf8 (some header.2) maxHeaderValueBytes).1).getD ""
    match (headers.get header.1).filter (· != "") with
    | some present => headers.set header.1 (present ++ ", " ++ value)
    | none => headers.set header.1 value

/-- `structuredContent`; the flag is `contentTruncated`. -/
def structuredContent (email : ParsedEmail) : ReceivedEmailContent × Bool :=
  let perBodyLimit := maxStructuredBodyBytes / 2
  let html := truncateUtf8 email.html perBodyLimit
  let text := truncateUtf8 email.text perBodyLimit
  (⟨html.1, text.1, email.headers.foldl addHeader ∅⟩,
    html.2 || text.2 || email.headers.any fun header =>
      !isUnsafeHeader header.1 && (truncateUtf8 (some header.2) maxHeaderValueBytes).2)

theorem structuredContent_truncated (email : ParsedEmail) :
    (structuredContent email).2 = contentTruncated email := by
  simp only [structuredContent, contentTruncated, truncateUtf8_truncated]
  rfl

theorem truncateUtf8_of_not_truncated {value : Option String} {limit : ℕ}
    (h : (truncateUtf8 value limit).2 = false) : (truncateUtf8 value limit).1 = value := by
  cases value with
  | none => rfl
  | some value =>
    rw [truncateUtf8] at h ⊢
    split_ifs at h ⊢
    rfl

/-- **The flag of a record tells whether a body was cut**: without it, both are stored as they
came. -/
theorem structuredContent_whole {email : ParsedEmail} (h : contentTruncated email = false) :
    (structuredContent email).1.html = email.html ∧
      (structuredContent email).1.text = email.text := by
  rw [← structuredContent_truncated] at h
  simp only [structuredContent, Bool.or_eq_false_iff] at h ⊢
  exact ⟨truncateUtf8_of_not_truncated h.1.1, truncateUtf8_of_not_truncated h.1.2⟩

/-! ## Cuts -/

/-- The value is the text where it fits, and a prefix of it within the limit, with the marker,
where it does not. -/
def CutsCleanly (value : String) (limit : ℕ) (truncated : Option String) : Prop :=
  ((encodeUtf8 value.toList).length ≤ limit → truncated = some value) ∧
    (limit < (encodeUtf8 value.toList).length → ∃ front, front <+: value.toList ∧
      (encodeUtf8 front).length ≤ limit ∧
      truncated = some (String.ofList front ++ truncationMarker))

/-- The text fits, or the limit falls between two characters and what is before it does not start
with a mark of byte order, unless it has nothing else. -/
def HasCleanCut (value : String) (limit : ℕ) : Prop :=
  (encodeUtf8 value.toList).length ≤ limit ∨ ∃ front, front <+: value.toList ∧
    (encodeUtf8 front).length = limit ∧
      (front.head? = some byteOrderMark → ∀ c ∈ front, c = byteOrderMark)

/-- What stays the first part of a text when its first character is gone repeats this character. -/
theorem eq_of_prefix_cons {α : Type*} {a : α} {xs : List α} (h : xs <+: a :: xs) :
    ∀ x ∈ xs, x = a := by
  induction xs with
  | nil => exact fun x hx => absurd hx List.not_mem_nil
  | cons b xs ih =>
    obtain ⟨rfl, htail⟩ := List.cons_prefix_cons.mp h
    exact List.forall_mem_cons.mpr ⟨rfl, ih htail⟩

/-- A first part without its mark is still one exactly when it has nothing else. -/
theorem dropMark_prefix_iff {front cs : List Char} (h : front <+: cs) :
    dropMark front <+: cs ↔
      (front.head? = some byteOrderMark → ∀ c ∈ front, c = byteOrderMark) := by
  rw [dropMark]
  split_ifs with hmark
  · obtain ⟨rest, rfl⟩ : ∃ rest, front = byteOrderMark :: rest :=
      List.head?_eq_some_iff.mp hmark
    rw [List.tail_cons]
    constructor
    · intro htail _
      have hself : rest <+: byteOrderMark :: rest :=
        List.prefix_of_prefix_length_le htail h (Nat.le_succ _)
      exact List.forall_mem_cons.mpr ⟨rfl, eq_of_prefix_cons hself⟩
    · intro hall
      obtain ⟨n, rfl⟩ : ∃ n, rest = List.replicate n byteOrderMark :=
        ⟨_, List.eq_replicate_of_mem (List.forall_mem_cons.mp (hall hmark)).2⟩
      refine List.IsPrefix.trans ?_ h
      rw [← List.replicate_succ, List.replicate_succ']
      exact List.prefix_append _ _
  · exact ⟨fun _ hhead => absurd hhead hmark, fun _ => h⟩

/-- With a replacement character for the rest of one that is cut, a first part is no first part of
the text within the limit. -/
theorem not_prefix_of_cut {front rest : List Char} {c : Char} {k : ℕ}
    (hlt : k < (String.utf8EncodeChar c).length)
    (hlength : (encodeUtf8 (dropMark (front ++ [replacement]))).length ≤
      (encodeUtf8 front).length + k) :
    ¬dropMark (front ++ [replacement]) <+: front ++ c :: rest := by
  intro h
  rw [dropMark] at h hlength
  split_ifs at h hlength with hmark
  · cases front with
    | nil => exact absurd hmark (by decide)
    | cons d front =>
      obtain rfl : d = byteOrderMark := Option.some.inj hmark
      rw [List.cons_append, List.tail_cons] at h
      -- the text starts with the mark and with what followed it: it repeats the mark
      have heq : front ++ [replacement] = byteOrderMark :: front := by
        have hfront : byteOrderMark :: front <+: byteOrderMark :: front ++ c :: rest :=
          List.prefix_append _ _
        exact (List.prefix_of_prefix_length_le h hfront (by simp)).eq_of_length (by simp)
      have hself : front <+: byteOrderMark :: front := ⟨[replacement], heq⟩
      have hmem : replacement ∈ byteOrderMark :: front := by
        rw [← heq]
        simp
      have hmarked : replacement = byteOrderMark := by
        rcases List.mem_cons.mp hmem with hmem | hmem
        · exact hmem
        · exact eq_of_prefix_cons hself _ hmem
      exact absurd hmarked (by decide)
  · have hc : [replacement] <+: c :: rest := (List.prefix_append_right_inj front).mp h
    obtain ⟨rfl, -⟩ := List.cons_prefix_cons.mp hc
    rw [encodeUtf8_append, List.length_append] at hlength
    have hone : (encodeUtf8 [replacement]).length =
        (String.utf8EncodeChar replacement).length := by
      rw [encodeUtf8_cons, List.length_append]
      rfl
    omega

/-- **A text is cut cleanly** exactly where it fits, or the limit falls between two characters and
no mark of byte order is lost. -/
theorem truncateUtf8_iff (value : String) (limit : ℕ) :
    CutsCleanly value limit (truncateUtf8 (some value) limit).1 ↔ HasCleanCut value limit := by
  rcases Nat.lt_or_ge limit (encodeUtf8 value.toList).length with hlt | hle
  · have htruncated : (truncateUtf8 (some value) limit).1 =
        some (textDecoder ((encodeUtf8 value.toList).take limit) ++ truncationMarker) := by
      rw [truncateUtf8, if_neg hlt.not_ge]
    have hcuts : CutsCleanly value limit (truncateUtf8 (some value) limit).1 ↔
        ∃ front, front <+: value.toList ∧ (encodeUtf8 front).length ≤ limit ∧
          dropMark (decodeUtf8 ((encodeUtf8 value.toList).take limit)) = front := by
      rw [htruncated, CutsCleanly, and_iff_right fun hle => absurd hle hlt.not_ge,
        forall_prop_of_true hlt]
      refine exists_congr fun front => and_congr_right fun _ => and_congr_right fun _ => ?_
      rw [Option.some.injEq, textDecoder, String.append_left_inj, String.ofList_inj]
    rw [hcuts]
    obtain ⟨front, rest, hvalue, hlength⟩ | ⟨front, c, rest, k, hvalue, hk, hcut, hlength⟩ :=
      exists_cut hlt.le
    · have hfront : front <+: value.toList := ⟨rest, hvalue.symm⟩
      rw [hvalue, ← hlength, decodeUtf8_take, ← hvalue, hlength]
      constructor
      · rintro ⟨_, hkept, -, rfl⟩
        exact Or.inr ⟨front, hfront, hlength, (dropMark_prefix_iff hfront).mp hkept⟩
      · rintro (hle | ⟨front', hfront', hlength', hmark⟩)
        · exact absurd hle hlt.not_ge
        · obtain rfl := eq_of_encodeUtf8_length hfront hfront' (hlength.trans hlength'.symm)
          refine ⟨_, (dropMark_prefix_iff hfront).mpr hmark, ?_, rfl⟩
          rw [dropMark]
          split_ifs with hhead
          · obtain ⟨tail, rfl⟩ := List.head?_eq_some_iff.mp hhead
            rw [← hlength, encodeUtf8_cons, List.length_append, List.tail_cons]
            exact Nat.le_add_left _ _
          · exact hlength.le
    · rw [hvalue, ← hlength, decodeUtf8_take_cut hk hcut, ← hvalue, hlength]
      refine iff_of_false ?_ ?_
      · rintro ⟨_, hkept, hle, rfl⟩
        rw [hvalue] at hkept
        exact not_prefix_of_cut hcut (hlength ▸ hle) hkept
      · rintro (hle | ⟨front', hfront', hlength', -⟩)
        · exact absurd hle hlt.not_ge
        · rw [hvalue] at hfront'
          exact cut_exclusive hfront' hk hcut (hlength'.trans hlength.symm)
  · refine ⟨fun _ => Or.inl hle, fun _ => ⟨fun _ => ?_, fun hlt => absurd hlt hle.not_gt⟩⟩
    rw [truncateUtf8, if_pos hle]

/-- A limit within the two bytes of the only character. -/
theorem replacement_introduced : (truncateUtf8 (some "é") 1).1 =
      some ("\uFFFD" ++ truncationMarker) ∧
    ¬CutsCleanly "é" 1 (truncateUtf8 (some "é") 1).1 := by
  have htruncated : (truncateUtf8 (some "é") 1).1 = some ("\uFFFD" ++ truncationMarker) := by
    decide +kernel
  refine ⟨htruncated, fun h => ?_⟩
  obtain ⟨front, hfront, hlength, heq⟩ := h.2 (by decide +kernel)
  rw [htruncated, Option.some.injEq, String.append_left_inj] at heq
  have hlist : ['\uFFFD'] = front :=
    (congrArg String.toList heq).trans String.toList_ofList
  rw [← hlist] at hlength
  exact absurd hlength (by decide +kernel)

end HayaSend
