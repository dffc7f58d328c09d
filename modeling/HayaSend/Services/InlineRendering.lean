import HayaSend.Foundations.LeftmostMatches
import HayaSend.Services.ReceivedContent
import Mathlib.Data.List.ReduceOption

/-!
# Inline attachments

The HTML of a received email refers to its attachments by content ids. `renderHtml` embeds them as
data URIs, in one pass over the references, when every reference names an attachment and the
attachments are small enough together; otherwise it leaves the HTML as it is. After the pass no
reference is left (`matchReferences_substitute`). The bound is on the attachments, each
counted once, and not on what is embedded: it holds of this exactly where the references, each
counted, keep to it too (`get_inline_iff`).
-/

namespace HayaSend

/-! ## References -/

/-- A match of `/cid:([^"'()<>\s]+)/gi`. -/
structure CidReference where
  original : List Char
  contentId : List Char
  deriving DecidableEq, Repr

/-- `[^"'()<>\s]` -/
def isReferenceChar (c : Char) : Bool := !("\"'()<>".toList.contains c) && !isWhiteSpace c

/-- `cid:`, in either case. -/
def isCidScheme : List Char → Bool
  | [c, i, d, colon] => (c == 'c' || c == 'C') && (i == 'i' || i == 'I') && (d == 'd' || d == 'D') &&
      colon == ':'
  | _ => false

/-- The reference at the beginning of a text, with its length. -/
def findReference (cs : List Char) : Option (CidReference × ℕ) :=
  let contentId := (cs.drop 4).takeWhile isReferenceChar
  if isCidScheme (cs.take 4) ∧ contentId ≠ [] then
    some (⟨cs.take 4 ++ contentId, contentId⟩, 4 + contentId.length)
  else none

/-- `html.matchAll(…)` -/
def matchReferences (html : List Char) : List CidReference :=
  (scan findReference 0 html).filterMap Sum.getRight?

example : matchReferences "<img src=\"CID:a%20b\">cid:'cid:c".toList =
    [⟨"CID:a%20b".toList, "a%20b".toList⟩, ⟨"cid:c".toList, "c".toList⟩] := by decide +kernel

/-- What begins with a reference. -/
theorem findReference_isSome_iff {cs : List Char} : (findReference cs).isSome ↔
    ∃ a b c d rest, cs = a :: b :: c :: ':' :: d :: rest ∧ (a = 'c' ∨ a = 'C') ∧
      (b = 'i' ∨ b = 'I') ∧ (c = 'd' ∨ c = 'D') ∧ isReferenceChar d := by
  rw [findReference]
  constructor
  · intro h
    split_ifs at h with hmatch
    · obtain ⟨hscheme, hid⟩ := hmatch
      match cs, hscheme, hid with
      | a :: b :: c :: x :: rest, hscheme, hid =>
        obtain ⟨⟨⟨ha, hb⟩, hc⟩, rfl⟩ : (((a = 'c' ∨ a = 'C') ∧ (b = 'i' ∨ b = 'I')) ∧
            (c = 'd' ∨ c = 'D')) ∧ x = ':' := by simpa [isCidScheme] using hscheme
        cases rest with
        | nil => exact absurd rfl hid
        | cons d rest =>
          have hd : isReferenceChar d := by
            by_contra hd
            exact hid (List.takeWhile_cons_of_neg hd)
          exact ⟨a, b, c, d, rest, rfl, ha, hb, hc, hd⟩
    · cases h
  · rintro ⟨a, b, c, d, rest, rfl, ha, hb, hc, hd⟩
    have hscheme : isCidScheme (List.take 4 (a :: b :: c :: ':' :: d :: rest)) := by
      simp [isCidScheme, ha, hb, hc]
    have hid : (List.drop 4 (a :: b :: c :: ':' :: d :: rest)).takeWhile isReferenceChar ≠ [] := by
      simp [hd]
    rewrite [if_pos ⟨hscheme, hid⟩]
    rfl

/-- What follows the characters of a kind begins with one of another kind. -/
theorem head_drop_takeWhile {p : Char → Bool} {cs : List Char} :
    ∀ c ∈ (cs.drop (cs.takeWhile p).length).head?, p c = false := by
  induction cs with
  | nil => exact fun c hc => nomatch hc
  | cons d cs ih =>
    by_cases hd : p d = true
    · rw [List.takeWhile_cons_of_pos hd]
      exact ih
    · rw [List.takeWhile_cons_of_neg hd]
      rintro c ⟨⟩
      exact Bool.not_eq_true _ ▸ hd

/-- A reference takes all its characters. -/
theorem head_drop_reference {cs : List Char} {reference : CidReference} {n : ℕ}
    (h : findReference cs = some (reference, n)) :
    0 < n ∧ ∀ c ∈ (cs.drop n).head?, isReferenceChar c = false := by
  rw [findReference] at h
  split_ifs at h
  obtain ⟨-, rfl⟩ := Prod.mk.inj (Option.some.inj h)
  rw [← List.drop_drop]
  exact ⟨Nat.lt_of_lt_of_le (by decide) (Nat.le_add_right 4 _), head_drop_takeWhile⟩

/-! ## Content ids -/

/-- The value of a hexadecimal digit. -/
def hexDigit? (c : Char) : Option ℕ :=
  if '0' ≤ c ∧ c ≤ '9' then some (c.toNat - 48)
  else if 'a' ≤ c ∧ c ≤ 'f' then some (c.toNat - 87)
  else if 'A' ≤ c ∧ c ≤ 'F' then some (c.toNat - 55)
  else none

/-- The characters of escaped bytes, which are to be UTF-8. -/
def unescaped (bytes : List UInt8) : Option (List Char) :=
  if encodeUtf8 (decodeUtf8 bytes) = bytes then some (decodeUtf8 bytes) else none

/-- `decodeURIComponent`, behind a run of escaped bytes; `none` for a `URIError`. -/
def decodeURIComponentFrom (bytes : List UInt8) : List Char → Option (List Char)
  | [] => unescaped bytes
  | '%' :: high :: low :: cs => do
    let byte := UInt8.ofNat (16 * (← hexDigit? high) + (← hexDigit? low))
    decodeURIComponentFrom (bytes ++ [byte]) cs
  | c :: cs =>
    if c = '%' then none
    else do return (← unescaped bytes) ++ c :: (← decodeURIComponentFrom [] cs)

def decodeURIComponent (cs : List Char) : Option (List Char) := decodeURIComponentFrom [] cs

example : decodeURIComponent "a%C3%A9%20".toList = some "aé ".toList := by decide +kernel
example : decodeURIComponent "a%C3".toList = none ∧ decodeURIComponent "%4".toList = none := by
  decide +kernel

def normalizeContentId (p : Platform) (value : List Char) : String :=
  let trimmed := trim value
  let withoutBrackets :=
    if trimmed.head? = some '<' ∧ trimmed.getLast? = some '>' then trimmed.tail.dropLast
    else trimmed
  p.toLowerCase (String.ofList ((decodeURIComponent withoutBrackets).getD withoutBrackets))

/-! ## Data URIs -/

def base64Alphabet : List Char :=
  "ABCDEFGHIJKLMNOPQRSTUVWXYZabcdefghijklmnopqrstuvwxyz0123456789+/".toList

def base64Digit (n : ℕ) : Char := base64Alphabet.getD n '='

def bytesToBase64 : List UInt8 → List Char
  | [] => []
  | [a] => [base64Digit (a.toNat / 4), base64Digit (a.toNat % 4 * 16), '=', '=']
  | [a, b] => [base64Digit (a.toNat / 4), base64Digit (a.toNat % 4 * 16 + b.toNat / 16),
      base64Digit (b.toNat % 16 * 4), '=']
  | a :: b :: c :: bytes => base64Digit (a.toNat / 4) ::
      base64Digit (a.toNat % 4 * 16 + b.toNat / 16) ::
      base64Digit (b.toNat % 16 * 4 + c.toNat / 64) :: base64Digit (c.toNat % 64) ::
      bytesToBase64 bytes

/-- The content of an attachment as a URI. -/
def dataUri (contentType : String) (bytes : List UInt8) : List Char :=
  "data:".toList ++ (safeMimeType contentType).toList ++ ";base64,".toList ++ bytesToBase64 bytes

example : dataUri "image/png" [0x4D, 0x61, 0x6E, 0xFF] =
    "data:image/png;base64,TWFu/w==".toList := by decide +kernel

/-! ## renderHtml -/

inductive HtmlFormat
  | dataUri
  | cid
  deriving DecidableEq, Repr

/-- What the object storage answers. -/
structure InboundObjects (Target : Type) where
  readContent : String → Except Failure ReceivedEmailContent
  readAttachment : String → Except Failure (List UInt8)
  createDownloadTarget : (objectKey filename contentType : String) → Except Failure Target

def maxDataUriAttachmentBytes : ℕ := 2 * 1024 * 1024

/-- The key of an attachment in the maps of `renderHtml`. -/
def ReceivedEmailAttachment.key (p : Platform) (attachment : ReceivedEmailAttachment) : String :=
  normalizeContentId p (attachment.contentId.getD "").toList

/-- The content id that a reference names. -/
def CidReference.key (p : Platform) (reference : CidReference) : String :=
  normalizeContentId p reference.contentId

def attachmentsByContentId (p : Platform) (record : ReceivedEmailRecord) :
    OrderedMap String ReceivedEmailAttachment :=
  .ofList ((record.attachments.filter fun attachment => attachment.contentId.getD "" != "").map
    fun attachment => (attachment.key p, attachment))

/-- `html.replace(…)` -/
def replaceReferences (p : Platform) (dataUris : OrderedMap String (List Char))
    (html : List Char) : List Char :=
  (scan findReference 0 html).flatMap fun piece =>
    match piece with
    | .inl c => [c]
    | .inr reference => (dataUris.get (reference.key p)).getD reference.original

/-- The entry of an attachment in `dataUris`. -/
def dataUriEntry {Target : Type} (p : Platform) (storage : InboundObjects Target)
    (attachment : ReceivedEmailAttachment) : Except Failure (String × List Char) := do
  let bytes ← storage.readAttachment attachment.objectKey
  return (attachment.key p, dataUri attachment.contentType bytes)

def renderHtml {Target : Type} (p : Platform) (storage : InboundObjects Target)
    (html : Option String) (record : ReceivedEmailRecord) (requestedFormat : HtmlFormat) :
    Except Failure (Option String × HtmlFormat) :=
  let text := (html.getD "").toList
  if text = [] ∨ requestedFormat = .cid then .ok (html, .cid)
  else
    let referencedIds := ((matchReferences text).map (·.key p)).eraseDups
    if referencedIds = [] then .ok (html, .dataUri)
    else
      let referencedAttachments := referencedIds.map (attachmentsByContentId p record).get
      if referencedAttachments.any (·.isNone) ∨ maxDataUriAttachmentBytes <
          (referencedAttachments.map fun attachment => attachment.elim 0 (·.size)).sum then
        .ok (html, .cid)
      else do
        let entries ← referencedAttachments.reduceOption.mapM (dataUriEntry p storage)
        return (some (String.ofList (replaceReferences p (.ofList entries) text)), .dataUri)

/-! ## Rewriting the references -/

/-- A text with each of its references rewritten. -/
def substituteReferences (value : CidReference → List Char) (html : List Char) : List Char :=
  (scan findReference 0 html).flatMap (Sum.elim (fun c => [c]) value)

section Substitution

variable {value : CidReference → List Char}

theorem substituteReferences_of_none {c : Char} {cs : List Char}
    (h : findReference (c :: cs) = none) :
    substituteReferences value (c :: cs) = c :: substituteReferences value cs := by
  rw [substituteReferences, scan, h]
  rfl

theorem substituteReferences_of_some {cs : List Char} {reference : CidReference} {n : ℕ}
    (h : findReference cs = some (reference, n)) :
    substituteReferences value cs =
      value reference ++ substituteReferences value (cs.drop n) := by
  cases cs with
  | nil => cases h
  | cons c cs =>
    obtain ⟨m, rfl⟩ := Nat.exists_eq_add_of_lt (head_drop_reference h).1
    rw [substituteReferences, scan, h]
    dsimp only
    rw [scan_drop]
    simp only [Nat.zero_add, Nat.add_sub_cancel, List.drop_succ_cons]
    rfl

/-- A text without references stays as it is. -/
theorem substituteReferences_of_nil {cs : List Char} (h : matchReferences cs = []) :
    substituteReferences value cs = cs := by
  induction cs with
  | nil => rfl
  | cons c cs ih =>
    cases hfind : findReference (c :: cs) with
    | some found =>
      rw [matchReferences, scan, hfind] at h
      cases h
    | none =>
      rw [matchReferences, scan, hfind] at h
      rw [substituteReferences_of_none hfind, ih h]

/-- A data URI has its only colon behind `data`. -/
def IsInert (uri : List Char) : Prop := ∃ rest, uri = "data:".toList ++ rest ∧ ':' ∉ rest

theorem colon_notMem_bytesToBase64 (bytes : List UInt8) : ':' ∉ bytesToBase64 bytes := by
  have hdigit (n : ℕ) : ':' ≠ base64Digit n := by
    rw [base64Digit, List.getD_eq_getElem?_getD]
    cases h : base64Alphabet[n]? with
    | none => decide
    | some c =>
      rintro rfl
      exact absurd (List.mem_of_getElem? h) (by decide)
  induction bytes using bytesToBase64.induct with
  | case1 => exact List.not_mem_nil
  | case2 | case3 => simp [bytesToBase64, hdigit]
  | case4 a b c bytes ih => simp [bytesToBase64, hdigit, ih]

theorem colon_notMem_safeMimeType (value : String) : ':' ∉ (safeMimeType value).toList := by
  rw [safeMimeType]
  split
  · rename_i type subtype hparts
    split_ifs with hvalid
    · have hpart {part : List Char} (h : isMimePart part = true) : ':' ∉ part := by
        cases part with
        | nil => exact List.not_mem_nil
        | cons c cs =>
          obtain ⟨hc, hcs⟩ := Bool.and_eq_true_iff.mp h
          rw [List.mem_cons, not_or]
          refine ⟨?_, fun hmem => absurd (List.all_eq_true.mp hcs _ hmem) (by decide)⟩
          rintro rfl
          exact absurd hc (by decide)
      obtain ⟨htype, hsubtype⟩ := Bool.and_eq_true_iff.mp hvalid
      have hjoin : ['/'].intercalate (value.toList.splitOn '/') = value.toList :=
        List.intercalate_splitOn ..
      rw [← hjoin, hparts]
      simp [hpart htype, hpart hsubtype]
    · decide
  · decide

theorem isInert_dataUri (contentType : String) (bytes : List UInt8) :
    IsInert (dataUri contentType bytes) := by
  refine ⟨(safeMimeType contentType).toList ++ ";base64,".toList ++ bytesToBase64 bytes, ?_, ?_⟩
  · rw [dataUri, List.append_assoc, List.append_assoc, List.append_assoc]
  · simp only [List.mem_append, not_or]
    exact ⟨⟨colon_notMem_safeMimeType contentType, by decide⟩, colon_notMem_bytesToBase64 bytes⟩

variable (hvalue : ∀ reference, IsInert (value reference))
include hvalue

/-- The first character of the result is the first one of the text, or the text begins with a
reference. -/
theorem substituteReferences_eq_cons {cs rest : List Char} {x : Char}
    (h : substituteReferences value cs = x :: rest) :
    (∃ cs', cs = x :: cs' ∧ rest = substituteReferences value cs') ∨
      (x = 'd' ∧ rest.head? = some 'a' ∧ ∃ c cs', cs = c :: cs' ∧ isReferenceChar c) := by
  cases hfind : findReference cs with
  | some found =>
    obtain ⟨a, b, c, d, cs', rfl, ha, -⟩ :=
      findReference_isSome_iff.mp (Option.isSome_of_eq_some hfind)
    obtain ⟨tail, htail, -⟩ := hvalue found.1
    rw [substituteReferences_of_some hfind, htail] at h
    obtain ⟨rfl, rfl⟩ := List.cons.inj h
    refine .inr ⟨rfl, rfl, a, _, rfl, ?_⟩
    rcases ha with rfl | rfl <;> rfl
  | none =>
    cases cs with
    | nil => cases h
    | cons c cs =>
      rw [substituteReferences_of_none hfind] at h
      obtain ⟨rfl, rfl⟩ := List.cons.inj h
      exact .inl ⟨cs, rfl, rfl⟩

/-- A character of the text at which no reference begins stays one. -/
theorem findReference_cons_substitute {c : Char} {cs : List Char}
    (h : findReference (c :: cs) = none) :
    findReference (c :: substituteReferences value cs) = none := by
  by_contra hsome
  obtain ⟨a, i, d, x, rest, heq, ha, hi, hd, hx⟩ :=
    findReference_isSome_iff.mp (Option.isSome_iff_ne_none.mpr hsome)
  obtain ⟨rfl, h₁⟩ := List.cons.inj heq
  -- none of `i`, `d` and the colon comes from a data URI
  obtain ⟨cs₁, rfl, h₂⟩ | ⟨rfl, -⟩ := substituteReferences_eq_cons hvalue h₁
  · obtain ⟨cs₂, rfl, h₃⟩ | ⟨-, hhead, -⟩ := substituteReferences_eq_cons hvalue h₂.symm
    · obtain ⟨cs₃, rfl, h₄⟩ | ⟨hcolon, -⟩ := substituteReferences_eq_cons hvalue h₃.symm
      · -- the text has a character of a content id where the result has one
        obtain ⟨y, cs₄, rfl, hy⟩ : ∃ y cs₄, cs₃ = y :: cs₄ ∧ isReferenceChar y := by
          obtain ⟨cs₄, rfl, -⟩ | ⟨-, -, hy⟩ := substituteReferences_eq_cons hvalue h₄.symm
          · exact ⟨x, cs₄, rfl, hx⟩
          · exact hy
        have hfind := findReference_isSome_iff.mpr ⟨c, i, d, y, cs₄, rfl, ha, hi, hd, hy⟩
        rw [h] at hfind
        cases hfind
      · exact absurd hcolon (by decide)
    · exact absurd (Option.some.inj hhead) (by decide)
  · exact absurd hi (by decide)

omit hvalue in
/-- The characters of a reference behind the first one. -/
theorem getElem?_reference {cs : List Char} (h : findReference cs ≠ none) :
    (∀ j, 0 < j → j ≤ 3 → ∃ c, cs[j]? = some c ∧ isReferenceChar c) ∧ cs[2]? ≠ some 'a' ∧
      cs[3]? = some ':' := by
  obtain ⟨a, b, c, d, rest, rfl, -, hb, hc, -⟩ :=
    findReference_isSome_iff.mp (Option.isSome_iff_ne_none.mpr h)
  refine ⟨fun j hpos hle => ?_, ?_, rfl⟩
  · obtain rfl | rfl | rfl : j = 1 ∨ j = 2 ∨ j = 3 := by omega
    · exact ⟨b, rfl, by rcases hb with rfl | rfl <;> rfl⟩
    · exact ⟨c, rfl, by rcases hc with rfl | rfl <;> rfl⟩
    · exact ⟨':', rfl, rfl⟩
  · rcases hc with rfl | rfl <;> exact fun heq => absurd (Option.some.inj heq) (by decide)

omit hvalue in
/-- No reference begins within a data URI that a character outside content ids follows. -/
theorem findReference_inert_append {uri rest : List Char} (huri : IsInert uri)
    (hrest : ∀ c ∈ rest.head?, isReferenceChar c = false) {k : ℕ} (hk : k < uri.length) :
    findReference ((uri ++ rest).drop k) = none := by
  by_contra hsome
  obtain ⟨hchars, hletter, hcolon⟩ := getElem?_reference hsome
  simp only [List.getElem?_drop] at hchars hletter hcolon
  by_cases hwithin : k + 3 < uri.length
  · -- the colon is the one behind `data`
    obtain ⟨tail, rfl, htail⟩ := huri
    rw [List.getElem?_append_left hwithin] at hcolon
    rw [List.getElem?_append_left (by omega)] at hletter
    obtain rfl | hk : k = 1 ∨ k ≠ 1 := eq_or_ne k 1
    · exact hletter rfl
    · by_cases hshort : k = 0
      · subst hshort
        exact absurd (Option.some.inj hcolon) (by decide)
      · rw [List.getElem?_append_right (show 5 ≤ k + 3 by omega)] at hcolon
        exact htail (List.mem_of_getElem? hcolon)
  · -- the character behind the URI is one of the reference
    obtain ⟨c, hc, href⟩ := hchars (uri.length - k) (by omega) (by omega)
    rw [Nat.add_sub_cancel' hk.le, List.getElem?_append_right le_rfl, Nat.sub_self,
      ← List.head?_eq_getElem?] at hc
    exact Bool.false_ne_true ((hrest c hc).symm.trans href)

omit hvalue in
theorem matchReferences_eq_nil {cs : List Char} (h : ∀ k, findReference (cs.drop k) = none) :
    matchReferences cs = [] := by
  induction cs with
  | nil => rfl
  | cons c cs ih =>
    have hhead : findReference (c :: cs) = none := h 0
    rw [matchReferences, scan, hhead]
    exact ih fun k => h (k + 1)

/-- **No reference is left** when every reference becomes a data URI. -/
theorem matchReferences_substitute (cs : List Char) :
    matchReferences (substituteReferences value cs) = [] := by
  refine matchReferences_eq_nil ?_
  induction hn : cs.length using Nat.strongRecOn generalizing cs with
  | ind n ih =>
    intro k
    cases hfind : findReference cs with
    | some found =>
      obtain ⟨hpos, hrest⟩ := head_drop_reference hfind
      rw [substituteReferences_of_some hfind]
      by_cases hk : k < (value found.1).length
      · refine findReference_inert_append (hvalue found.1) (fun c hc => ?_) hk
        obtain ⟨after, hafter⟩ := List.head?_eq_some_iff.mp hc
        obtain ⟨cs', hcs, -⟩ | ⟨-, -, d, cs', hcs, hd⟩ := substituteReferences_eq_cons hvalue hafter
        · exact hrest c (by rw [hcs]; rfl)
        · exact absurd ((hrest d (by rw [hcs]; rfl)).symm.trans hd) Bool.false_ne_true
      · have hlt : (cs.drop found.2).length < n := by
          rw [List.length_drop]
          cases cs with
          | nil => cases hfind
          | cons c cs =>
            rw [List.length_cons] at hn ⊢
            omega
        rw [List.drop_append, List.drop_eq_nil_of_le (not_lt.mp hk), List.nil_append]
        exact ih _ hlt _ rfl _
    | none =>
      cases cs with
      | nil =>
        rw [show substituteReferences value [] = [] from rfl, List.drop_nil]
        exact hfind
      | cons c cs =>
        rw [List.length_cons] at hn
        rw [substituteReferences_of_none hfind]
        cases k with
        | zero => exact findReference_cons_substitute hvalue hfind
        | succ k => exact ih cs.length (by omega) cs rfl k

end Substitution

/-! ## get -/

/-- `publicAttachment` -/
structure PublicReceivedEmailAttachment where
  id : String
  filename : String
  size : ℕ
  contentType : String
  contentDisposition : Option String
  contentId : Option String
  deriving DecidableEq, Repr

/-- What `get` returns, the `object` apart. -/
structure ReceivedEmailView (Target : Type) where
  id : String
  to_ : List String
  receivedFor : List String
  from_ : String
  createdAt : String
  subject : String
  bcc : List String
  cc : List String
  replyTo : List String
  messageId : String
  attachments : List PublicReceivedEmailAttachment
  contentTruncated : Bool
  html : Option String
  text : Option String
  headers : OrderedMap String String
  htmlFormat : HtmlFormat
  raw : Target

def publicAttachment (attachment : ReceivedEmailAttachment) : PublicReceivedEmailAttachment :=
  { id := attachment.id, filename := attachment.filename, size := attachment.size
    contentType := attachment.contentType, contentDisposition := attachment.contentDisposition
    contentId := attachment.contentId }

/-- `getRecord`, at the time `now`. -/
def getReceivedRecord (p : Platform) (records : OrderedMap String ReceivedEmailRecord) (now : ℕ)
    (id : String) : Except Failure ReceivedEmailRecord :=
  match records.get id with
  | none => .error (.notFound "Received email")
  | some record =>
    if (p.parseDate record.expiresAt).any (· ≤ now) then .error (.notFound "Received email")
    else .ok record

/-- `ReceivedEmailService.get` -/
def getReceivedEmail {Target : Type} (p : Platform) (storage : InboundObjects Target)
    (records : OrderedMap String ReceivedEmailRecord) (now : ℕ) (id : String)
    (requestedHtmlFormat : HtmlFormat := .dataUri) : Except Failure (ReceivedEmailView Target) := do
  let record ← getReceivedRecord p records now id
  let content ← storage.readContent record.contentObjectKey
  let raw ← storage.createDownloadTarget record.rawObjectKey (record.id ++ ".eml") "message/rfc822"
  let rendered ← renderHtml p storage content.html record requestedHtmlFormat
  return {
    id := record.id
    to_ := record.to_
    receivedFor := record.receivedFor
    from_ := record.from_
    createdAt := record.createdAt
    subject := record.subject
    bcc := record.bcc
    cc := record.cc
    replyTo := record.replyTo
    messageId := record.messageId
    attachments := record.attachments.map publicAttachment
    contentTruncated := record.contentTruncated
    html := rendered.1
    text := content.text
    headers := content.headers
    htmlFormat := rendered.2
    raw := raw }

/-! ## What get embeds -/

section Embedding

variable {Target : Type} {p : Platform} {storage : InboundObjects Target}
  {record : ReceivedEmailRecord}

/-- The attachment that a reference names. -/
def namedAttachment (p : Platform) (record : ReceivedEmailRecord) (reference : CidReference) :
    Option ReceivedEmailAttachment :=
  (attachmentsByContentId p record).get (reference.key p)

/-- The bytes that stand for a reference when it is embedded. -/
def referenceBytes (p : Platform) (storage : InboundObjects Target) (record : ReceivedEmailRecord)
    (reference : CidReference) : List UInt8 :=
  ((namedAttachment p record reference).bind fun attachment =>
    (storage.readAttachment attachment.objectKey).toOption).getD []

/-- The bytes embedded for all references of a text. -/
def embeddedBytes (p : Platform) (storage : InboundObjects Target) (record : ReceivedEmailRecord)
    (html : List Char) : ℕ :=
  ((matchReferences html).map fun reference =>
    (referenceBytes p storage record reference).length).sum

/-- What stands for a reference when it is embedded. -/
def referenceUri (p : Platform) (storage : InboundObjects Target) (record : ReceivedEmailRecord)
    (reference : CidReference) : List Char :=
  dataUri (((namedAttachment p record reference).map (·.contentType)).getD "")
    (referenceBytes p storage record reference)

/-- What was rendered: with every reference embedded, none left and at most so many bytes in all, or
as it was. -/
def RenderedInline (p : Platform) (storage : InboundObjects Target) (record : ReceivedEmailRecord)
    (html rendered : Option String) (format requested : HtmlFormat) : Prop :=
  (format = .dataUri ∧ requested = .dataUri ∧
      (rendered.getD "").toList =
        substituteReferences (referenceUri p storage record) (html.getD "").toList ∧
      matchReferences (rendered.getD "").toList = [] ∧
      embeddedBytes p storage record (html.getD "").toList ≤ maxDataUriAttachmentBytes) ∨
    (format = .cid ∧ rendered = html)

/-- The attachments are as large as their objects. -/
def SizesStored (storage : InboundObjects Target) (record : ReceivedEmailRecord) : Prop :=
  ∀ attachment ∈ record.attachments, ∀ bytes,
    storage.readAttachment attachment.objectKey = .ok bytes → bytes.length = attachment.size

/-- The size of the attachment of a content id. -/
def namedSize (p : Platform) (record : ReceivedEmailRecord) (contentId : String) : ℕ :=
  ((attachmentsByContentId p record).get contentId).elim 0 (·.size)

/-- Where data URIs are asked for, every reference names an attachment and the attachments, each
counted once, keep to the bound, they keep to it when each is counted for every reference. -/
def RepeatsFit (p : Platform) (record : ReceivedEmailRecord) (html : Option String)
    (requested : HtmlFormat) : Prop :=
  let ids := (matchReferences (html.getD "").toList).map (·.key p)
  requested = .dataUri → (∀ id ∈ ids, (attachmentsByContentId p record).get id ≠ none) →
    (ids.eraseDups.map (namedSize p record)).sum ≤ maxDataUriAttachmentBytes →
    (ids.map (namedSize p record)).sum ≤ maxDataUriAttachmentBytes

theorem key_of_get {contentId : String} {attachment : ReceivedEmailAttachment}
    (h : (attachmentsByContentId p record).get contentId = some attachment) :
    attachment ∈ record.attachments ∧ attachment.key p = contentId := by
  obtain ⟨found, hfound, heq⟩ := List.mem_map.mp (OrderedMap.mem_of_get_ofList h)
  obtain ⟨rfl, rfl⟩ := Prod.mk.inj heq
  exact ⟨List.mem_of_mem_filter hfound, rfl⟩

theorem getReceivedRecord_eq_ok {records : OrderedMap String ReceivedEmailRecord} {now : ℕ}
    {id : String} {found : ReceivedEmailRecord}
    (h : getReceivedRecord p records now id = .ok found) (hrecord : records.get id = some record) :
    found = record := by
  rw [getReceivedRecord, hrecord] at h
  dsimp only at h
  split_ifs at h
  exact (Except.ok.inj h).symm

/-- What is embedded is as large as the attachments of the references. -/
theorem embeddedBytes_eq (hsizes : SizesStored storage record) {html : List Char}
    (hread : ∀ reference ∈ matchReferences html, ∃ attachment bytes,
      namedAttachment p record reference = some attachment ∧
        storage.readAttachment attachment.objectKey = .ok bytes) :
    embeddedBytes p storage record html =
      (((matchReferences html).map (·.key p)).map (namedSize p record)).sum := by
  rw [embeddedBytes, List.map_map]
  congr 1
  refine List.map_congr_left fun reference href => ?_
  obtain ⟨attachment, bytes, hnamed, hbytes⟩ := hread reference href
  rw [Function.comp_apply, namedSize, ← namedAttachment, hnamed, Option.elim_some,
    ← hsizes attachment (key_of_get hnamed).1 bytes hbytes, referenceBytes, hnamed,
    Option.bind_some, hbytes]
  rfl

/-- The content ids that a text refers to. -/
def referencedKeys (p : Platform) (html : Option String) : List String :=
  (matchReferences (html.getD "").toList).map (·.key p)

theorem map_key_of_map_get {ids : List String} {attachments : List ReceivedEmailAttachment}
    (h : ids.map (attachmentsByContentId p record).get = attachments.map some) :
    attachments.map (·.key p) = ids := by
  induction ids generalizing attachments with
  | nil =>
    obtain rfl := List.map_eq_nil_iff.mp h.symm
    rfl
  | cons id ids ih =>
    obtain ⟨attachment, rest, rfl, hget, hrest⟩ := List.map_eq_cons_iff.mp h.symm
    rw [List.map_cons, (key_of_get hget.symm).2, ih hrest.symm]

theorem map_fst_dataUriEntries {attachments : List ReceivedEmailAttachment}
    {entries : List (String × List Char)}
    (h : attachments.mapM (dataUriEntry p storage) = .ok entries) :
    entries.map Prod.fst = attachments.map (·.key p) := by
  have hrows := mapM_eq_ok.mp h
  clear h
  induction hrows with
  | nil => rfl
  | cons hentry _ ih =>
    obtain ⟨bytes, -, hentry⟩ := bind_eq_ok.mp hentry
    obtain rfl := (pure_eq_ok _ _).mp hentry
    rw [List.map_cons, List.map_cons, ih]

/-- The entries of the attachments of some content ids. -/
theorem get_dataUris {ids : List String} (hnodup : ids.Nodup)
    (hnamed : ∀ id ∈ ids, (attachmentsByContentId p record).get id ≠ none)
    {entries : List (String × List Char)}
    (hentries : ((ids.map (attachmentsByContentId p record).get).reduceOption).mapM
      (dataUriEntry p storage) = .ok entries) :
    ∀ id ∈ ids, ∃ attachment bytes, (attachmentsByContentId p record).get id = some attachment ∧
      storage.readAttachment attachment.objectKey = .ok bytes ∧
      (OrderedMap.ofList entries).get id = some (dataUri attachment.contentType bytes) := by
  obtain ⟨attachments, hall⟩ := (attachmentsByContentId p record).exists_map_get
    fun id hid => Option.ne_none_iff_exists'.mp (hnamed id hid)
  have hreduce : (attachments.map some).reduceOption = attachments := by
    rw [List.reduceOption, List.filterMap_map]
    exact List.filterMap_some
  rw [hall, hreduce] at hentries
  have hkeys : (entries.map Prod.fst).Nodup := by
    rw [map_fst_dataUriEntries hentries, map_key_of_map_get hall]
    exact hnodup
  intro id hid
  obtain ⟨attachment, hget⟩ := Option.ne_none_iff_exists'.mp (hnamed id hid)
  have hmem : attachment ∈ attachments := by
    have hmap := List.mem_map_of_mem (f := (attachmentsByContentId p record).get) hid
    rw [hall, hget] at hmap
    simpa using hmap
  obtain ⟨hread, rfl⟩ := mapM_eq_ok_filterMap.mp hentries
  obtain ⟨entry, hrow⟩ := hread attachment hmem
  obtain ⟨bytes, hbytes, hentry⟩ := bind_eq_ok.mp hrow
  obtain rfl := (pure_eq_ok _ _).mp hentry
  refine ⟨attachment, bytes, hget, hbytes, OrderedMap.get_ofList_of_mem hkeys ?_⟩
  rw [← (key_of_get hget).2]
  exact List.mem_filterMap.mpr ⟨attachment, hmem, toOption_eq_some.mpr hrow⟩

/-- With the data URIs of the attachments, every reference is embedded. -/
theorem replaceReferences_eq {dataUris : OrderedMap String (List Char)} {html : List Char}
    (h : ∀ reference ∈ matchReferences html, ∃ attachment bytes,
      namedAttachment p record reference = some attachment ∧
      storage.readAttachment attachment.objectKey = .ok bytes ∧
      dataUris.get (reference.key p) = some (dataUri attachment.contentType bytes)) :
    replaceReferences p dataUris html =
      substituteReferences (referenceUri p storage record) html := by
  refine List.flatMap_congr fun piece hpiece => ?_
  cases piece with
  | inl c => rfl
  | inr reference =>
    obtain ⟨attachment, bytes, hnamed, hbytes, hget⟩ :=
      h reference (List.mem_filterMap.mpr ⟨_, hpiece, rfl⟩)
    dsimp only [Sum.elim_inr]
    rw [referenceUri, referenceBytes, hget, hnamed, Option.bind_some, hbytes]
    rfl

theorem eq_dataUri_of_ne_cid {format : HtmlFormat} (h : format ≠ .cid) : format = .dataUri := by
  cases format with
  | dataUri => rfl
  | cid => exact absurd rfl h

/-- What `renderHtml` answers. -/
theorem renderHtml_eq_ok {html rendered : Option String} {format requested : HtmlFormat}
    (h : renderHtml p storage html record requested = .ok (rendered, format)) :
    (format = .cid ∧ rendered = html ∧ (requested = .dataUri →
      (∀ id ∈ referencedKeys p html, (attachmentsByContentId p record).get id ≠ none) →
      ((referencedKeys p html).eraseDups.map (namedSize p record)).sum ≤
        maxDataUriAttachmentBytes → referencedKeys p html = [])) ∨
    (format = .dataUri ∧ requested = .dataUri ∧
      (∀ id ∈ referencedKeys p html, (attachmentsByContentId p record).get id ≠ none) ∧
      ((referencedKeys p html).eraseDups.map (namedSize p record)).sum ≤
        maxDataUriAttachmentBytes ∧
      (∀ reference ∈ matchReferences (html.getD "").toList, ∃ attachment bytes,
        namedAttachment p record reference = some attachment ∧
          storage.readAttachment attachment.objectKey = .ok bytes) ∧
      (rendered.getD "").toList =
        substituteReferences (referenceUri p storage record) (html.getD "").toList) := by
  rw [renderHtml] at h
  dsimp only at h
  split_ifs at h with hempty hnone hlarge
  · obtain ⟨rfl, rfl⟩ := Prod.mk.inj (Except.ok.inj h)
    refine .inl ⟨rfl, rfl, fun hrequested _ _ => ?_⟩
    rcases hempty with hempty | hcid
    · rw [referencedKeys, hempty]
      rfl
    · rw [hcid] at hrequested
      cases hrequested
  · -- nothing to embed
    have hrequested := eq_dataUri_of_ne_cid (not_or.mp hempty).2
    obtain ⟨rfl, rfl⟩ := Prod.mk.inj (Except.ok.inj h)
    have hmatches : matchReferences (html.getD "").toList = [] :=
      List.eq_nil_iff_forall_not_mem.mpr fun reference href => List.not_mem_nil
        (hnone ▸ List.mem_eraseDups.mpr (List.mem_map_of_mem href))
    rw [referencedKeys, hmatches]
    exact .inr ⟨rfl, hrequested, fun id hid => absurd hid List.not_mem_nil, Nat.zero_le _,
      fun reference href => absurd href List.not_mem_nil,
      (substituteReferences_of_nil hmatches).symm⟩
  · obtain ⟨rfl, rfl⟩ := Prod.mk.inj (Except.ok.inj h)
    refine .inl ⟨rfl, rfl, fun _ hnamed hfit => ?_⟩
    rcases hlarge with hmissing | hlarge
    · obtain ⟨found, hfound, hnone⟩ := List.any_eq_true.mp hmissing
      obtain ⟨id, hid, rfl⟩ := List.mem_map.mp hfound
      exact absurd (Option.isNone_iff_eq_none.mp hnone) (hnamed id (List.mem_eraseDups.mp hid))
    · rw [List.map_map] at hlarge
      exact absurd hfit hlarge.not_ge
  · have hrequested := eq_dataUri_of_ne_cid (not_or.mp hempty).2
    obtain ⟨entries, hentries, h⟩ := bind_eq_ok.mp h
    obtain ⟨rfl, rfl⟩ := Prod.mk.inj ((pure_eq_ok _ _).mp h)
    obtain ⟨hmissing, hfit⟩ := not_or.mp hlarge
    have hnamed : ∀ id ∈ referencedKeys p html,
        (attachmentsByContentId p record).get id ≠ none := by
      intro id hid hget
      refine hmissing (List.any_eq_true.mpr ⟨none, ?_, rfl⟩)
      exact List.mem_map.mpr ⟨id, List.mem_eraseDups.mpr hid, hget⟩
    have hget := get_dataUris (nodup_eraseDups _)
      (fun id hid => hnamed id (List.mem_eraseDups.mp hid)) hentries
    have hreference (reference) (href : reference ∈ matchReferences (html.getD "").toList) :=
      hget (reference.key p) (List.mem_eraseDups.mpr (List.mem_map_of_mem href))
    refine .inr ⟨rfl, hrequested, hnamed, ?_, ?_, ?_⟩
    · rw [List.map_map] at hfit
      exact not_lt.mp hfit
    · intro reference href
      obtain ⟨attachment, bytes, hnamed, hbytes, -⟩ := hreference reference href
      exact ⟨attachment, bytes, hnamed, hbytes⟩
    · rw [Option.getD_some, String.toList_ofList]
      exact replaceReferences_eq hreference

/-- **What is embedded keeps to the bound** exactly where the references do. -/
theorem renderedInline_iff (hsizes : SizesStored storage record) {html rendered : Option String}
    {format requested : HtmlFormat}
    (h : renderHtml p storage html record requested = .ok (rendered, format)) :
    RenderedInline p storage record html rendered format requested ↔
      RepeatsFit p record html requested := by
  obtain ⟨rfl, rfl, hnothing⟩ | ⟨rfl, rfl, hnamed, hfit, hread, hrewritten⟩ :=
    renderHtml_eq_ok h
  · refine iff_of_true (.inr ⟨rfl, rfl⟩) fun hrequested hnamed hfit => ?_
    have hempty := hnothing hrequested hnamed hfit
    rw [referencedKeys] at hempty
    rw [hempty]
    exact Nat.zero_le _
  · rw [RenderedInline, embeddedBytes_eq hsizes hread]
    constructor
    · rintro (⟨-, -, -, -, hbound⟩ | ⟨hcid, -⟩) _ _ _
      · exact hbound
      · cases hcid
    · refine fun hrepeats => .inl ⟨rfl, rfl, hrewritten, ?_, hrepeats rfl hnamed hfit⟩
      rw [hrewritten]
      exact matchReferences_substitute (fun _ => isInert_dataUri _ _) _

/-- `renderHtml` returns when the storage has the attachments. -/
theorem exists_renderHtml (html : Option String) (requested : HtmlFormat)
    (hread : ∀ attachment ∈ record.attachments, ∃ bytes,
      storage.readAttachment attachment.objectKey = .ok bytes) :
    ∃ result, renderHtml p storage html record requested = .ok result := by
  rw [renderHtml]
  dsimp only
  split_ifs
  · exact ⟨_, rfl⟩
  · exact ⟨_, rfl⟩
  · exact ⟨_, rfl⟩
  · refine ⟨_, bind_eq_ok.mpr ⟨_, mapM_eq_ok_filterMap.mpr ⟨fun attachment hmem => ?_, rfl⟩, rfl⟩⟩
    obtain ⟨id, -, hget⟩ := List.mem_map.mp (List.reduceOption_mem_iff.mp hmem)
    obtain ⟨bytes, hbytes⟩ := hread attachment (key_of_get hget).1
    exact ⟨_, bind_eq_ok.mpr ⟨bytes, hbytes, rfl⟩⟩

/-- **The inline rendering of a received email**: what `get` returns for data URIs has no reference
left, and embeds at most so many bytes exactly where the attachments keep to the bound when each is
counted for every reference. -/
theorem get_inline_iff {records : OrderedMap String ReceivedEmailRecord} {now : ℕ} {id : String}
    {requested : HtmlFormat} {email : ReceivedEmailView Target} {content : ReceivedEmailContent}
    (hrecord : records.get id = some record)
    (hcontent : storage.readContent record.contentObjectKey = .ok content)
    (hsizes : SizesStored storage record)
    (h : getReceivedEmail p storage records now id requested = .ok email) :
    RenderedInline p storage record content.html email.html email.htmlFormat requested ↔
      RepeatsFit p record content.html requested := by
  obtain ⟨found, hfound, h⟩ := bind_eq_ok.mp h
  obtain ⟨read, hread, h⟩ := bind_eq_ok.mp h
  obtain ⟨raw, -, h⟩ := bind_eq_ok.mp h
  obtain ⟨⟨rendered, format⟩, hrendered, h⟩ := bind_eq_ok.mp h
  obtain rfl := (pure_eq_ok _ _).mp h
  obtain rfl := getReceivedRecord_eq_ok hfound hrecord
  obtain rfl := Except.ok.inj (hcontent.symm.trans hread)
  exact renderedInline_iff hsizes hrendered

end Embedding

/-! ## A picture that is shown twice -/

def picture (size : ℕ) : ReceivedEmailAttachment :=
  { id := "att_1", filename := "a.png", size := size, contentType := "image/png"
    contentDisposition := some "inline", contentId := some "<a>"
    objectKey := "inbound/attachments/recv_1/att_1" }

def pictureEmail (size : ℕ) : ReceivedEmailRecord :=
  { id := "recv_1", providerMessageId := "m1", messageId := "m1", from_ := "a@example.com"
    to_ := ["b@example.com"], receivedFor := ["b@example.com"], bcc := [], cc := [], replyTo := []
    subject := "", createdAt := "2030-01-01T00:00:00.000Z", rawObjectKey := "inbound/raw/m1"
    contentObjectKey := "inbound/content/recv_1.json", attachments := [picture size]
    contentTruncated := false, expiresAt := "2030-01-31T00:00:00.000Z" }

/-- An email with a picture of this size that shows it twice. -/
def repeatedHtml : String := "<img src=\"cid:a\"><img src=\"CID:%61\">"

/-- Its storage; a download target is a key. -/
def pictureStorage (size : ℕ) : InboundObjects String where
  readContent _ := .ok { html := some repeatedHtml, text := none, headers := ∅ }
  readAttachment _ := .ok (List.replicate size 0)
  createDownloadTarget objectKey _ _ := .ok objectKey

theorem sizesStored_picture (size : ℕ) :
    SizesStored (pictureStorage size) (pictureEmail size) := by
  intro attachment hmem bytes hbytes
  obtain rfl := List.mem_singleton.mp hmem
  obtain rfl := Except.ok.inj hbytes
  exact List.length_replicate

/-- A platform that reads no dates. -/
def datelessPlatform : Platform where
  parseDate _ := none
  toLowerCase := String.toLower
  localeCompare a b := decide (a ≤ b)
  convertHtml html _ := html
  base64Length _ := none
  sha256 text := text

def pictureRecords (size : ℕ) : OrderedMap String ReceivedEmailRecord :=
  .ofList [("recv_1", pictureEmail size)]

theorem getReceivedRecord_picture (size : ℕ) :
    getReceivedRecord datelessPlatform (pictureRecords size) 0 "recv_1" = .ok (pictureEmail size) :=
  rfl

theorem getReceivedEmail_picture (size : ℕ) : ∃ email,
    getReceivedEmail datelessPlatform (pictureStorage size) (pictureRecords size) 0 "recv_1" =
      .ok email ∧
    renderHtml datelessPlatform (pictureStorage size) (some repeatedHtml) (pictureEmail size)
      .dataUri = .ok (email.html, email.htmlFormat) := by
  have hread : ∀ attachment ∈ (pictureEmail size).attachments, ∃ bytes,
      (pictureStorage size).readAttachment attachment.objectKey = .ok bytes := fun _ _ => ⟨_, rfl⟩
  obtain ⟨⟨rendered, format⟩, hrendered⟩ := exists_renderHtml (some repeatedHtml) .dataUri hread
  exact ⟨_, bind_eq_ok.mpr ⟨_, getReceivedRecord_picture size, bind_eq_ok.mpr ⟨_, rfl,
    bind_eq_ok.mpr ⟨_, rfl, bind_eq_ok.mpr ⟨_, hrendered, rfl⟩⟩⟩⟩, hrendered⟩

/-- A picture of 1.5 MiB, shown twice, is embedded with 3 MiB. -/
theorem repeated_picture_exceeds : ∃ email,
    getReceivedEmail datelessPlatform (pictureStorage 1572864) (pictureRecords 1572864) 0 "recv_1" =
      .ok email ∧
    ¬RenderedInline datelessPlatform (pictureStorage 1572864) (pictureEmail 1572864)
      (some repeatedHtml) email.html email.htmlFormat .dataUri := by
  obtain ⟨email, hemail, hrendered⟩ := getReceivedEmail_picture 1572864
  refine ⟨email, hemail, fun h => ?_⟩
  have hfit := (renderedInline_iff (sizesStored_picture 1572864) hrendered).mp h
  revert hfit
  rw [RepeatsFit]
  decide +kernel

/-- One of 0.5 MiB keeps to the bound. -/
theorem get_inline_picture : ∃ email,
    getReceivedEmail datelessPlatform (pictureStorage 524288) (pictureRecords 524288) 0 "recv_1" =
      .ok email ∧
    RenderedInline datelessPlatform (pictureStorage 524288) (pictureEmail 524288)
      (some repeatedHtml) email.html email.htmlFormat .dataUri := by
  obtain ⟨email, hemail, -⟩ := getReceivedEmail_picture 524288
  have hrecord : (pictureRecords 524288).get "recv_1" = some (pictureEmail 524288) := rfl
  have hfit : RepeatsFit datelessPlatform (pictureEmail 524288) (some repeatedHtml) .dataUri := by
    rw [RepeatsFit]
    decide +kernel
  have hcontent : (pictureStorage 524288).readContent (pictureEmail 524288).contentObjectKey =
      .ok { html := some repeatedHtml, text := none, headers := ∅ } := rfl
  exact ⟨email, hemail,
    (get_inline_iff hrecord hcontent (sizesStored_picture _) hemail).mpr hfit⟩

end HayaSend
