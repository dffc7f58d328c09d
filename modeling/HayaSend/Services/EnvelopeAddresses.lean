import HayaSend.Foundations.AddressLists
import HayaSend.Foundations.Expansions
import HayaSend.Foundations.Segments
import HayaSend.Services.TemplateVersions
import Mathlib.Data.List.TakeWhile

/-!
# Recipients as mailboxes

A recipient is a text; `normalizeEnvelopeAddress` finds an address at its end, and the text itself
is what some transports send. Read as an address list, an accepted text is one mailbox with the
normalized address, up to case, exactly when nothing but a display name stands before an address in
angle brackets (`denotes_one_iff`). The normalizer does not look there.
-/

namespace HayaSend

open AddressLists

/-! ## Lower case -/

/-- What `toLowerCase` makes of a character: ASCII letters become lower-case ones and nothing else
in ASCII changes; outside ASCII a character may become a letter of ASCII, and white space stays. -/
def LowerCases (c : Char) (part : List Char) : Prop :=
  if c.toNat < 128 then part = [c.toLower]
  else part ≠ [] ∧ (∀ d ∈ part, 128 ≤ d.toNat ∨ d.isLower = true) ∧
    (isWhiteSpace c = true → part = [c])

/-- The characters of a local part, but the dot, and those of a label are among these. -/
def isPlainChar (c : Char) : Bool :=
  c.isAlphanum || c == '_' || c == '\'' || c == '+' || c == '-'

theorem forall_ascii {q : Char → Prop} (h : ∀ n < 128, q (Char.ofNat n)) {c : Char}
    (hc : c.toNat < 128) : q c := by
  have hq := h c.toNat hc
  rwa [Char.ofNat_toNat] at hq

theorem toNat_lt_of_isPlainChar {c : Char} (h : isPlainChar c = true) : c.toNat < 128 := by
  simp only [isPlainChar, Bool.or_eq_true, beq_iff_eq] at h
  rcases h with (((h | rfl) | rfl) | rfl) | rfl
  · have := toNat_of_isAlphanum h
    omega
  all_goals decide

theorem not_special_of_not_ascii {c : Char} (h : 128 ≤ c.toNat) : specials.contains c = false := by
  have hall : specials.all (fun d => decide (d.toNat < 128)) = true := by decide
  by_contra hmem
  rw [Bool.not_eq_false, List.contains_iff_mem] at hmem
  have hlt := of_decide_eq_true (List.all_eq_true.mp hall c hmem)
  omega

/-- What becomes plain characters was an atom's. -/
theorem isAtomChar_of_lowerCases {c : Char} {part : List Char} (h : LowerCases c part)
    (hpart : ∀ d ∈ part, isPlainChar d = true) : isAtomChar isWhiteSpace c = true := by
  unfold LowerCases at h
  split_ifs at h with hascii
  · subst h
    have hplain := hpart _ (List.mem_singleton.mpr rfl)
    revert hplain
    exact forall_ascii (q := fun c => isPlainChar c.toLower = true →
      isAtomChar isWhiteSpace c = true) (by decide +kernel) hascii
  · obtain ⟨-, -, hspace⟩ := h
    rw [not_lt] at hascii
    have hwhite : isWhiteSpace c = false := by
      by_contra hwhite
      rw [Bool.not_eq_false] at hwhite
      have hmem : c ∈ part := by
        rw [hspace hwhite]
        exact List.mem_cons_self
      have hlt := toNat_lt_of_isPlainChar (hpart c hmem)
      omega
    simp only [isAtomChar, hwhite, not_special_of_not_ascii hascii, Bool.not_false, Bool.and_true,
      Bool.and_eq_true, decide_eq_true_eq]
    omega

theorem lowerCases_sep {sep : Char} (hsep : sep = '@' ∨ sep = '.') {part : List Char}
    (h : LowerCases sep part) : part = [sep] := by
  rcases hsep with rfl | rfl
  · exact h
  · exact h

theorem not_mem_of_lowerCases {sep : Char} (hsep : sep = '@' ∨ sep = '.') {c : Char}
    {part : List Char} (h : LowerCases c part) (hc : c ≠ sep) : sep ∉ part := by
  unfold LowerCases at h
  split_ifs at h with hascii
  · subst h
    rw [List.mem_singleton]
    revert hc
    rcases hsep with rfl | rfl
    · exact forall_ascii (q := fun c => c ≠ '@' → '@' ≠ c.toLower) (by decide +kernel) hascii
    · exact forall_ascii (q := fun c => c ≠ '.' → '.' ≠ c.toLower) (by decide +kernel) hascii
  · intro hmem
    rcases h.2.1 sep hmem with hlarge | hlower
    · rcases hsep with rfl | rfl <;> exact absurd hlarge (by decide)
    · rcases hsep with rfl | rfl <;> exact absurd hlower (by decide)

/-! ## Addresses -/

/-- A text that becomes plain parts with dots between them. -/
theorem dotAtom_of_expands {cs ds : List Char} (h : Expands LowerCases cs ds)
    (hds : ∀ part ∈ ds.splitOn '.', part ≠ [] ∧ ∀ c ∈ part, isPlainChar c = true) :
    DotAtom isWhiteSpace cs := by
  have hparts := h.splitOn (fun _ => lowerCases_sep (.inr rfl))
    fun _ _ => not_mem_of_lowerCases (.inr rfl)
  intro atom hatom
  obtain ⟨part, hpart, hexpands⟩ := exists_of_forall₂ hparts hatom
  obtain ⟨hne, hplain⟩ := hds part hpart
  exact ⟨hexpands.ne_nil hne,
    hexpands.forall_mem (fun _ _ => isAtomChar_of_lowerCases) hplain⟩

/-- The parts of an address that the schema library accepts. -/
theorem parts_of_isEmailAddress {address : String} (h : isEmailAddress address = true) :
    ∃ localPart domain, address.toList.splitOn '@' = [localPart, domain] ∧
      (∀ part ∈ localPart.splitOn '.', part ≠ [] ∧ ∀ c ∈ part, isPlainChar c = true) ∧
      ∀ part ∈ domain.splitOn '.', part ≠ [] ∧ ∀ c ∈ part, isPlainChar c = true := by
  unfold isEmailAddress at h
  split at h
  · rename_i localPart domain hsplit
    simp only [Bool.and_eq_true, List.all_eq_true] at h
    obtain ⟨⟨⟨⟨hlocal, -⟩, -⟩, hlabels⟩, -⟩ := h
    refine ⟨localPart, domain, hsplit, fun part hpart => ?_, fun part hpart => ?_⟩
    · obtain ⟨hne, hchars⟩ := hlocal part hpart
      exact ⟨by simpa using hne, hchars⟩
    · obtain ⟨hhead, hchars⟩ := hlabels part hpart
      refine ⟨?_, fun c hc => ?_⟩
      · rintro rfl
        cases hhead
      · have hchar := hchars c hc
        rw [Bool.or_eq_true] at hchar
        rcases hchar with halnum | hdash
        · simp [isPlainChar, halnum]
        · simp [isPlainChar, hdash]
  · cases h

/-- What becomes an accepted address is an address. -/
theorem addrSpec_of_expands {cs : List Char} {address : String}
    (h : Expands LowerCases cs address.toList) (haddress : isEmailAddress address = true) :
    AddrSpec isWhiteSpace cs := by
  obtain ⟨localPart, domain, hsplit, hlocal, hdomain⟩ := parts_of_isEmailAddress haddress
  have hparts := h.splitOn (fun _ => lowerCases_sep (.inl rfl))
    fun _ _ => not_mem_of_lowerCases (.inl rfl)
  rw [hsplit] at hparts
  obtain ⟨first, rest, hfirst, hrest, hcs⟩ := List.forall₂_cons_right_iff.mp hparts
  obtain ⟨second, rest', hsecond, hrest', rfl⟩ := List.forall₂_cons_right_iff.mp hrest
  rw [List.forall₂_nil_right_iff] at hrest'
  subst hrest'
  exact ⟨first, second, hcs, dotAtom_of_expands hfirst hlocal, dotAtom_of_expands hsecond hdomain⟩

/-- An address has none of the characters around it. -/
theorem not_mem_of_addrSpec {cs : List Char} (h : AddrSpec isWhiteSpace cs) :
    '<' ∉ cs ∧ '>' ∉ cs ∧ ',' ∉ cs := by
  refine ⟨fun hmem => ?_, fun hmem => ?_, fun hmem => ?_⟩
  all_goals
    have hchar := h.mem hmem
    revert hchar
    decide

/-! ## Recipients -/

/-- What the schema wants of the text of a recipient. -/
def isRecipientText (value : String) : Bool :=
  value != "" && !(value.toList.any fun c => c == '\r' || c == '\n') &&
    decide (utf16Length value ≤ 998)

/-- What stands before an address in angle brackets at the end of a text. -/
def textBefore (inner cs : List Char) : List Char := cs.take (cs.length - (inner.length + 2))

/-- Nothing but a display name stands before an address in angle brackets, and no comma
separates. -/
def namesOneMailbox (value : String) : Bool :=
  match angleAddress (trim value.toList) with
  | none => true
  | some inner => !hasSeparator .plain value.toList &&
      isDisplayName isWhiteSpace (textBefore inner (trim value.toList))

theorem angleAddress_eq_some {cs inner : List Char} (h : angleAddress cs = some inner) :
    cs = textBefore inner cs ++ '<' :: (inner ++ ['>']) ∧ '<' ∉ inner := by
  unfold angleAddress at h
  split at h
  · rename_i before hreverse
    dsimp only at h
    split_ifs at h with hopens
    obtain rfl := Option.some.inj h
    rw [Bool.and_eq_true, beq_iff_eq] at hopens
    obtain ⟨rest, hrest⟩ := List.head?_eq_some_iff.mp hopens.1
    generalize hword : (before.takeWhile fun c => c != '<' && c != '>' && !isWhiteSpace c) = word
      at hrest
    have hbefore : word ++ '<' :: rest = before := by
      rw [← hrest, ← List.prefix_iff_eq_append, ← hword]
      exact List.takeWhile_prefix _
    have hcs : cs = rest.reverse ++ '<' :: (word.reverse ++ ['>']) := by
      rw [← List.reverse_reverse cs, hreverse, ← hbefore]
      simp
    refine ⟨?_, fun hmem => ?_⟩
    · have htext : textBefore word.reverse cs = rest.reverse := by
        have hlength : cs.length - (word.reverse.length + 2) = rest.reverse.length := by
          rw [hcs]
          simp
        rw [textBefore, hlength, hcs, List.take_left]
      rw [htext, ← hcs]
    · rw [List.mem_reverse, ← hword] at hmem
      have hchar := List.mem_takeWhile_imp hmem
      revert hchar
      decide
  · cases h

theorem mem_trim {cs : List Char} {c : Char} (h : c ∈ cs) :
    isWhiteSpace c = true ∨ c ∈ trim cs := by
  have hdrop : ∀ {ds : List Char}, c ∈ ds → isWhiteSpace c = true ∨
      c ∈ ds.dropWhile isWhiteSpace := by
    intro ds hds
    rw [← List.takeWhile_append_dropWhile (p := isWhiteSpace) (l := ds), List.mem_append] at hds
    exact hds.imp_left List.mem_takeWhile_imp
  rcases hdrop h with hspace | h
  · exact Or.inl hspace
  · rw [trim, List.mem_reverse]
    exact hdrop (List.mem_reverse.mpr h)

/-- The address that the normalizer finds, and what it makes of it. -/
theorem normalizeEnvelopeAddress_eq_ok {p : Platform} {value address : String}
    (h : normalizeEnvelopeAddress p value = .ok address) :
    p.toLowerCase (String.ofList ((angleAddress (trim value.toList)).getD (trim value.toList))) =
      address ∧ isEmailAddress address = true := by
  obtain ⟨normalized, hnormalized, h⟩ := bind_eq_ok.mp h
  obtain ⟨_, hvalid, h⟩ := bind_eq_ok.mp h
  rw [pure_eq_ok] at h
  subst h
  rw [throwIf_eq_ok, Bool.not_eq_false', Bool.and_eq_true] at hvalid
  unfold normalizeMailbox at hnormalized
  dsimp only at hnormalized
  split_ifs at hnormalized
  exact ⟨Except.ok.inj hnormalized, hvalid.1⟩

/-- **An accepted recipient denotes one mailbox** with the normalized address exactly when nothing
but a display name stands before an address in angle brackets. -/
theorem denotes_one_iff {p : Platform}
    (hlower : ∀ text : String, Expands LowerCases text.toList (p.toLowerCase text).toList)
    {value address : String} (h : normalizeEnvelopeAddress p value = .ok address) :
    (∃ mailbox, Denotes isWhiteSpace value.toList mailbox ∧
      p.toLowerCase (String.ofList mailbox) = address) ↔ namesOneMailbox value = true := by
  obtain ⟨hfound, hvalid⟩ := normalizeEnvelopeAddress_eq_ok h
  have hspec : AddrSpec isWhiteSpace
      ((angleAddress (trim value.toList)).getD (trim value.toList)) := by
    refine addrSpec_of_expands ?_ hvalid
    have hexpands := hlower (String.ofList
      ((angleAddress (trim value.toList)).getD (trim value.toList)))
    rwa [String.toList_ofList, hfound] at hexpands
  obtain ⟨hopen, hclose, hcomma⟩ := not_mem_of_addrSpec hspec
  unfold namesOneMailbox
  cases hangle : angleAddress (trim value.toList) with
  | none =>
    rw [hangle, Option.getD_none] at hfound hspec hcomma
    refine ⟨fun _ => rfl, fun _ =>
      ⟨trim value.toList, ⟨value.toList, ?_, hspec, Or.inl rfl⟩, hfound⟩⟩
    refine splitAddresses_eq_singleton.mpr ⟨rfl, hasSeparator_eq_false fun hmem => ?_⟩
    rcases mem_trim hmem with hspace | hmem
    · exact absurd hspace (by decide)
    · exact hcomma hmem
  | some inner =>
    rw [hangle, Option.getD_some] at hfound hspec hopen hclose
    obtain ⟨htext, -⟩ := angleAddress_eq_some hangle
    dsimp only
    rw [Bool.and_eq_true, Bool.not_eq_true', isDisplayName_iff]
    constructor
    · rintro ⟨mailbox, ⟨item, hsplit, hmailbox, hitem⟩, -⟩
      obtain ⟨rfl, hseparator⟩ := splitAddresses_eq_singleton.mp hsplit
      refine ⟨hseparator, ?_⟩
      obtain ⟨hopen', hclose', -⟩ := not_mem_of_addrSpec hmailbox
      change trim value.toList = mailbox ∨ ∃ name, DisplayName isWhiteSpace name ∧
        trim value.toList = name ++ '<' :: (mailbox ++ ['>']) at hitem
      rcases hitem with hbare | ⟨name, hname, hitem⟩
      · -- a bare address has no angle bracket
        exact absurd (hbare ▸ htext ▸ by simp) hclose'
      · -- the last angle bracket that opens is the one before the address
        obtain ⟨hbefore, -⟩ := append_sep_inj_right (x := mailbox ++ ['>']) (y := inner ++ ['>'])
          (by simpa using hopen') (by simpa using hopen) (hitem.symm.trans htext)
        rwa [← hbefore]
    · rintro ⟨hseparator, hname⟩
      exact ⟨inner, ⟨value.toList, splitAddresses_eq_singleton.mpr ⟨rfl, hseparator⟩, hspec,
        Or.inr ⟨_, hname, htext⟩⟩, hfound⟩

/-! ## Two mailboxes in one recipient -/

/-- A platform that changes nothing but the letters of ASCII. -/
def lowerCasePlatform : Platform where
  parseDate _ := none
  toLowerCase := String.toLower
  localeCompare a b := decide (a ≤ b)
  convertHtml html _ := html
  base64Length _ := none
  sha256 text := text

theorem lowerCases_toLower (c : Char) : LowerCases c [c.toLower] := by
  unfold LowerCases
  split_ifs with hascii
  · rfl
  · have hsame : c.toLower = c := by
      unfold Char.toLower
      refine dif_neg fun hupper => hascii ?_
      have hhigh : c.val.toNat ≤ 90 := hupper.2
      exact lt_of_le_of_lt hhigh (by decide)
    rw [hsame]
    refine ⟨List.cons_ne_nil _ _, fun d hd => Or.inl ?_, fun _ => rfl⟩
    rw [List.mem_singleton.mp hd]
    exact not_lt.mp hascii

theorem expands_toLower (text : String) :
    Expands LowerCases text.toList (lowerCasePlatform.toLowerCase text).toList := by
  have hexpands : ∀ cs : List Char, Expands LowerCases cs (cs.map Char.toLower) := by
    intro cs
    induction cs with
    | nil => exact .nil
    | cons c cs ih => exact .cons (lowerCases_toLower c) ih
  show Expands LowerCases text.toList (text.map Char.toLower).toList
  rw [String.toList_map]
  exact hexpands _

theorem denotes_one_iff_sample : ∃ mailbox,
    Denotes isWhiteSpace "\"Ada, of (x)\" (a) Lovelace <Ada@x.io> ".toList mailbox ∧
      lowerCasePlatform.toLowerCase (String.ofList mailbox) = "ada@x.io" :=
  (denotes_one_iff expands_toLower (by decide +kernel)).mpr (by decide +kernel)

/-- The text of two mailboxes is accepted as a recipient, under the address of the second. -/
theorem two_mailboxes_accepted : isRecipientText "ada@x.io, Bob <bob@y.io>" = true ∧
    normalizeEnvelopeAddress lowerCasePlatform "ada@x.io, Bob <bob@y.io>" = .ok "bob@y.io" ∧
    ¬ ∃ mailbox, Denotes isWhiteSpace "ada@x.io, Bob <bob@y.io>".toList mailbox := by
  refine ⟨by decide +kernel, by decide +kernel, ?_⟩
  rintro ⟨mailbox, item, hsplit, -⟩
  obtain ⟨-, hnone⟩ := splitAddresses_eq_singleton.mp hsplit
  revert hnone
  decide +kernel

end HayaSend
