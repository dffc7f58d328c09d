import HayaSend.Foundations.PrefixCodes

/-!
# Reading UTF-8

The decoder of the Encoding Standard, which never fails: a byte that cannot stand where it stands,
and a text that ends within a character, are read as a replacement character. It reads the encoding
of a text as the text, and the first bytes of one as the characters that are whole, with a
replacement character for one that is cut (`decodeUtf8_take`, `decodeUtf8_take_cut`).
-/

namespace HayaSend

/-- Within a character: how many bytes are to come, what was read, and the range of the next one. -/
structure Utf8State where
  needed : ℕ := 0
  codePoint : ℕ := 0
  lower : ℕ := 0x80
  upper : ℕ := 0xBF
  deriving DecidableEq, Repr

/-- The replacement character. -/
def replacement : Char := '\uFFFD'

/-- The first byte of a character. -/
def Utf8State.first (b : ℕ) : Option Char × Utf8State :=
  if b ≤ 0x7F then (some (Char.ofNat b), {})
  else if 0xC2 ≤ b ∧ b ≤ 0xDF then (none, { needed := 1, codePoint := b % 0x20 })
  else if 0xE0 ≤ b ∧ b ≤ 0xEF then (none, {
    needed := 2
    codePoint := b % 0x10
    lower := if b = 0xE0 then 0xA0 else 0x80
    upper := if b = 0xED then 0x9F else 0xBF })
  else if 0xF0 ≤ b ∧ b ≤ 0xF4 then (none, {
    needed := 3
    codePoint := b % 0x08
    lower := if b = 0xF0 then 0x90 else 0x80
    upper := if b = 0xF4 then 0x8F else 0xBF })
  else (some replacement, {})

/-- The bytes from this state on. -/
def decodeUtf8From : Utf8State → List UInt8 → List Char
  | st, [] => if st.needed = 0 then [] else [replacement]
  | st, b :: bs =>
    let start := Utf8State.first b.toNat
    if st.needed = 0 then start.1.toList ++ decodeUtf8From start.2 bs
    else if st.lower ≤ b.toNat ∧ b.toNat ≤ st.upper then
      let codePoint := st.codePoint * 64 + b.toNat % 64
      if st.needed = 1 then Char.ofNat codePoint :: decodeUtf8From {} bs
      else decodeUtf8From { needed := st.needed - 1, codePoint := codePoint } bs
    -- the byte is read again, as a first one
    else replacement :: (start.1.toList ++ decodeUtf8From start.2 bs)

def decodeUtf8 (bytes : List UInt8) : List Char := decodeUtf8From {} bytes

def encodeUtf8 (cs : List Char) : List UInt8 := cs.flatMap String.utf8EncodeChar

example : decodeUtf8 [0x61, 0xC3, 0xA9, 0xE2, 0x82] = ['a', 'é', '\uFFFD'] := by decide
example : decodeUtf8 [0xED, 0xA0, 0x80] = ['\uFFFD', '\uFFFD', '\uFFFD'] := by decide

/-! ## Characters -/

/-- Within a character, these bytes complete it. -/
inductive Utf8State.Completes : Utf8State → List UInt8 → Char → Prop
  | last {st : Utf8State} {b : UInt8} (hneeded : st.needed = 1)
      (hrange : st.lower ≤ b.toNat ∧ b.toNat ≤ st.upper) :
      Completes st [b] (Char.ofNat (st.codePoint * 64 + b.toNat % 64))
  | next {st : Utf8State} {b : UInt8} {bs : List UInt8} {c : Char} {n : ℕ}
      (hneeded : st.needed = n + 2) (hrange : st.lower ≤ b.toNat ∧ b.toNat ≤ st.upper)
      (hrest : Completes
        { needed := n + 1, codePoint := st.codePoint * 64 + b.toNat % 64 } bs c) :
      Completes st (b :: bs) c

namespace Utf8State.Completes

variable {st : Utf8State} {bytes : List UInt8} {c : Char}

theorem decode (h : Completes st bytes c) (bs : List UInt8) :
    decodeUtf8From st (bytes ++ bs) = c :: decodeUtf8From {} bs := by
  induction h with
  | last hneeded hrange =>
    rw [List.singleton_append, decodeUtf8From]
    dsimp only
    rw [if_neg (by omega), if_pos hrange, if_pos hneeded]
  | next hneeded hrange hrest ih =>
    rw [List.cons_append, decodeUtf8From]
    dsimp only
    rw [if_neg (by omega), if_pos hrange, if_neg (by omega), hneeded]
    exact ih

/-- A character that is cut. -/
theorem decode_take (h : Completes st bytes c) {k : ℕ} (hk : k < bytes.length) :
    decodeUtf8From st (bytes.take k) = [replacement] := by
  induction h generalizing k with
  | last hneeded hrange =>
    obtain rfl : k = 0 := Nat.lt_one_iff.mp hk
    rw [List.take_zero, decodeUtf8From, if_neg (by omega)]
  | next hneeded hrange hrest ih =>
    cases k with
    | zero => rw [List.take_zero, decodeUtf8From, if_neg (by omega)]
    | succ k =>
      rw [List.take_succ_cons, decodeUtf8From]
      dsimp only
      rw [if_neg (by omega), if_pos hrange, if_neg (by omega), hneeded]
      exact ih (Nat.lt_of_succ_lt_succ hk)

end Utf8State.Completes

/-- The encoding of a character: one byte, or a first byte and those that complete it. -/
theorem utf8EncodeChar_cases (c : Char) :
    (∃ b, String.utf8EncodeChar c = [b] ∧ Utf8State.first b.toNat = (some c, {})) ∨
      ∃ b bytes st, String.utf8EncodeChar c = b :: bytes ∧
        Utf8State.first b.toNat = (none, st) ∧ st.Completes bytes c := by
  have hvalid : c.val.toNat < 0xD800 ∨ 0xDFFF < c.val.toNat ∧ c.val.toNat < 0x110000 := c.valid
  have hchar : ∀ n, n = c.val.toNat → Char.ofNat n = c := by
    rintro n rfl
    exact Char.ofNat_toNat c
  have hbyte : ∀ n < 256, (UInt8.ofNat n).toNat = n := fun n hn => by
    rw [UInt8.toNat_ofNat', Nat.mod_eq_of_lt hn]
  obtain ⟨v, hv⟩ : ∃ v, v = c.val.toNat := ⟨_, rfl⟩
  rw [← hv] at hvalid hchar
  rw [String.utf8EncodeChar, ← hv]
  split_ifs with h₁ h₂ h₃
  · refine Or.inl ⟨_, rfl, ?_⟩
    rw [hbyte v (by omega), Utf8State.first, if_pos h₁, hchar v rfl]
  · have hlast := hbyte (v % 0x40 + 0x80) (by omega)
    have hstart : (v / 64 % 0x20 + 0xc0) % 0x20 = v / 64 := by omega
    refine Or.inr ⟨_, _, { needed := 1, codePoint := v / 64 }, rfl, ?_, ?_⟩
    · rw [hbyte _ (by omega), Utf8State.first, if_neg (by omega), if_pos (by omega), hstart]
    · rw [← hchar (v / 64 * 64 + (UInt8.ofNat (v % 0x40 + 0x80)).toNat % 64)
        (by rw [hlast]; omega)]
      exact .last rfl (by rw [hlast]; dsimp only; omega)
  · have hlast := hbyte (v % 0x40 + 0x80) (by omega)
    have hnext := hbyte (v / 64 % 0x40 + 0x80) (by omega)
    have hstart : (v / 4096 % 0x10 + 0xe0) % 0x10 = v / 4096 := by omega
    refine Or.inr ⟨_, _, {
      needed := 2
      codePoint := v / 4096
      lower := if v / 4096 % 0x10 + 0xe0 = 0xE0 then 0xA0 else 0x80
      upper := if v / 4096 % 0x10 + 0xe0 = 0xED then 0x9F else 0xBF }, rfl, ?_, ?_⟩
    · rw [hbyte _ (by omega), Utf8State.first, if_neg (by omega), if_neg (by omega),
        if_pos (by omega), hstart]
    · rw [← hchar ((v / 4096 * 64 + (UInt8.ofNat (v / 64 % 0x40 + 0x80)).toNat % 64) * 64 +
        (UInt8.ofNat (v % 0x40 + 0x80)).toNat % 64) (by rw [hlast, hnext]; omega)]
      refine .next rfl ?_ (.last rfl (by rw [hlast]; dsimp only; omega))
      rw [hnext]
      dsimp only
      split_ifs <;> omega
  · have hlast := hbyte (v % 0x40 + 0x80) (by omega)
    have hnext := hbyte (v / 64 % 0x40 + 0x80) (by omega)
    have hsecond := hbyte (v / 4096 % 0x40 + 0x80) (by omega)
    have hstart : (v / 262144 % 0x08 + 0xf0) % 0x08 = v / 262144 := by omega
    refine Or.inr ⟨_, _, {
      needed := 3
      codePoint := v / 262144
      lower := if v / 262144 % 0x08 + 0xf0 = 0xF0 then 0x90 else 0x80
      upper := if v / 262144 % 0x08 + 0xf0 = 0xF4 then 0x8F else 0xBF }, rfl, ?_, ?_⟩
    · rw [hbyte _ (by omega), Utf8State.first, if_neg (by omega), if_neg (by omega),
        if_neg (by omega), if_pos (by omega), hstart]
    · rw [← hchar (((v / 262144 * 64 + (UInt8.ofNat (v / 4096 % 0x40 + 0x80)).toNat % 64) * 64 +
        (UInt8.ofNat (v / 64 % 0x40 + 0x80)).toNat % 64) * 64 +
        (UInt8.ofNat (v % 0x40 + 0x80)).toNat % 64) (by rw [hlast, hnext, hsecond]; omega)]
      refine .next rfl ?_ (.next rfl (by rw [hnext]; dsimp only; omega)
        (.last rfl (by rw [hlast]; dsimp only; omega)))
      rw [hsecond]
      dsimp only
      split_ifs <;> omega

/-! ## Texts -/

theorem decodeUtf8From_encode (cs : List Char) (bytes : List UInt8) :
    decodeUtf8From {} (encodeUtf8 cs ++ bytes) = cs ++ decodeUtf8From {} bytes := by
  induction cs with
  | nil => rfl
  | cons c cs ih =>
    rw [encodeUtf8, List.flatMap_cons, List.append_assoc]
    obtain ⟨b, hbytes, hfirst⟩ | ⟨b, rest, st, hbytes, hfirst, hrest⟩ := utf8EncodeChar_cases c
    · rw [hbytes, List.singleton_append, decodeUtf8From, hfirst]
      exact congrArg (c :: ·) ih
    · rw [hbytes, List.cons_append, decodeUtf8From, hfirst]
      exact (hrest.decode _).trans (congrArg (c :: ·) ih)

/-- **The encoding of a text is read as the text.** -/
theorem decodeUtf8_encode (cs : List Char) : decodeUtf8 (encodeUtf8 cs) = cs := by
  have h := decodeUtf8From_encode cs []
  rw [List.append_nil] at h
  exact h.trans (List.append_nil cs)

/-- A character that is cut is read as a replacement character. -/
theorem decodeUtf8From_take_char (c : Char) {k : ℕ} (hk : 0 < k)
    (hlt : k < (String.utf8EncodeChar c).length) :
    decodeUtf8From {} ((String.utf8EncodeChar c).take k) = [replacement] := by
  obtain ⟨k, rfl⟩ : ∃ j, k = j + 1 := ⟨k - 1, by omega⟩
  obtain ⟨b, hbytes, -⟩ | ⟨b, rest, st, hbytes, hfirst, hrest⟩ := utf8EncodeChar_cases c
  · rw [hbytes, List.length_singleton] at hlt
    omega
  · rw [hbytes, List.take_succ_cons, decodeUtf8From, hfirst]
    rw [hbytes, List.length_cons] at hlt
    exact hrest.decode_take (Nat.lt_of_succ_lt_succ hlt)

theorem encodeUtf8_append (cs ds : List Char) :
    encodeUtf8 (cs ++ ds) = encodeUtf8 cs ++ encodeUtf8 ds := List.flatMap_append

theorem encodeUtf8_cons (c : Char) (cs : List Char) :
    encodeUtf8 (c :: cs) = String.utf8EncodeChar c ++ encodeUtf8 cs := List.flatMap_cons

/-- A number of bytes ends between two characters, or within one. -/
theorem exists_cut {cs : List Char} {n : ℕ} (hn : n ≤ (encodeUtf8 cs).length) :
    (∃ front rest, cs = front ++ rest ∧ (encodeUtf8 front).length = n) ∨
      ∃ front c rest k, cs = front ++ c :: rest ∧ 0 < k ∧ k < (String.utf8EncodeChar c).length ∧
        (encodeUtf8 front).length + k = n := by
  induction cs generalizing n with
  | nil => exact Or.inl ⟨[], [], rfl, (Nat.le_zero.mp hn).symm⟩
  | cons c cs ih =>
    rw [encodeUtf8_cons, List.length_append] at hn
    rcases Nat.eq_zero_or_pos n with rfl | hpos
    · exact Or.inl ⟨[], c :: cs, rfl, rfl⟩
    rcases Nat.lt_or_ge n (String.utf8EncodeChar c).length with hlt | hge
    · exact Or.inr ⟨[], c, cs, n, rfl, hpos, hlt, Nat.zero_add n⟩
    · obtain ⟨front, rest, rfl, hlength⟩ | ⟨front, d, rest, k, rfl, hk, hlt, hlength⟩ :=
        @ih (n - (String.utf8EncodeChar c).length) (by omega)
      · refine Or.inl ⟨c :: front, rest, rfl, ?_⟩
        rw [encodeUtf8_cons, List.length_append, hlength]
        omega
      · refine Or.inr ⟨c :: front, d, rest, k, rfl, hk, hlt, ?_⟩
        rw [encodeUtf8_cons, List.length_append]
        omega

theorem encodeUtf8_length_le {front cs : List Char} (h : front <+: cs) :
    (encodeUtf8 front).length ≤ (encodeUtf8 cs).length := by
  obtain ⟨rest, rfl⟩ := h
  rw [encodeUtf8_append, List.length_append]
  exact Nat.le_add_right _ _

/-- First parts of a text with as many bytes are the same. -/
theorem eq_of_encodeUtf8_length {front front' cs : List Char} (h : front <+: cs)
    (h' : front' <+: cs) (hlength : (encodeUtf8 front).length = (encodeUtf8 front').length) :
    front = front' := by
  have hlonger : ∀ xs ys : List Char, xs <+: ys →
      (encodeUtf8 xs).length = (encodeUtf8 ys).length → xs = ys := by
    rintro xs ys ⟨rest, rfl⟩ heq
    cases rest with
    | nil => exact (List.append_nil xs).symm
    | cons c rest =>
      have hpos := c.utf8Size_pos
      rw [encodeUtf8_append, List.length_append, encodeUtf8_cons, List.length_append,
        String.length_utf8EncodeChar] at heq
      omega
  rcases List.prefix_or_prefix_of_prefix h h' with hle | hle
  · exact hlonger _ _ hle hlength
  · exact (hlonger _ _ hle hlength.symm).symm

/-- Not both. -/
theorem cut_exclusive {front front' rest : List Char} {c : Char} {k : ℕ}
    (hfront : front' <+: front ++ c :: rest) (hk : 0 < k)
    (hlt : k < (String.utf8EncodeChar c).length) :
    (encodeUtf8 front').length ≠ (encodeUtf8 front).length + k := by
  have hnext : front ++ [c] <+: front ++ c :: rest := ⟨rest, by simp⟩
  have hlength : (encodeUtf8 (front ++ [c])).length =
      (encodeUtf8 front).length + (String.utf8EncodeChar c).length := by
    rw [encodeUtf8_append, List.length_append, encodeUtf8_cons, List.length_append]
    rfl
  rcases List.prefix_or_prefix_of_prefix hfront hnext with hle | hle
  · rcases List.prefix_concat_iff.mp hle with heq | hle
    · rw [heq, hlength]
      omega
    · have := encodeUtf8_length_le hle
      omega
  · have := encodeUtf8_length_le hle
    omega

/-- **The first bytes of a text** are read as its characters that are whole, with a replacement
character for one that is cut. -/
theorem decodeUtf8_take {front rest : List Char} :
    decodeUtf8 ((encodeUtf8 (front ++ rest)).take (encodeUtf8 front).length) = front := by
  rw [encodeUtf8_append, List.take_left]
  exact decodeUtf8_encode front

theorem decodeUtf8_take_cut {front rest : List Char} {c : Char} {k : ℕ} (hk : 0 < k)
    (hlt : k < (String.utf8EncodeChar c).length) :
    decodeUtf8 ((encodeUtf8 (front ++ c :: rest)).take ((encodeUtf8 front).length + k)) =
      front ++ [replacement] := by
  rw [encodeUtf8_append, List.take_length_add_append, encodeUtf8_cons,
    List.take_append_of_le_length (Nat.le_of_lt hlt), decodeUtf8, decodeUtf8From_encode,
    decodeUtf8From_take_char c hk hlt]

end HayaSend
