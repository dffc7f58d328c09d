import Mathlib.Algebra.Ring.Nat
import Mathlib.Data.List.Basic

/-!
# Prefix codes

A code whose words can be read off the front of any longer text, so that a text of words determines
them (`PrefixCode.flatMap_injective`). Words of one length that differ form such a code, codes of
codes are codes, and a code whose words start with a marker may leave the other symbols as they are
(`PrefixCode.escape`). UTF-8 is one (`prefixCode_utf8`). Words that can be read off the front of the
texts that a separator or a close begins may be written as a list (`eq_of_separated`).
-/

namespace HayaSend

variable {α β γ : Type*}

structure PrefixCode (word : α → List β) : Prop where
  ne_nil : ∀ a, word a ≠ []
  eq_of_append : ∀ {a b x y}, word a ++ x = word b ++ y → a = b

namespace PrefixCode

variable {word : α → List β}

/-- **A text of words determines them.** -/
theorem flatMap_injective (h : PrefixCode word) :
    Function.Injective fun xs : List α => xs.flatMap word := by
  intro xs ys heq
  dsimp only at heq
  induction xs generalizing ys with
  | nil =>
    cases ys with
    | nil => rfl
    | cons b ys =>
      rw [List.flatMap_nil, List.flatMap_cons] at heq
      exact absurd (List.append_eq_nil_iff.mp heq.symm).1 (h.ne_nil b)
  | cons a xs ih =>
    cases ys with
    | nil =>
      rw [List.flatMap_nil, List.flatMap_cons] at heq
      exact absurd (List.append_eq_nil_iff.mp heq).1 (h.ne_nil a)
    | cons b ys =>
      rw [List.flatMap_cons, List.flatMap_cons] at heq
      obtain rfl := h.eq_of_append heq
      rw [ih (List.append_cancel_left heq)]

/-- Words of one length. -/
theorem of_length {length : ℕ} (hlength : ∀ a, (word a).length = length) (hpos : length ≠ 0)
    (hinj : Function.Injective word) : PrefixCode word where
  ne_nil a hnil := hpos (by rw [← hlength a, hnil, List.length_nil])
  eq_of_append {a b _ _} heq :=
    hinj (List.append_inj_left heq ((hlength a).trans (hlength b).symm))

theorem eq_of_prefix (h : PrefixCode word) {a b : α} (hfront : word a <+: word b) : a = b := by
  obtain ⟨rest, hrest⟩ := hfront
  exact h.eq_of_append (hrest.trans (List.append_nil _).symm)

/-- Of two texts that begin alike one begins with the words of the other. -/
theorem prefix_or_prefix (h : PrefixCode word) {xs ys : List α} {x y : List β}
    (heq : xs.flatMap word ++ x = ys.flatMap word ++ y) : xs <+: ys ∨ ys <+: xs := by
  induction xs generalizing ys with
  | nil => exact Or.inl List.nil_prefix
  | cons a xs ih =>
    cases ys with
    | nil => exact Or.inr List.nil_prefix
    | cons b ys =>
      rw [List.flatMap_cons, List.flatMap_cons, List.append_assoc, List.append_assoc] at heq
      obtain rfl := h.eq_of_append heq
      exact (ih (List.append_cancel_left heq)).imp (List.prefix_cons_inj _).mpr
        (List.prefix_cons_inj _).mpr

/-- Words whose symbols are words of another code. -/
theorem comp {symbol : β → List γ} (h : PrefixCode word) (hsymbol : PrefixCode symbol) :
    PrefixCode fun a => (word a).flatMap symbol where
  ne_nil a hnil := by
    obtain ⟨b, rest, hb⟩ := List.exists_cons_of_ne_nil (h.ne_nil a)
    rw [hb, List.flatMap_cons] at hnil
    exact hsymbol.ne_nil b (List.append_eq_nil_iff.mp hnil).1
  eq_of_append heq :=
    (hsymbol.prefix_or_prefix heq).elim h.eq_of_prefix fun hfront => (h.eq_of_prefix hfront).symm

/-- A code whose words start with a marker may keep the symbols that are not the marker. -/
theorem escape {word : α → List α} (h : PrefixCode word) {marker : α}
    (hstart : ∀ a, ∃ rest, word a = marker :: rest) {kept : α → Bool}
    (hmarker : kept marker = false) : PrefixCode fun a => if kept a then [a] else word a where
  ne_nil a := by
    split_ifs
    · exact List.cons_ne_nil _ _
    · exact h.ne_nil a
  eq_of_append {a b x y} heq := by
    obtain ⟨rest, hrest⟩ := hstart a
    obtain ⟨rest', hrest'⟩ := hstart b
    split_ifs at heq with ha hb hb
    · exact (List.cons.inj heq).1
    · rw [hrest'] at heq
      rw [(List.cons.inj heq).1, hmarker] at ha
      cases ha
    · rw [hrest] at heq
      rw [← (List.cons.inj heq).1, hmarker] at hb
      cases hb
    · exact h.eq_of_append heq

/-- A stop behind words that are none determines them, and what follows it. -/
theorem eq_of_stop (h : PrefixCode word) {stop : α} {xs ys : List α} {x y : List β}
    (hxs : stop ∉ xs) (hys : stop ∉ ys)
    (heq : xs.flatMap word ++ (word stop ++ x) = ys.flatMap word ++ (word stop ++ y)) :
    xs = ys ∧ x = y := by
  induction xs generalizing ys with
  | nil =>
    cases ys with
    | nil => exact ⟨rfl, List.append_cancel_left heq⟩
    | cons b ys =>
      rw [List.flatMap_nil, List.nil_append, List.flatMap_cons, List.append_assoc] at heq
      exact absurd (h.eq_of_append heq ▸ List.mem_cons_self) hys
  | cons a xs ih =>
    cases ys with
    | nil =>
      rw [List.flatMap_nil, List.nil_append, List.flatMap_cons, List.append_assoc] at heq
      exact absurd (h.eq_of_append heq ▸ List.mem_cons_self) hxs
    | cons b ys =>
      rw [List.flatMap_cons, List.flatMap_cons, List.append_assoc, List.append_assoc] at heq
      obtain rfl := h.eq_of_append heq
      obtain ⟨rfl, hrest⟩ := ih (fun hmem => hxs (List.mem_cons_of_mem _ hmem))
        (fun hmem => hys (List.mem_cons_of_mem _ hmem)) (List.append_cancel_left heq)
      exact ⟨rfl, hrest⟩

end PrefixCode

/-! ## Lists with separators -/

/-- A word is read off the front of a text whose rest is one of some ends. -/
def ReadBefore (ends : List β → Prop) (ok : α → Prop) (word : α → List β) (a : α) : Prop :=
  ∀ ⦃b x y⦄, ok b → ends x → ends y → word a ++ x = word b ++ y → a = b ∧ x = y

/-- Words with a separator between them. -/
def separated (sep : β) (word : α → List β) : List α → List β
  | [] => []
  | a :: as => word a ++ as.flatMap fun b => sep :: word b

theorem intercalate_eq_separated (sep : β) (word : α → List β) (as : List α) :
    [sep].intercalate (as.map word) = separated sep word as := by
  induction as with
  | nil => rfl
  | cons a as ih =>
    cases as with
    | nil => rw [List.map_cons, List.map_nil, List.intercalate_singleton, separated,
        List.flatMap_nil, List.append_nil]
    | cons b as =>
      rw [List.map_cons, List.map_cons, List.intercalate_cons_cons, ← List.map_cons, ih, separated,
        separated, List.flatMap_cons, List.append_assoc]
      rfl

/-- How much a list of words weighs depends on the weights of its words. -/
theorem sum_separated {sep : β} {word word' : α → List β} (weight : β → ℕ) {as bs : List α}
    (h : (as.map fun a => ((word a).map weight).sum).Perm
      (bs.map fun b => ((word' b).map weight).sum)) :
    ((separated sep word as).map weight).sum = ((separated sep word' bs).map weight).sum := by
  have hflat (f : α → List β) (cs : List α) :
      ((cs.flatMap fun c => sep :: f c).map weight).sum =
        ((cs.map fun c => ((f c).map weight).sum).map (weight sep + ·)).sum := by
    induction cs with
    | nil => rfl
    | cons c cs ih =>
      rw [List.flatMap_cons, List.map_append, List.sum_append, ih]
      rfl
  cases as with
  | nil =>
    obtain rfl := List.map_eq_nil_iff.mp (List.nil_perm.mp h)
    rfl
  | cons a as =>
    cases bs with
    | nil => exact absurd h.symm (fun hnil => nomatch List.nil_perm.mp hnil)
    | cons b bs =>
      have hsum := (h.map (weight sep + ·)).sum_nat
      rw [← hflat, ← hflat, List.flatMap_cons, List.flatMap_cons, List.cons_append,
        List.cons_append, List.map_cons, List.map_cons, List.sum_cons, List.sum_cons] at hsum
      exact Nat.add_left_cancel hsum

section Separated

variable {sep close : β} {word : α → List β} {ends : List β → Prop} {ok : α → Prop}
  (hsep : ∀ x, ends (sep :: x)) (hclose : ∀ x, ends (close :: x)) (hne : sep ≠ close)
include hsep hclose hne

theorem eq_of_separated_tail {as bs : List α} {x y : List β}
    (hread : ∀ a ∈ as, ReadBefore ends ok word a) (hok : ∀ b ∈ bs, ok b)
    (heq : (as.flatMap fun a => sep :: word a) ++ close :: x =
      (bs.flatMap fun b => sep :: word b) ++ close :: y) : as = bs ∧ x = y := by
  have hends (cs : List α) (z : List β) :
      ends ((cs.flatMap fun c => sep :: word c) ++ close :: z) := by
    cases cs with
    | nil => exact hclose z
    | cons c cs => exact hsep _
  induction as generalizing bs with
  | nil =>
    cases bs with
    | nil => exact ⟨rfl, (List.cons.inj heq).2⟩
    | cons b bs => exact absurd (List.cons.inj heq).1 hne.symm
  | cons a as ih =>
    cases bs with
    | nil => exact absurd (List.cons.inj heq).1 hne
    | cons b bs =>
      obtain ⟨hread, hreads⟩ := List.forall_mem_cons.mp hread
      obtain ⟨hokb, hoks⟩ := List.forall_mem_cons.mp hok
      rw [List.flatMap_cons, List.flatMap_cons, List.cons_append, List.cons_append,
        List.cons_append, List.cons_append, List.append_assoc, List.append_assoc] at heq
      obtain ⟨rfl, hrest⟩ := hread hokb (hends as x) (hends bs y) (List.cons.inj heq).2
      obtain ⟨rfl, rfl⟩ := ih hreads hoks hrest
      exact ⟨rfl, rfl⟩

/-- **A closed list of words determines them**, if no word begins with the close. -/
theorem eq_of_separated {as bs : List α} {x y : List β}
    (hread : ∀ a ∈ as, ReadBefore ends ok word a) (hok : ∀ b ∈ bs, ok b)
    (hstart : ∀ a ∈ as ++ bs, ∃ c rest, word a = c :: rest ∧ c ≠ close)
    (heq : separated sep word as ++ close :: x = separated sep word bs ++ close :: y) :
    as = bs ∧ x = y := by
  cases as with
  | nil =>
    cases bs with
    | nil => exact ⟨rfl, (List.cons.inj heq).2⟩
    | cons b bs =>
      obtain ⟨c, rest, hword, hc⟩ := hstart b List.mem_cons_self
      rw [separated, separated, hword] at heq
      exact absurd (List.cons.inj heq).1 hc.symm
  | cons a as =>
    cases bs with
    | nil =>
      obtain ⟨c, rest, hword, hc⟩ := hstart a List.mem_cons_self
      rw [separated, separated, hword] at heq
      exact absurd (List.cons.inj heq).1 hc
    | cons b bs =>
      rw [← List.cons_inj_right sep] at heq
      exact eq_of_separated_tail hsep hclose hne hread hok (by simpa [separated] using heq)

end Separated

/-- **UTF-8 is a prefix code.** -/
theorem prefixCode_utf8 : PrefixCode String.utf8EncodeChar where
  ne_nil _ := String.utf8EncodeChar_ne_nil
  eq_of_append {a b x y} heq := by
    have hdecode := congrArg (fun bytes => ByteArray.utf8DecodeChar? bytes.toByteArray 0) heq
    simpa only [List.toByteArray_append, ByteArray.utf8DecodeChar?_utf8EncodeChar_append,
      Option.some.injEq] using hdecode

end HayaSend
