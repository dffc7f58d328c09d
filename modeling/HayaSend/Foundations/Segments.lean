import Mathlib.Data.List.Basic

/-!
# Segments of a text

Texts that join segments by a separator: where the segments before (or after) the separator are
free of it, the text determines both sides. Numerals are free of every separator that is not a
digit, and a numeral determines its number.
-/

namespace HayaSend

variable {α : Type*} {sep : α} {a b x y : List α}

/-- The first separator splits a text in one way. -/
theorem append_sep_inj_left (ha : sep ∉ a) (hb : sep ∉ b) (h : a ++ sep :: x = b ++ sep :: y) :
    a = b ∧ x = y := by
  induction a generalizing b with
  | nil =>
    cases b with
    | nil => exact ⟨rfl, (List.cons.inj h).2⟩
    | cons c b => exact absurd (List.cons.inj h).1 (List.ne_of_not_mem_cons hb)
  | cons c a ih =>
    cases b with
    | nil => exact absurd (List.cons.inj h).1.symm (List.ne_of_not_mem_cons ha)
    | cons d b =>
      obtain ⟨rfl, htail⟩ := List.cons.inj h
      obtain ⟨rfl, hxy⟩ :=
        ih (List.not_mem_of_not_mem_cons ha) (List.not_mem_of_not_mem_cons hb) htail
      exact ⟨rfl, hxy⟩

/-- The last separator splits a text in one way. -/
theorem append_sep_inj_right (hx : sep ∉ x) (hy : sep ∉ y) (h : a ++ sep :: x = b ++ sep :: y) :
    a = b ∧ x = y := by
  have hrev := congrArg List.reverse h
  simp only [List.reverse_append, List.reverse_cons, List.append_assoc, List.singleton_append]
    at hrev
  obtain ⟨hxy, hab⟩ := append_sep_inj_left (by simpa using hx) (by simpa using hy) hrev
  exact ⟨List.reverse_injective hab, List.reverse_injective hxy⟩

/-- A text up to its first separator, and from there on. -/
theorem takeWhile_append_sep [DecidableEq α] (ha : sep ∉ a) :
    (a ++ sep :: x).takeWhile (· != sep) = a ∧ (a ++ sep :: x).dropWhile (· != sep) = sep :: x := by
  have hkeep : ∀ c ∈ a, (c != sep) = true := fun c hc => bne_iff_ne.mpr fun heq => ha (heq ▸ hc)
  rw [List.takeWhile_append_of_pos hkeep, List.dropWhile_append_of_pos hkeep,
    List.takeWhile_cons_of_neg (by simp), List.dropWhile_cons_of_neg (by simp), List.append_nil]
  exact ⟨rfl, rfl⟩

theorem isAlphanum_of_isLower {c : Char} (h : c.isLower = true) : c.isAlphanum = true := by
  show ((c.isUpper || c.isLower) || c.isDigit) = true
  rw [h, Bool.or_true, Bool.true_or]

theorem isAlphanum_of_isDigit {c : Char} (h : c.isDigit = true) : c.isAlphanum = true := by
  show (c.isAlpha || c.isDigit) = true
  rw [h, Bool.or_true]

/-- Letters and digits are ASCII. -/
theorem toNat_of_isAlphanum {c : Char} (h : c.isAlphanum = true) :
    (65 ≤ c.toNat ∧ c.toNat ≤ 90) ∨ (97 ≤ c.toNat ∧ c.toNat ≤ 122) ∨
      (48 ≤ c.toNat ∧ c.toNat ≤ 57) := by
  have hranges : ((decide (65 ≤ c.toNat ∧ c.toNat ≤ 90) ||
      (decide (97 ≤ c.toNat) && decide (c.toNat ≤ 122))) ||
      (decide (48 ≤ c.toNat) && decide (c.toNat ≤ 57))) = true := h
  simpa only [Bool.or_eq_true, Bool.and_eq_true, decide_eq_true_eq, or_assoc] using hranges

/-- Every character of a numeral is a digit. -/
theorem isDigit_of_mem_toString {n : ℕ} {c : Char} (h : c ∈ (toString n).toList) :
    c.isDigit = true := by
  rw [Nat.toString_eq_ofList_toDigits, String.toList_ofList] at h
  exact Nat.isDigit_of_mem_toDigits (by decide) (by decide) h

/-- A numeral determines its number. -/
theorem toString_nat_injective : Function.Injective (toString : ℕ → String) := by
  intro m n h
  have hd := congrArg (fun s : String => Nat.ofDigitChars 10 s.toList 0) h
  simpa [Nat.toString_eq_ofList_toDigits] using hd

end HayaSend
