import Mathlib.Data.List.Basic
import Mathlib.Data.List.Forall2

/-!
# Expansions

A list is expanded when each element is replaced by a list, and the lists are put together; which
lists may stand for an element is a relation. An expansion that keeps a separator and brings in no
other one expands the parts between the separators (`Expands.splitOn`).
-/

namespace HayaSend

variable {α : Type*}

/-- The partner of an element of related lists. -/
theorem exists_of_forall₂ {β : Type*} {R : α → β → Prop} {xs : List α} {ys : List β}
    (h : List.Forall₂ R xs ys) {x : α} (hx : x ∈ xs) : ∃ y ∈ ys, R x y := by
  induction h with
  | nil => cases hx
  | cons hr _ ih =>
    rcases List.mem_cons.mp hx with rfl | hx
    · exact ⟨_, List.mem_cons_self, hr⟩
    · obtain ⟨y, hy, hxy⟩ := ih hx
      exact ⟨y, List.mem_cons_of_mem _ hy, hxy⟩

/-- The second list has a part for each element of the first, in order. -/
inductive Expands (R : α → List α → Prop) : List α → List α → Prop
  | nil : Expands R [] []
  | cons {x : α} {part xs ys : List α} (hx : R x part) (h : Expands R xs ys) :
      Expands R (x :: xs) (part ++ ys)

namespace Expands

variable {R : α → List α → Prop} {xs ys : List α}

/-- What is expanded to a list of its own is not empty. -/
theorem ne_nil (h : Expands R xs ys) (hys : ys ≠ []) : xs ≠ [] := by
  rintro rfl
  cases h
  exact hys rfl

/-- A property of the parts is one of the elements. -/
theorem forall_mem {p q : α → Prop} (h : Expands R xs ys)
    (hpart : ∀ x part, R x part → (∀ y ∈ part, q y) → p x) (hys : ∀ y ∈ ys, q y) :
    ∀ x ∈ xs, p x := by
  induction h with
  | nil => simp
  | @cons x part xs ys hx h ih =>
    rw [List.forall_mem_append] at hys
    exact List.forall_mem_cons.mpr ⟨hpart x part hx hys.1, ih hys.2⟩

variable [DecidableEq α] {sep : α}

/-- A part without a separator is put before the first of the other parts. -/
theorem splitOn_append {part : List α} (h : sep ∉ part) (ys : List α) :
    (part ++ ys).splitOn sep = (ys.splitOn sep).modifyHead (part ++ ·) := by
  obtain ⟨first, rest, hsplit⟩ := List.exists_cons_of_ne_nil (List.splitOnP_ne_nil (· == sep) ys)
  rw [List.splitOn_eq_splitOnP, List.splitOn_eq_splitOnP, hsplit, List.modifyHead_cons]
  induction part with
  | nil => exact hsplit
  | cons x part ih =>
    rw [List.mem_cons, not_or] at h
    rw [List.cons_append, List.splitOnP_cons_eq_if_modifyHead,
      if_neg (by simpa using Ne.symm h.1), ih h.2, List.modifyHead_cons, List.cons_append]

/-- **The parts between the separators are expanded.** -/
theorem splitOn (h : Expands R xs ys) (hsep : ∀ part, R sep part → part = [sep])
    (hother : ∀ x part, R x part → x ≠ sep → sep ∉ part) :
    List.Forall₂ (Expands R) (xs.splitOn sep) (ys.splitOn sep) := by
  induction h with
  | nil => exact .cons .nil .nil
  | @cons x part xs ys hx h ih =>
    by_cases hxsep : x = sep
    · subst hxsep
      obtain rfl := hsep part hx
      rw [List.splitOn_eq_splitOnP, List.splitOn_eq_splitOnP, List.singleton_append,
        List.splitOnP_cons_eq_if_modifyHead, List.splitOnP_cons_eq_if_modifyHead,
        if_pos (beq_self_eq_true _), if_pos (beq_self_eq_true _)]
      exact .cons .nil ih
    · have hsingle : sep ∉ [x] := by simpa using Ne.symm hxsep
      rw [← List.singleton_append, splitOn_append hsingle, splitOn_append (hother x part hx hxsep)]
      generalize xs.splitOn sep = xparts at ih ⊢
      generalize hys : ys.splitOn sep = yparts at ih ⊢
      cases ih with
      | nil => exact absurd hys (List.splitOnP_ne_nil _ _)
      | cons hfirst hrest => exact .cons (.cons hx hfirst) hrest

end Expands

end HayaSend
