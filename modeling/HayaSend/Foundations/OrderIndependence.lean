import Mathlib.Data.List.Basic

/-!
# Folds that do not depend on the order

A left fold gives the same result on every permutation of a list when its elements commute
pairwise, and also when one of them dominates the others: it erases what came before it and
absorbs what comes after.
-/

namespace HayaSend

variable {α β : Type*} (f : β → α → β)

/-- `d` erases an `x` before it and absorbs an `x` after it. -/
def Dominates (d x : α) : Prop := ∀ z, f (f z x) d = f z d ∧ f (f z d) x = f z d

/-- `x` and `y` may be applied in either order. -/
def CommutesWith (x y : α) : Prop := ∀ z, f (f z x) y = f (f z y) x

variable {f}

theorem foldl_absorb {d : α} {l : List α} (h : ∀ x ∈ l, Dominates f d x) (z : β) :
    l.foldl f (f z d) = f z d := by
  induction l with
  | nil => rfl
  | cons x l ih =>
    rw [List.foldl_cons, (h x List.mem_cons_self z).2]
    exact ih fun y hy => h y (List.mem_cons_of_mem _ hy)

/-- A fold over a list with a dominating element is that element alone. -/
theorem foldl_eq_of_dominates {d : α} {l : List α} (hd : d ∈ l) (h : ∀ x ∈ l, Dominates f d x)
    (z : β) : l.foldl f z = f z d := by
  induction l generalizing z with
  | nil => cases hd
  | cons x l ih =>
    have hl : ∀ y ∈ l, Dominates f d y := fun y hy => h y (List.mem_cons_of_mem _ hy)
    rw [List.foldl_cons]
    rcases List.mem_cons.mp hd with rfl | hd
    · exact foldl_absorb hl z
    · rw [ih hd hl, (h x List.mem_cons_self z).1]

/-- **Order independence.** Pairwise commuting elements, or one that dominates. -/
theorem foldl_perm {l l' : List α} (hp : l.Perm l')
    (h : (∀ x ∈ l, ∀ y ∈ l, CommutesWith f x y) ∨ ∃ d ∈ l, ∀ x ∈ l, Dominates f d x) (z : β) :
    l.foldl f z = l'.foldl f z := by
  rcases h with h | ⟨d, hd, h⟩
  · exact hp.foldl_eq' h z
  · have h' : ∀ x ∈ l', Dominates f d x := fun x hx => h x (hp.mem_iff.mpr hx)
    rw [foldl_eq_of_dominates hd h, foldl_eq_of_dominates (hp.mem_iff.mp hd) h']

end HayaSend
