import Mathlib.Data.List.Perm.Subperm
import Mathlib.Data.List.Nodup

/-!
# Tokens

Processes hold tokens, each at most one: `held f ps` lists those of the processes `ps`. A step
changes one process, and its token with it; `held_set_subperm` turns what the step does to that
one token, and to the tokens kept elsewhere, into what it does to all of them. A token that was
held only once is then held only once after the step (`nodup_of_subperm`).
-/

namespace HayaSend

variable {α β : Type*} {f : α → Option β}

/-- The tokens processes hold. -/
def held (f : α → Option β) (ps : List α) : List β := ps.filterMap f

theorem mem_held {ps : List α} {x : β} : x ∈ held f ps ↔ ∃ p ∈ ps, f p = some x :=
  List.mem_filterMap

theorem held_concat (ps : List α) (p : α) : held f (ps ++ [p]) = held f ps ++ (f p).toList := by
  cases hp : f p <;> simp [held, hp]

variable [DecidableEq β]

omit [DecidableEq β] in
/-- Changing one process and keeping its token. -/
theorem held_set_same {ps : List α} {i : ℕ} {p q : α} (hp : ps[i]? = some p) (hq : f q = f p) :
    held f (ps.set i q) = held f ps := by
  induction ps generalizing i with
  | nil => cases hp
  | cons r ps ih =>
    cases i with
    | zero =>
      obtain rfl : r = p := by simpa using hp
      simp only [held, List.set_cons_zero, List.filterMap_cons, hq]
    | succ i =>
      have hps : (ps.set i q).filterMap f = ps.filterMap f := ih hp
      simp only [held, List.set_cons_succ, List.filterMap_cons, hps]

/-- Changing one process trades its token. -/
theorem count_held_set {ps : List α} {i : ℕ} {p : α} (hp : ps[i]? = some p) (q : α) (x : β) :
    (held f (ps.set i q)).count x + (f p).toList.count x =
      (held f ps).count x + (f q).toList.count x := by
  induction ps generalizing i with
  | nil => cases hp
  | cons r ps ih =>
    have hcons : ∀ (a : α) (l : List α),
        (held f (a :: l)).count x = (f a).toList.count x + (held f l).count x := by
      intro a l
      cases ha : f a <;> simp [held, ha, List.count_cons, Nat.add_comm]
    cases i with
    | zero =>
      obtain rfl : r = p := by simpa using hp
      rw [List.set_cons_zero, hcons, hcons]
      omega
    | succ i =>
      rw [List.set_cons_succ, hcons, hcons]
      have := ih hp
      omega

omit [DecidableEq β] in
theorem length_held_set {ps : List α} {i : ℕ} {p : α} (hp : ps[i]? = some p) (q : α) :
    (held f (ps.set i q)).length + (f p).toList.length =
      (held f ps).length + (f q).toList.length := by
  induction ps generalizing i with
  | nil => cases hp
  | cons r ps ih =>
    have hcons : ∀ (a : α) (l : List α),
        (held f (a :: l)).length = (f a).toList.length + (held f l).length := by
      intro a l
      cases ha : f a <;> simp [held, ha, Nat.add_comm]
    cases i with
    | zero =>
      obtain rfl : r = p := by simpa using hp
      rw [List.set_cons_zero, hcons, hcons]
      omega
    | succ i =>
      rw [List.set_cons_succ, hcons, hcons]
      have := ih hp
      omega

/-- What one process makes of its token and of `rest`, the whole system makes of all tokens. -/
theorem held_set_subperm {ps : List α} {i : ℕ} {p : α} (hp : ps[i]? = some p) {q : α}
    {rest rest' fresh : List β}
    (h : ((f q).toList ++ rest').Subperm (fresh ++ ((f p).toList ++ rest))) :
    (held f (ps.set i q) ++ rest').Subperm (fresh ++ (held f ps ++ rest)) := by
  rw [List.subperm_ext_iff] at h ⊢
  intro x _
  have hset := count_held_set (f := f) hp q x
  have hx : ((f q).toList ++ rest').count x ≤ (fresh ++ ((f p).toList ++ rest)).count x := by
    by_cases hmem : x ∈ (f q).toList ++ rest'
    · exact h x hmem
    · rw [List.count_eq_zero.mpr hmem]
      exact Nat.zero_le _
  simp only [List.count_append] at hx ⊢
  omega

omit [DecidableEq β] in
theorem nodup_of_subperm {l l' : List β} (hn : l.Nodup) (h : l'.Subperm l) : l'.Nodup := by
  obtain ⟨m, hperm, hsub⟩ := h
  exact hperm.nodup_iff.mp (hn.sublist hsub)

end HayaSend
