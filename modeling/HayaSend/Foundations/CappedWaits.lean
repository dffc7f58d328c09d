import Mathlib.Algebra.Order.Floor.Div
import Mathlib.Tactic.Ring

/-!
# Capped waits

Waiting for a time in hops: each hop is a whole number of units, rounded up and at most a cap. The
next look at the clock comes no earlier than the hop allows, and may come later; the hop itself is
computed from a reading at or after the look that found the time still ahead.

No hop is empty, so every look is later than the one before it (`Waits.lt_next`), and the time is
reached after as many hops as caps fit into what is left (`Waits.exists_reached`).
-/

namespace HayaSend

/-- The units of one hop. -/
def cappedWait (unit cap target now : ℕ) : ℕ := min cap ((target - now) ⌈/⌉ unit)

/-- Looks at the clock, with a hop after each one that finds the target ahead. -/
def Waits (unit cap target : ℕ) (looks : ℕ → ℕ) : Prop :=
  ∀ i, looks i < target →
    ∃ now, looks i ≤ now ∧ now + unit * cappedWait unit cap target now ≤ looks (i + 1)

variable {unit cap target : ℕ} {looks : ℕ → ℕ}

/-- A hop ends at the target or uses up the cap. -/
theorem le_add_cappedWait (hunit : 0 < unit) (now : ℕ) :
    min target (now + unit * cap) ≤ now + unit * cappedWait unit cap target now := by
  rcases le_total cap ((target - now) ⌈/⌉ unit) with hcap | hcap
  · rw [cappedWait, min_eq_left hcap]
    exact min_le_right _ _
  · rw [cappedWait, min_eq_right hcap]
    have hceil : target - now ≤ unit * ((target - now) ⌈/⌉ unit) := le_smul_ceilDiv hunit
    exact (min_le_left _ _).trans (by omega)

theorem cappedWait_pos (hunit : 0 < unit) (hcap : 0 < cap) {now : ℕ} (hnow : now < target) :
    0 < cappedWait unit cap target now := by
  have hceil : target - now ≤ unit * ((target - now) ⌈/⌉ unit) := le_smul_ceilDiv hunit
  refine lt_min hcap (Nat.pos_of_ne_zero fun hzero => ?_)
  rw [hzero, Nat.mul_zero] at hceil
  omega

namespace Waits

/-- No hop is empty. -/
theorem lt_next (h : Waits unit cap target looks) (hunit : 0 < unit) (hcap : 0 < cap) {i : ℕ}
    (hi : looks i < target) : looks i < looks (i + 1) := by
  obtain ⟨now, hle, hnext⟩ := h i hi
  rcases Nat.lt_or_ge now target with hnow | hnow
  · have hpos := Nat.mul_pos hunit (cappedWait_pos hunit hcap hnow)
    omega
  · exact (hi.trans_le hnow).trans_le ((Nat.le_add_right _ _).trans hnext)

/-- A hop comes a cap nearer, or to the target. -/
theorem le_next (h : Waits unit cap target looks) (hunit : 0 < unit) {i : ℕ}
    (hi : looks i < target) : min target (looks i + unit * cap) ≤ looks (i + 1) := by
  obtain ⟨now, hle, hnext⟩ := h i hi
  exact (min_le_min_left _ (Nat.add_le_add_right hle _)).trans
    ((le_add_cappedWait hunit now).trans hnext)

theorem le_of_forall_lt (h : Waits unit cap target looks) (hunit : 0 < unit) {n : ℕ}
    (hlt : ∀ i < n, looks i < target) : min target (looks 0 + n * (unit * cap)) ≤ looks n := by
  induction n with
  | zero => simp
  | succ n ih =>
    have hahead := hlt n n.lt_succ_self
    have hn : looks 0 + n * (unit * cap) ≤ looks n :=
      (min_le_iff.mp (ih fun i hi => hlt i (hi.trans n.lt_succ_self))).resolve_left hahead.not_ge
    refine le_trans (min_le_min_left _ ?_) (h.le_next hunit hahead)
    rw [Nat.succ_mul, ← Nat.add_assoc]
    exact Nat.add_le_add_right hn _

/-- **The target is reached** after as many hops as caps fit into what is left, and not by an idle
hop. -/
theorem exists_reached (h : Waits unit cap target looks) (hunit : 0 < unit) (hcap : 0 < cap)
    {bound : ℕ} (hbound : target ≤ looks 0 + bound * (unit * cap)) :
    ∃ n ≤ bound, target ≤ looks n ∧ ∀ i < n, looks i < target ∧ looks i < looks (i + 1) := by
  have hex : ∃ n ≤ bound, target ≤ looks n := by
    by_contra! hno
    have hle := h.le_of_forall_lt hunit fun i (hi : i < bound) => hno i hi.le
    rw [min_eq_left hbound] at hle
    exact absurd (hno bound le_rfl) (not_lt.mpr hle)
  have hsome : ∃ n, target ≤ looks n := hex.imp fun _ hn => hn.2
  obtain ⟨m, hm, hreached⟩ := hex
  refine ⟨Nat.find hsome, (Nat.find_min' hsome hreached).trans hm, Nat.find_spec hsome,
    fun i hi => ?_⟩
  have hlt := not_le.mp (Nat.find_min hsome hi)
  exact ⟨hlt, h.lt_next hunit hcap hlt⟩

end Waits

end HayaSend
