import Mathlib.Data.List.Perm.Basic
import Mathlib.Data.List.Nodup
import Mathlib.Logic.Function.Basic

/-!
# Undo logs

A log with the old value of each key that was changed, and of no other. A change of a key that has
not changed yet extends it (`Undoes.record`), putting a value back takes its entry out
(`Undoes.restore`), and the keys that differ are always those of the log (`Undoes.ne_iff`), in
whatever order its entries stand.
-/

namespace HayaSend

variable {κ ν : Type*} {log log' : List (κ × ν)} {before now : κ → ν}

/-- The log undoes what happened between `before` and `now`. -/
structure Undoes (log : List (κ × ν)) (before now : κ → ν) : Prop where
  nodup : (log.map Prod.fst).Nodup
  recorded : ∀ entry ∈ log, before entry.1 = entry.2 ∧ now entry.1 ≠ entry.2
  kept : ∀ key, key ∉ log.map Prod.fst → now key = before key

namespace Undoes

theorem nil (before : κ → ν) : Undoes [] before before :=
  ⟨List.nodup_nil, fun _ h => absurd h List.not_mem_nil, fun _ _ => rfl⟩

theorem perm (h : Undoes log before now) (hperm : log.Perm log') : Undoes log' before now where
  nodup := (hperm.map _).nodup_iff.mp h.nodup
  recorded entry hentry := h.recorded entry (hperm.mem_iff.mpr hentry)
  kept key hkey := h.kept key fun hmem => hkey ((hperm.map _).mem_iff.mp hmem)

/-- **The keys that differ** are those of the log. -/
theorem ne_iff (h : Undoes log before now) (key : κ) :
    now key ≠ before key ↔ key ∈ log.map Prod.fst := by
  constructor
  · intro hne
    by_contra hkey
    exact hne (h.kept key hkey)
  · intro hkey
    obtain ⟨entry, hentry, rfl⟩ := List.mem_map.mp hkey
    obtain ⟨hbefore, hnow⟩ := h.recorded entry hentry
    rwa [hbefore]

theorem eq_of_nil (h : Undoes [] before now) : now = before :=
  funext fun key => h.kept key List.not_mem_nil

variable [DecidableEq κ]

/-- A first change of a key. -/
theorem record (h : Undoes log before now) {key : κ} (hkey : key ∉ log.map Prod.fst) {value : ν}
    (hvalue : now key ≠ value) :
    Undoes (log ++ [(key, now key)]) before (Function.update now key value) where
  nodup := by
    rw [List.map_append, List.nodup_append]
    refine ⟨h.nodup, List.nodup_singleton _, fun a ha b hb heq => ?_⟩
    rw [List.map_singleton, List.mem_singleton] at hb
    rw [heq, hb] at ha
    exact hkey ha
  recorded entry hentry := by
    rcases List.mem_append.mp hentry with hentry | hentry
    · have hne : entry.1 ≠ key := fun heq => hkey (heq ▸ List.mem_map_of_mem hentry)
      rw [Function.update_of_ne hne]
      exact h.recorded entry hentry
    · obtain rfl := List.mem_singleton.mp hentry
      rw [Function.update_self]
      exact ⟨(h.kept key hkey).symm, hvalue.symm⟩
  kept other hother := by
    rw [List.map_append, List.mem_append, not_or] at hother
    have hne : other ≠ key := fun heq => hother.2 (List.mem_singleton.mpr heq)
    rw [Function.update_of_ne hne]
    exact h.kept other hother.1

/-- A value that is put back. -/
theorem restore {key : κ} {value : ν} (h : Undoes ((key, value) :: log) before now) :
    Undoes log before (Function.update now key value) := by
  have hnodup := h.nodup
  rw [List.map_cons, List.nodup_cons] at hnodup
  refine ⟨hnodup.2, fun entry hentry => ?_, fun other hother => ?_⟩
  · have hmem : entry.1 ∈ log.map Prod.fst := List.mem_map_of_mem hentry
    have hne : entry.1 ≠ key := fun heq => hnodup.1 (heq ▸ hmem)
    rw [Function.update_of_ne hne]
    exact h.recorded entry (List.mem_cons_of_mem _ hentry)
  · by_cases heq : other = key
    · rw [heq, Function.update_self]
      exact (h.recorded _ List.mem_cons_self).1.symm
    · rw [Function.update_of_ne heq]
      refine h.kept other fun hmem => ?_
      rcases List.mem_cons.mp hmem with hkey | hkey
      · exact heq hkey
      · exact hother hkey

end Undoes

end HayaSend
