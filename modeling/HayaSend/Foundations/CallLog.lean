import Mathlib.Data.List.Basic
import Mathlib.Data.List.Nodup

/-!
# Logs of calls

Calls work side by side; some commit an operation, and the log has the committed operations with
the index of their call, oldest first. `CallLog` says that the log holds the committed calls, each
once. The rules are those of the steps of such a system: a call starts, moves on without
committing, or commits.
-/

namespace HayaSend

variable {γ κ : Type*}

/-- The log holds the committed calls, each once. -/
structure CallLog (op : γ → κ) (commits : γ → Prop) (calls : List γ) (log : List (ℕ × κ)) :
    Prop where
  nodup : (log.map Prod.fst).Nodup
  logged : ∀ i k, (i, k) ∈ log → ∃ c, calls[i]? = some c ∧ op c = k ∧ commits c
  committed : ∀ i c, calls[i]? = some c → commits c → (i, op c) ∈ log

namespace CallLog

variable {op : γ → κ} {commits : γ → Prop} {calls : List γ} {log : List (ℕ × κ)} {c c' : γ}
  {i : ℕ}

theorem empty : CallLog op commits [] [] :=
  ⟨List.nodup_nil, fun _ _ h => absurd h List.not_mem_nil, fun _ _ h => by cases h⟩

theorem mem_iff (h : CallLog op commits calls log) {k : κ} :
    (i, k) ∈ log ↔ ∃ c, calls[i]? = some c ∧ op c = k ∧ commits c := by
  refine ⟨h.logged i k, ?_⟩
  rintro ⟨c, hc, rfl, hcommits⟩
  exact h.committed i c hc hcommits

/-- A call starts. -/
theorem start (h : CallLog op commits calls log) (hc : ¬commits c) :
    CallLog op commits (calls ++ [c]) log := by
  refine ⟨h.nodup, fun i k hlogged => ?_, fun i c' hc' hcommits => ?_⟩
  · obtain ⟨c', hc', hrest⟩ := h.logged i k hlogged
    exact ⟨c', List.getElem?_append_left (List.getElem?_eq_some_iff.mp hc').1 ▸ hc', hrest⟩
  · rw [List.getElem?_append] at hc'
    split_ifs at hc'
    · exact h.committed i c' hc' hcommits
    · rw [List.getElem?_singleton] at hc'
      split_ifs at hc'
      exact absurd (Option.some.inj hc' ▸ hcommits) hc

theorem getElem?_set_cases {j : ℕ} {d : γ} (hd : (calls.set i c')[j]? = some d) :
    (i = j ∧ d = c') ∨ (i ≠ j ∧ calls[j]? = some d) := by
  by_cases hij : i = j
  · subst hij
    rw [List.getElem?_set_self'] at hd
    obtain ⟨d', -, rfl⟩ := Option.map_eq_some_iff.mp hd
    exact Or.inl ⟨rfl, rfl⟩
  · rw [List.getElem?_set_ne hij] at hd
    exact Or.inr ⟨hij, hd⟩

theorem getElem?_set_of_some (hc : calls[i]? = some c) : (calls.set i c')[i]? = some c' := by
  rw [List.getElem?_set_self (List.getElem?_eq_some_iff.mp hc).1]

/-- A call moves on, and is as far from its commit as before. -/
theorem set (h : CallLog op commits calls log) (hc : calls[i]? = some c) (hop : op c' = op c)
    (hcommits : commits c' ↔ commits c) : CallLog op commits (calls.set i c') log := by
  refine ⟨h.nodup, fun j k hlogged => ?_, fun j d hd hcommit => ?_⟩
  · obtain ⟨d, hd, hopd, hcommit⟩ := h.logged j k hlogged
    by_cases hij : i = j
    · subst hij
      obtain rfl := Option.some.inj (hc.symm.trans hd)
      exact ⟨c', getElem?_set_of_some hc, hop.trans hopd, hcommits.mpr hcommit⟩
    · exact ⟨d, by rw [List.getElem?_set_ne hij, hd], hopd, hcommit⟩
  · rcases getElem?_set_cases hd with ⟨rfl, rfl⟩ | ⟨-, hd⟩
    · rw [hop]
      exact h.committed i c hc (hcommits.mp hcommit)
    · exact h.committed j d hd hcommit

/-- **A call commits.** -/
theorem commit (h : CallLog op commits calls log) (hc : calls[i]? = some c)
    (hnot : ¬commits c) (hop : op c' = op c) (hcommits : commits c') :
    CallLog op commits (calls.set i c') (log ++ [(i, op c)]) := by
  refine ⟨?_, fun j k hlogged => ?_, fun j d hd hcommit => ?_⟩
  · rw [List.map_append]
    refine List.nodup_append'.mpr ⟨h.nodup, List.nodup_singleton _, ?_⟩
    rw [List.map_singleton, List.disjoint_singleton]
    intro hmem
    obtain ⟨⟨j, k⟩, hlogged, rfl⟩ := List.mem_map.mp hmem
    obtain ⟨d, hd, -, hcommit⟩ := h.logged j k hlogged
    exact hnot (Option.some.inj (hc.symm.trans hd) ▸ hcommit)
  · rcases List.mem_append.mp hlogged with hold | hnew
    · obtain ⟨d, hd, hopd, hcommit⟩ := h.logged j k hold
      by_cases hij : i = j
      · subst hij
        exact absurd (Option.some.inj (hc.symm.trans hd) ▸ hcommit) hnot
      · exact ⟨d, by rw [List.getElem?_set_ne hij, hd], hopd, hcommit⟩
    · obtain ⟨rfl, rfl⟩ := Prod.mk.inj (List.mem_singleton.mp hnew)
      exact ⟨c', getElem?_set_of_some hc, hop, hcommits⟩
  · rcases getElem?_set_cases hd with ⟨rfl, rfl⟩ | ⟨-, hd⟩
    · rw [hop]
      exact List.mem_append_right _ List.mem_cons_self
    · exact List.mem_append_left _ (h.committed j d hd hcommit)

end CallLog

end HayaSend
