import Mathlib.Data.List.Sort

/-!
# Stable sorts

A stable sort puts the last element of its input after all elements that may stand before it, so its
place is their number (`mem_take_insertionSort_concat`): the first entries of a sorted log keep an
entry that was just appended exactly when fewer entries precede it. What a permutation of the input
changes in the result is the order of its ties (`SortedStably.eq_iff`).
-/

namespace HayaSend

variable {α : Type*} {r : α → α → Prop} [DecidableRel r] [Std.Total r] [IsTrans α r]
  {xs : List α} {a : α}

theorem exists_split_insertionSort_concat (h : (xs ++ [a]).Nodup) :
    ∃ before after, (xs ++ [a]).insertionSort r = before ++ a :: after ∧
      before.length = xs.countP fun x => decide (r x a) := by
  have hperm := List.perm_insertionSort r (xs ++ [a])
  have hnodup : ((xs ++ [a]).insertionSort r).Nodup := hperm.nodup_iff.mpr h
  have hmem : a ∈ (xs ++ [a]).insertionSort r := hperm.mem_iff.mpr (by simp)
  obtain ⟨before, after, hsplit⟩ := List.append_of_mem hmem
  refine ⟨before, after, hsplit, ?_⟩
  have hsorted : (before ++ a :: after).Pairwise r :=
    hsplit ▸ List.pairwise_insertionSort r (xs ++ [a])
  rw [hsplit] at hperm hnodup
  -- the other elements are those of the input
  have hothers : xs.Perm (before ++ after) := by
    have hcons : (a :: (before ++ after)).Perm (xs ++ [a]) := List.perm_middle.symm.trans hperm
    exact ((hcons.trans (List.perm_append_singleton a xs)).cons_inv).symm
  have hbefore : ∀ x ∈ before, r x a := fun x hx =>
    (List.pairwise_append.mp hsorted).2.2 x hx a List.mem_cons_self
  have hafter : ∀ x ∈ after, ¬r x a := by
    intro x hx hxa
    have hpair : [x, a].Sublist (xs ++ [a]) :=
      (List.singleton_sublist.mpr (hothers.mem_iff.mpr (List.mem_append_right _ hx))).append
        (List.Sublist.refl [a])
    have hstable : [x, a].Sublist (before ++ a :: after) :=
      hsplit ▸ List.pair_sublist_insertionSort hxa hpair
    -- yet `x` is after `a`
    obtain ⟨-, hrest, hdisjoint⟩ := List.nodup_append.mp hnodup
    have hxbefore : x ∉ before := fun hmem =>
      hdisjoint x hmem x (List.mem_cons_of_mem _ hx) rfl
    have hno : (before ++ a :: after).Pairwise fun u v => ¬(u = x ∧ v = a) := by
      refine List.pairwise_append.mpr ⟨?_, List.pairwise_cons.mpr ⟨?_, ?_⟩, ?_⟩
      · exact List.pairwise_of_forall_mem_list fun u hu v _ huv => hxbefore (huv.1 ▸ hu)
      · exact fun v _ huv => (List.nodup_cons.mp hrest).1 (huv.1 ▸ hx)
      · exact List.pairwise_of_forall_mem_list fun u _ v hv huv =>
          (List.nodup_cons.mp hrest).1 (huv.2 ▸ hv)
      · exact fun u hu v _ huv => hxbefore (huv.1 ▸ hu)
    exact (List.pairwise_pair.mp (hno.sublist hstable)) ⟨rfl, rfl⟩
  rw [hothers.countP_eq, List.countP_append, List.countP_eq_length.mpr (by simpa using hbefore),
    List.countP_eq_zero.mpr (by simpa using hafter), Nat.add_zero]

/-- **Where the last element goes.** -/
theorem mem_take_insertionSort_concat (h : (xs ++ [a]).Nodup) (n : ℕ) :
    a ∈ ((xs ++ [a]).insertionSort r).take n ↔ (xs.countP fun x => decide (r x a)) < n := by
  obtain ⟨before, after, hsplit, hlength⟩ := exists_split_insertionSort_concat (r := r) h
  have hnot : a ∉ before := by
    have hnodup : (before ++ a :: after).Nodup :=
      hsplit ▸ (List.perm_insertionSort r (xs ++ [a])).nodup_iff.mpr h
    exact fun hmem => List.disjoint_of_nodup_append hnodup hmem List.mem_cons_self
  rw [hsplit, ← hlength, List.take_append]
  constructor
  · intro hmem
    by_contra hle
    rw [Nat.sub_eq_zero_of_le (not_lt.mp hle), List.take_zero, List.append_nil] at hmem
    exact hnot (List.mem_of_mem_take hmem)
  · intro hlt
    obtain ⟨m, hm⟩ := Nat.exists_eq_add_of_lt hlt
    refine List.mem_append_right _ ?_
    rw [show n - before.length = m + 1 by omega, List.take_succ_cons]
    exact List.mem_cons_self

/-! ## Ties -/

/-- A list in order, with the ties of another list in the order they have there. -/
structure SortedStably (r : α → α → Prop) (xs zs : List α) : Prop where
  perm : zs.Perm xs
  sorted : zs.Pairwise r
  stable : ∀ a b, r a b → [a, b].Sublist xs → [a, b].Sublist zs

theorem sortedStably_insertionSort (xs : List α) : SortedStably r xs (xs.insertionSort r) where
  perm := List.perm_insertionSort r xs
  sorted := List.pairwise_insertionSort r xs
  stable _ _ hab hsub := List.pair_sublist_insertionSort hab hsub

omit [DecidableRel r] [Std.Total r] [IsTrans α r]

/-- In a list without repetitions two elements have one order. -/
theorem not_pair_sublist_swap {b : α} (h : xs.Nodup) (hab : [a, b].Sublist xs) :
    ¬[b, a].Sublist xs := by
  induction xs with
  | nil => cases hab
  | cons x xs ih =>
    obtain ⟨hx, hxs⟩ := List.nodup_cons.mp h
    intro hba
    cases hab with
    | cons _ hab =>
      cases hba with
      | cons _ hba => exact ih hxs hab hba
      | cons_cons _ _ => exact hx (hab.subset (List.mem_cons_of_mem _ List.mem_cons_self))
    | cons_cons _ hab =>
      cases hba with
      | cons _ hba => exact hx (hba.subset (List.mem_cons_of_mem _ List.mem_cons_self))
      | cons_cons _ _ => exact hx (hab.subset List.mem_cons_self)

theorem pair_sublist_or_swap {b : α} (ha : a ∈ xs) (hb : b ∈ xs) (hne : a ≠ b) :
    [a, b].Sublist xs ∨ [b, a].Sublist xs := by
  obtain ⟨before, after, rfl⟩ := List.append_of_mem ha
  rw [List.mem_append, List.mem_cons] at hb
  rcases hb with hb | rfl | hb
  · exact .inr ((List.singleton_sublist.mpr hb).append
      (List.singleton_sublist.mpr List.mem_cons_self))
  · exact absurd rfl hne
  · exact .inl (((List.singleton_sublist.mpr hb).cons_cons a).trans
      (List.sublist_append_right before _))

namespace SortedStably

variable {ys zs zs' : List α}

theorem filter (h : SortedStably r xs zs) (p : α → Bool) :
    SortedStably r (xs.filter p) (zs.filter p) where
  perm := h.perm.filter p
  sorted := h.sorted.filter p
  stable a b hab hsub := by
    have hkept : [a, b].filter p = [a, b] :=
      List.filter_eq_self.mpr fun c hc => (List.mem_filter.mp (hsub.subset hc)).2
    rw [← hkept]
    exact (h.stable a b hab (hsub.trans List.filter_sublist)).filter p

theorem pair_of_not_swap {b : α} (hn : xs.Nodup) (hsub : [a, b].Sublist xs) (hperm : xs.Perm ys)
    (hnot : ¬[b, a].Sublist ys) : [a, b].Sublist ys := by
  have hne : a ≠ b := by
    have hpair := hn.sublist hsub
    simpa using hpair
  have hmem {c : α} (hc : c ∈ [a, b]) : c ∈ ys := hperm.mem_iff.mp (hsub.subset hc)
  exact (pair_sublist_or_swap (hmem List.mem_cons_self)
    (hmem (List.mem_cons_of_mem _ List.mem_cons_self)) hne).resolve_right hnot

/-- Elements of a stable sort that tie stand as they stand in the list. -/
theorem pairwise (h : SortedStably r xs zs) (hn : xs.Nodup) :
    zs.Pairwise fun a b => r a b ∧ (r b a → [a, b].Sublist xs) := by
  have hnodup : zs.Nodup := h.perm.nodup_iff.mpr hn
  rw [List.pairwise_iff_forall_sublist]
  intro a b hsub
  refine ⟨List.pairwise_iff_forall_sublist.mp h.sorted hsub, fun hba => ?_⟩
  exact pair_of_not_swap hnodup hsub h.perm fun hswap =>
    not_pair_sublist_swap hnodup hsub (h.stable b a hba hswap)

/-- **Stable sorts of a permuted list** agree exactly when its ties keep their order. -/
theorem eq_iff (h : SortedStably r xs zs) (h' : SortedStably r ys zs') (hperm : xs.Perm ys)
    (hn : xs.Nodup) : zs = zs' ↔
      ∀ a b, r a b → r b a → [a, b].Sublist xs → [a, b].Sublist ys := by
  have hn' : ys.Nodup := hperm.nodup_iff.mp hn
  constructor
  · rintro rfl a b hab hba hsub
    exact pair_of_not_swap hn hsub hperm fun hswap =>
      not_pair_sublist_swap (h.perm.nodup_iff.mpr hn) (h.stable a b hab hsub)
        (h'.stable b a hba hswap)
  · intro hties
    refine List.Perm.eq_of_pairwise (fun a b _ _ hab hba => ?_) (h.pairwise hn)
      ((h'.pairwise hn').imp fun {a b} hab => ⟨hab.1, fun hba => ?_⟩)
      (h.perm.trans (hperm.trans h'.perm.symm))
    · exact absurd (hba.2 hab.1) (not_pair_sublist_swap hn (hab.2 hba.1))
    · have hsub := hab.2 hba
      exact pair_of_not_swap hn' hsub hperm.symm fun hswap =>
        not_pair_sublist_swap hn' hsub (hties b a hba hab.1 hswap)

end SortedStably

end HayaSend
