import HayaSend.Foundations.OrderedMap

/-!
# Secondary indexes

Records of one map may have a key of another kind, at most one each. An index of that key holds
exactly the pairs of a record's key and its place (`IsIndex`), so that a key belongs to one record.
`reindex` is the update of an index for a record whose key changes: what it erases is given by the
caller, so the index stays exact when the caller knows the key the record had (`IsIndex.set`,
`IsIndex.erase`).
-/

namespace HayaSend

namespace OrderedMap

variable {κ α ν : Type*} [DecidableEq κ] [DecidableEq α] {records : OrderedMap κ ν}
  {key : ν → Option α} {index : OrderedMap α κ}

/-- The index holds exactly the keys of the records. -/
def IsIndex (records : OrderedMap κ ν) (key : ν → Option α) (index : OrderedMap α κ) : Prop :=
  ∀ a k, index.get a = some k ↔ ∃ r, records.get k = some r ∧ key r = some a

/-- The index after the key of the record at `k` became `next`, which was `previous`. -/
def reindex (index : OrderedMap α κ) (previous next : Option α) (k : κ) : OrderedMap α κ :=
  let released := match previous with
    | some a => if next = some a then index else index.erase a
    | none => index
  match next with
  | some a => released.set a k
  | none => released

omit [DecidableEq κ] in
theorem get_reindex (index : OrderedMap α κ) (previous next : Option α) (k : κ) (a : α) :
    (reindex index previous next k).get a =
      if next = some a then some k else if previous = some a then none else index.get a := by
  cases next with
  | none =>
    cases previous with
    | none => simp [reindex]
    | some b => simp [reindex, get_erase, eq_comm]
  | some c =>
    by_cases hca : c = a
    · simp [reindex, hca]
    · cases previous with
      | none => simp [reindex, get_set_ne _ _ (Ne.symm hca), hca]
      | some b =>
        by_cases hcb : c = b
        · subst hcb
          simp [reindex, get_set_ne _ _ (Ne.symm hca), hca]
        · simp [reindex, get_set_ne _ _ (Ne.symm hca), hca, hcb, get_erase, eq_comm (a := a) (b := b)]

namespace IsIndex

theorem empty : IsIndex (∅ : OrderedMap κ ν) key (∅ : OrderedMap α κ) := by
  intro a k
  simp

/-- A key belongs to one record. -/
theorem unique (h : IsIndex records key index) {a : α} {k k' : κ} {r r' : ν}
    (hr : records.get k = some r) (ha : key r = some a) (hr' : records.get k' = some r')
    (ha' : key r' = some a) : k = k' := by
  have hk := (h a k).mpr ⟨r, hr, ha⟩
  rw [(h a k').mpr ⟨r', hr', ha'⟩] at hk
  exact (Option.some.inj hk).symm

/-- **Writing a record** whose new key is free or its own. -/
theorem set (h : IsIndex records key index) {k : κ} {r : ν} {previous : Option α}
    (hprevious : (records.get k).bind key = previous)
    (hfree : ∀ a, key r = some a → ∀ k', index.get a = some k' → k' = k) :
    IsIndex (records.set k r) key (index.reindex previous (key r) k) := by
  intro a k'
  rw [get_reindex, get_set]
  by_cases hk : k' = k
  · subst hk
    rw [if_pos rfl]
    simp only [Option.some.injEq, exists_eq_left']
    constructor
    · intro hget
      split_ifs at hget with hnew hold
      · exact hnew
      · obtain ⟨r', hr', ha⟩ := (h a k').mp hget
        rw [hr', Option.bind_some, ha] at hprevious
        exact absurd hprevious.symm hold
    · intro hnew
      rw [if_pos hnew]
  · rw [if_neg hk]
    constructor
    · intro hget
      split_ifs at hget with hnew hold
      · exact absurd (Option.some.inj hget).symm hk
      · exact (h a k').mp hget
    · rintro ⟨r', hr', ha⟩
      have hget := (h a k').mpr ⟨r', hr', ha⟩
      have hnew : key r ≠ some a := fun hnew => hk (hfree a hnew k' hget)
      have hold : previous ≠ some a := by
        rintro rfl
        obtain ⟨r'', hr'', ha''⟩ := Option.bind_eq_some_iff.mp hprevious
        exact hk (h.unique hr' ha hr'' ha'')
      rw [if_neg hnew, if_neg hold]
      exact hget

/-- Writing a record that keeps its key. -/
theorem set_same (h : IsIndex records key index) {k : κ} {r r' : ν}
    (hr : records.get k = some r) (hkey : key r' = key r) :
    IsIndex (records.set k r') key index := by
  intro a k'
  rw [h a k', get_set]
  by_cases hk : k' = k
  · subst hk
    simp [hr, hkey]
  · rw [if_neg hk]

/-- **Removing a record.** -/
theorem erase (h : IsIndex records key index) {k : κ} {previous : Option α}
    (hprevious : (records.get k).bind key = previous) :
    IsIndex (records.erase k) key (index.reindex previous none k) := by
  intro a k'
  rw [get_reindex, get_erase, if_neg (Option.some_ne_none a).symm]
  by_cases hk : k' = k
  · subst hk
    rw [if_pos rfl]
    simp only [reduceCtorEq, false_and, exists_false, iff_false]
    intro hget
    split_ifs at hget with hold
    obtain ⟨r', hr', ha⟩ := (h a k').mp hget
    rw [hr', Option.bind_some, ha] at hprevious
    exact hold hprevious.symm
  · rw [if_neg hk]
    constructor
    · intro hget
      split_ifs at hget with hold
      exact (h a k').mp hget
    · rintro ⟨r', hr', ha⟩
      have hold : previous ≠ some a := by
        rintro rfl
        obtain ⟨r'', hr'', ha''⟩ := Option.bind_eq_some_iff.mp hprevious
        exact hk (h.unique hr' ha hr'' ha'')
      rw [if_neg hold]
      exact (h a k').mpr ⟨r', hr', ha⟩

end IsIndex

end OrderedMap

end HayaSend
