import Mathlib.Data.List.Induction
import Mathlib.Data.List.Nodup
import Mathlib.Data.List.Lemmas

/-!
# Insertion-ordered finite maps

The finite maps of the in-memory store keep their entries in the order in which the keys were
first set: setting a present key replaces its value in place, setting an absent key appends an
entry. Listing the values therefore has a fixed order, which `get` alone would not determine.

The entries of a map have distinct keys by construction (`OrderedMap.nodup`), so the lookup
lemmas need no side condition.
-/

namespace HayaSend

/-- A finite map from `κ` to `ν` with its entries in insertion order. -/
structure OrderedMap (κ ν : Type*) where
  entries : List (κ × ν)
  nodup : (entries.map Prod.fst).Nodup

namespace OrderedMap

variable {κ ν : Type*}

theorem ext_entries {m m' : OrderedMap κ ν} (h : m.entries = m'.entries) : m = m' := by
  cases m
  cases m'
  cases h
  rfl

/-- The empty map. -/
def empty : OrderedMap κ ν := ⟨[], List.nodup_nil⟩

instance : EmptyCollection (OrderedMap κ ν) := ⟨empty⟩

/-- The values in insertion order. -/
def values (m : OrderedMap κ ν) : List ν := m.entries.map Prod.snd

/-- The keys in insertion order. -/
def keys (m : OrderedMap κ ν) : List κ := m.entries.map Prod.fst

variable [DecidableEq κ]

instance [DecidableEq ν] : DecidableEq (OrderedMap κ ν) := fun m m' =>
  decidable_of_iff (m.entries = m'.entries) ⟨ext_entries, fun h => h ▸ rfl⟩

/-- The value at a key. -/
def get (m : OrderedMap κ ν) (k : κ) : Option ν :=
  (m.entries.find? fun e => e.1 = k).map Prod.snd

/-- Whether a key is present. -/
def has (m : OrderedMap κ ν) (k : κ) : Bool := m.entries.any fun e => e.1 = k

/-- The entries after setting `k` to `v`. -/
def setEntries (es : List (κ × ν)) (k : κ) (v : ν) : List (κ × ν) :=
  if es.any fun e => e.1 = k then es.map fun e => if e.1 = k then (k, v) else e
  else es ++ [(k, v)]

theorem keys_setEntries (es : List (κ × ν)) (k : κ) (v : ν) :
    (setEntries es k v).map Prod.fst =
      if k ∈ es.map Prod.fst then es.map Prod.fst else es.map Prod.fst ++ [k] := by
  have hany : (es.any fun e => e.1 = k) = decide (k ∈ es.map Prod.fst) := by
    rw [Bool.eq_iff_iff]
    simp
  unfold setEntries
  rw [hany]
  by_cases h : k ∈ es.map Prod.fst
  · simp only [h, decide_true, if_true, List.map_map]
    refine List.map_congr_left fun e _ => ?_
    by_cases he : e.1 = k <;> simp [he]
  · simp [h]

theorem nodup_setEntries {es : List (κ × ν)} (h : (es.map Prod.fst).Nodup) (k : κ) (v : ν) :
    ((setEntries es k v).map Prod.fst).Nodup := by
  rw [keys_setEntries]
  split_ifs with hk
  · exact h
  · exact List.nodup_append'.mpr ⟨h, List.nodup_singleton k, by simpa using hk⟩

/-- Set `k` to `v`: in place when `k` is present, else at the end. -/
def set (m : OrderedMap κ ν) (k : κ) (v : ν) : OrderedMap κ ν :=
  ⟨setEntries m.entries k v, nodup_setEntries m.nodup k v⟩

/-- The map of a list of entries, later entries winning. -/
def ofList (es : List (κ × ν)) : OrderedMap κ ν := es.foldl (fun m e => m.set e.1 e.2) ∅

/-! ## Lookup -/

theorem mem_keys_iff_has (m : OrderedMap κ ν) (k : κ) : k ∈ m.keys ↔ m.has k = true := by
  simp [keys, has]

theorem get_eq_some_iff (m : OrderedMap κ ν) (k : κ) (v : ν) :
    m.get k = some v ↔ (k, v) ∈ m.entries := by
  unfold get
  constructor
  · intro h
    obtain ⟨e, he, rfl⟩ := Option.map_eq_some_iff.mp h
    have hk : e.1 = k := by simpa using List.find?_some he
    have hm := List.mem_of_find?_eq_some he
    rwa [← hk]
  · intro h
    have hex : ∃ e ∈ m.entries, decide (e.1 = k) = true := ⟨_, h, by simp⟩
    obtain ⟨e, he⟩ := Option.isSome_iff_exists.mp (List.find?_isSome.mpr hex)
    have hk : e.1 = k := by simpa using List.find?_some he
    have hm := List.mem_of_find?_eq_some he
    -- distinct keys: the entry found is the given one
    have heq : e = (k, v) := List.inj_on_of_nodup_map m.nodup hm h hk
    rw [he, heq]
    rfl

/-- What holds of every value that is found holds of every entry. -/
theorem forall_get_iff {m : OrderedMap κ ν} {P : κ → ν → Prop} :
    (∀ k v, m.get k = some v → P k v) ↔ ∀ e ∈ m.entries, P e.1 e.2 :=
  ⟨fun h e he => h e.1 e.2 ((m.get_eq_some_iff _ _).mpr he),
    fun h k v hv => h (k, v) ((m.get_eq_some_iff _ _).mp hv)⟩

theorem get_eq_none_iff (m : OrderedMap κ ν) (k : κ) : m.get k = none ↔ m.has k = false := by
  simp [get, has]

theorem has_eq_true_iff (m : OrderedMap κ ν) (k : κ) : m.has k = true ↔ ∃ v, m.get k = some v := by
  rw [← Option.isSome_iff_exists]
  cases h : m.get k with
  | none => simpa using (get_eq_none_iff m k).mp h
  | some v =>
    have : m.has k ≠ false := fun hf => by simp [(get_eq_none_iff m k).mpr hf] at h
    simpa using this

theorem mem_values_iff (m : OrderedMap κ ν) (v : ν) : v ∈ m.values ↔ ∃ k, m.get k = some v := by
  simp [values, get_eq_some_iff]

@[simp] theorem get_empty (k : κ) : (∅ : OrderedMap κ ν).get k = none := rfl

theorem get_set (m : OrderedMap κ ν) (k : κ) (v : ν) (k' : κ) :
    (m.set k v).get k' = if k' = k then some v else m.get k' := by
  ext w
  rw [get_eq_some_iff]
  simp only [set, setEntries]
  by_cases h : (m.entries.any fun e => e.1 = k) = true
  · rw [if_pos h]
    simp only [List.mem_map]
    constructor
    · rintro ⟨e, he, heq⟩
      by_cases hk : e.1 = k
      · rw [if_pos hk, Prod.mk.injEq] at heq
        simp [heq.1.symm, heq.2]
      · rw [if_neg hk] at heq
        subst heq
        rw [if_neg hk]
        exact (get_eq_some_iff m _ _).mpr he
    · intro hw
      by_cases hk : k' = k
      · rw [if_pos hk, Option.some.injEq] at hw
        obtain ⟨e, he, hek⟩ := List.any_eq_true.mp h
        exact ⟨e, he, by rw [if_pos (by simpa using hek), hk, hw]⟩
      · rw [if_neg hk] at hw
        exact ⟨(k', w), (get_eq_some_iff m _ _).mp hw, by rw [if_neg hk]⟩
  · rw [if_neg h]
    have hnone : m.get k = none :=
      (get_eq_none_iff m k).mpr (by rw [has, ← Bool.not_eq_true]; exact h)
    by_cases hk : k' = k
    · subst hk
      have : ∀ u, (k', u) ∉ m.entries := fun u hu => by
        simp [(get_eq_some_iff m k' u).mpr hu] at hnone
      simp [this, eq_comm]
    · simp [hk, get_eq_some_iff]

@[simp] theorem get_set_self (m : OrderedMap κ ν) (k : κ) (v : ν) : (m.set k v).get k = some v := by
  rw [get_set, if_pos rfl]

theorem get_set_ne (m : OrderedMap κ ν) {k k' : κ} (v : ν) (h : k' ≠ k) :
    (m.set k v).get k' = m.get k' := by
  rw [get_set, if_neg h]

/-- What holds of every entry holds still when it holds of the one that is set. -/
theorem forall_get_set {m : OrderedMap κ ν} {P : κ → ν → Prop}
    (h : ∀ k v, m.get k = some v → P k v) {k : κ} {v : ν} (hv : P k v) :
    ∀ k' w, (m.set k v).get k' = some w → P k' w := by
  intro k' w hw
  rw [get_set] at hw
  split_ifs at hw with heq
  · rw [heq, ← Option.some.inj hw]
    exact hv
  · exact h k' w hw

/-- The values of keys that are all present. -/
theorem exists_map_get (m : OrderedMap κ ν) {ks : List κ} (h : ∀ k ∈ ks, ∃ v, m.get k = some v) :
    ∃ vs : List ν, ks.map m.get = vs.map some := by
  induction ks with
  | nil => exact ⟨[], rfl⟩
  | cons k ks ih =>
    obtain ⟨v, hv⟩ := h k List.mem_cons_self
    obtain ⟨vs, hvs⟩ := ih fun k' h' => h k' (List.mem_cons_of_mem _ h')
    exact ⟨v :: vs, by rw [List.map_cons, List.map_cons, hv, hvs]⟩

/-- A present key stays present. -/
theorem exists_get_set (m : OrderedMap κ ν) {k : κ} (h : ∃ v, m.get k = some v) (k' : κ) (w : ν) :
    ∃ v, (m.set k' w).get k = some v := by
  rw [get_set]
  split_ifs
  · exact ⟨w, rfl⟩
  · exact h

/-! ## Setting several values -/

/-- Set every value of a list at its own key. -/
def setAll (key : ν → κ) (m : OrderedMap κ ν) (vs : List ν) : OrderedMap κ ν :=
  vs.foldl (fun m v => m.set (key v) v) m

theorem get_setAll_of_notMem {key : ν → κ} {vs : List ν} {k : κ} (h : k ∉ vs.map key)
    (m : OrderedMap κ ν) : (setAll key m vs).get k = m.get k := by
  induction vs generalizing m with
  | nil => rfl
  | cons v vs ih =>
    simp only [List.map_cons, List.mem_cons, not_or] at h
    exact (ih h.2 (m.set (key v) v)).trans (get_set_ne m v h.1)

theorem get_setAll_of_mem {key : ν → κ} {vs : List ν} (hn : (vs.map key).Nodup) {v : ν}
    (h : v ∈ vs) (m : OrderedMap κ ν) : (setAll key m vs).get (key v) = some v := by
  induction vs generalizing m with
  | nil => cases h
  | cons w vs ih =>
    obtain ⟨hw, hn⟩ := List.nodup_cons.mp hn
    rcases List.mem_cons.mp h with rfl | h
    · exact (get_setAll_of_notMem hw _).trans (get_set_self m _ _)
    · exact ih hn h (m.set (key w) w)

theorem get_setAll_cases {key : ν → κ} (m : OrderedMap κ ν) (vs : List ν) {k : κ} {v : ν}
    (h : (setAll key m vs).get k = some v) : m.get k = some v ∨ key v = k := by
  induction vs generalizing m with
  | nil => exact Or.inl h
  | cons w vs ih =>
    rcases ih (m.set (key w) w) h with h | h
    · rw [get_set] at h
      split_ifs at h with hk
      · rw [Option.some.injEq] at h
        exact Or.inr (h ▸ hk.symm)
      · exact Or.inl h
    · exact Or.inr h

theorem exists_get_setAll {key : ν → κ} (m : OrderedMap κ ν) (vs : List ν) {k : κ}
    (h : ∃ v, m.get k = some v) : ∃ v, (setAll key m vs).get k = some v := by
  induction vs generalizing m with
  | nil => exact h
  | cons w vs ih => exact ih (m.set (key w) w) (m.exists_get_set h _ _)

/-! ## Insertion under a new key, and removal -/

/-- Insert a row under a primary key, refused when the key is taken. -/
def insertRow (m : OrderedMap κ ν) (k : κ) (v : ν) : Option (OrderedMap κ ν) :=
  if m.has k then none else some (m.set k v)

theorem insertRow_of_absent {m : OrderedMap κ ν} {k : κ} (h : m.get k = none) (v : ν) :
    m.insertRow k v = some (m.set k v) := by
  rw [insertRow, (get_eq_none_iff m k).mp h]
  rfl

theorem insertRow_of_present {m : OrderedMap κ ν} {k : κ} {w : ν} (h : m.get k = some w) (v : ν) :
    m.insertRow k v = none := by
  rw [insertRow, (has_eq_true_iff m k).mpr ⟨w, h⟩]
  rfl

theorem insertRow_eq_some {m m' : OrderedMap κ ν} {k : κ} {v : ν} (h : m.insertRow k v = some m') :
    m.get k = none ∧ m' = m.set k v := by
  unfold insertRow at h
  split_ifs at h with hk
  exact ⟨(get_eq_none_iff m k).mpr (by simpa using hk), (Option.some.inj h).symm⟩

/-- Inserting a list of rows one after the other sets them all, when each is free to be inserted
and stays so as the others are. -/
theorem foldlM_eq_setAll {key : ν → κ} {insert : OrderedMap κ ν → ν → Option (OrderedMap κ ν)}
    (free : OrderedMap κ ν → ν → Prop) {apart : ν → ν → Prop}
    (hinsert : ∀ m v, free m v → insert m v = some (m.set (key v) v))
    (hkeep : ∀ m v w, apart v w → free m w → free (m.set (key v) v) w)
    {vs : List ν} {m : OrderedMap κ ν} (hfree : ∀ v ∈ vs, free m v) (hapart : vs.Pairwise apart) :
    vs.foldlM insert m = some (setAll key m vs) := by
  induction vs generalizing m with
  | nil => rfl
  | cons v vs ih =>
    obtain ⟨hv, hvs⟩ := List.pairwise_cons.mp hapart
    rw [List.foldlM_cons, hinsert m v (hfree v List.mem_cons_self)]
    exact ih (fun w hw => hkeep m v w (hv w hw) (hfree w (List.mem_cons_of_mem _ hw))) hvs

/-- The map without the entry of `k`. -/
def erase (m : OrderedMap κ ν) (k : κ) : OrderedMap κ ν :=
  ⟨m.entries.filter fun e => e.1 ≠ k, m.nodup.sublist (List.filter_sublist.map Prod.fst)⟩

theorem get_erase (m : OrderedMap κ ν) (k k' : κ) :
    (m.erase k).get k' = if k' = k then none else m.get k' := by
  ext w
  rw [get_eq_some_iff]
  split_ifs with hk
  · simp [erase, hk]
  · simp [erase, hk, get_eq_some_iff]

/-! ## Statements over all entries -/

/-- Change the values that a condition selects. -/
def updateWhere (m : OrderedMap κ ν) (p : κ → ν → Bool) (f : ν → ν) : OrderedMap κ ν where
  entries := m.entries.map fun e => (e.1, if p e.1 e.2 then f e.2 else e.2)
  nodup := by
    rw [List.map_map]
    exact m.nodup

/-- Remove the entries that a condition selects. -/
def eraseWhere (m : OrderedMap κ ν) (p : κ → ν → Bool) : OrderedMap κ ν :=
  ⟨m.entries.filter fun e => !p e.1 e.2, m.nodup.sublist (List.filter_sublist.map Prod.fst)⟩

theorem get_updateWhere (m : OrderedMap κ ν) (p : κ → ν → Bool) (f : ν → ν) (k : κ) :
    (m.updateWhere p f).get k = (m.get k).map fun v => if p k v then f v else v := by
  ext w
  rw [get_eq_some_iff, Option.map_eq_some_iff]
  simp only [updateWhere, List.mem_map, Prod.mk.injEq]
  constructor
  · rintro ⟨e, he, rfl, rfl⟩
    exact ⟨e.2, (get_eq_some_iff m _ _).mpr he, rfl⟩
  · rintro ⟨v, hv, rfl⟩
    exact ⟨(k, v), (get_eq_some_iff m _ _).mp hv, rfl, rfl⟩

theorem get_eraseWhere (m : OrderedMap κ ν) (p : κ → ν → Bool) (k : κ) :
    (m.eraseWhere p).get k = (m.get k).filter fun v => !p k v := by
  ext w
  rw [get_eq_some_iff, Option.filter_eq_some_iff, get_eq_some_iff]
  simp [eraseWhere]

/-! ## The list of values -/

theorem values_set_of_absent (m : OrderedMap κ ν) {k : κ} (v : ν) (h : m.get k = none) :
    (m.set k v).values = m.values ++ [v] := by
  have hany : (m.entries.any fun e => e.1 = k) = false := (get_eq_none_iff m k).mp h
  simp [values, set, setEntries, hany]

/-- Setting a present key replaces its value where it stands; `p` recognises the entries of `k`
by their value. -/
theorem values_set_of_present (m : OrderedMap κ ν) {k : κ} (v : ν) {u : ν} (h : m.get k = some u)
    (p : ν → Bool) (hp : ∀ k' w, m.get k' = some w → (p w = true ↔ k' = k)) :
    (m.set k v).values = m.values.map fun w => if p w then v else w := by
  have hany : (m.entries.any fun e => e.1 = k) = true := by
    simpa using ⟨u, (get_eq_some_iff m k u).mp h⟩
  simp only [values, set, setEntries, hany, if_true, List.map_map]
  refine List.map_congr_left fun e he => ?_
  have := hp e.1 e.2 ((get_eq_some_iff m _ _).mpr he)
  by_cases hk : e.1 = k
  · simp [hk, this.mpr hk]
  · have hpe : p e.2 = false := by simpa using fun hpe => hk (this.mp hpe)
    simp [hk, hpe]

/-- Setting a present key changes the entry where it stands. -/
theorem entries_set_of_present {m : OrderedMap κ ν} {k : κ} {u : ν} (h : m.get k = some u)
    (v : ν) : ∃ before after, m.entries = before ++ (k, u) :: after ∧
      (m.set k v).entries = before ++ (k, v) :: after := by
  have hmem : (k, u) ∈ m.entries := (get_eq_some_iff m k u).mp h
  obtain ⟨before, after, hsplit⟩ := List.append_of_mem hmem
  refine ⟨before, after, hsplit, ?_⟩
  have hn := m.nodup
  rw [hsplit, List.map_append, List.map_cons, List.nodup_append', List.nodup_cons] at hn
  obtain ⟨-, ⟨hafter, -⟩, hbefore⟩ := hn
  have hkeep : ∀ es : List (κ × ν), k ∉ es.map Prod.fst →
      es.map (fun e => if e.1 = k then (k, v) else e) = es := by
    intro es hes
    refine (List.map_congr_left fun e he => if_neg fun heq => hes ?_).trans (List.map_id es)
    rw [← heq]
    exact List.mem_map_of_mem he
  have hany : (m.entries.any fun e => e.1 = k) = true :=
    List.any_eq_true.mpr ⟨(k, u), hmem, by simp⟩
  simp only [set, setEntries, hany, if_true]
  rw [hsplit, List.map_append, List.map_cons, hkeep after hafter,
    hkeep before fun hk => List.disjoint_left.mp hbefore hk List.mem_cons_self, if_pos rfl]

/-- Setting a key takes the value it had out of a count, and the new one in. -/
theorem countP_values_set (m : OrderedMap κ ν) (k : κ) (v : ν) (p : ν → Bool) :
    (m.set k v).values.countP p + (if (m.get k).any p then 1 else 0) =
      m.values.countP p + if p v then 1 else 0 := by
  cases hu : m.get k with
  | none => simp [values_set_of_absent m v hu, List.countP_append]
  | some u =>
    obtain ⟨before, after, hm, hset⟩ := entries_set_of_present hu v
    rw [values, values, hm, hset]
    simp only [List.map_append, List.map_cons, List.countP_append, List.countP_cons,
      Option.any_some]
    omega

theorem get_ofList_append (es : List (κ × ν)) (k : κ) (v : ν) :
    (ofList (es ++ [(k, v)])) = (ofList es).set k v := by
  simp [ofList]

/-- What a map of entries holds is among them. -/
theorem mem_of_get_ofList {es : List (κ × ν)} {k : κ} {v : ν} (h : (ofList es).get k = some v) :
    (k, v) ∈ es := by
  induction es using List.reverseRecOn with
  | nil => cases h
  | append_singleton es e ih =>
    rw [get_ofList_append, get_set] at h
    split_ifs at h with hk
    · cases h
      exact List.mem_append_right _ (List.mem_singleton.mpr (Prod.ext hk rfl))
    · exact List.mem_append_left _ (ih h)

/-- In a list of entries with distinct keys, every entry is found. -/
theorem get_ofList_of_mem {es : List (κ × ν)} (hn : (es.map Prod.fst).Nodup) {k : κ} {v : ν}
    (h : (k, v) ∈ es) : (ofList es).get k = some v := by
  induction es using List.reverseRecOn with
  | nil => simp at h
  | append_singleton es e ih =>
    rw [List.map_append, List.nodup_append'] at hn
    obtain ⟨hn, -, hd⟩ := hn
    rw [get_ofList_append]
    rcases List.mem_append.mp h with h | h
    · have hne : k ≠ e.1 := fun hk => by
        refine List.disjoint_left.mp hd (List.mem_map_of_mem h) ?_
        simp [hk]
      rw [get_set_ne _ _ hne, ih hn h]
    · obtain rfl : (k, v) = e := by simpa using h
      exact get_set_self _ _ _

/-- A list of entries with distinct keys is the list of entries. -/
theorem entries_ofList {es : List (κ × ν)} (hn : (es.map Prod.fst).Nodup) :
    (ofList es).entries = es := by
  induction es using List.reverseRecOn with
  | nil => rfl
  | append_singleton es e ih =>
    rw [List.map_append, List.nodup_append'] at hn
    obtain ⟨hn, -, hd⟩ := hn
    have hany : (es.any fun e' => e'.1 = e.1) = false := by
      rw [List.any_eq_false]
      intro e' he' heq
      exact List.disjoint_left.mp hd (List.mem_map_of_mem he') (by simpa using heq)
    rw [get_ofList_append]
    simp only [set, setEntries, ih hn, hany, Bool.false_eq_true, if_false]

/-- Values that know their keys, one for each. -/
theorem values_ofList {key : ν → κ} {xs : List ν} (hn : (xs.map key).Nodup) :
    (ofList (xs.map fun x => (key x, x))).values = xs := by
  have hfst : ((xs.map fun x => (key x, x)).map Prod.fst).Nodup := by
    rw [List.map_map]
    exact hn
  rw [values, entries_ofList hfst, List.map_map]
  exact List.map_id xs

/-- Values that know their keys. -/
theorem map_values_eq_keys {m : OrderedMap κ ν} {f : ν → κ}
    (h : ∀ k v, m.get k = some v → f v = k) : m.values.map f = m.keys := by
  rw [values, keys, List.map_map]
  exact List.map_congr_left fun e he => h e.1 e.2 ((get_eq_some_iff m _ _).mpr he)

/-! ## Mapped values -/

/-- The map with every value mapped. -/
def mapValues {μ : Type*} (f : ν → μ) (m : OrderedMap κ ν) : OrderedMap κ μ where
  entries := m.entries.map fun e => (e.1, f e.2)
  nodup := by
    rw [List.map_map]
    exact m.nodup

section MapValues

variable {μ : Type*} (f : ν → μ) (m : OrderedMap κ ν)

@[simp] theorem get_mapValues (k : κ) : (m.mapValues f).get k = (m.get k).map f := by
  ext w
  rw [get_eq_some_iff, Option.map_eq_some_iff]
  simp only [mapValues, List.mem_map, Prod.mk.injEq]
  constructor
  · rintro ⟨e, he, rfl, rfl⟩
    exact ⟨e.2, (get_eq_some_iff m _ _).mpr he, rfl⟩
  · rintro ⟨v, hv, rfl⟩
    exact ⟨(k, v), (get_eq_some_iff m _ _).mp hv, rfl, rfl⟩

theorem mapValues_set (k : κ) (v : ν) : (m.set k v).mapValues f = (m.mapValues f).set k (f v) := by
  refine ext_entries ?_
  have hany : ((m.entries.map fun e => (e.1, f e.2)).any fun e => e.1 = k) =
      m.entries.any fun e => e.1 = k := List.any_map
  simp only [mapValues, set, setEntries, hany]
  split_ifs with hk
  · rw [List.map_map, List.map_map]
    refine List.map_congr_left fun e _ => ?_
    by_cases he : e.1 = k <;> simp [he]
  · rw [List.map_append, List.map_singleton]

omit [DecidableEq κ] in
/-- An update of the mapped values, where it maps the update of the values. -/
theorem mapValues_updateWhere {p : κ → ν → Bool} {g : ν → ν} {p' : κ → μ → Bool} {g' : μ → μ}
    (hp : ∀ k v, p' k (f v) = p k v) (hg : ∀ k v, p k v = true → g' (f v) = f (g v)) :
    (m.mapValues f).updateWhere p' g' = (m.updateWhere p g).mapValues f := by
  refine ext_entries ?_
  simp only [mapValues, updateWhere, List.map_map]
  refine List.map_congr_left fun e _ => ?_
  simp only [Function.comp_apply, hp]
  split_ifs with h
  · rw [hg e.1 e.2 h]
  · rfl

omit [DecidableEq κ] in
theorem mapValues_eraseWhere {p : κ → ν → Bool} {p' : κ → μ → Bool}
    (hp : ∀ k v, p' k (f v) = p k v) :
    (m.mapValues f).eraseWhere p' = (m.eraseWhere p).mapValues f := by
  refine ext_entries ?_
  simp only [mapValues, eraseWhere, List.filter_map]
  exact congrArg _ (List.filter_congr fun e _ => congrArg _ (hp e.1 e.2))

end MapValues

end OrderedMap

/-- A list without its repetitions has none. -/
theorem nodup_eraseDups {α : Type} [DecidableEq α] (xs : List α) : xs.eraseDups.Nodup := by
  induction hn : xs.length using Nat.strong_induction_on generalizing xs with
  | _ n ih =>
    cases xs with
    | nil => exact List.nodup_nil
    | cons x xs =>
      have hshorter : (xs.filter fun y => !y == x).length < n := by
        have hle := List.length_filter_le (fun y => !y == x) xs
        rw [← hn, List.length_cons]
        omega
      rw [List.eraseDups_cons, List.nodup_cons, List.mem_eraseDups]
      exact ⟨by simp, ih _ hshorter _ rfl⟩

end HayaSend
