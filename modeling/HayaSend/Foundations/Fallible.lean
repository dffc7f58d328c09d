import Mathlib.Data.List.Forall2

/-!
# Fallible computations

`Except` as the source uses exceptions: checks that throw, sequences of steps of which the first
failure is the outcome, and traversals. The lemmas take a successful outcome apart.
-/

namespace HayaSend

variable {ε α β γ : Type}

/-- `if (bad) throw e` -/
def throwIf (bad : Bool) (e : ε) : Except ε Unit := if bad then .error e else .ok ()

@[simp] theorem throwIf_eq_ok {bad : Bool} {e : ε} {u : Unit} :
    throwIf bad e = .ok u ↔ bad = false := by
  cases bad <;> simp [throwIf]

theorem bind_eq_ok {x : Except ε α} {f : α → Except ε β} {b : β} :
    (x >>= f) = .ok b ↔ ∃ a, x = .ok a ∧ f a = .ok b := by
  cases x with
  | error e => simp [bind, Except.bind]
  | ok a => simp [bind, Except.bind]

@[simp] theorem ok_bind (a : α) (f : α → Except ε β) : (Except.ok a >>= f) = f a := rfl

@[simp] theorem error_bind (e : ε) (f : α → Except ε β) :
    (Except.error e >>= f) = Except.error e := rfl

@[simp] theorem pure_eq_ok (a b : α) : (pure a : Except ε α) = .ok b ↔ a = b := by
  simp [pure, Except.pure]

theorem toOption_eq_some {x : Except ε α} {a : α} : x.toOption = some a ↔ x = .ok a := by
  cases x <;> simp [Except.toOption]

theorem mapM_eq_ok {f : α → Except ε β} {xs : List α} {ys : List β} :
    xs.mapM f = .ok ys ↔ List.Forall₂ (fun x y => f x = .ok y) xs ys := by
  induction xs generalizing ys with
  | nil =>
    rw [List.mapM_nil, pure_eq_ok]
    constructor
    · rintro rfl
      exact .nil
    · intro h
      cases h
      rfl
  | cons x xs ih =>
    rw [List.mapM_cons, bind_eq_ok]
    constructor
    · rintro ⟨y, hy, h⟩
      obtain ⟨ys', hys, h⟩ := bind_eq_ok.mp h
      rw [pure_eq_ok] at h
      subst h
      exact .cons hy (ih.mp hys)
    · rintro (_ | ⟨hy, hys⟩)
      exact ⟨_, hy, bind_eq_ok.mpr ⟨_, ih.mpr hys, rfl⟩⟩

/-- A traversal that succeeds drops nothing. -/
theorem mapM_eq_ok_filterMap {f : α → Except ε β} {xs : List α} {ys : List β} :
    xs.mapM f = .ok ys ↔
      (∀ x ∈ xs, ∃ y, f x = .ok y) ∧ xs.filterMap (fun x => (f x).toOption) = ys := by
  induction xs generalizing ys with
  | nil => simp
  | cons x xs ih =>
    rw [List.mapM_cons, List.forall_mem_cons]
    cases hx : f x with
    | error e => simp
    | ok y =>
      rw [ok_bind, List.filterMap_cons_some (by rw [hx]; rfl), bind_eq_ok]
      constructor
      · rintro ⟨zs, hzs, h⟩
        rw [pure_eq_ok] at h
        obtain ⟨hall, rfl⟩ := ih.mp hzs
        exact ⟨⟨⟨y, rfl⟩, hall⟩, h⟩
      · rintro ⟨⟨-, hall⟩, rfl⟩
        exact ⟨_, ih.mpr ⟨hall, rfl⟩, rfl⟩

theorem forM_eq_ok {f : α → Except ε Unit} {xs : List α} :
    xs.forM f = .ok () ↔ ∀ x ∈ xs, f x = .ok () := by
  induction xs with
  | nil => simp
  | cons x xs ih =>
    have hcons : (x :: xs).forM f = f x >>= fun _ => xs.forM f := rfl
    rw [hcons, bind_eq_ok, List.forall_mem_cons, ih]
    exact ⟨fun ⟨_, hx, hxs⟩ => ⟨hx, hxs⟩, fun ⟨hx, hxs⟩ => ⟨(), hx, hxs⟩⟩

/-- A traversal that succeeds in the same way element by element. -/
theorem mapM_eq_ok_of_imp {f g : α → Except ε β} {xs : List α} {ys : List β}
    (h : xs.mapM f = .ok ys) (hfg : ∀ x ∈ xs, ∀ y, f x = .ok y → g x = .ok y) :
    xs.mapM g = .ok ys := by
  induction xs generalizing ys with
  | nil => exact h
  | cons x xs ih =>
    rw [List.mapM_cons] at h ⊢
    obtain ⟨y, hy, h⟩ := bind_eq_ok.mp h
    obtain ⟨ys', hys, h⟩ := bind_eq_ok.mp h
    exact bind_eq_ok.mpr ⟨y, hfg x List.mem_cons_self y hy, bind_eq_ok.mpr
      ⟨ys', ih hys fun x' hx' => hfg x' (List.mem_cons_of_mem _ hx'), h⟩⟩

/-- A traversal whose steps all return `g x` when they return. -/
theorem mapM_eq_ok_map {f : α → Except ε β} {g : α → β} {p : α → Prop} {xs : List α} {ys : List β}
    (h : ∀ x ∈ xs, ∀ y, f x = .ok y ↔ p x ∧ g x = y) :
    xs.mapM f = .ok ys ↔ (∀ x ∈ xs, p x) ∧ xs.map g = ys := by
  rw [mapM_eq_ok]
  induction xs generalizing ys with
  | nil => simp [eq_comm]
  | cons x xs ih =>
    have hxs : ∀ z ∈ xs, ∀ y, f z = .ok y ↔ p z ∧ g z = y :=
      fun z hz => h z (List.mem_cons_of_mem _ hz)
    rw [List.forall₂_cons_left_iff]
    constructor
    · rintro ⟨y, zs, hy, hzs, rfl⟩
      obtain ⟨hp, rfl⟩ := (h x List.mem_cons_self y).mp hy
      obtain ⟨hps, rfl⟩ := (ih hxs).mp hzs
      exact ⟨List.forall_mem_cons.mpr ⟨hp, hps⟩, rfl⟩
    · rintro ⟨hps, rfl⟩
      obtain ⟨hp, hps⟩ := List.forall_mem_cons.mp hps
      have hx := (h x List.mem_cons_self (g x)).mpr ⟨hp, rfl⟩
      exact ⟨g x, xs.map g, hx, (ih hxs).mpr ⟨hps, rfl⟩, rfl⟩

/-- A traversal of lookups that all find something. -/
theorem mapM_eq_some {f : α → Option β} {xs : List α} {ys : List β} :
    xs.mapM f = some ys ↔ xs.map f = ys.map some := by
  induction xs generalizing ys with
  | nil => cases ys <;> simp
  | cons x xs ih =>
    rw [List.mapM_cons]
    cases hx : f x with
    | none => cases ys <;> simp [hx]
    | some y =>
      cases ys with
      | nil => simp [Option.bind_eq_some_iff]
      | cons z zs =>
        simp only [Option.bind_eq_bind, Option.bind_some, Option.bind_eq_some_iff, ih,
          Option.pure_def, Option.some.injEq, List.cons.injEq, List.map_cons, hx]
        constructor
        · rintro ⟨ws, hws, rfl, rfl⟩
          exact ⟨rfl, hws⟩
        · rintro ⟨rfl, hzs⟩
          exact ⟨zs, hzs, rfl, rfl⟩

/-- A traversal of lookups each of which finds something. -/
theorem exists_mapM_eq_some {f : α → Option β} {xs : List α} (h : ∀ x ∈ xs, ∃ y, f x = some y) :
    ∃ ys, xs.mapM f = some ys := by
  induction xs with
  | nil => exact ⟨[], rfl⟩
  | cons x xs ih =>
    obtain ⟨y, hy⟩ := h x List.mem_cons_self
    obtain ⟨ys, hys⟩ := ih fun x' h' => h x' (List.mem_cons_of_mem _ h')
    exact ⟨y :: ys, by simp [List.mapM_cons, hy, hys]⟩

theorem mapM_option_congr {f g : α → Option β} {xs : List α} (h : ∀ x ∈ xs, f x = g x) :
    xs.mapM f = xs.mapM g := by
  refine Option.ext fun ys => ?_
  rw [mapM_eq_some, mapM_eq_some, List.map_congr_left h]

/-! ## The errors of a computation -/

/-- Every error the computation may end with has the property. -/
def ThrowsOnly (p : ε → Prop) (x : Except ε α) : Prop := ∀ e, x = .error e → p e

namespace ThrowsOnly

variable {p : ε → Prop}

theorem ok (a : α) : ThrowsOnly p (.ok a) := by
  intro e h
  cases h

theorem error {e : ε} (h : p e) : ThrowsOnly p (.error e : Except ε α) := by
  intro e' he
  cases he
  exact h

theorem throwIf {bad : Bool} {e : ε} (h : p e) : ThrowsOnly p (throwIf bad e) := by
  cases bad with
  | false => exact .ok ()
  | true => exact .error h

theorem bind {x : Except ε α} {f : α → Except ε β} (hx : ThrowsOnly p x)
    (hf : ∀ a, ThrowsOnly p (f a)) : ThrowsOnly p (x >>= f) := by
  cases x with
  | error e => exact .error (hx e rfl)
  | ok a => exact hf a

theorem mapM_mem {f : α → Except ε β} {xs : List α} (h : ∀ x ∈ xs, ThrowsOnly p (f x)) :
    ThrowsOnly p (xs.mapM f) := by
  induction xs with
  | nil => exact .ok []
  | cons x xs ih =>
    obtain ⟨hx, hxs⟩ := List.forall_mem_cons.mp h
    rw [List.mapM_cons]
    exact .bind hx fun y => .bind (ih hxs) fun ys => .ok (y :: ys)

theorem mapM {f : α → Except ε β} {xs : List α} (h : ∀ x, ThrowsOnly p (f x)) :
    ThrowsOnly p (xs.mapM f) :=
  mapM_mem fun x _ => h x

theorem forM {f : α → Except ε Unit} {xs : List α} (h : ∀ x, ThrowsOnly p (f x)) :
    ThrowsOnly p (xs.forM f) := by
  induction xs with
  | nil => exact .ok ()
  | cons x xs ih => exact .bind (h x) fun _ => ih

end ThrowsOnly

end HayaSend
