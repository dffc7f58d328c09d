import Mathlib.Data.List.Basic

/-!
# Labelled transition systems

A system is a set of initial states and a partial step function: the label of a step carries
every choice of the environment, so a run is determined by its labels. The rules below are the
ones the concurrent parts of the development use:

* `Reachable.invariant`: what holds initially and is kept by every step holds in every reachable
  state;
* `ReachableWhere.invariant`: the same along the runs whose steps all meet a condition;
* `exists_reachable_of_run`: a concrete list of labels as a reachability witness;
* `serial_history`: a system whose steps each leave a view unchanged or apply one logged
  operation to it has, in every reachable state, the view of the serial execution of its log.
-/

namespace HayaSend

/-- A transition system with states `σ` and step labels `ℓ`. -/
structure TransitionSystem (σ ℓ : Type*) where
  init : σ → Prop
  step : σ → ℓ → Option σ

namespace TransitionSystem

variable {σ ℓ : Type*} (T : TransitionSystem σ ℓ)

/-- The state reached by the labels `ls`, in order, when every step is enabled. -/
def run (s : σ) : List ℓ → Option σ
  | [] => some s
  | l :: ls => (T.step s l).bind fun s' => run s' ls

/-- The states on runs whose steps all meet the condition `C` on the state before the step and
its label. -/
inductive ReachableWhere (C : σ → ℓ → Prop) : σ → Prop
  | init {s : σ} : T.init s → ReachableWhere C s
  | step {s s' : σ} {l : ℓ} :
      ReachableWhere C s → C s l → T.step s l = some s' → ReachableWhere C s'

/-- The states on any run. -/
def Reachable (s : σ) : Prop := T.ReachableWhere (fun _ _ => True) s

variable {T} {C : σ → ℓ → Prop}

theorem Reachable.of_init {s : σ} (h : T.init s) : T.Reachable s := .init h

theorem Reachable.tail {s s' : σ} {l : ℓ} (h : T.Reachable s) (hs : T.step s l = some s') :
    T.Reachable s' := .step h trivial hs

theorem ReachableWhere.reachable {s : σ} (h : T.ReachableWhere C s) : T.Reachable s := by
  induction h with
  | init h => exact .of_init h
  | step _ _ hs ih => exact ih.tail hs

theorem ReachableWhere.mono {D : σ → ℓ → Prop} (hcd : ∀ s l, C s l → D s l) {s : σ}
    (h : T.ReachableWhere C s) : T.ReachableWhere D s := by
  induction h with
  | init h => exact .init h
  | step _ hc hs ih => exact .step ih (hcd _ _ hc) hs

/-- **The invariant rule** along the runs whose steps meet `C`. The step case may use that the
state before it lies on such a run. -/
theorem ReachableWhere.invariant {I : σ → Prop} (h₀ : ∀ s, T.init s → I s)
    (hstep : ∀ s s' l, T.ReachableWhere C s → I s → C s l → T.step s l = some s' → I s')
    {s : σ} (h : T.ReachableWhere C s) : I s := by
  induction h with
  | init h => exact h₀ _ h
  | step hr hc hs ih => exact hstep _ _ _ hr ih hc hs

/-- **The invariant rule** along all runs. -/
theorem Reachable.invariant {I : σ → Prop} (h₀ : ∀ s, T.init s → I s)
    (hstep : ∀ s s' l, T.Reachable s → I s → T.step s l = some s' → I s')
    {s : σ} (h : T.Reachable s) : I s :=
  ReachableWhere.invariant h₀ (fun s s' l hr hi _ hs => hstep s s' l hr hi hs) h

theorem run_append (s : σ) (ls ls' : List ℓ) :
    T.run s (ls ++ ls') = (T.run s ls).bind fun s' => T.run s' ls' := by
  induction ls generalizing s with
  | nil => rfl
  | cons l ls ih =>
    simp only [List.cons_append, run]
    cases T.step s l with
    | none => rfl
    | some s' => exact ih s'

/-- A run from a reachable state ends in a reachable state. -/
theorem Reachable.run {s s' : σ} {ls : List ℓ} (h : T.Reachable s) (hr : T.run s ls = some s') :
    T.Reachable s' := by
  induction ls generalizing s with
  | nil =>
    obtain rfl : s = s' := by simpa [TransitionSystem.run] using hr
    exact h
  | cons l ls ih =>
    obtain ⟨t, ht, hr⟩ := Option.bind_eq_some_iff.mp hr
    exact ih (h.tail ht) hr

/-- A concrete run as a reachability witness. -/
theorem reachable_of_run {s s' : σ} {ls : List ℓ} (h₀ : T.init s) (hr : T.run s ls = some s') :
    T.Reachable s' :=
  (Reachable.of_init h₀).run hr

/-- A run whose last state passes a test shows that some reachable state does. -/
theorem exists_reachable_of_run {s : σ} {ls : List ℓ} {p : σ → Bool} (h₀ : T.init s)
    (h : (T.run s ls).any p = true) : ∃ s', T.Reachable s' ∧ p s' = true := by
  cases hr : T.run s ls with
  | none =>
    rw [hr] at h
    cases h
  | some s' =>
    rw [hr] at h
    exact ⟨s', reachable_of_run h₀ hr, h⟩

/-- The state reached by the labels `ls` when every step is enabled and meets `c`. -/
def runWhere (T : TransitionSystem σ ℓ) (c : σ → ℓ → Bool) (s : σ) : List ℓ → Option σ
  | [] => some s
  | l :: ls => if c s l then (T.step s l).bind fun s' => runWhere T c s' ls else none

theorem ReachableWhere.runWhere {c : σ → ℓ → Bool} {s s' : σ} {ls : List ℓ}
    (h : T.ReachableWhere (fun s l => c s l = true) s) (hr : T.runWhere c s ls = some s') :
    T.ReachableWhere (fun s l => c s l = true) s' := by
  induction ls generalizing s with
  | nil =>
    obtain rfl : s = s' := by simpa [TransitionSystem.runWhere] using hr
    exact h
  | cons l ls ih =>
    simp only [TransitionSystem.runWhere] at hr
    split_ifs at hr with hc
    obtain ⟨t, ht, hr⟩ := Option.bind_eq_some_iff.mp hr
    exact ih (.step h hc ht) hr

/-- The same along the runs whose steps all meet a decidable condition. -/
theorem exists_reachableWhere_of_run {c : σ → ℓ → Bool} {s : σ} {ls : List ℓ} {p : σ → Bool}
    (h₀ : T.init s) (h : (T.runWhere c s ls).any p = true) :
    ∃ s', T.ReachableWhere (fun s l => c s l = true) s' ∧ p s' = true := by
  cases hr : T.runWhere c s ls with
  | none =>
    rw [hr] at h
    cases h
  | some s' =>
    rw [hr] at h
    exact ⟨s', (ReachableWhere.init h₀).runWhere hr, h⟩

/-! ## Serial histories -/

section Serial

variable {α κ : Type*}

/-- The serial execution of a list of operations, each applied to the state the one before it
left. -/
def serial (apply : α → κ → Option α) (a : α) : List κ → Option α
  | [] => some a
  | k :: ks => (apply a k).bind fun a' => serial apply a' ks

theorem serial_concat (apply : α → κ → Option α) (a : α) (ks : List κ) (k : κ) :
    serial apply a (ks ++ [k]) = (serial apply a ks).bind fun a' => apply a' k := by
  induction ks generalizing a with
  | nil => simp [serial]
  | cons k' ks ih =>
    simp only [List.cons_append, serial]
    cases apply a k' with
    | none => rfl
    | some a' => exact ih a'

/-- One step of a system with a view and a log of operations: it leaves both alone, or it logs
one operation and applies it to the view as it stands. -/
def SerialStep (view : σ → α) (log : σ → List κ) (apply : α → κ → Option α) (s s' : σ) : Prop :=
  (view s' = view s ∧ log s' = log s) ∨
    ∃ k, log s' = log s ++ [k] ∧ apply (view s) k = some (view s')

/-- **Commit-order serializability.** When every step is a `SerialStep`, the view of a reachable
state is the serial execution of the log from the initial view. -/
theorem ReachableWhere.serial_history (view : σ → α) (log : σ → List κ)
    (apply : α → κ → Option α) {a₀ : α} (h₀ : ∀ s, T.init s → view s = a₀ ∧ log s = [])
    (hstep : ∀ s s' l, T.ReachableWhere C s → C s l → T.step s l = some s' →
      SerialStep view log apply s s')
    {s : σ} (h : T.ReachableWhere C s) : serial apply a₀ (log s) = some (view s) := by
  induction h with
  | init h =>
    obtain ⟨hv, hl⟩ := h₀ _ h
    rw [hl, hv]
    rfl
  | step hr hc hs ih =>
    rcases hstep _ _ _ hr hc hs with ⟨hv, hl⟩ | ⟨k, hl, hk⟩
    · rw [hl, hv, ih]
    · rw [hl, serial_concat, ih, Option.bind_some, hk]

end Serial

end TransitionSystem

end HayaSend
