import HayaSend.Foundations.Fallible

/-!
# Writes staged in copies

A procedure copies a store, writes to the copy, and at last puts the copy in the store's place.
After its writes it calls a hook, which sees the store as it is then and may throw: what the
procedure has done up to there stays done.

`Stages` is what the part before the swap guarantees, whatever it writes and wherever it ends: the
store is untouched, every hook call saw it so, and the part ends normally only if no hook threw. It
is composed along the procedure (`Stages.bind`).
-/

namespace HayaSend

variable {σ μ ε α β : Type}

/-- The store, its copy, and the hook calls so far, each with the store it saw. -/
structure Staging (σ μ : Type) where
  live : σ
  copy : σ
  calls : List (μ × σ) := []

/-- A procedure over a store. When it throws, its effects stay. -/
def Staged (σ μ ε : Type) : Type → Type := ExceptT ε (StateM (Staging σ μ))

instance : Monad (Staged σ μ ε) := inferInstanceAs (Monad (ExceptT ε (StateM (Staging σ μ))))

namespace Staged

def exec (p : Staged σ μ ε α) (st : Staging σ μ) : Except ε α × Staging σ μ :=
  StateT.run (ExceptT.run p) st

/-- Run a part that reads the staging and changes nothing. -/
def reads (f : Staging σ μ → Except ε α) : Staged σ μ ε α :=
  ExceptT.mk fun st => (f st, st)

/-- `new Map(…)` of every map of the store. -/
def copyMaps : Staged σ μ ε Unit := ExceptT.mk fun st => (.ok (), { st with copy := st.live })

/-- Write to the copy. -/
def write (f : σ → σ) : Staged σ μ ε Unit :=
  ExceptT.mk fun st => (.ok (), { st with copy := f st.copy })

/-- Put the copy, or a part of it, in the store's place. -/
def swap (f : σ → σ → σ) : Staged σ μ ε Unit :=
  ExceptT.mk fun st => (.ok (), { st with live := f st.live st.copy })

/-- Call the hook, which throws or not depending on the number of calls before. -/
def call (hook : ℕ → μ → Option ε) (m : μ) : Staged σ μ ε Unit :=
  ExceptT.mk fun st =>
    ((match hook st.calls.length m with
      | none => .ok ()
      | some e => .error e), { st with calls := st.calls ++ [(m, st.live)] })

/-- `xs.forEach((x, index) => …)`, from an index on. -/
def forEach (f : ℕ → α → Staged σ μ ε Unit) : ℕ → List α → Staged σ μ ε Unit
  | _, [] => pure ()
  | index, x :: xs => do
    f index x
    forEach f (index + 1) xs

@[simp] theorem exec_pure (a : α) (st : Staging σ μ) :
    exec (pure a : Staged σ μ ε α) st = (.ok a, st) := rfl

theorem exec_bind (p : Staged σ μ ε α) (f : α → Staged σ μ ε β) (st : Staging σ μ) :
    exec (p >>= f) st = match exec p st with
      | (.ok a, st') => exec (f a) st'
      | (.error e, st') => (.error e, st') := by
  have hcont : exec (p >>= f) st =
      (ExceptT.bindCont f (exec p st).1 : StateM (Staging σ μ) (Except ε β)) (exec p st).2 := rfl
  rw [hcont]
  rcases exec p st with ⟨r, t⟩
  cases r with
  | error e => rfl
  | ok a => rfl

@[simp] theorem exec_reads (f : Staging σ μ → Except ε α) (st : Staging σ μ) :
    exec (reads f) st = (f st, st) := rfl

@[simp] theorem exec_copyMaps (st : Staging σ μ) :
    exec (copyMaps : Staged σ μ ε Unit) st = (.ok (), { st with copy := st.live }) := rfl

@[simp] theorem exec_write (f : σ → σ) (st : Staging σ μ) :
    exec (write f : Staged σ μ ε Unit) st = (.ok (), { st with copy := f st.copy }) := rfl

@[simp] theorem exec_swap (f : σ → σ → σ) (st : Staging σ μ) :
    exec (swap f : Staged σ μ ε Unit) st = (.ok (), { st with live := f st.live st.copy }) := rfl

theorem exec_call (hook : ℕ → μ → Option ε) (m : μ) (st : Staging σ μ) :
    exec (call hook m) st = ((match hook st.calls.length m with
      | none => .ok ()
      | some e => .error e), { st with calls := st.calls ++ [(m, st.live)] }) := rfl

theorem exec_reads_bind (f : Staging σ μ → Except ε α) (g : α → Staged σ μ ε β)
    (st : Staging σ μ) : exec (reads f >>= g) st = match f st with
      | .ok a => exec (g a) st
      | .error e => (.error e, st) := by
  rw [exec_bind, exec_reads]
  cases f st with
  | ok a => rfl
  | error e => rfl

theorem exec_bind_ok {p : Staged σ μ ε α} {f : α → Staged σ μ ε β} {st st' : Staging σ μ} {b : β} :
    exec (p >>= f) st = (.ok b, st') ↔
      ∃ a t, exec p st = (.ok a, t) ∧ exec (f a) t = (.ok b, st') := by
  rw [exec_bind]
  rcases hp : exec p st with ⟨r, t⟩
  cases r with
  | error e => simp
  | ok a => simp

theorem exec_call_ok {hook : ℕ → μ → Option ε} {m : μ} {st st' : Staging σ μ} {u : Unit} :
    exec (call hook m) st = (.ok u, st') ↔
      hook st.calls.length m = none ∧ { st with calls := st.calls ++ [(m, st.live)] } = st' := by
  rw [exec_call]
  cases hook st.calls.length m with
  | none => simp
  | some e => simp

theorem exec_copyMaps_bind (g : Unit → Staged σ μ ε β) (st : Staging σ μ) :
    exec (copyMaps >>= g) st = exec (g ()) { st with copy := st.live } := by
  rw [exec_bind, exec_copyMaps]

theorem exec_write_bind (f : σ → σ) (g : Unit → Staged σ μ ε β) (st : Staging σ μ) :
    exec (write f >>= g) st = exec (g ()) { st with copy := f st.copy } := by
  rw [exec_bind, exec_write]

theorem exec_swap_bind (f : σ → σ → σ) (g : Unit → Staged σ μ ε β) (st : Staging σ μ) :
    exec (swap f >>= g) st = exec (g ()) { st with live := f st.live st.copy } := by
  rw [exec_bind, exec_swap]

/-- Going on after a hook call. -/
theorem exec_call_bind_ok {hook : ℕ → μ → Option ε} {m : μ} {g : Unit → Staged σ μ ε β}
    {st st' : Staging σ μ} {b : β} (h : exec (call hook m >>= g) st = (.ok b, st')) :
    exec (g ()) { st with calls := st.calls ++ [(m, st.live)] } = (.ok b, st') := by
  obtain ⟨u, t, hcall, hg⟩ := exec_bind_ok.mp h
  obtain ⟨-, rfl⟩ := exec_call_ok.mp hcall
  exact hg

/-- Going on after a hook call that does not throw. -/
theorem exec_call_bind_of_none {hook : ℕ → μ → Option ε} {m : μ} {st : Staging σ μ}
    (h : hook st.calls.length m = none) (g : Unit → Staged σ μ ε β) :
    exec (call hook m >>= g) st = exec (g ()) { st with calls := st.calls ++ [(m, st.live)] } := by
  rw [exec_bind, exec_call, h]

/-- Before a part that does not throw, the outcome is that of what comes first. -/
theorem fst_exec_bind_of_ok {p : Staged σ μ ε Unit} {g : Unit → Staged σ μ ε Unit}
    (hg : ∀ t, (exec (g ()) t).1 = .ok ()) (st : Staging σ μ) :
    (exec (p >>= g) st).1 = (exec p st).1 := by
  rw [exec_bind]
  rcases exec p st with ⟨r, t⟩
  cases r with
  | error e => rfl
  | ok u => exact hg t

/-- A hook call that ends a part. -/
theorem eq_of_exec_call_ok {hook : ℕ → μ → Option ε} {m : μ} {st st' : Staging σ μ} {u : Unit}
    (h : exec (call hook m) st = (.ok u, st')) :
    st' = { st with calls := st.calls ++ [(m, st.live)] } :=
  (exec_call_ok.mp h).2.symm

end Staged

open Staged

/-! ## The part before the swap -/

/-- What a part of a procedure that only stages has done from `st` to `st'`. -/
structure StagedOnly (hook : ℕ → μ → Option ε) (isSwap : μ → Bool) (st st' : Staging σ μ) :
    Prop where
  live : st'.live = st.live
  calls : ∃ new, st'.calls = st.calls ++ new ∧ ∀ x ∈ new, x.2 = st.live ∧ isSwap x.1 = false

/-- No hook call from `st` to `st'` threw. -/
def Unfaulted (hook : ℕ → μ → Option ε) (st st' : Staging σ μ) : Prop :=
  ∀ k x, st.calls.length ≤ k → st'.calls[k]? = some x → hook k x.1 = none

/-- A part of a procedure that only stages, and throws when a hook does. -/
def Stages (hook : ℕ → μ → Option ε) (isSwap : μ → Bool) (p : Staged σ μ ε α) : Prop :=
  ∀ st, StagedOnly hook isSwap st (exec p st).2 ∧
    ∀ a, (exec p st).1 = .ok a → Unfaulted hook st (exec p st).2

namespace Stages

variable {hook : ℕ → μ → Option ε} {isSwap : μ → Bool}

/-- A part that leaves the store and calls no hook. -/
theorem of_calls_eq {p : Staged σ μ ε α}
    (h : ∀ st, (exec p st).2.live = st.live ∧ (exec p st).2.calls = st.calls) :
    Stages hook isSwap p := by
  intro st
  obtain ⟨hlive, hcalls⟩ := h st
  refine ⟨⟨hlive, [], by rw [hcalls, List.append_nil], by simp⟩, fun a _ k x hk hx => ?_⟩
  rw [hcalls] at hx
  obtain ⟨hlt, -⟩ := List.getElem?_eq_some_iff.mp hx
  omega

theorem live_eq {p : Staged σ μ ε α} (hp : Stages hook isSwap p) {st t : Staging σ μ}
    {r : Except ε α} (h : exec p st = (r, t)) : t.live = st.live := by
  have hlive := (hp st).1.live
  rwa [h] at hlive

theorem pure (a : α) : Stages hook isSwap (Pure.pure a : Staged σ μ ε α) :=
  of_calls_eq fun _ => ⟨rfl, rfl⟩

theorem reads (f : Staging σ μ → Except ε α) : Stages hook isSwap (reads f) :=
  of_calls_eq fun _ => ⟨rfl, rfl⟩

theorem copyMaps : Stages hook isSwap (copyMaps : Staged σ μ ε Unit) :=
  of_calls_eq fun _ => ⟨rfl, rfl⟩

theorem write (f : σ → σ) : Stages hook isSwap (write f : Staged σ μ ε Unit) :=
  of_calls_eq fun _ => ⟨rfl, rfl⟩

theorem call {m : μ} (hm : isSwap m = false) :
    Stages hook isSwap (call hook m : Staged σ μ ε Unit) := by
  intro st
  rw [exec_call]
  refine ⟨⟨rfl, [(m, st.live)], rfl, by simpa using hm⟩, fun a ha k x hk hx => ?_⟩
  have hfault : hook st.calls.length m = none := by
    cases hf : hook st.calls.length m with
    | none => rfl
    | some e =>
      rw [hf] at ha
      cases ha
  rw [List.getElem?_append_right hk, List.getElem?_singleton] at hx
  split_ifs at hx with hk'
  obtain rfl := Option.some.inj hx
  rwa [show k = st.calls.length by omega]

theorem bind {p : Staged σ μ ε α} {f : α → Staged σ μ ε β} (hp : Stages hook isSwap p)
    (hf : ∀ a, Stages hook isSwap (f a)) : Stages hook isSwap (p >>= f) := by
  intro st
  obtain ⟨⟨hlive, new, hcalls, hnew⟩, hok⟩ := hp st
  rw [exec_bind]
  rcases hr : exec p st with ⟨r, t⟩
  rw [hr] at hlive hcalls hok
  cases r with
  | error e => exact ⟨⟨hlive, new, hcalls, hnew⟩, fun a h => (by cases h)⟩
  | ok a =>
    obtain ⟨⟨hlive', new', hcalls', hnew'⟩, hok'⟩ := hf a t
    refine ⟨⟨hlive'.trans hlive, new ++ new', ?_, fun x hx => ?_⟩, fun b hb k x hk hx => ?_⟩
    · rw [hcalls', hcalls, List.append_assoc]
    · rcases List.mem_append.mp hx with hx | hx
      · exact hnew x hx
      · rw [← hlive]
        exact hnew' x hx
    · rcases Nat.lt_or_ge k t.calls.length with hlt | hge
      · refine hok a rfl k x hk ?_
        rwa [hcalls', List.getElem?_append_left hlt] at hx
      · exact hok' b hb k x hge hx

theorem forEach {f : ℕ → α → Staged σ μ ε Unit} (hf : ∀ i x, Stages hook isSwap (f i x))
    (i : ℕ) (xs : List α) : Stages hook isSwap (forEach f i xs) := by
  induction xs generalizing i with
  | nil => exact pure ()
  | cons x xs ih => exact bind (hf i x) fun _ => ih (i + 1)

end Stages

/-! ## The whole procedure -/

/-- What a procedure that ends with a swap leaves: the store untouched, or the whole commit in its
place, wherever the hook threw. -/
structure AtomicUnder (hook : ℕ → μ → Option ε) (isSwap : μ → Bool) (before committed : σ)
    (t : Staging σ μ) : Prop where
  visible : t.live = before ∨ t.live = committed
  seen : ∀ x ∈ t.calls, x.2 = if isSwap x.1 then committed else before
  fault_before : ∀ k x e, t.calls[k]? = some x → hook k x.1 = some e → isSwap x.1 = false →
    t.live = before
  fault_swap : ∀ k x e, t.calls[k]? = some x → hook k x.1 = some e → isSwap x.1 = true →
    t.live = committed

namespace AtomicUnder

variable {hook : ℕ → μ → Option ε} {isSwap : μ → Bool} {before committed : σ}
  {p : Staged σ μ ε α}

/-- A procedure that ends before it has done anything. -/
theorem of_nothing {t : Staging σ μ} (hlive : t.live = before) (hcalls : t.calls = []) :
    AtomicUnder hook isSwap before committed t := by
  refine ⟨Or.inl hlive, ?_, fun _ _ _ _ _ _ => hlive, ?_⟩
  · rw [hcalls]
    simp
  · intro k x e hx
    rw [hcalls] at hx
    simp at hx

/-- A part that only stages and then ends. -/
theorem of_stages (hp : Stages hook isSwap p) (copy : σ) :
    AtomicUnder hook isSwap before committed (exec p ⟨before, copy, []⟩).2 := by
  obtain ⟨⟨hlive, new, hcalls, hnew⟩, -⟩ := hp ⟨before, copy, []⟩
  rw [List.nil_append] at hcalls
  have hplain : ∀ x ∈ (exec p ⟨before, copy, []⟩).2.calls, x.2 = before ∧ isSwap x.1 = false :=
    fun x hx => hnew x (hcalls ▸ hx)
  refine ⟨Or.inl hlive, fun x hx => ?_, fun _ _ _ _ _ _ => hlive, fun k x e hx _ hswap => ?_⟩
  · obtain ⟨hseen, hplain⟩ := hplain x hx
    rw [hseen, hplain]
    rfl
  · rw [(hplain x (List.mem_of_getElem? hx)).2] at hswap
    cases hswap

/-- A part that stages, the swap of what it staged, and hook calls after it. -/
theorem of_swap (hp : Stages hook isSwap p) {f : σ → σ → σ} {q : α → Staged σ μ ε β} {copy : σ}
    (hcommitted : ∀ a t, exec p ⟨before, copy, []⟩ = (.ok a, t) → f before t.copy = committed)
    (hq : ∀ a t, (exec (q a) t).2.live = t.live ∧ ∃ new, (exec (q a) t).2.calls = t.calls ++ new ∧
      ∀ x ∈ new, x.2 = t.live ∧ isSwap x.1 = true) :
    AtomicUnder hook isSwap before committed
      (exec (p >>= fun a => swap f >>= fun _ => q a) ⟨before, copy, []⟩).2 := by
  have hpart : AtomicUnder hook isSwap before committed (exec p ⟨before, copy, []⟩).2 :=
    of_stages hp copy
  obtain ⟨⟨hlive, -⟩, hok⟩ := hp ⟨before, copy, []⟩
  rw [exec_bind]
  rcases hr : exec p ⟨before, copy, []⟩ with ⟨r, t⟩
  rw [hr] at hpart hlive hok
  cases r with
  | error e => exact hpart
  | ok a =>
    have hc := hcommitted a t hr
    dsimp only at hlive hpart hok ⊢
    rw [exec_bind, exec_swap, hlive, hc]
    obtain ⟨hlive', new, hcalls, hnew⟩ := hq a { t with live := committed }
    refine ⟨Or.inr hlive', fun x hx => ?_, fun k x e hx he hplain => ?_, fun _ _ _ _ _ _ => hlive'⟩
    · rw [hcalls, List.mem_append] at hx
      rcases hx with hx | hx
      · exact hpart.seen x hx
      · rw [if_pos (hnew x hx).2, (hnew x hx).1]
    · rw [hcalls] at hx
      rcases Nat.lt_or_ge k t.calls.length with hlt | hge
      · rw [List.getElem?_append_left hlt] at hx
        have hnone := hok a rfl k x (Nat.zero_le _) hx
        rw [he] at hnone
        cases hnone
      · rw [List.getElem?_append_right hge] at hx
        rw [(hnew x (List.mem_of_getElem? hx)).2] at hplain
        cases hplain

end AtomicUnder

end HayaSend
