import HayaSend.Foundations.CallLog
import HayaSend.Foundations.TransitionSystem
import Mathlib.Logic.Function.Basic

/-!
# Transactions with row locks

A transaction locks rows, reads rows, and writes rows; its writes stay its own until it commits, and
its locks are kept until it ends. A row that another transaction has locked cannot be locked; it can
be read, as it was last committed. Between two statements of a transaction the others go on, and a
transaction may be rolled back at any point.

Rows may share a lock: `guard k` is the row whose lock stands for the row `k`. When every write is
under its lock (`WellLocked`), what a transaction saw under a lock is what is stored until it ends
(`Follows.congr`). When moreover what it saw without a lock has no part in its writes (`Current`),
these are the writes that it makes alone at the moment of its commit: `row_locks_serializable`.
-/

namespace HayaSend

/-- A transaction, by its next statement. -/
inductive RowProgram (κ : Type) (ν : κ → Type)
  /-- Waits for the lock of a row, then reads it. -/
  | lock (k : κ) (next : ν k → RowProgram κ ν)
  | read (k : κ) (next : ν k → RowProgram κ ν)
  | write (k : κ) (v : ν k) (next : RowProgram κ ν)
  | commit
  | rollback

namespace RowProgram

variable {κ : Type} {ν : κ → Type} [DecidableEq κ] {rows rows' : ∀ k, ν k} {k : κ}
  {ws out : List ((k : κ) × ν k)}

/-- The rows as the transaction sees them that made the writes `ws`, the last one first. -/
def view (rows : ∀ k, ν k) (ws : List ((k : κ) × ν k)) : ∀ k, ν k :=
  ws.foldr (fun w rows => Function.update rows w.1 w.2) rows

/-- What the transaction writes when it runs alone. -/
def run (rows : ∀ k, ν k) :
    RowProgram κ ν → List ((k : κ) × ν k) → Option (List ((k : κ) × ν k))
  | lock k next, ws => run rows (next (view rows ws k)) ws
  | read k next, ws => run rows (next (view rows ws k)) ws
  | write k v next, ws => run rows next (⟨k, v⟩ :: ws)
  | commit, ws => some ws
  | rollback, _ => none

/-- The rows after the transaction alone, `none` where it writes nothing. -/
def apply (p : RowProgram κ ν) (rows : ∀ k, ν k) : Option (∀ k, ν k) :=
  ((p.run rows []).filter (· ≠ [])).map (view rows)

@[simp] theorem view_nil : view rows [] = rows := rfl

@[simp] theorem view_cons (w : (k : κ) × ν k) :
    view rows (w :: ws) = Function.update (view rows ws) w.1 w.2 := rfl

theorem view_congr (h : rows' k = rows k) : view rows' ws k = view rows ws k := by
  induction ws with
  | nil => exact h
  | cons w ws ih =>
    rw [view_cons, view_cons]
    by_cases hk : k = w.1
    · subst hk
      rw [Function.update_self, Function.update_self]
    · rw [Function.update_of_ne hk, Function.update_of_ne hk, ih]

/-- A row that was not written. -/
theorem view_of_notMem (h : ∀ w ∈ ws, w.1 ≠ k) : view rows ws k = rows k := by
  induction ws with
  | nil => rfl
  | cons w ws ih =>
    obtain ⟨hw, hws⟩ := List.forall_mem_cons.mp h
    rw [view_cons, Function.update_of_ne (Ne.symm hw), ih hws]

theorem apply_eq_some {p : RowProgram κ ν} (h : p.apply rows = some rows') :
    ∃ ws, p.run rows [] = some ws ∧ ws ≠ [] ∧ view rows ws = rows' := by
  obtain ⟨ws, hws, rfl⟩ := Option.map_eq_some_iff.mp h
  obtain ⟨hrun, hne⟩ := Option.filter_eq_some_iff.mp hws
  exact ⟨ws, hrun, of_decide_eq_true hne, rfl⟩

theorem apply_of_run {p : RowProgram κ ν} (h : p.run rows [] = some ws) (hne : ws ≠ []) :
    p.apply rows = some (view rows ws) := by
  rw [apply, h, Option.filter_some, if_pos (decide_eq_true hne), Option.map_some]

variable (guard : κ → κ)

/-- Every write is under the lock of its row, and what is locked stands for itself. -/
def WellLocked : List κ → RowProgram κ ν → Prop
  | held, lock k next => guard k = k ∧ ∀ v, WellLocked (k :: held) (next v)
  | held, read _ next => ∀ v, WellLocked held (next v)
  | held, write k _ next => guard k ∈ held ∧ WellLocked held next
  | _, commit | _, rollback => True

/-- From here on the transaction may commit the writes `out`: what it reads under a lock is what is
stored, and what it reads without one may be anything. -/
def Commits (rows : ∀ k, ν k) :
    RowProgram κ ν → List κ → List ((k : κ) × ν k) → List ((k : κ) × ν k) → Prop
  | lock k next, held, ws, out => Commits rows (next (view rows ws k)) (k :: held) ws out
  | read k next, held, ws, out =>
    ∃ v, (guard k ∈ held → v = view rows ws k) ∧ Commits rows (next v) held ws out
  | write k v next, held, ws, out => Commits rows next held (⟨k, v⟩ :: ws) out
  | commit, _, ws, out => ws = out
  | rollback, _, _, _ => False

/-- Every read is under the lock of its row. -/
def ReadsLocked : List κ → RowProgram κ ν → Prop
  | held, lock k next => ∀ v, ReadsLocked (k :: held) (next v)
  | held, read k next => guard k ∈ held ∧ ∀ v, ReadsLocked held (next v)
  | held, write _ _ next => ReadsLocked held next
  | _, commit | _, rollback => True

/-- The writes that the transaction may commit are those that it makes alone. -/
def Settles (rows : ∀ k, ν k) (held : List κ) (ws : List ((k : κ) × ν k))
    (p : RowProgram κ ν) : Prop :=
  ∀ out, Commits guard rows p held ws out → out ≠ [] → p.run rows ws = some out

def Current (p : RowProgram κ ν) : Prop := ∀ rows, Settles guard rows [] [] p

variable {guard} {held : List κ}

theorem settles_of_readsLocked {p : RowProgram κ ν} (h : ReadsLocked guard held p) :
    Settles guard rows held ws p := by
  intro out hout hne
  induction p generalizing held ws with
  | lock k next ih => exact ih _ (h _) hout
  | read k next ih =>
    obtain ⟨v, hv, hout⟩ := hout
    rw [hv h.1] at hout
    exact ih _ (h.2 _) hout
  | write k v next ih => exact ih h hout
  | commit => exact congrArg some hout
  | rollback => exact hout.elim

theorem settles_commit : Settles guard rows held ws .commit := fun _ h _ => congrArg some h

theorem settles_rollback : Settles guard rows held ws .rollback := fun _ h _ => h.elim

/-- A read under a lock. -/
theorem settles_read {next : ν k → RowProgram κ ν} (hk : guard k ∈ held)
    (h : Settles guard rows held ws (next (view rows ws k))) :
    Settles guard rows held ws (.read k next) := by
  rintro out ⟨v, hv, hout⟩ hne
  rw [hv hk] at hout
  exact h out hout hne

/-- A transaction that reads and writes under locks alone. -/
structure Disciplined (guard : κ → κ) (held : List κ) (p : RowProgram κ ν) : Prop where
  wellLocked : WellLocked guard held p
  readsLocked : ReadsLocked guard held p

/-- `SELECT ... FOR UPDATE` of a row by its key and a condition: a row that is not found is not
locked, and one that was found may have changed until it is. -/
def selectForUpdate {α : Type} (k : κ) (found : ν k → Option α) (next : α → RowProgram κ ν) :
    RowProgram κ ν :=
  .read k fun v => match found v with
    | none => .commit
    | some _ => .lock k fun v => match found v with
      | none => .commit
      | some a => next a

/-- `INSERT` of a row with a key: a transaction that holds the key is waited for, and a key that is
taken fails the transaction. -/
def insert (k : κ) (isFree : ν k → Bool) (v : ν k) (next : RowProgram κ ν) : RowProgram κ ν :=
  .lock k fun old => if isFree old then .write k v next else .rollback

/-- `UPDATE` of a row by its key. -/
def update (k : κ) (f : ν k → ν k) (next : RowProgram κ ν) : RowProgram κ ν :=
  .lock k fun v => .write k (f v) next

namespace Disciplined

omit [DecidableEq κ]

variable {next : ν k → RowProgram κ ν} {p : RowProgram κ ν} {isFree : ν k → Bool} {v : ν k}
  {f : ν k → ν k}

theorem commit : Disciplined guard held (.commit : RowProgram κ ν) := ⟨trivial, trivial⟩

theorem rollback : Disciplined guard held (.rollback : RowProgram κ ν) := ⟨trivial, trivial⟩

theorem lock (hk : guard k = k) (h : ∀ v, Disciplined guard (k :: held) (next v)) :
    Disciplined guard held (.lock k next) :=
  ⟨⟨hk, fun v => (h v).wellLocked⟩, fun v => (h v).readsLocked⟩

theorem read (hk : guard k ∈ held) (h : ∀ v, Disciplined guard held (next v)) :
    Disciplined guard held (.read k next) :=
  ⟨fun v => (h v).wellLocked, hk, fun v => (h v).readsLocked⟩

theorem write (hk : guard k ∈ held) (h : Disciplined guard held p) :
    Disciplined guard held (.write k v p) :=
  ⟨⟨hk, h.wellLocked⟩, h.readsLocked⟩

theorem insert (hk : guard k = k) (h : Disciplined guard (k :: held) p) :
    Disciplined guard held (RowProgram.insert k isFree v p) := by
  refine lock hk fun old => ?_
  split_ifs
  · exact write (by rw [hk]; exact List.mem_cons_self) h
  · exact rollback

theorem update (hk : guard k = k) (h : Disciplined guard (k :: held) p) :
    Disciplined guard held (RowProgram.update k f p) :=
  lock hk fun _ => write (by rw [hk]; exact List.mem_cons_self) h

end Disciplined

section Statements

variable {α : Type} {found : ν k → Option α} {next : α → RowProgram κ ν} {p : RowProgram κ ν}
  {isFree : ν k → Bool} {v : ν k} {f : ν k → ν k}

theorem run_selectForUpdate : (selectForUpdate k found next).run rows ws =
    match found (view rows ws k) with
    | none => some ws
    | some a => (next a).run rows ws := by
  rw [selectForUpdate, run]
  cases h : found (view rows ws k) with
  | none => rfl
  | some a => simp only [run, h]

theorem run_insert : (insert k isFree v p).run rows ws =
    if isFree (view rows ws k) then p.run rows (⟨k, v⟩ :: ws) else none := by
  rw [insert, run]
  split_ifs <;> rfl

theorem run_update : (update k f p).run rows ws = p.run rows (⟨k, f (view rows ws k)⟩ :: ws) := rfl

/-- The transaction alone goes through only where the row is of this kind. -/
def Needs (k : κ) (P : ν k → Prop) (p : RowProgram κ ν) : Prop :=
  ∀ rows ws out, p.run rows ws = some out → P (view rows ws k)

theorem needs_insert : Needs k (isFree · = true) (insert k isFree v p) := by
  intro rows ws out h
  rw [run_insert] at h
  split_ifs at h with hfree
  exact hfree

namespace Needs

variable {k' : κ} {P : ν k' → Prop}

theorem read {next : ν k → RowProgram κ ν} (h : ∀ v, Needs k' P (next v)) :
    Needs k' P (.read k next) :=
  fun rows ws out hout => h _ rows ws out hout

theorem write (hne : k' ≠ k) (h : Needs k' P p) : Needs k' P (.write k v p) := by
  intro rows ws out hout
  have hP := h rows _ out hout
  rwa [view_cons, Function.update_of_ne hne] at hP

theorem insert (hne : k' ≠ k) (h : Needs k' P p) : Needs k' P (insert k isFree v p) := by
  intro rows ws out hout
  rw [run_insert] at hout
  split_ifs at hout
  exact write hne h rows ws out hout

theorem update (hne : k' ≠ k) (h : Needs k' P p) : Needs k' P (update k f p) :=
  fun rows ws out hout => write hne h rows ws out hout

theorem rollback : Needs k' P .rollback := fun _ _ _ h => by cases h

end Needs

omit [DecidableEq κ] in
theorem wellLocked_selectForUpdate (hk : guard k = k)
    (h : ∀ a, WellLocked guard (k :: held) (next a)) :
    WellLocked guard held (selectForUpdate k found next) := by
  intro v
  dsimp only
  split
  · trivial
  · refine ⟨hk, fun v => ?_⟩
    dsimp only
    split
    · trivial
    · exact h _

/-- A row that is looked for before the first write. -/
theorem settles_selectForUpdate
    (h : ∀ a, found (rows k) = some a → Settles guard rows (k :: held) [] (next a)) :
    Settles guard rows held [] (selectForUpdate k found next) := by
  rintro out ⟨v, -, hout⟩ hne
  rw [run_selectForUpdate, view_nil]
  cases hv : found v with
  | none =>
    simp only [hv, Commits] at hout
    exact absurd hout.symm hne
  | some a₀ =>
    simp only [hv, Commits, view_nil] at hout
    cases hrow : found (rows k) with
    | none =>
      simp only [hrow, Commits] at hout
      exact absurd hout.symm hne
    | some a =>
      simp only [hrow] at hout
      exact h a hrow out hout hne

end Statements

/-- The transaction `start` can have come to `pc` with these locks and writes. -/
inductive Follows (guard : κ → κ) (rows : ∀ k, ν k) (start : RowProgram κ ν) :
    RowProgram κ ν → List κ → List ((k : κ) × ν k) → Prop
  | start : Follows guard rows start start [] []
  | lock {k : κ} {next : ν k → RowProgram κ ν} {held : List κ} {ws : List ((k : κ) × ν k)} :
      Follows guard rows start (.lock k next) held ws →
      Follows guard rows start (next (view rows ws k)) (k :: held) ws
  | read {k : κ} {next : ν k → RowProgram κ ν} {held : List κ} {ws : List ((k : κ) × ν k)}
      {v : ν k} :
      Follows guard rows start (.read k next) held ws → (guard k ∈ held → v = view rows ws k) →
      Follows guard rows start (next v) held ws
  | write {k : κ} {v : ν k} {next : RowProgram κ ν} {held : List κ}
      {ws : List ((k : κ) × ν k)} :
      Follows guard rows start (.write k v next) held ws →
      Follows guard rows start next held (⟨k, v⟩ :: ws)

namespace Follows

variable {start pc : RowProgram κ ν}

theorem wellLocked (hw : WellLocked guard [] start) (h : Follows guard rows start pc held ws) :
    WellLocked guard held pc ∧ ∀ w ∈ ws, guard w.1 ∈ held := by
  induction h with
  | start => exact ⟨hw, fun w hmem => absurd hmem List.not_mem_nil⟩
  | lock _ ih =>
    exact ⟨ih.1.2 _, fun w hmem => List.mem_cons_of_mem _ (ih.2 w hmem)⟩
  | read _ _ ih => exact ⟨ih.1 _, ih.2⟩
  | write _ ih => exact ⟨ih.1.2, List.forall_mem_cons.mpr ⟨ih.1.1, ih.2⟩⟩

/-- **What was seen under a lock** does not change while the rows under the lock do not. -/
theorem congr (hw : WellLocked guard [] start) (h : Follows guard rows start pc held ws)
    (hrows : ∀ k, guard k ∈ held → rows' k = rows k) : Follows guard rows' start pc held ws := by
  induction h with
  | start => exact .start
  | @lock k next held ws h ih =>
    have hself : guard k = k := (h.wellLocked hw).1.1
    have hk : rows' k = rows k := hrows k (by rw [hself]; exact List.mem_cons_self)
    rw [← view_congr hk]
    exact .lock (ih fun k' hk' => hrows k' (List.mem_cons_of_mem _ hk'))
  | @read k next held ws v h hv ih =>
    refine .read (ih hrows) fun hk => ?_
    rw [hv hk, view_congr (hrows k hk)]
  | write h ih => exact .write (ih hrows)

/-- What may come next may have come from the start. -/
theorem commits (h : Follows guard rows start pc held ws)
    (hout : Commits guard rows pc held ws out) : Commits guard rows start [] [] out := by
  induction h with
  | start => exact hout
  | lock _ ih => exact ih hout
  | read _ hv ih => exact ih ⟨_, hv, hout⟩
  | write _ ih => exact ih hout

/-- A transaction that is about to commit. -/
theorem run_eq (h : Follows guard rows start .commit held ws) (hcurrent : Current guard start)
    (hne : ws ≠ []) : start.run rows [] = some ws :=
  hcurrent rows ws (h.commits rfl) hne

end Follows

end RowProgram

/-! ## Runs -/

/-- A transaction under way; one that ended holds nothing. -/
structure RowCall (κ : Type) (ν : κ → Type) (τ : Type) where
  op : τ
  pc : RowProgram κ ν
  held : List κ := []
  writes : List ((k : κ) × ν k) := []
  committed : Bool := false

/-- The committed rows, the transactions, and those that committed writes, oldest first. -/
structure RowWorld (κ : Type) (ν : κ → Type) (τ : Type) where
  rows : ∀ k, ν k
  calls : List (RowCall κ ν τ) := []
  log : List (ℕ × τ) := []

inductive RowLabel (τ : Type)
  | start (op : τ)
  | go (i : ℕ)
  /-- A crash, a lost connection or a deadlock. -/
  | abort (i : ℕ)
  deriving DecidableEq

section Runs

variable {κ : Type} {ν : κ → Type} {τ : Type} [DecidableEq κ]

namespace RowCall

def locked (c : RowCall κ ν τ) (k : κ) (pc : RowProgram κ ν) : RowCall κ ν τ :=
  { c with pc := pc, held := k :: c.held }

def wrote (c : RowCall κ ν τ) (k : κ) (v : ν k) (pc : RowProgram κ ν) : RowCall κ ν τ :=
  { c with pc := pc, writes := ⟨k, v⟩ :: c.writes }

def close (c : RowCall κ ν τ) : RowCall κ ν τ :=
  { c with pc := .rollback, held := [], writes := [] }

end RowCall

namespace RowWorld

/-- No other transaction has the lock. -/
def isFree (w : RowWorld κ ν τ) (i : ℕ) (k : κ) : Bool :=
  w.calls.zipIdx.all fun p => p.2 == i || !p.1.held.contains k

/-- The next statement of a transaction; `none` while it waits. -/
def go (w : RowWorld κ ν τ) (i : ℕ) (c : RowCall κ ν τ) : Option (RowWorld κ ν τ) :=
  match c.pc with
  | .lock k next =>
    if w.isFree i k then
      let c := c.locked k (next (RowProgram.view w.rows c.writes k))
      some { w with calls := w.calls.set i c }
    else none
  | .read k next =>
    let c := { c with pc := next (RowProgram.view w.rows c.writes k) }
    some { w with calls := w.calls.set i c }
  | .write k v next => some { w with calls := w.calls.set i (c.wrote k v next) }
  | .commit =>
    match c.writes with
    | [] => some { w with calls := w.calls.set i c.close }
    | writes => some {
        rows := RowProgram.view w.rows writes
        calls := w.calls.set i { c.close with committed := true }
        log := w.log ++ [(i, c.op)] }
  | .rollback => some { w with calls := w.calls.set i c.close }

def step (program : τ → RowProgram κ ν) (w : RowWorld κ ν τ) :
    RowLabel τ → Option (RowWorld κ ν τ)
  | .start op => some { w with calls := w.calls ++ [{ op := op, pc := program op }] }
  | .go i => (w.calls[i]?).bind (w.go i)
  | .abort i => (w.calls[i]?).map fun c => { w with calls := w.calls.set i c.close }

def system (program : τ → RowProgram κ ν) (rows : ∀ k, ν k) :
    TransitionSystem (RowWorld κ ν τ) (RowLabel τ) where
  init w := w = { rows := rows }
  step := step program

variable {guard : κ → κ} {program : τ → RowProgram κ ν} {w w' : RowWorld κ ν τ}
  {c c' : RowCall κ ν τ} {i : ℕ}

theorem isFree_iff {k : κ} : w.isFree i k = true ↔
    ∀ j d, w.calls[j]? = some d → j ≠ i → k ∉ d.held := by
  simp only [isFree, List.all_eq_true, Bool.or_eq_true, beq_iff_eq, Bool.not_eq_true',
    List.contains_eq_mem, decide_eq_false_iff_not, Prod.forall, List.mem_zipIdx_iff_getElem?]
  exact ⟨fun h j d hd hne => (h d j hd).resolve_left hne,
    fun h d j hd => Classical.or_iff_not_imp_left.mpr (h j d hd)⟩

/-- A transaction that is under way, or has ended. -/
def Sound (guard : κ → κ) (program : τ → RowProgram κ ν) (rows : ∀ k, ν k)
    (c : RowCall κ ν τ) : Prop :=
  (RowProgram.Follows guard rows (program c.op) c.pc c.held c.writes ∧ c.committed = false) ∨
    c.pc = .rollback ∧ c.held = [] ∧ c.writes = []

/-- The invariant: a lock has one holder, and what was seen under it is what is stored. -/
structure Inv (guard : κ → κ) (program : τ → RowProgram κ ν) (w : RowWorld κ ν τ) : Prop where
  exclusive : ∀ (i j : ℕ) (c d : RowCall κ ν τ) (k : κ), w.calls[i]? = some c →
    w.calls[j]? = some d → k ∈ c.held → k ∈ d.held → i = j
  sound : ∀ (i : ℕ) (c : RowCall κ ν τ), w.calls[i]? = some c → Sound guard program w.rows c
  log : CallLog RowCall.op (·.committed = true) w.calls w.log

theorem sound_close (c : RowCall κ ν τ) (rows : ∀ k, ν k) : Sound guard program rows c.close :=
  .inr ⟨rfl, rfl, rfl⟩

namespace Inv

/-- One transaction moves on; it may take a lock that is free. -/
theorem set (h : Inv guard program w) (hc : w.calls[i]? = some c)
    (hheld : ∀ k ∈ c'.held, k ∈ c.held ∨ w.isFree i k = true)
    (hsound : Sound guard program w.rows c') (hop : c'.op = c.op)
    (hcommitted : c'.committed = c.committed) :
    Inv guard program { w with calls := w.calls.set i c' } := by
  have hother : ∀ (j : ℕ) (d : RowCall κ ν τ) (k : κ), w.calls[j]? = some d → j ≠ i →
      k ∈ c'.held → k ∉ d.held := by
    intro j d k hd hne hk hk'
    rcases hheld k hk with hk | hfree
    · exact hne (h.exclusive j i d c k hd hc hk' hk)
    · exact isFree_iff.mp hfree j d hd hne hk'
  refine ⟨fun j l d e k hd he hkd hke => ?_, fun j d hd => ?_, ?_⟩
  · rcases CallLog.getElem?_set_cases hd with ⟨rfl, rfl⟩ | ⟨hne, hd'⟩ <;>
      rcases CallLog.getElem?_set_cases he with ⟨rfl, rfl⟩ | ⟨hne', he'⟩
    · rfl
    · exact absurd hke (hother l e k he' (Ne.symm hne') hkd)
    · exact absurd hkd (hother j d k hd' (Ne.symm hne) hke)
    · exact h.exclusive j l d e k hd' he' hkd hke
  · rcases CallLog.getElem?_set_cases hd with ⟨rfl, rfl⟩ | ⟨-, hd⟩
    · exact hsound
    · exact h.sound j d hd
  · exact h.log.set hc hop (by rw [hcommitted])

theorem start (h : Inv guard program w) (op : τ) :
    Inv guard program { w with calls := w.calls ++ [{ op := op, pc := program op }] } := by
  have hcases : ∀ {j : ℕ} {d : RowCall κ ν τ},
      (w.calls ++ [{ op := op, pc := program op }])[j]? = some d →
      w.calls[j]? = some d ∨ d = { op := op, pc := program op } := by
    intro j d hd
    rw [List.getElem?_append] at hd
    split_ifs at hd
    · exact .inl hd
    · rw [List.getElem?_singleton] at hd
      split_ifs at hd
      exact .inr (Option.some.inj hd).symm
  refine ⟨fun j l d e k hd he hkd hke => ?_, fun j d hd => ?_, h.log.start Bool.false_ne_true⟩
  · rcases hcases hd with hd | rfl
    · rcases hcases he with he | rfl
      · exact h.exclusive j l d e k hd he hkd hke
      · cases hke
    · cases hkd
  · rcases hcases hd with hd | rfl
    · exact h.sound j d hd
    · exact .inl ⟨.start, rfl⟩

/-- **A commit** writes rows that it alone has locked. -/
theorem commit (h : Inv guard program w) (hwell : ∀ op, RowProgram.WellLocked guard [] (program op))
    (hc : w.calls[i]? = some c) (hcommitted : c.committed = false)
    (hf : RowProgram.Follows guard w.rows (program c.op) c.pc c.held c.writes) :
    Inv guard program {
      rows := RowProgram.view w.rows c.writes
      calls := w.calls.set i { c.close with committed := true }
      log := w.log ++ [(i, c.op)] } := by
  refine ⟨fun j l d e k hd he hkd hke => ?_, fun j d hd => ?_, ?_⟩
  · rcases CallLog.getElem?_set_cases hd with ⟨rfl, rfl⟩ | ⟨-, hd⟩
    · cases hkd
    · rcases CallLog.getElem?_set_cases he with ⟨rfl, rfl⟩ | ⟨-, he⟩
      · cases hke
      · exact h.exclusive j l d e k hd he hkd hke
  · rcases CallLog.getElem?_set_cases hd with ⟨rfl, rfl⟩ | ⟨hne, hd⟩
    · exact .inr ⟨rfl, rfl, rfl⟩
    · refine (h.sound j d hd).imp_left fun hd' => ⟨?_, hd'.2⟩
      refine hd'.1.congr (hwell d.op) fun k hk => RowProgram.view_of_notMem fun v hv heq => ?_
      have hguard := (hf.wellLocked (hwell c.op)).2 v hv
      rw [heq] at hguard
      exact hne (h.exclusive i j c d (guard k) hc hd hguard hk)
  · exact h.log.commit hc (by rw [hcommitted]; exact Bool.false_ne_true) rfl rfl

theorem close (h : Inv guard program w) (hc : w.calls[i]? = some c) :
    Inv guard program { w with calls := w.calls.set i c.close } :=
  h.set hc (fun k hk => by cases hk) (sound_close c w.rows) rfl rfl

/-- **One step** keeps the invariant, and logs a transaction only to apply it to the rows as they
stand. -/
theorem step (h : Inv guard program w)
    (hwell : ∀ op, RowProgram.WellLocked guard [] (program op))
    (hcurrent : ∀ op, RowProgram.Current guard (program op)) {l : RowLabel τ}
    (hs : RowWorld.step program w l = some w') :
    Inv guard program w' ∧ TransitionSystem.SerialStep RowWorld.rows (fun w => w.log.map Prod.snd)
      (fun rows op => (program op).apply rows) w w' := by
  cases l with
  | start op =>
    obtain rfl := Option.some.inj hs
    exact ⟨h.start op, .inl ⟨rfl, rfl⟩⟩
  | abort i =>
    obtain ⟨c, hc, rfl⟩ := Option.map_eq_some_iff.mp hs
    exact ⟨h.close hc, .inl ⟨rfl, rfl⟩⟩
  | go i =>
    obtain ⟨c, hc, hs⟩ := Option.bind_eq_some_iff.mp hs
    have hsound := h.sound i c hc
    cases hpc : c.pc with
    | rollback =>
      simp only [go, hpc, Option.some.injEq] at hs
      subst hs
      exact ⟨h.close hc, .inl ⟨rfl, rfl⟩⟩
    | lock k next =>
      obtain ⟨hf, hcommitted⟩ := hsound.resolve_right fun hend => by rw [hpc] at hend; cases hend.1
      simp only [go, hpc] at hs
      split_ifs at hs with hfree
      obtain rfl := Option.some.inj hs
      rw [hpc] at hf
      refine ⟨h.set hc (fun k' hk' => ?_) (.inl ⟨hf.lock, hcommitted⟩) rfl rfl, .inl ⟨rfl, rfl⟩⟩
      rcases List.mem_cons.mp hk' with rfl | hk'
      · exact .inr hfree
      · exact .inl hk'
    | read k next =>
      obtain ⟨hf, hcommitted⟩ := hsound.resolve_right fun hend => by rw [hpc] at hend; cases hend.1
      simp only [go, hpc, Option.some.injEq] at hs
      subst hs
      rw [hpc] at hf
      exact ⟨h.set hc (fun k' hk' => .inl hk') (.inl ⟨hf.read fun _ => rfl, hcommitted⟩) rfl rfl,
        .inl ⟨rfl, rfl⟩⟩
    | write k v next =>
      obtain ⟨hf, hcommitted⟩ := hsound.resolve_right fun hend => by rw [hpc] at hend; cases hend.1
      simp only [go, hpc, Option.some.injEq] at hs
      subst hs
      rw [hpc] at hf
      exact ⟨h.set hc (fun k' hk' => .inl hk') (.inl ⟨hf.write, hcommitted⟩) rfl rfl,
        .inl ⟨rfl, rfl⟩⟩
    | commit =>
      obtain ⟨hf, hcommitted⟩ := hsound.resolve_right fun hend => by rw [hpc] at hend; cases hend.1
      cases hwrites : c.writes with
      | nil =>
        simp only [go, hpc, hwrites, Option.some.injEq] at hs
        subst hs
        exact ⟨h.close hc, .inl ⟨rfl, rfl⟩⟩
      | cons v ws =>
        have hcommit := h.commit hwell hc hcommitted hf
        simp only [go, hpc, hwrites, Option.some.injEq] at hs
        rw [hwrites] at hcommit
        subst hs
        refine ⟨hcommit, .inr ⟨c.op, List.map_append, ?_⟩⟩
        rw [hpc, hwrites] at hf
        exact RowProgram.apply_of_run (hf.run_eq (hcurrent c.op) (List.cons_ne_nil v ws))
          (List.cons_ne_nil v ws)

end Inv

end RowWorld

open RowWorld

/-- **Transactions with row locks are serializable**: the rows are those after the committed
transactions, run one at a time in the order of their commits. -/
theorem row_locks_serializable {guard : κ → κ} {program : τ → RowProgram κ ν} {rows : ∀ k, ν k}
    {w : RowWorld κ ν τ} (hwell : ∀ op, RowProgram.WellLocked guard [] (program op))
    (hcurrent : ∀ op, RowProgram.Current guard (program op))
    (h : (system program rows).Reachable w) :
    TransitionSystem.serial (fun rows op => (program op).apply rows) rows (w.log.map Prod.snd) =
        some w.rows ∧
      CallLog RowCall.op (·.committed = true) w.calls w.log := by
  have hinit : ∀ w : RowWorld κ ν τ, (system program rows).init w → Inv guard program w := by
    rintro w rfl
    refine ⟨fun i j c d k hc => ?_, fun i c hc => ?_, .empty⟩
    · cases hc
    · cases hc
  have hinv : ∀ {w}, (system program rows).Reachable w → Inv guard program w := fun h =>
    h.invariant hinit fun w w' l _ hi hs => (hi.step hwell hcurrent hs).1
  refine ⟨h.serial_history RowWorld.rows (fun w => w.log.map Prod.snd) _ ?_ ?_, (hinv h).log⟩
  · rintro w rfl
    exact ⟨rfl, rfl⟩
  · intro w w' l hr _ hs
    exact ((hinv hr).step hwell hcurrent hs).2

end Runs

end HayaSend
