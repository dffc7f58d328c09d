import HayaSend.Foundations.CallLog
import HayaSend.Foundations.TransitionSystem

/-!
# Migrations of the PostgreSQL schema

Each process that starts with `migratePostgres` takes the advisory lock of the schema, and then runs
the migrations that `hayasend_schema_migrations` does not record, each in a transaction with its
record. Any number of processes may do so at once, of different releases, and each may fail or be
lost at any statement.

`migrations_applied`: the schema is what the recorded migrations make, each run once, in the order
of their commits, and a process that returns finds all its migrations recorded.
`migrations_in_order`: when every release has the first migrations of one list, the recorded ones
are the first of the list as well, and a process that returns has at least its own.
-/

namespace HayaSend

structure Migration where
  version : String
  sql : String
  deriving DecidableEq

/-- A row of `hayasend_schema_migrations`. -/
structure MigrationRow where
  version : String
  checksum : String
  deriving DecidableEq

/-- What a script makes of a schema, unless a statement of it fails, and the digest of a text. -/
structure MigrationPlatform (σ : Type) where
  execute : String → σ → Option σ
  checksum : String → String

structure MigrationDatabase (σ : Type) where
  schema : σ
  migrations : Option (List MigrationRow) := none
  /-- The session that holds the advisory lock. -/
  lock : Option ℕ := none

/-- Where `migratePostgres` is; within a transaction it has the schema that the transaction sees. -/
inductive MigratorPc (σ : Type)
  | connected
  | locked
  | next (rest : List Migration)
  | sql (migration : Migration) (rest : List Migration)
  | insert (migration : Migration) (rest : List Migration) (schema : σ)
  | commit (migration : Migration) (rest : List Migration) (schema : σ)
  | unlock (error : Option String)
  | finished (error : Option String)
  | lost

structure Migrator (σ : Type) where
  /-- `POSTGRES_MIGRATIONS` of its release. -/
  migrations : List Migration
  pc : MigratorPc σ := .connected

structure MigrationWorld (σ : Type) where
  db : MigrationDatabase σ
  migrators : List (Migrator σ) := []
  /-- The migrations whose transactions have committed, in this order. -/
  applied : List Migration := []

inductive MigrationLabel
  | start (migrations : List Migration)
  | go (i : ℕ)
  /-- The statement of the process fails. -/
  | fail (i : ℕ) (error : String)
  /-- The session of the process ends, before its statement or after it. -/
  | lose (i : ℕ) (after : Bool)

namespace Migrator

variable {σ : Type} (p : MigrationPlatform σ)

def row (m : Migration) : MigrationRow := ⟨m.version, p.checksum m.sql⟩

/-- The rows of the table. -/
def rows (db : MigrationDatabase σ) : List MigrationRow := db.migrations.getD []

def mismatch (m : Migration) : String :=
  "PostgreSQL migration " ++ m.version ++ " checksum does not match the applied migration."

/-- The `for` loop at a migration. -/
def select (db : MigrationDatabase σ) (m : Migration) (rest : List Migration) : MigratorPc σ :=
  match ((rows db).find? fun row => row.version == m.version).map (·.checksum) with
  | none => .sql m rest
  | some appliedChecksum =>
    -- an empty text is as none
    if appliedChecksum = "" then .sql m rest
    else if appliedChecksum ≠ p.checksum m.sql then .unlock (some (mismatch m))
    else .next rest

/-- A statement of the process in session `i`, with the migration that it commits. -/
def act (i : ℕ) (migrator : Migrator σ) (db : MigrationDatabase σ) :
    Option (MigratorPc σ × MigrationDatabase σ × List Migration) :=
  match migrator.pc with
  | .connected => if db.lock = none then some (.locked, { db with lock := some i }, []) else none
  | .locked => some (.next migrator.migrations, { db with migrations := some (rows db) }, [])
  | .next [] => some (.unlock none, db, [])
  | .next (m :: rest) => some (select p db m rest, db, [])
  | .sql m rest => (p.execute m.sql db.schema).map fun schema => (.insert m rest schema, db, [])
  | .insert m rest schema =>
    -- the primary key
    if m.version ∈ (rows db).map (·.version) then none else some (.commit m rest schema, db, [])
  | .commit m rest schema =>
    some (.next rest, { db with schema, migrations := some (rows db ++ [row p m]) }, [m])
  | .unlock error => some (.finished error, { db with lock := none }, [])
  | .finished _ | .lost => none

/-- A statement fails: a transaction rolls back, and the lock is given back, unless giving it back
is what fails. -/
def fail (error : String) : MigratorPc σ → Option (MigratorPc σ)
  | .connected | .unlock _ => some (.finished (some error))
  | .locked | .next _ | .sql _ _ | .insert _ _ _ | .commit _ _ _ => some (.unlock (some error))
  | .finished _ | .lost => none

/-- What the session leaves when it ends before its statement, or after it. -/
def leave (i : ℕ) (migrator : Migrator σ) (db : MigrationDatabase σ) (after : Bool) :
    MigrationDatabase σ × List Migration :=
  match after, migrator.act p i db with
  | true, some (_, db', committed) => (db', committed)
  | _, _ => (db, [])

end Migrator

namespace MigrationWorld

variable {σ : Type} (p : MigrationPlatform σ)

def step (w : MigrationWorld σ) : MigrationLabel → Option (MigrationWorld σ)
  | .start migrations => some { w with migrators := w.migrators ++ [{ migrations }] }
  | .go i => do
    let migrator ← w.migrators[i]?
    let (pc, db, committed) ← migrator.act p i w.db
    some { w with
      db
      migrators := w.migrators.set i { migrator with pc }
      applied := w.applied ++ committed }
  | .fail i error => do
    let migrator ← w.migrators[i]?
    let pc ← Migrator.fail error migrator.pc
    some { w with migrators := w.migrators.set i { migrator with pc } }
  | .lose i after => do
    let migrator ← w.migrators[i]?
    let (db, committed) := migrator.leave p i w.db after
    some { w with
      db := { db with lock := if db.lock = some i then none else db.lock }
      migrators := w.migrators.set i { migrator with pc := .lost }
      applied := w.applied ++ committed }

/-- Processes that migrate an empty database. -/
def system (schema : σ) : TransitionSystem (MigrationWorld σ) MigrationLabel where
  init w := w = { db := { schema } }
  step := step p

/-! ## The invariant -/

end MigrationWorld

/-- The process has the advisory lock. -/
def MigratorPc.holdsLock {σ : Type} : MigratorPc σ → Bool
  | .connected | .finished _ | .lost => false
  | .locked | .next _ | .sql _ _ | .insert _ _ _ | .commit _ _ _ | .unlock _ => true

namespace Migrator

variable {σ : Type} {p : MigrationPlatform σ} {db db' : MigrationDatabase σ} {m : Migrator σ}

/-- The migrations before the rest are recorded. -/
def Reached (p : MigrationPlatform σ) (db : MigrationDatabase σ) (m : Migrator σ)
    (rest : List Migration) : Prop :=
  ∃ done, m.migrations = done ++ rest ∧ ∀ x ∈ done, row p x ∈ rows db

/-- What the process knows of the database. -/
def Sound (p : MigrationPlatform σ) (db : MigrationDatabase σ) (m : Migrator σ) : Prop :=
  match m.pc with
  | .next rest => m.Reached p db rest
  | .sql x rest => m.Reached p db (x :: rest)
  | .insert x rest schema => m.Reached p db (x :: rest) ∧ p.execute x.sql db.schema = some schema
  | .commit x rest schema => m.Reached p db (x :: rest) ∧
      p.execute x.sql db.schema = some schema ∧ x.version ∉ (rows db).map (·.version)
  | .unlock none | .finished none => m.Reached p db []
  | .connected | .locked | .unlock (some _) | .finished (some _) | .lost => True

theorem Reached.mono {rest : List Migration} (h : m.Reached p db rest)
    (hgrow : rows db ⊆ rows db') : m.Reached p db' rest := by
  obtain ⟨done, hdone, hrows⟩ := h
  exact ⟨done, hdone, fun x hx => hgrow (hrows x hx)⟩

/-- A process that holds the lock keeps what it knows while the database stays, another one while
the table grows. -/
theorem Sound.mono (h : m.Sound p db) (hgrow : rows db ⊆ rows db')
    (hsame : m.pc.holdsLock = true → db'.schema = db.schema ∧ rows db' = rows db) :
    m.Sound p db' := by
  unfold Sound at h ⊢
  cases hpc : m.pc with
  | connected | locked | lost => trivial
  | next rest =>
    rw [hpc] at h
    exact h.mono hgrow
  | sql x rest =>
    rw [hpc] at h
    exact h.mono hgrow
  | insert x rest schema =>
    obtain ⟨hschema, -⟩ := hsame (by rw [hpc]; rfl)
    rw [hpc] at h
    exact ⟨h.1.mono hgrow, by rw [hschema]; exact h.2⟩
  | commit x rest schema =>
    obtain ⟨hschema, hrows⟩ := hsame (by rw [hpc]; rfl)
    rw [hpc] at h
    exact ⟨h.1.mono hgrow, by rw [hschema]; exact h.2.1, by rw [hrows]; exact h.2.2⟩
  | unlock error =>
    rw [hpc] at h
    cases error with
    | none => exact Reached.mono h hgrow
    | some error => trivial
  | finished error =>
    rw [hpc] at h
    cases error with
    | none => exact Reached.mono h hgrow
    | some error => trivial

theorem leave_cases (i : ℕ) (m : Migrator σ) (db : MigrationDatabase σ) (after : Bool) :
    m.leave p i db after = (db, []) ∨ ∃ pc db' committed,
      m.act p i db = some (pc, db', committed) ∧ m.leave p i db after = (db', committed) := by
  unfold leave
  cases after with
  | false => exact .inl rfl
  | true =>
    cases hact : m.act p i db with
    | none => exact .inl rfl
    | some result =>
      obtain ⟨pc, db', committed⟩ := result
      exact .inr ⟨pc, db', committed, rfl, rfl⟩

/-- Only a `COMMIT` adds to what is applied. -/
theorem committed_cases {i : ℕ} {pc : MigratorPc σ} {committed : List Migration}
    (hact : m.act p i db = some (pc, db', committed)) :
    committed = [] ∨ ∃ x rest schema, m.pc = .commit x rest schema ∧ committed = [x] := by
  unfold act at hact
  cases hpc : m.pc with
  | commit x rest schema =>
    rw [hpc] at hact
    cases hact
    exact .inr ⟨x, rest, schema, rfl, rfl⟩
  | connected =>
    rw [hpc] at hact
    dsimp only at hact
    split_ifs at hact
    cases hact
    exact .inl rfl
  | next rest =>
    rw [hpc] at hact
    cases rest <;> cases hact <;> exact .inl rfl
  | sql x rest =>
    rw [hpc] at hact
    obtain ⟨schema, -, hact⟩ := Option.map_eq_some_iff.mp hact
    cases hact
    exact .inl rfl
  | insert x rest schema =>
    rw [hpc] at hact
    dsimp only at hact
    split_ifs at hact
    cases hact
    exact .inl rfl
  | locked | unlock error =>
    rw [hpc] at hact
    cases hact
    exact .inl rfl
  | finished error | lost =>
    rw [hpc] at hact
    cases hact

/-- **The loop**: it goes on past a migration that is recorded with its own checksum. -/
theorem sound_select {x : Migration} {rest : List Migration} (h : m.Reached p db (x :: rest)) :
    Sound p db { m with pc := select p db x rest } ∧ (select p db x rest).holdsLock = true := by
  unfold select
  split
  · exact ⟨h, rfl⟩
  · rename_i checksum hfind
    split_ifs with hempty hchecksum
    · exact ⟨h, rfl⟩
    · exact ⟨trivial, rfl⟩
    · obtain ⟨row', hrow', rfl⟩ := Option.map_eq_some_iff.mp hfind
      have hversion : row'.version = x.version := by simpa using List.find?_some hrow'
      rw [not_not] at hchecksum
      have hx : row p x = row' := by
        rw [row, ← hversion, ← hchecksum]
      obtain ⟨done, hdone, hrows⟩ := h
      refine ⟨⟨done ++ [x], by rw [hdone, List.append_assoc]; rfl, fun y hy => ?_⟩, rfl⟩
      rcases List.mem_append.mp hy with hy | hy
      · exact hrows y hy
      · rw [List.mem_singleton.mp hy, hx]
        exact List.mem_of_find?_eq_some hrow'

end Migrator

namespace MigrationWorld

variable {σ : Type} {p : MigrationPlatform σ} {initial : σ} {w w' : MigrationWorld σ} {i : ℕ}
  {m : Migrator σ}

structure Inv (p : MigrationPlatform σ) (initial : σ) (w : MigrationWorld σ) : Prop where
  rows : Migrator.rows w.db = w.applied.map (Migrator.row p)
  versions : (w.applied.map (·.version)).Nodup
  schema : w.applied.foldlM (fun schema x => p.execute x.sql schema) initial = some w.db.schema
  held : ∀ (i : ℕ) (m : Migrator σ), w.migrators[i]? = some m → m.pc.holdsLock = true →
    w.db.lock = some i
  sound : ∀ (i : ℕ) (m : Migrator σ), w.migrators[i]? = some m → m.Sound p w.db

/-- A process moves, and leaves the database to the process that holds its lock. -/
theorem Inv.set (h : w.Inv p initial) {db : MigrationDatabase σ} {m' : Migrator σ}
    {committed : List Migration}
    (hrows : Migrator.rows db = Migrator.rows w.db ++ committed.map (Migrator.row p))
    (hversions : ((w.applied ++ committed).map (·.version)).Nodup)
    (hschema : committed.foldlM (fun schema x => p.execute x.sql schema) w.db.schema =
      some db.schema)
    (hothers : ∀ j, i ≠ j → w.db.lock = some j → db.lock = some j ∧ committed = [])
    (hheld : m'.pc.holdsLock = true → db.lock = some i) (hsound : m'.Sound p db) :
    Inv p initial { w with
      db, migrators := w.migrators.set i m', applied := w.applied ++ committed } := by
  refine ⟨?_, hversions, ?_, fun j d hd hlock => ?_, fun j d hd => ?_⟩
  · show Migrator.rows db = _
    rw [hrows, h.rows, List.map_append]
  · show List.foldlM _ initial (w.applied ++ committed) = some db.schema
    rw [List.foldlM_append, h.schema, Option.bind_eq_bind, Option.bind_some, hschema]
  · rcases CallLog.getElem?_set_cases hd with ⟨rfl, rfl⟩ | ⟨hij, hd⟩
    · exact hheld hlock
    · exact (hothers j hij (h.held j d hd hlock)).1
  · rcases CallLog.getElem?_set_cases hd with ⟨rfl, rfl⟩ | ⟨hij, hd⟩
    · exact hsound
    · refine (h.sound j d hd).mono (fun row hrow => ?_) fun hlock => ?_
      · rw [hrows]
        exact List.mem_append_left _ hrow
      · obtain ⟨-, rfl⟩ := hothers j hij (h.held j d hd hlock)
        refine ⟨(Option.some.inj hschema).symm, ?_⟩
        show Migrator.rows db = Migrator.rows w.db
        rw [hrows, List.map_nil, List.append_nil]

/-- A step that commits no migration. -/
theorem Inv.set_quiet (h : w.Inv p initial) {db : MigrationDatabase σ} {m' : Migrator σ}
    (hrows : Migrator.rows db = Migrator.rows w.db) (hschema : db.schema = w.db.schema)
    (hothers : ∀ j, i ≠ j → w.db.lock = some j → db.lock = some j)
    (hheld : m'.pc.holdsLock = true → db.lock = some i) (hsound : m'.Sound p db) :
    Inv p initial { w with db, migrators := w.migrators.set i m', applied := w.applied ++ [] } := by
  refine h.set ?_ ?_ ?_ (fun j hij hlock => ⟨hothers j hij hlock, rfl⟩) hheld hsound
  · rw [hrows, List.map_nil, List.append_nil]
  · rw [List.append_nil]
    exact h.versions
  · rw [hschema]
    rfl

/-- **A statement** of a process. -/
theorem Inv.act (h : w.Inv p initial) (hi : w.migrators[i]? = some m) {pc : MigratorPc σ}
    {db : MigrationDatabase σ} {committed : List Migration}
    (hact : m.act p i w.db = some (pc, db, committed)) :
    Inv p initial { w with
      db, migrators := w.migrators.set i { m with pc }, applied := w.applied ++ committed } := by
  have hsound := h.sound i m hi
  have hheld := h.held i m hi
  unfold Migrator.Sound at hsound
  unfold Migrator.act at hact
  cases hpc : m.pc with
  | connected =>
    rw [hpc] at hact
    dsimp only at hact
    split_ifs at hact with hfree
    cases hact
    refine h.set_quiet rfl rfl (fun j _ hj => ?_) (fun _ => rfl) trivial
    rw [hfree] at hj
    cases hj
  | locked =>
    rw [hpc] at hact hheld
    cases hact
    exact h.set_quiet rfl rfl (fun _ _ hj => hj) (fun _ => hheld rfl)
      ⟨[], rfl, fun _ hx => absurd hx List.not_mem_nil⟩
  | next rest =>
    rw [hpc] at hact hheld hsound
    cases rest with
    | nil =>
      cases hact
      exact h.set_quiet rfl rfl (fun _ _ hj => hj) (fun _ => hheld rfl) hsound
    | cons x rest =>
      cases hact
      exact h.set_quiet rfl rfl (fun _ _ hj => hj) (fun _ => hheld rfl)
        (Migrator.sound_select hsound).1
  | sql x rest =>
    rw [hpc] at hact hheld hsound
    obtain ⟨schema, hexecute, hact⟩ := Option.map_eq_some_iff.mp hact
    cases hact
    exact h.set_quiet rfl rfl (fun _ _ hj => hj) (fun _ => hheld rfl) ⟨hsound, hexecute⟩
  | insert x rest schema =>
    rw [hpc] at hact hheld hsound
    dsimp only at hact
    split_ifs at hact with hkey
    cases hact
    exact h.set_quiet rfl rfl (fun _ _ hj => hj) (fun _ => hheld rfl) ⟨hsound.1, hsound.2, hkey⟩
  | commit x rest schema =>
    rw [hpc] at hact hheld hsound
    obtain ⟨⟨done, hdone, hrecorded⟩, hexecute, hkey⟩ := hsound
    cases hact
    refine h.set rfl ?_ ?_ (fun j hij hj => ?_) (fun _ => hheld rfl) ⟨done ++ [x], ?_, ?_⟩
    · rw [h.rows, List.map_map] at hkey
      rw [List.map_append, List.map_singleton]
      exact List.nodup_append.mpr ⟨h.versions, List.nodup_singleton _, fun v hv v' hv' heq =>
        hkey (by rw [List.mem_singleton.mp hv'] at heq; exact heq ▸ hv)⟩
    · rw [List.foldlM_cons, hexecute]
      rfl
    · exact absurd (Option.some.inj ((hheld rfl).symm.trans hj)) hij
    · show m.migrations = _
      rw [hdone, List.append_assoc]
      rfl
    · intro y hy
      rcases List.mem_append.mp hy with hy | hy
      · exact List.mem_append_left _ (hrecorded y hy)
      · rw [List.mem_singleton.mp hy]
        exact List.mem_append_right _ List.mem_cons_self
  | unlock error =>
    rw [hpc] at hact hheld hsound
    cases hact
    refine h.set_quiet rfl rfl (fun j hij hj => ?_) (fun hlock => by cases hlock) ?_
    · exact absurd (Option.some.inj ((hheld rfl).symm.trans hj)) hij
    · cases error with
      | none => exact hsound
      | some error => trivial
  | finished error =>
    rw [hpc] at hact
    cases hact
  | lost =>
    rw [hpc] at hact
    cases hact

/-- A session that ends gives its lock back. -/
theorem Inv.lose (h : w.Inv p initial) :
    Inv p initial { w with
      db := { w.db with lock := if w.db.lock = some i then none else w.db.lock }
      migrators := w.migrators.set i { m with pc := .lost }
      applied := w.applied ++ [] } := by
  refine h.set_quiet rfl rfl (fun j hij hj => ?_) (fun hlock => by cases hlock) trivial
  show (if w.db.lock = some i then none else w.db.lock) = some j
  rw [if_neg fun heq => hij (Option.some.inj (heq.symm.trans hj)), hj]

theorem Inv.fail (h : w.Inv p initial) (hi : w.migrators[i]? = some m) {error : String}
    {pc : MigratorPc σ} (hfail : Migrator.fail error m.pc = some pc) :
    Inv p initial { w with
      migrators := w.migrators.set i { m with pc }, applied := w.applied ++ [] } := by
  have hheld := h.held i m hi
  have hcases : (pc = .finished (some error)) ∨
      (pc = .unlock (some error) ∧ m.pc.holdsLock = true) := by
    cases hpc : m.pc <;> rw [hpc] at hfail <;> cases hfail
    case connected | unlock => exact .inl rfl
    all_goals exact .inr ⟨rfl, rfl⟩
  rcases hcases with rfl | ⟨rfl, hlock⟩
  · exact h.set_quiet rfl rfl (fun _ _ hj => hj) (fun hlock => by cases hlock) trivial
  · exact h.set_quiet rfl rfl (fun _ _ hj => hj) (fun _ => hheld hlock) trivial

/-- **A step** keeps the invariant. -/
theorem Inv.step (h : w.Inv p initial) {l : MigrationLabel} (hs : w.step p l = some w') :
    w'.Inv p initial := by
  cases l with
  | start migrations =>
    cases hs
    have hcases : ∀ {j : ℕ} {d : Migrator σ},
        (w.migrators ++ [{ migrations := migrations }])[j]? = some d →
        w.migrators[j]? = some d ∨ d = { migrations := migrations } := by
      intro j d hd
      rw [List.getElem?_append] at hd
      split_ifs at hd
      · exact .inl hd
      · rw [List.getElem?_singleton] at hd
        split_ifs at hd
        exact .inr (Option.some.inj hd).symm
    refine ⟨h.rows, h.versions, h.schema, fun j d hd hlock => ?_, fun j d hd => ?_⟩
    · rcases hcases hd with hd | rfl
      · exact h.held j d hd hlock
      · cases hlock
    · rcases hcases hd with hd | rfl
      · exact h.sound j d hd
      · trivial
  | go i =>
    obtain ⟨m, hi, hs⟩ := Option.bind_eq_some_iff.mp hs
    obtain ⟨⟨pc, db, committed⟩, hact, hs⟩ := Option.bind_eq_some_iff.mp hs
    cases hs
    exact h.act hi hact
  | fail i error =>
    obtain ⟨m, hi, hs⟩ := Option.bind_eq_some_iff.mp hs
    obtain ⟨pc, hfail, hs⟩ := Option.bind_eq_some_iff.mp hs
    cases hs
    have hfailed := h.fail hi hfail
    rwa [List.append_nil] at hfailed
  | lose i after =>
    obtain ⟨m, hi, hs⟩ := Option.bind_eq_some_iff.mp hs
    rcases Migrator.leave_cases (p := p) i m w.db after with
      hleave | ⟨pc, db, committed, hact, hleave⟩
    · rw [hleave] at hs
      cases hs
      exact h.lose
    · rw [hleave] at hs
      cases hs
      have hlost := (h.act hi hact).lose (i := i) (m := m)
      simpa only [List.set_set, List.append_nil] using hlost

theorem inv_of_reachableWhere {C : MigrationWorld σ → MigrationLabel → Prop}
    (h : (system p initial).ReachableWhere C w) : w.Inv p initial := by
  refine h.invariant ?_ fun w w' l _ hw _ hs => hw.step hs
  rintro w rfl
  refine ⟨rfl, List.nodup_nil, rfl, fun i m hi => ?_, fun i m hi => ?_⟩
  · cases hi
  · cases hi

theorem Inv.recorded (h : w.Inv p initial) (hm : m ∈ w.migrators) (hpc : m.pc = .finished none) :
    ∀ x ∈ m.migrations, Migrator.row p x ∈ Migrator.rows w.db := by
  obtain ⟨i, hi⟩ := List.getElem?_of_mem hm
  have hsound := h.sound i m hi
  rw [Migrator.Sound, hpc] at hsound
  obtain ⟨done, hdone, hrows⟩ := hsound
  rw [hdone, List.append_nil]
  exact hrows

end MigrationWorld

open MigrationWorld

/-- **The schema is what the recorded migrations make**, each run once and in the order of their
commits, whatever the processes do that start at once, fail or are lost; no two of them are past the
lock. A process that returns finds all its migrations recorded, with the digests of its own
scripts. -/
theorem migrations_applied {σ : Type} {p : MigrationPlatform σ} {initial : σ}
    {w : MigrationWorld σ} (h : (system p initial).Reachable w) :
    Migrator.rows w.db = w.applied.map (Migrator.row p) ∧
      (w.applied.map (·.version)).Nodup ∧
      w.applied.foldlM (fun schema x => p.execute x.sql schema) initial = some w.db.schema ∧
      (∀ (i j : ℕ) (m m' : Migrator σ), w.migrators[i]? = some m → w.migrators[j]? = some m' →
        m.pc.holdsLock = true → m'.pc.holdsLock = true → i = j) ∧
      ∀ m ∈ w.migrators, m.pc = .finished none →
        ∀ x ∈ m.migrations, Migrator.row p x ∈ Migrator.rows w.db := by
  have hinv := inv_of_reachableWhere h
  refine ⟨hinv.rows, hinv.versions, hinv.schema, fun i j m m' hi hj hm hm' => ?_,
    fun m hm hpc x hx => ?_⟩
  · exact Option.some.inj ((hinv.held i m hi hm).symm.trans (hinv.held j m' hj hm'))
  · exact hinv.recorded hm hpc x hx

/-! ## Releases -/

namespace MigrationWorld

/-- Every release has the first migrations of one list. -/
def isRelease (all : List Migration) : MigrationLabel → Bool
  | .start migrations => decide (migrations <+: all)
  | _ => true

/-- The recorded migrations are the first of the list, and so are those of every process. -/
structure InOrder {σ : Type} (all : List Migration) (w : MigrationWorld σ) : Prop where
  applied : w.applied <+: all
  releases : ∀ m ∈ w.migrators, m.migrations <+: all

/-- A prefix whose versions are recorded is a prefix of what is recorded. -/
theorem prefix_of_recorded {all applied release : List Migration}
    (hall : (all.map (·.version)).Nodup) (happlied : applied <+: all) (hrelease : release <+: all)
    (hrecorded : ∀ x ∈ release, x.version ∈ applied.map (·.version)) : release <+: applied := by
  rcases List.prefix_or_prefix_of_prefix hrelease happlied with hle | ⟨rest, rfl⟩
  · exact hle
  · cases rest with
    | nil => simp
    | cons x rest =>
      exfalso
      have hx := hrecorded x (List.mem_append_right _ List.mem_cons_self)
      have hnodup := hall.sublist (hrelease.sublist.map _)
      rw [List.map_append, List.map_cons] at hnodup
      exact (List.nodup_append.mp hnodup).2.2 _ hx _ List.mem_cons_self rfl

variable {σ : Type} {p : MigrationPlatform σ} {initial : σ} {w w' : MigrationWorld σ} {i : ℕ}
  {m : Migrator σ} {all : List Migration}

/-- **A commit** adds the next migration of the list. -/
theorem InOrder.act (h : InOrder all w) (hall : (all.map (·.version)).Nodup)
    (hinv : w.Inv p initial) (hi : w.migrators[i]? = some m) {pc : MigratorPc σ}
    {db : MigrationDatabase σ} {committed : List Migration}
    (hact : m.act p i w.db = some (pc, db, committed)) : w.applied ++ committed <+: all := by
  rcases Migrator.committed_cases hact with rfl | ⟨x, rest, schema, hpc, rfl⟩
  · rw [List.append_nil]
    exact h.applied
  · have hsound := hinv.sound i m hi
    rw [Migrator.Sound, hpc] at hsound
    obtain ⟨⟨done, hdone, hrecorded⟩, -, hkey⟩ := hsound
    rw [hinv.rows, List.map_map] at hkey
    have hnew : x ∉ w.applied := fun hx => hkey (List.mem_map.mpr ⟨x, hx, rfl⟩)
    have hnext : done ++ [x] <+: all :=
      List.IsPrefix.trans ⟨rest, by rw [hdone, List.append_assoc]; rfl⟩
        (h.releases m (List.mem_of_getElem? hi))
    have hle : done <+: w.applied := by
      refine prefix_of_recorded hall h.applied ((List.prefix_append done [x]).trans hnext) ?_
      intro y hy
      have hrow := hrecorded y hy
      rw [hinv.rows] at hrow
      obtain ⟨z, hz, hrow⟩ := List.mem_map.mp hrow
      exact List.mem_map.mpr ⟨z, hz, (MigrationRow.mk.inj hrow).1⟩
    -- what is recorded lies between the migrations before `x` and those up to `x`
    rcases List.prefix_or_prefix_of_prefix h.applied hnext with hge | hge
    · obtain ⟨rest', hrest'⟩ := hle
      rw [← hrest', List.prefix_append_right_inj, List.prefix_cons_iff] at hge
      rcases hge with rfl | ⟨rest'', rfl, -⟩
      · rw [List.append_nil] at hrest'
        rwa [← hrest']
      · refine absurd ?_ hnew
        rw [← hrest']
        exact List.mem_append_right _ List.mem_cons_self
    · exact absurd (hge.subset (List.mem_append_right _ List.mem_cons_self)) hnew

theorem InOrder.step (h : InOrder all w) (hall : (all.map (·.version)).Nodup)
    (hinv : w.Inv p initial) {l : MigrationLabel} (hrelease : isRelease all l = true)
    (hs : w.step p l = some w') : InOrder all w' := by
  have hset : ∀ {i : ℕ} {m m' : Migrator σ}, w.migrators[i]? = some m →
      m'.migrations = m.migrations → ∀ d ∈ w.migrators.set i m', d.migrations <+: all := by
    intro i m m' hi hsame d hd
    rcases List.mem_or_eq_of_mem_set hd with hd | rfl
    · exact h.releases d hd
    · rw [hsame]
      exact h.releases m (List.mem_of_getElem? hi)
  cases l with
  | start migrations =>
    cases hs
    refine ⟨h.applied, fun d hd => ?_⟩
    rcases List.mem_append.mp hd with hd | hd
    · exact h.releases d hd
    · rw [List.mem_singleton.mp hd]
      exact of_decide_eq_true hrelease
  | go i =>
    obtain ⟨m, hi, hs⟩ := Option.bind_eq_some_iff.mp hs
    obtain ⟨⟨pc, db, committed⟩, hact, hs⟩ := Option.bind_eq_some_iff.mp hs
    cases hs
    exact ⟨h.act hall hinv hi hact, hset hi rfl⟩
  | fail i error =>
    obtain ⟨m, hi, hs⟩ := Option.bind_eq_some_iff.mp hs
    obtain ⟨pc, -, hs⟩ := Option.bind_eq_some_iff.mp hs
    cases hs
    exact ⟨h.applied, hset hi rfl⟩
  | lose i after =>
    obtain ⟨m, hi, hs⟩ := Option.bind_eq_some_iff.mp hs
    rcases Migrator.leave_cases (p := p) i m w.db after with
      hleave | ⟨pc, db, committed, hact, hleave⟩
    · rw [hleave] at hs
      cases hs
      refine ⟨?_, hset hi rfl⟩
      rw [List.append_nil]
      exact h.applied
    · rw [hleave] at hs
      cases hs
      exact ⟨h.act hall hinv hi hact, hset hi rfl⟩

end MigrationWorld

/-- **The schema grows along one list**: when every release has its first migrations, the recorded
ones are the first of the list too, whichever release starts last, and a process that returns has at
least its own. -/
theorem migrations_in_order {σ : Type} {p : MigrationPlatform σ} {initial : σ}
    {all : List Migration} (hall : (all.map (·.version)).Nodup) {w : MigrationWorld σ}
    (h : (system p initial).ReachableWhere (fun _ l => isRelease all l = true) w) :
    w.applied <+: all ∧
      w.applied.foldlM (fun schema x => p.execute x.sql schema) initial = some w.db.schema ∧
      ∀ m ∈ w.migrators, m.pc = .finished none → m.migrations <+: w.applied := by
  have hinv := inv_of_reachableWhere h
  have horder : InOrder all w := by
    refine h.invariant ?_ fun w w' l hr hw hrelease hs =>
      hw.step hall (inv_of_reachableWhere hr) hrelease hs
    rintro w rfl
    exact ⟨List.nil_prefix, fun m hm => absurd hm List.not_mem_nil⟩
  refine ⟨horder.applied, hinv.schema, fun m hm hpc => ?_⟩
  refine prefix_of_recorded hall horder.applied (horder.releases m hm) fun x hx => ?_
  have hrow := hinv.recorded hm hpc x hx
  rw [hinv.rows] at hrow
  obtain ⟨y, hy, hrow⟩ := List.mem_map.mp hrow
  exact List.mem_map.mpr ⟨y, hy, (MigrationRow.mk.inj hrow).1⟩

namespace MigrationWorld

/-- Scripts that add their text to the schema. -/
def scriptPlatform : MigrationPlatform (List String) where
  execute sql schema := some (schema ++ [sql])
  checksum sql := sql

def firstMigration : Migration := ⟨"0001", "a"⟩

def secondMigration : Migration := ⟨"0002", "b"⟩

/-- An old and a new release start at once; the old one is lost after its commit. -/
def releasesRun : List MigrationLabel :=
  [.start [firstMigration], .start [firstMigration, secondMigration],
    .go 0, .go 0, .go 0, .go 0, .go 0, .lose 0 true,
    .go 1, .go 1, .go 1, .go 1, .go 1, .go 1, .go 1, .go 1, .go 1]

end MigrationWorld

theorem migrations_applied_sample : ∃ w, (system scriptPlatform []).Reachable w ∧
    w.db.schema = ["a", "b"] ∧
    w.applied.foldlM (fun schema x => scriptPlatform.execute x.sql schema) [] =
      some w.db.schema := by
  have hrun : ((system scriptPlatform []).run { db := { schema := [] } } releasesRun).any
      (fun w => decide (w.db.schema = ["a", "b"])) = true := by decide
  obtain ⟨w, hw, hschema⟩ := TransitionSystem.exists_reachable_of_run rfl hrun
  exact ⟨w, hw, of_decide_eq_true hschema, (migrations_applied hw).2.2.1⟩

theorem migrations_in_order_sample : ∃ w, (system scriptPlatform []).ReachableWhere
      (fun _ l => isRelease [firstMigration, secondMigration] l = true) w ∧
    w.db.schema = ["a", "b"] ∧ w.applied <+: [firstMigration, secondMigration] := by
  have hrun : ((system scriptPlatform []).runWhere
      (fun _ l => isRelease [firstMigration, secondMigration] l) { db := { schema := [] } }
        releasesRun).any (fun w => decide (w.db.schema = ["a", "b"])) = true := by decide
  obtain ⟨w, hw, hschema⟩ := TransitionSystem.exists_reachableWhere_of_run rfl hrun
  exact ⟨w, hw, of_decide_eq_true hschema, (migrations_in_order (by decide) hw).1⟩

end HayaSend
