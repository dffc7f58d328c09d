import HayaSend.Foundations.KeysetPaging
import HayaSend.Foundations.Paging
import HayaSend.Foundations.TransitionSystem
import Mathlib.Data.Prod.Lex

/-!
# Listings of the PostgreSQL store

`pageAppEntities` finds the row of the cursor, then selects the rows below it, newest first, one
more than the limit. A reader follows the cursors while rows are inserted, updated and deleted, also
between the two queries of a page.

`listing_visits`: while the row of a cursor has the time that it was listed with, no row is listed
twice, and a listing that comes to its end has listed every row that was there for each of its
pages.
A row that is put again with another time moves the cursor, and rows may be listed twice
(`listing_repeats`).
-/

namespace HayaSend

/-- A row of `app_entities`. The ids are in the order of the database's collation. -/
structure AppEntityRow (ι γ : Type) where
  kind : String
  id : ι
  scope : Option String := none
  entity : γ
  createdAt : ℕ
  expiresAt : Option ℕ := none
  deriving DecidableEq

/-- What a listing asks for. -/
structure AppEntityQuery where
  kind : String
  limit : ℕ
  scope : Option String := none
  activeOnly : Bool := false

namespace AppEntityQuery

variable {ι γ : Type} [LinearOrder ι] (q : AppEntityQuery) (now : ℕ)

/-- The row is of the listing. -/
def lists (row : AppEntityRow ι γ) : Bool :=
  row.kind == q.kind && q.scope.all (fun scope => row.scope == some scope) &&
    (!q.activeOnly || row.expiresAt.any (now < ·))

/-- `(created_at, id)` -/
def key (row : AppEntityRow ι γ) : ℕ ×ₗ ι := toLex (row.createdAt, row.id)

/-- `getAppEntityAnchor` -/
def anchor (rows : List (AppEntityRow ι γ)) (id : ι) : Option (ℕ ×ₗ ι) :=
  (rows.find? fun row => q.lists now row && row.id == id).map key

/-- `ORDER BY created_at DESC, id DESC LIMIT $6` -/
def select (rows : List (AppEntityRow ι γ)) (anchor : Option (ℕ ×ₗ ι)) :
    List (AppEntityRow ι γ) :=
  (rowsBelow key anchor (rows.filter (q.lists now))).take (q.limit + 1)

/-- `resultPage` -/
def resultPage (rows : List (AppEntityRow ι γ)) : Page (AppEntityRow ι γ) ι :=
  let data := rows.take q.limit
  if decide (q.limit < rows.length) && !data.isEmpty then
    ⟨data, true, data.getLast?.map (·.id)⟩
  else ⟨data, false, none⟩

end AppEntityQuery

/-! ## A reader -/

inductive ListingStage (ι : Type)
  | start
  | next (cursor : ι)
  | anchored (key : ℕ ×ₗ ι)
  | finished
  /-- `The pagination cursor is invalid.` -/
  | failed
  deriving DecidableEq

/-- A page that was read, and the rows of the listing in the table that it was read from. -/
structure ListedPage (ι γ : Type) where
  data : List (AppEntityRow ι γ)
  table : List (AppEntityRow ι γ)

/-- The table, and a reader with its pages. -/
structure ListingWorld (ι γ : Type) where
  now : ℕ := 0
  rows : List (AppEntityRow ι γ) := []
  stage : ListingStage ι := .start
  pages : List (ListedPage ι γ) := []

inductive ListingLabel (ι γ : Type)
  | tick (ms : ℕ)
  /-- Other calls insert, update and delete rows. -/
  | change (rows : List (AppEntityRow ι γ))
  | anchor
  | select

namespace ListingWorld

/-- What the reader has listed. -/
def data {ι γ : Type} (w : ListingWorld ι γ) : List (AppEntityRow ι γ) := w.pages.flatMap (·.data)

/-- The rows of the listing at each of its pages. -/
def tables {ι γ : Type} (w : ListingWorld ι γ) : List (List (AppEntityRow ι γ)) :=
  w.pages.map (·.table)

variable {ι γ : Type} [LinearOrder ι]

/-- A page comes in. -/
def receive (w : ListingWorld ι γ) (q : AppEntityQuery) (anchor : Option (ℕ ×ₗ ι)) :
    ListingWorld ι γ :=
  let page := q.resultPage (q.select w.now w.rows anchor)
  { w with
    stage := (page.nextCursor.map .next).getD .finished
    pages := w.pages ++ [⟨page.data, w.rows.filter (q.lists w.now)⟩] }

def step (q : AppEntityQuery) (w : ListingWorld ι γ) : ListingLabel ι γ → Option (ListingWorld ι γ)
  | .tick ms => some { w with now := w.now + ms }
  | .change rows =>
    -- the primary key
    if (rows.map fun row => (row.kind, row.id)).Nodup then some { w with rows := rows } else none
  | .anchor => match w.stage with
    | .next cursor =>
      some { w with stage := ((q.anchor w.now w.rows cursor).map .anchored).getD .failed }
    | _ => none
  | .select => match w.stage with
    | .start => some (w.receive q none)
    | .anchored key => some (w.receive q (some key))
    | _ => none

def system (q : AppEntityQuery) : TransitionSystem (ListingWorld ι γ) (ListingLabel ι γ) where
  init w := ∃ now, w = { now := now }
  step := step q

/-- The row of a cursor has the time that it was listed with. -/
def cursorKept (q : AppEntityQuery) (w : ListingWorld ι γ) : ListingLabel ι γ → Bool
  | .anchor => match w.stage with
    | .next cursor => (q.anchor w.now w.rows cursor).all fun key =>
      w.data.getLast?.all fun last => key == AppEntityQuery.key last
    | _ => true
  | _ => true

/-! ## The walk -/

/-- What holds of the reader. -/
def StageInv (w : ListingWorld ι γ) : Prop :=
  match w.stage with
  | .start => w.data = []
  | .next cursor => ∃ last ∈ w.data.getLast?, last.id = cursor
  | .anchored key => (w.data.map AppEntityQuery.key).getLast? = some key
  | .finished => ∀ k, (∀ table ∈ w.tables, k ∈ table.map AppEntityQuery.key) →
    k ∈ w.data.map AppEntityQuery.key
  | .failed => True

structure Inv (w : ListingWorld ι γ) : Prop where
  primary_key : (w.rows.map fun row => (row.kind, row.id)).Nodup
  walked : Walked (w.data.map AppEntityQuery.key) (w.tables.map (·.map AppEntityQuery.key))
  listed : ∀ page ∈ w.pages, page.data ⊆ page.table
  stage : w.StageInv

variable {q : AppEntityQuery} {w w' : ListingWorld ι γ} {now : ℕ} {rows : List (AppEntityRow ι γ)}

omit [LinearOrder ι] in
/-- The rows of one listing have different keys. -/
theorem nodup_keys (h : (rows.map fun row => (row.kind, row.id)).Nodup) :
    ((rows.filter (q.lists now)).map AppEntityQuery.key).Nodup := by
  have hfilter : ((rows.filter (q.lists now)).map fun row => (row.kind, row.id)).Nodup :=
    h.sublist (List.filter_sublist.map _)
  refine List.Nodup.map_on (fun a ha b hb heq => ?_) (List.Nodup.of_map _ hfilter)
  have hkind : ∀ row ∈ rows.filter (q.lists now), row.kind = q.kind := by
    intro row hrow
    have hlists := (List.mem_filter.mp hrow).2
    simp only [AppEntityQuery.lists, Bool.and_eq_true, beq_iff_eq] at hlists
    exact hlists.1.1
  have hid : a.id = b.id := (Prod.mk.inj (toLex.injective heq)).2
  exact List.inj_on_of_nodup_map hfilter ha hb (by rw [hkind a ha, hkind b hb, hid])

/-- A page is the first rows below the anchor, and it is the last one when there are no others. -/
theorem resultPage_select (now : ℕ) (rows : List (AppEntityRow ι γ)) (hlimit : 1 ≤ q.limit)
    (anchor : Option (ℕ ×ₗ ι)) :
    let below := rowsBelow AppEntityQuery.key anchor (rows.filter (q.lists now))
    let page := q.resultPage (q.select now rows anchor)
    page.data = below.take q.limit ∧
      (page.nextCursor = none → below.length ≤ q.limit) ∧
      ∀ cursor ∈ page.nextCursor, ∃ last ∈ page.data.getLast?, last.id = cursor := by
  intro below page
  have hdata : (q.select now rows anchor).take q.limit = below.take q.limit := by
    rw [AppEntityQuery.select, List.take_take, min_eq_left (Nat.le_succ _)]
  have hlength : (q.select now rows anchor).length = min (q.limit + 1) below.length :=
    List.length_take
  have hpage : page = q.resultPage (q.select now rows anchor) := rfl
  rw [AppEntityQuery.resultPage, hdata] at hpage
  split_ifs at hpage with hmore
  · rw [hpage]
    refine ⟨rfl, fun hnone => ?_, fun cursor hcursor => ?_⟩
    · rw [Bool.and_eq_true, Bool.not_eq_true', List.isEmpty_eq_false_iff] at hmore
      rw [List.getLast?_eq_some_getLast hmore.2] at hnone
      cases hnone
    · obtain ⟨last, hlast, rfl⟩ := Option.map_eq_some_iff.mp hcursor
      exact ⟨last, hlast, rfl⟩
  · rw [hpage]
    refine ⟨rfl, fun _ => ?_, fun cursor hcursor => by cases hcursor⟩
    by_contra hlt
    refine hmore ?_
    rw [Bool.and_eq_true, Bool.not_eq_true', List.isEmpty_eq_false_iff, decide_eq_true_eq, hlength]
    refine ⟨by omega, List.ne_nil_of_length_pos ?_⟩
    rw [List.length_take]
    omega

theorem data_receive (anchor : Option (ℕ ×ₗ ι)) : (w.receive q anchor).data =
    w.data ++ (q.resultPage (q.select w.now w.rows anchor)).data := by
  rw [data, receive, List.flatMap_append, List.flatMap_singleton]
  rfl

theorem tables_receive (anchor : Option (ℕ ×ₗ ι)) :
    (w.receive q anchor).tables = w.tables ++ [w.rows.filter (q.lists w.now)] := by
  rw [tables, receive, List.map_append]
  rfl

/-- **A page** that starts where the last one ended. -/
theorem Inv.receive (h : w.Inv) (hlimit : 1 ≤ q.limit) {anchor : Option (ℕ ×ₗ ι)}
    (hanchor : (w.data.map AppEntityQuery.key).getLast? = anchor) : (w.receive q anchor).Inv := by
  obtain ⟨hdata, hlast, hcursor⟩ := resultPage_select w.now w.rows hlimit anchor
  have hn : ((w.rows.filter (q.lists w.now)).map AppEntityQuery.key).Nodup :=
    nodup_keys h.primary_key
  refine ⟨h.primary_key, ?_, fun page hpage => ?_, ?_⟩
  · rw [data_receive, tables_receive, hdata, List.map_append, List.map_append, ← hanchor]
    exact h.walked.page hn q.limit
  · rcases List.mem_append.mp hpage with hpage | hpage
    · exact h.listed page hpage
    · obtain rfl := List.mem_singleton.mp hpage
      intro row hrow
      dsimp only at hrow ⊢
      rw [hdata] at hrow
      exact (mem_rowsBelow.mp (List.mem_of_mem_take hrow)).1
  · unfold StageInv
    rw [data_receive, tables_receive]
    dsimp only [ListingWorld.receive]
    cases hnext : (q.resultPage (q.select w.now w.rows anchor)).nextCursor with
    | none =>
      intro k hk
      rw [hdata, List.map_append, ← hanchor]
      refine h.walked.complete (hanchor ▸ hlast hnext) fun keys hkeys => ?_
      rw [← List.map_singleton, ← List.map_append] at hkeys
      obtain ⟨table, htable, rfl⟩ := List.mem_map.mp hkeys
      exact hk table htable
    | some cursor =>
      obtain ⟨last, hmem, hid⟩ := hcursor cursor hnext
      refine ⟨last, ?_, hid⟩
      rw [List.getLast?_append, hmem]
      rfl

theorem Inv.step (h : w.Inv) (hlimit : 1 ≤ q.limit) {l : ListingLabel ι γ}
    (hkept : w.cursorKept q l = true) (hs : w.step q l = some w') : w'.Inv := by
  cases l with
  | tick ms =>
    obtain rfl := Option.some.inj hs
    exact ⟨h.primary_key, h.walked, h.listed, h.stage⟩
  | change rows =>
    simp only [ListingWorld.step, Option.ite_none_right_eq_some, Option.some.injEq] at hs
    obtain ⟨hkey, rfl⟩ := hs
    exact ⟨hkey, h.walked, h.listed, h.stage⟩
  | anchor =>
    simp only [ListingWorld.step] at hs
    split at hs
    · rename_i cursor hstage
      obtain rfl := Option.some.inj hs
      refine ⟨h.primary_key, h.walked, h.listed, ?_⟩
      have hlast := h.stage
      rw [StageInv, hstage] at hlast
      obtain ⟨last, hlast, -⟩ := hlast
      unfold StageInv
      dsimp only
      cases hanchor : q.anchor w.now w.rows cursor with
      | none => trivial
      | some key =>
        rw [cursorKept, hstage] at hkept
        dsimp only at hkept
        rw [hanchor, hlast] at hkept
        obtain rfl : key = AppEntityQuery.key last := by simpa using hkept
        show (w.data.map AppEntityQuery.key).getLast? = some (AppEntityQuery.key last)
        rw [List.getLast?_map, hlast]
        rfl
    · cases hs
  | select =>
    have hstage := h.stage
    simp only [ListingWorld.step] at hs
    split at hs
    · rename_i heq
      rw [StageInv, heq] at hstage
      obtain rfl := Option.some.inj hs
      exact h.receive hlimit (by rw [hstage]; rfl)
    · rename_i key heq
      rw [StageInv, heq] at hstage
      obtain rfl := Option.some.inj hs
      exact h.receive hlimit hstage
    · cases hs

end ListingWorld

open ListingWorld

/-- **A listing visits each row once**, whatever other calls do to the table: the rows come newest
first, the rows of each page were in the table that the page was read from, and a listing that has
ended has every row that was there for each of its pages. -/
theorem listing_visits {ι γ : Type} [LinearOrder ι] {q : AppEntityQuery} (hlimit : 1 ≤ q.limit)
    {w : ListingWorld ι γ} (h : (system q).ReachableWhere (fun w l => w.cursorKept q l = true) w) :
    (w.data.map AppEntityQuery.key).Pairwise (· > ·) ∧
      (∀ page ∈ w.pages, page.data ⊆ page.table) ∧
      (w.stage = .finished → ∀ k, (∀ table ∈ w.tables, k ∈ table.map AppEntityQuery.key) →
        (w.data.map AppEntityQuery.key).count k = 1) := by
  have hinv : w.Inv := by
    refine h.invariant (I := Inv) ?_ fun w w' l _ hi hkept hs => hi.step hlimit hkept hs
    rintro w ⟨now, rfl⟩
    exact ⟨List.nodup_nil, .empty, fun page hpage => absurd hpage List.not_mem_nil, rfl⟩
  refine ⟨hinv.walked.descending, hinv.listed, fun hstage k hk => ?_⟩
  have hall := hinv.stage
  rw [StageInv, hstage] at hall
  exact List.count_eq_one_of_mem (hinv.walked.descending.imp fun hlt => hlt.ne') (hall k hk)

namespace ListingWorld

/-- A row of the sample table. -/
def sampleRow (id createdAt : ℕ) : AppEntityRow ℕ Unit where
  kind := "suppression"
  id := id
  entity := ()
  createdAt := createdAt

def sampleQuery : AppEntityQuery where
  kind := "suppression"
  limit := 1

/-- Between the pages a row is inserted, and another one is deleted. -/
def sampleWalk : List (ListingLabel ℕ Unit) :=
  [.change [sampleRow 1 10, sampleRow 2 20, sampleRow 3 30], .select,
    .change [sampleRow 1 10, sampleRow 3 30, sampleRow 4 40], .anchor, .select]

/-- The row of the second cursor is put again, with a later time. -/
def repeatingWalk : List (ListingLabel ℕ Unit) :=
  [.change [sampleRow 1 10, sampleRow 2 20, sampleRow 3 30], .select, .anchor, .select,
    .change [sampleRow 1 10, sampleRow 2 40, sampleRow 3 30], .anchor, .select]

end ListingWorld

theorem listing_visits_sample : ∃ w : ListingWorld ℕ Unit,
    (system sampleQuery).ReachableWhere (fun w l => w.cursorKept sampleQuery l = true) w ∧
      w.stage = .finished ∧ w.pages.map (·.data.map (·.id)) = [[3], [1]] ∧
      w.tables.map (·.map (·.id)) = [[1, 2, 3], [1, 3, 4]] ∧
      (∀ page ∈ w.pages, page.data ⊆ page.table) ∧
      (w.data.map AppEntityQuery.key).count (toLex (10, 1)) = 1 := by
  have hinit : (system sampleQuery).init ({} : ListingWorld ℕ Unit) := ⟨0, rfl⟩
  have hrun : ((system sampleQuery).runWhere (cursorKept sampleQuery) {} sampleWalk).any
      (fun w => decide (w.stage = .finished ∧ w.pages.map (·.data.map (·.id)) = [[3], [1]] ∧
        w.tables.map (·.map (·.id)) = [[1, 2, 3], [1, 3, 4]] ∧
        ∀ table ∈ w.tables, toLex (10, 1) ∈ table.map AppEntityQuery.key)) = true := by
    decide +kernel
  obtain ⟨w, hw, hend⟩ := TransitionSystem.exists_reachableWhere_of_run hinit hrun
  obtain ⟨hstage, hdata, htables, hkept⟩ := of_decide_eq_true hend
  obtain ⟨-, hlisted, hcount⟩ := listing_visits (by decide) hw
  exact ⟨w, hw, hstage, hdata, htables, hlisted, hcount hstage _ hkept⟩

/-- Without the condition on the cursor a row may be listed twice. -/
theorem listing_repeats : ∃ w : ListingWorld ℕ Unit, (system sampleQuery).Reachable w ∧
    w.data.map (·.id) = [3, 2, 3] := by
  have hinit : (system sampleQuery).init ({} : ListingWorld ℕ Unit) := ⟨0, rfl⟩
  have hrun : ((system sampleQuery).run {} repeatingWalk).any
      (fun w => decide (w.data.map (·.id) = [3, 2, 3])) = true := by
    decide +kernel
  obtain ⟨w, hw, hdata⟩ := TransitionSystem.exists_reachable_of_run hinit hrun
  exact ⟨w, hw, of_decide_eq_true hdata⟩

end HayaSend
