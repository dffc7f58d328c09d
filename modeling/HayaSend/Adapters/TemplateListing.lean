import HayaSend.Adapters.DynamoTemplates
import HayaSend.Foundations.Paging
import Mathlib.Data.Prod.Lex
import Mathlib.Data.String.Basic

/-!
# Listing templates

`listTemplates` of `MemoryStore` and of `DynamoStore`: the first sorts its templates and slices the
list at the cursor, the second queries the index of the templates from the cursor on. Both have
pages in the order of creation, the latest first, and go to later pages (`after`) or to earlier
ones (`before`).

`MemoryStore` counts what is left. `DynamoStore` takes from the query that it stopped, which it also
did when the page was just full. Its listing agrees with the other one, and enumerates, exactly when
the pages fit (`listings_agree_iff`).

The texts of the times have one length and compare as the times do, so these stand for them.
-/

namespace HayaSend

inductive Direction
  | after
  | before
  deriving DecidableEq, Repr

abbrev TemplatePage := Page TemplateRecord String

/-- The page both stores return: one with more behind it has the cursor of its end. -/
def Direction.page (direction : Direction) (hasMore : Bool) (data : List TemplateRecord) :
    TemplatePage :=
  if hasMore && !data.isEmpty then
    ⟨data, true, match direction with
      | after => data.getLast?.map (·.id)
      | before => data.head?.map (·.id)⟩
  else ⟨data, false, none⟩

/-! ## MemoryStore -/

namespace TemplateStore

/-- The templates, the latest first. -/
def newestFirst (records : List TemplateRecord) : List TemplateRecord :=
  records.insertionSort fun left right => right.createdAt ≤ left.createdAt

/-- `slice` -/
def slice (records : List TemplateRecord) (offset end_ : ℤ) : List TemplateRecord :=
  (records.drop offset.toNat).take (end_.toNat - offset.toNat)

/-- `cursorIndex`: the place of the cursor, or `-1`. -/
def cursorIndex (sorted : List TemplateRecord) (cursor : Option String) : ℤ :=
  match cursor.filter (· != "") with
  | some id => ((sorted.findIdx? (·.id == id)).map Int.ofNat).getD (-1)
  | none => -1

/-- `listTemplates` -/
def listTemplates (s : TemplateStore) (limit : ℕ) (direction : Direction)
    (cursor : Option String) : TemplatePage :=
  let sorted := newestFirst s.templates.values
  let cursorIndex := cursorIndex sorted cursor
  let offset : ℤ := match direction with
    | .before => max 0 (cursorIndex - limit)
    | .after => if 0 ≤ cursorIndex then cursorIndex + 1 else 0
  let end_ : ℤ := if direction = .before ∧ 0 ≤ cursorIndex then cursorIndex else offset + limit
  let data := slice sorted offset end_
  let hasMore := match direction with
    | .before => decide (0 < offset)
    | .after => decide (offset + data.length < sorted.length)
  direction.page hasMore data

end TemplateStore

/-! ## DynamoStore -/

/-- `GSI1SK`: the time of creation, then the id. -/
def TemplateRecord.indexKey (record : TemplateRecord) : ℕ ×ₗ String :=
  toLex (record.createdAt, record.id)

namespace TemplateTable

/-- The items of the partition `TEMPLATES` of the index. -/
def records (t : TemplateTable) : List TemplateRecord :=
  t.entries.filterMap fun
    | (.template _, .template record) => some record
    | _ => none

/-- The index from its start on, or from its end. -/
def scanIndex (t : TemplateTable) (forward : Bool) : List TemplateRecord :=
  if forward then t.records.insertionSort fun left right => left.indexKey ≤ right.indexKey
  else t.records.insertionSort fun left right => right.indexKey ≤ left.indexKey

/-- `listTemplates`. A query reads until it has so many items as the limit or until what it has read
is 1 MB; `room` tells how many of the items ahead that are. -/
def listTemplates (room : List TemplateRecord → ℕ) (t : TemplateTable) (limit : ℕ)
    (direction : Direction) (cursor : Option String) : TemplatePage :=
  let anchor := (cursor.filter (· != "")).bind t.getRecord
  let ahead := match direction, anchor with
    -- the key condition `GSI1SK > :anchor`
    | .before, some anchor =>
      (t.scanIndex true).filter fun record => anchor.indexKey < record.indexKey
    | .before, none => t.scanIndex true
    -- `ExclusiveStartKey`
    | .after, some anchor =>
      (t.scanIndex false).filter fun record => record.indexKey < anchor.indexKey
    | .after, none => t.scanIndex false
  let queried := ahead.take (readCount limit room ahead)
  let lastEvaluatedKey := stopped limit room ahead
  let data := match direction with
    | .before => queried.reverse
    | .after => queried
  direction.page lastEvaluatedKey data

end TemplateTable

/-! ## Positions -/

/-- The elements of a page in the order of travel. -/
def Direction.travel : Direction → List TemplateRecord → List TemplateRecord
  | after => id
  | before => List.reverse

/-- What is ahead of a cursor in the templates, the latest first: the later entries of the list, or
the earlier ones, the nearest first. -/
def Direction.At (sorted : List TemplateRecord) :
    Direction → Option String → List TemplateRecord → Prop
  | after, cursor, ahead => (cursor = none ∧ ahead = sorted) ∨
      ∃ passed record, cursor = some record.id ∧ sorted = passed ++ record :: ahead
  | before, cursor, ahead =>
      ∃ passed record, cursor = some record.id ∧ sorted = ahead.reverse ++ record :: passed

theorem Direction.travel_travel (direction : Direction) (records : List TemplateRecord) :
    direction.travel (direction.travel records) = records := by
  cases direction with
  | after => rfl
  | before => exact List.reverse_reverse records

/-- Behind an element that was ahead is what was behind it. -/
theorem Direction.At.step {direction : Direction} {sorted front rest : List TemplateRecord}
    {cursor : Option String} {record : TemplateRecord}
    (h : direction.At sorted cursor (front ++ record :: rest)) :
    direction.At sorted (some record.id) rest := by
  cases direction with
  | after =>
    rcases h with ⟨-, hsorted⟩ | ⟨passed, last, -, hsorted⟩
    · exact Or.inr ⟨front, record, rfl, hsorted.symm⟩
    · exact Or.inr ⟨passed ++ last :: front, record, rfl, by rw [hsorted]; simp⟩
  | before =>
    obtain ⟨passed, last, -, hsorted⟩ := h
    exact ⟨front.reverse ++ last :: passed, record, rfl, by rw [hsorted]; simp⟩

theorem Direction.page_eq (direction : Direction) (more : Bool) (count : ℕ)
    (ahead : List TemplateRecord) :
    direction.page more (direction.travel (ahead.take count)) =
      pageOf (·.id) direction.travel count more ahead := by
  unfold Direction.page pageOf
  cases direction with
  | after => rfl
  | before => simp [Direction.travel]

/-! ## The templates -/

/-- The stores hold the same templates, each under its id. -/
structure HoldSame (s : TemplateStore) (t : TemplateTable) : Prop where
  named : ∀ k r, s.templates.get k = some r → r.id = k ∧ k ≠ ""
  same : ∀ k, t.getRecord k = s.templates.get k

section Stores

variable {s : TemplateStore} {t : TemplateTable}

theorem HoldSame.nodup_ids (h : HoldSame s t) : (s.templates.values.map (·.id)).Nodup := by
  rw [OrderedMap.map_values_eq_keys fun k r hr => (h.named k r hr).1]
  exact s.templates.nodup

theorem perm_newestFirst (records : List TemplateRecord) :
    (TemplateStore.newestFirst records).Perm records := List.perm_insertionSort _ _

instance : Std.Total fun left right : TemplateRecord => right.createdAt ≤ left.createdAt :=
  ⟨fun _ _ => le_total _ _⟩

instance : IsTrans TemplateRecord fun left right => right.createdAt ≤ left.createdAt :=
  ⟨fun _ _ _ h h' => le_trans h' h⟩

instance : Std.Total fun left right : TemplateRecord => left.indexKey ≤ right.indexKey :=
  ⟨fun _ _ => le_total _ _⟩

instance : IsTrans TemplateRecord fun left right => left.indexKey ≤ right.indexKey :=
  ⟨fun _ _ _ => le_trans⟩

instance : Std.Total fun left right : TemplateRecord => right.indexKey ≤ left.indexKey :=
  ⟨fun _ _ => le_total _ _⟩

instance : IsTrans TemplateRecord fun left right => right.indexKey ≤ left.indexKey :=
  ⟨fun _ _ _ h h' => le_trans h' h⟩

/-- With distinct times, each template of the list is later than those behind it. -/
theorem pairwise_newestFirst {records : List TemplateRecord}
    (hcreated : (records.map (·.createdAt)).Nodup) :
    (TemplateStore.newestFirst records).Pairwise fun left right =>
      right.createdAt < left.createdAt := by
  have hsorted : (TemplateStore.newestFirst records).Pairwise fun left right =>
      right.createdAt ≤ left.createdAt := List.pairwise_insertionSort _ _
  have hne : (TemplateStore.newestFirst records).Pairwise fun left right =>
      left.createdAt ≠ right.createdAt := by
    have hnodup := ((perm_newestFirst records).map (·.createdAt)).nodup_iff.mpr hcreated
    rwa [List.Nodup, List.pairwise_map] at hnodup
  exact (hsorted.and hne).imp fun h => lt_of_le_of_ne h.1 (Ne.symm h.2)

/-- The place of a template in the list. -/
theorem findIdx_newestFirst {sorted passed ahead : List TemplateRecord} {record : TemplateRecord}
    (hids : (sorted.map (·.id)).Nodup) (h : sorted = passed ++ record :: ahead) :
    sorted.findIdx? (·.id == record.id) = some passed.length := by
  subst h
  rw [List.map_append, List.map_cons] at hids
  have hpassed : passed.findIdx? (·.id == record.id) = none := by
    rw [List.findIdx?_eq_none_iff]
    intro other hother
    refine beq_false_of_ne fun heq => ?_
    exact (List.nodup_append.mp hids).2.2 _ (List.mem_map_of_mem hother) _ List.mem_cons_self heq
  rw [List.findIdx?_append, hpassed, List.findIdx?_cons]
  simp

/-- The ids that are cursors are those of templates, and none is empty. -/
theorem HoldSame.filter_cursor (h : HoldSame s t) {sorted passed ahead : List TemplateRecord}
    (hsorted : sorted = TemplateStore.newestFirst s.templates.values) {record : TemplateRecord}
    (hsplit : sorted = passed ++ record :: ahead) :
    (some record.id).filter (· != "") = some record.id ∧ t.getRecord record.id = some record := by
  have hmem : record ∈ s.templates.values := by
    rw [← (perm_newestFirst s.templates.values).mem_iff, ← hsorted, hsplit]
    simp
  obtain ⟨k, hk⟩ := (s.templates.mem_values_iff record).mp hmem
  obtain ⟨hid, hne⟩ := h.named k record hk
  subst hid
  exact ⟨by simpa using hne, (h.same _).trans hk⟩

theorem HoldSame.cursorIndex_eq (h : HoldSame s t) {sorted passed ahead : List TemplateRecord}
    (hsorted : sorted = TemplateStore.newestFirst s.templates.values) {record : TemplateRecord}
    (hsplit : sorted = passed ++ record :: ahead) :
    TemplateStore.cursorIndex sorted (some record.id) = passed.length := by
  have hids : (sorted.map (·.id)).Nodup := by
    rw [hsorted]
    exact ((perm_newestFirst _).map (·.id)).nodup_iff.mpr h.nodup_ids
  rw [TemplateStore.cursorIndex, (h.filter_cursor hsorted hsplit).1]
  dsimp only
  rw [findIdx_newestFirst hids hsplit]
  rfl

/-- **The pages of `MemoryStore`.** -/
theorem TemplateStore.listTemplates_eq (h : HoldSame s t) {sorted : List TemplateRecord}
    (hsorted : sorted = newestFirst s.templates.values) (limit : ℕ) {direction : Direction}
    {cursor : Option String} {ahead : List TemplateRecord}
    (hat : direction.At sorted cursor ahead) :
    s.listTemplates limit direction cursor =
      pageOf (·.id) direction.travel limit (decide (limit < ahead.length)) ahead := by
  rw [← Direction.page_eq]
  unfold listTemplates
  rw [← hsorted]
  dsimp only
  cases direction with
  | after =>
    rcases hat with ⟨rfl, rfl⟩ | ⟨passed, record, rfl, hsplit⟩
    · have hdata : slice ahead 0 (0 + limit) = ahead.take limit := by
        simp [slice]
      have hmore : decide ((0 : ℤ) + (ahead.take limit).length < ahead.length) =
          decide (limit < ahead.length) := by
        rw [decide_eq_decide, List.length_take]
        omega
      have hindex : cursorIndex ahead none = -1 := rfl
      simp only [hindex, reduceCtorEq, false_and, if_false]
      rw [if_neg (by decide), hdata, hmore]
      rfl
    · have hdata : slice sorted (passed.length + 1) (passed.length + 1 + limit) =
          ahead.take limit := by
        have hoffset : (passed.length + 1 : ℤ).toNat = passed.length + 1 := by omega
        have hcount : (passed.length + 1 + limit : ℤ).toNat - (passed.length + 1) = limit := by
          omega
        rw [slice, hoffset, hcount, hsplit, List.drop_append, List.drop_of_length_le (by omega)]
        simp
      have hmore : decide ((passed.length + 1 : ℤ) + (ahead.take limit).length < sorted.length) =
          decide (limit < ahead.length) := by
        rw [decide_eq_decide, List.length_take, hsplit, List.length_append, List.length_cons]
        push_cast
        omega
      simp only [h.cursorIndex_eq hsorted hsplit, reduceCtorEq, false_and, if_false]
      rw [if_pos (Int.natCast_nonneg _), hdata, hmore]
      rfl
  | before =>
    obtain ⟨passed, record, rfl, hsplit⟩ := hat
    have hdata : slice sorted (max 0 (ahead.length - limit : ℤ)) ahead.length =
        (ahead.take limit).reverse := by
      have hoffset : (max 0 (ahead.length - limit : ℤ)).toNat = ahead.length - limit := by omega
      rw [slice, hoffset, hsplit, Int.toNat_natCast, List.drop_append_of_le_length (by simp),
        List.take_append_of_le_length (by simp), List.reverse_take, List.take_of_length_le (by simp)]
    have hmore : decide (0 < max 0 (ahead.length - limit : ℤ)) = decide (limit < ahead.length) := by
      rw [decide_eq_decide]
      omega
    simp only [h.cursorIndex_eq hsorted hsplit, List.length_reverse, true_and]
    rw [if_pos (Int.natCast_nonneg _), hdata, hmore]
    rfl

/-! ## The index -/

theorem TemplateTable.mem_records {record : TemplateRecord} :
    record ∈ t.records ↔ ∃ k, t.getRecord k = some record := by
  rw [TemplateTable.records, List.mem_filterMap]
  constructor
  · rintro ⟨⟨key, item⟩, hentry, hrecord⟩
    have hget := (t.get_eq_some_iff key item).mpr hentry
    split at hrecord
    · rename_i heq
      obtain ⟨rfl, rfl⟩ := Prod.mk.inj heq
      obtain rfl := Option.some.inj hrecord
      exact ⟨_, by rw [TemplateTable.getRecord, hget]⟩
    · cases hrecord
  · rintro ⟨k, hk⟩
    rw [TemplateTable.getRecord] at hk
    split at hk
    · rename_i hget
      obtain rfl := Option.some.inj hk
      exact ⟨_, (t.get_eq_some_iff _ _).mp hget, rfl⟩
    · cases hk

theorem HoldSame.nodup_records (h : HoldSame s t) : t.records.Nodup := by
  have hkeys : t.entries.Pairwise fun left right => left.1 ≠ right.1 :=
    List.pairwise_map.mp t.nodup
  rw [TemplateTable.records, List.Nodup, List.pairwise_filterMap]
  refine hkeys.imp_of_mem fun {left right} hleft hright hne record hrecord record' hrecord'
    heq => ?_
  have hkey : ∀ entry ∈ t.entries, (match entry with
      | (.template _, .template record) => some record
      | _ => none) = some record → entry.1 = .template record.id := by
    rintro ⟨key, item⟩ hentry hentryRecord
    have hget := (t.get_eq_some_iff key item).mpr hentry
    split at hentryRecord
    · rename_i hpair
      obtain ⟨rfl, rfl⟩ := Prod.mk.inj hpair
      obtain rfl := Option.some.inj hentryRecord
      have hsame := h.same _ ▸ (by rw [TemplateTable.getRecord, hget] :
        t.getRecord _ = some _)
      rw [(h.named _ _ hsame).1]
    · cases hentryRecord
  exact hne ((hkey left hleft hrecord).trans (hkey right hright (heq ▸ hrecord')).symm)

theorem HoldSame.perm_records (h : HoldSame s t) :
    t.records.Perm (TemplateStore.newestFirst s.templates.values) := by
  refine List.Perm.trans ?_ (perm_newestFirst _).symm
  rw [List.perm_ext_iff_of_nodup h.nodup_records h.nodup_ids.of_map]
  intro record
  rw [TemplateTable.mem_records, s.templates.mem_values_iff]
  exact exists_congr fun k => by rw [h.same]

theorem indexKey_lt_of_createdAt {left right : TemplateRecord}
    (h : left.createdAt < right.createdAt) : left.indexKey < right.indexKey :=
  Prod.Lex.toLex_lt_toLex.mpr (Or.inl h)

theorem indexKey_id {left right : TemplateRecord} (h : left.indexKey = right.indexKey) :
    left.id = right.id := congrArg (fun key => (ofLex key).2) h

theorem TemplateTable.perm_scanIndex (forward : Bool) : (t.scanIndex forward).Perm t.records := by
  cases forward with
  | false => exact List.perm_insertionSort _ _
  | true => exact List.perm_insertionSort _ _

/-- The index in the order of `MemoryStore`, or in the opposite order. -/
theorem HoldSame.scanIndex_eq (h : HoldSame s t)
    (hcreated : (s.templates.values.map (·.createdAt)).Nodup) :
    t.scanIndex false = TemplateStore.newestFirst s.templates.values ∧
      t.scanIndex true = (TemplateStore.newestFirst s.templates.values).reverse := by
  have hsorted := (pairwise_newestFirst hcreated).imp indexKey_lt_of_createdAt
  have hids : ∀ left ∈ t.records, ∀ right ∈ TemplateStore.newestFirst s.templates.values,
      left.indexKey = right.indexKey → left = right := by
    intro left hleft right hright heq
    rw [h.perm_records.mem_iff, (perm_newestFirst _).mem_iff] at hleft
    rw [(perm_newestFirst _).mem_iff] at hright
    exact List.inj_on_of_nodup_map h.nodup_ids hleft hright (indexKey_id heq)
  constructor
  · refine List.Perm.eq_of_pairwise ?_ (List.pairwise_insertionSort _ _) (hsorted.imp le_of_lt)
      ((t.perm_scanIndex false).trans h.perm_records)
    intro left right hleft hright hle hle'
    rw [(t.perm_scanIndex _).mem_iff] at hleft
    exact hids left hleft right hright (le_antisymm hle' hle)
  · refine List.Perm.eq_of_pairwise ?_ (List.pairwise_insertionSort _ _)
      (List.pairwise_reverse.mpr (hsorted.imp le_of_lt))
      ((t.perm_scanIndex true).trans (h.perm_records.trans (List.reverse_perm _).symm))
    intro left right hleft hright hle hle'
    rw [(t.perm_scanIndex _).mem_iff] at hleft
    exact hids left hleft right (List.mem_reverse.mp hright) (le_antisymm hle hle')

/-- **The pages of `DynamoStore`.** -/
theorem TemplateTable.listTemplates_eq (h : HoldSame s t)
    (hcreated : (s.templates.values.map (·.createdAt)).Nodup) {sorted : List TemplateRecord}
    (hsorted : sorted = TemplateStore.newestFirst s.templates.values) (limit : ℕ)
    (room : List TemplateRecord → ℕ) {direction : Direction} {cursor : Option String}
    {ahead : List TemplateRecord} (hat : direction.At sorted cursor ahead) :
    t.listTemplates room limit direction cursor =
      pageOf (·.id) direction.travel (readCount limit room ahead)
        (stopped limit room ahead) ahead := by
  obtain ⟨hbackward, hforward⟩ := h.scanIndex_eq hcreated
  rw [← hsorted] at hbackward hforward
  have hpairwise : sorted.Pairwise fun left right => right.indexKey < left.indexKey := by
    rw [hsorted]
    exact (pairwise_newestFirst hcreated).imp indexKey_lt_of_createdAt
  rw [← Direction.page_eq]
  unfold listTemplates
  cases direction with
  | after =>
    rcases hat with ⟨rfl, rfl⟩ | ⟨passed, record, rfl, hsplit⟩
    · simp only [Option.filter_none, Option.bind_none, hbackward]
      rfl
    · have hahead : sorted.filter (fun other => other.indexKey < record.indexKey) = ahead := by
        rw [hsplit, List.pairwise_append, List.pairwise_cons] at hpairwise
        obtain ⟨-, ⟨hbehind, -⟩, hbefore⟩ := hpairwise
        rw [hsplit, List.filter_append, List.filter_cons_of_neg (by simp),
          List.filter_eq_nil_iff.mpr, List.nil_append, List.filter_eq_self.mpr]
        · exact fun other hother => decide_eq_true (hbehind other hother)
        · intro other hother
          have hlt := hbefore other hother record List.mem_cons_self
          simpa using hlt.le
      obtain ⟨hcursor, hanchor⟩ := h.filter_cursor hsorted hsplit
      simp only [hcursor, Option.bind_some, hanchor, hbackward, hahead]
      rfl
  | before =>
    obtain ⟨passed, record, rfl, hsplit⟩ := hat
    have hahead : sorted.reverse.filter (fun other => record.indexKey < other.indexKey) =
        ahead := by
      rw [hsplit, List.pairwise_append, List.pairwise_cons] at hpairwise
      obtain ⟨-, ⟨hbehind, -⟩, hbefore⟩ := hpairwise
      rw [hsplit, List.reverse_append, List.reverse_cons, List.reverse_reverse, List.append_assoc,
        List.filter_append, List.filter_append, List.filter_cons_of_neg (by simp),
        List.filter_eq_nil_iff.mpr, List.filter_nil, List.nil_append, List.nil_append,
        List.filter_eq_self.mpr]
      · intro other hother
        exact decide_eq_true
          (hbefore other (List.mem_reverse.mpr hother) record List.mem_cons_self)
      · intro other hother
        simpa using (hbehind other (List.mem_reverse.mp hother)).le
    obtain ⟨hcursor, hanchor⟩ := h.filter_cursor hsorted hsplit
    simp only [hcursor, Option.bind_some, hanchor, hforward, hahead]
    rfl

/-! ## Walks -/

/-- **The listings agree, and enumerate what is ahead,** exactly when the pages fit: no full page is
the last, and each is read before the query ends for its size. The first page of `after` has all
templates ahead, and the pages `before` a template those that precede it. -/
theorem listings_agree_iff (h : HoldSame s t)
    (hcreated : (s.templates.values.map (·.createdAt)).Nodup) {limit : ℕ} (hlimit : 1 ≤ limit)
    (room : List TemplateRecord → ℕ) (direction : Direction) {cursor : Option String}
    {ahead : List TemplateRecord}
    (hat : direction.At (TemplateStore.newestFirst s.templates.values) cursor ahead) :
    (∃ pages, Walk (s.listTemplates limit direction) cursor pages ∧
      Walk (t.listTemplates room limit direction) cursor pages ∧
      Enumerates direction.travel ahead pages) ↔ PagesFit limit room ahead :=
  walks_iff direction.travel_travel hlimit (fun hat => hat.step)
    (fun hat => TemplateStore.listTemplates_eq h rfl limit hat)
    (fun hat => TemplateTable.listTemplates_eq h hcreated rfl limit room hat) hat

end Stores

/-! ## Templates of one day -/

def listedRecord (id : String) (createdAt : ℕ) : TemplateRecord :=
  ⟨id, createdAt, createdAt, 0, ⟨"v", "Welcome", "<p>Hello</p>", none, none, none, none, none, [],
    createdAt, none⟩, none, none⟩

def listedStore (records : List TemplateRecord) : TemplateStore :=
  { templates := .ofList (records.map fun record => (record.id, record)) }

def listedTable (records : List TemplateRecord) : TemplateTable :=
  .ofList (records.map fun record => (.template record.id, .template record))

theorem holdSame_listed {records : List TemplateRecord} (hids : (records.map (·.id)).Nodup)
    (hne : "" ∉ records.map (·.id)) : HoldSame (listedStore records) (listedTable records) := by
  have hstore : ∀ k r, (listedStore records).templates.get k = some r ↔ r ∈ records ∧ r.id = k := by
    intro k r
    have hkeys : ((records.map fun record => (record.id, record)).map Prod.fst).Nodup := by
      rwa [List.map_map]
    rw [OrderedMap.get_eq_some_iff, listedStore, OrderedMap.entries_ofList hkeys, List.mem_map]
    constructor
    · rintro ⟨record, hrecord, heq⟩
      obtain ⟨rfl, rfl⟩ := Prod.mk.inj heq
      exact ⟨hrecord, rfl⟩
    · rintro ⟨hrecord, rfl⟩
      exact ⟨r, hrecord, rfl⟩
  have htable : ∀ k r, (listedTable records).getRecord k = some r ↔ r ∈ records ∧ r.id = k := by
    intro k r
    have hkeys : ((records.map fun record =>
        (TemplateKey.template record.id, TemplateItem.template record)).map Prod.fst).Nodup := by
      have hmap : (records.map fun record =>
          (TemplateKey.template record.id, TemplateItem.template record)).map Prod.fst =
            (records.map (·.id)).map .template := by
        simp
      rw [hmap]
      exact hids.map fun _ _ heq => TemplateKey.template.inj heq
    have hget : (listedTable records).getRecord k = some r ↔
        (listedTable records).get (.template k) = some (.template r) := by
      rw [TemplateTable.getRecord]
      split
      · rename_i heq
        rw [heq, Option.some.injEq, Option.some.injEq, TemplateItem.template.injEq]
      · rename_i hother
        refine ⟨fun heq => ?_, fun heq => absurd heq (hother r)⟩
        cases heq
    rw [hget, OrderedMap.get_eq_some_iff, listedTable, OrderedMap.entries_ofList hkeys,
      List.mem_map]
    constructor
    · rintro ⟨record, hrecord, heq⟩
      obtain ⟨hid, hitem⟩ := Prod.mk.inj heq
      obtain rfl := TemplateItem.template.inj hitem
      exact ⟨hrecord, TemplateKey.template.inj hid⟩
    · rintro ⟨hrecord, rfl⟩
      exact ⟨r, hrecord, rfl⟩
  refine ⟨fun k r hr => ?_, fun k => Option.ext fun r => ?_⟩
  · obtain ⟨hrecord, rfl⟩ := (hstore k r).mp hr
    exact ⟨rfl, fun hempty => hne (hempty ▸ List.mem_map_of_mem hrecord)⟩
  · exact (htable k r).trans (hstore k r).symm

/-- Three templates in pages of two, with room for both. -/
theorem listings_agree_iff_sample :
    let records := [listedRecord "a" 1, listedRecord "b" 3, listedRecord "c" 2]
    (∃ pages, Walk ((listedStore records).listTemplates 2 .after) none pages ∧
      Walk ((listedTable records).listTemplates List.length 2 .after) none pages ∧
      Enumerates Direction.after.travel
        [listedRecord "b" 3, listedRecord "c" 2, listedRecord "a" 1] pages) ↔
      PagesFit 2 List.length [listedRecord "b" 3, listedRecord "c" 2, listedRecord "a" 1] :=
  listings_agree_iff (holdSame_listed (by decide) (by decide)) (by decide) (by decide) List.length
    .after (Or.inl ⟨rfl, by decide⟩)

/-- One template in pages of one: `DynamoStore` says that there is more. -/
theorem full_page_says_more :
    let records := [listedRecord "a" 1]
    HoldSame (listedStore records) (listedTable records) ∧
      (listedStore records).listTemplates 1 .after none = ⟨records, false, none⟩ ∧
      (listedTable records).listTemplates List.length 1 .after none = ⟨records, true, some "a"⟩ ∧
      ¬∃ pages, Walk ((listedStore records).listTemplates 1 .after) none pages ∧
        Walk ((listedTable records).listTemplates List.length 1 .after) none pages ∧
        Enumerates Direction.after.travel records pages := by
  intro records
  have hmemory : (listedStore records).listTemplates 1 .after none = ⟨records, false, none⟩ := by
    decide
  have hdynamo : (listedTable records).listTemplates List.length 1 .after none =
      ⟨records, true, some "a"⟩ := by
    decide
  refine ⟨holdSame_listed (by decide) (by decide), hmemory, hdynamo, ?_⟩
  rintro ⟨pages, hwalk, hwalk', -⟩
  obtain ⟨-, rfl⟩ | ⟨_, _, hnext, -, -⟩ := walk_cons hwalk
  · obtain ⟨hnone, -⟩ | ⟨_, _, -, -, hpages⟩ := walk_cons hwalk'
    · rw [hdynamo] at hnone
      cases hnone
    · have hpage := (List.cons.inj hpages).1
      rw [hmemory, hdynamo] at hpage
      exact absurd (congrArg Page.hasMore hpage) (by decide)
  · rw [hmemory] at hnext
    cases hnext

end HayaSend
