import Mathlib.Data.List.Basic
import Mathlib.Tactic.Ring

/-!
# Paging

A listing answers a cursor with a page, and a page that is not the last one has the cursor of the
next. `Walk` follows the cursors; `Enumerates` says that the pages have the elements in the order of
travel, each once, and that a page says there is more exactly when there is.

Two listings are compared. One looks how much is left before it says that there is more. The other
stops reading when it has as many elements as asked for, or when it has no room for another one,
and says that there is more whenever it stopped. They give the same pages, and these enumerate,
exactly when no page that is full is the last and every page has room (`walks_iff`).
-/

namespace HayaSend

variable {α κ : Type*}

structure Page (α κ : Type*) where
  data : List α
  hasMore : Bool
  nextCursor : Option κ := none
  deriving DecidableEq, Repr

/-- From a cursor on, these are the pages. -/
inductive Walk (list : Option κ → Page α κ) : Option κ → List (Page α κ) → Prop
  | last {cursor : Option κ} (h : (list cursor).nextCursor = none) :
      Walk list cursor [list cursor]
  | next {cursor : Option κ} {key : κ} {pages : List (Page α κ)}
      (h : (list cursor).nextCursor = some key) (hrest : Walk list (some key) pages) :
      Walk list cursor (list cursor :: pages)

/-- The pages have the elements ahead, in the order of travel, and say truly whether there is
more; `travel` brings the elements of a page into this order. -/
def Enumerates (travel : List α → List α) : List α → List (Page α κ) → Prop
  | ahead, [] => ahead = []
  | ahead, page :: pages => ∃ rest, ahead = travel page.data ++ rest ∧
      (page.hasMore = true ↔ rest ≠ []) ∧ Enumerates travel rest pages

/-- The page with the first of the elements ahead; with more to come it has the cursor of the last
of them. -/
def pageOf (key : α → κ) (travel : List α → List α) (count : ℕ) (more : Bool) (ahead : List α) :
    Page α κ :=
  let read := ahead.take count
  if more && !read.isEmpty then ⟨travel read, true, read.getLast?.map key⟩
  else ⟨travel read, false, none⟩

/-- How many elements a reader takes that stops at a limit or where it has no room. -/
def readCount (limit : ℕ) (room : List α → ℕ) (ahead : List α) : ℕ :=
  min (min limit (room ahead)) ahead.length

/-- The reader stopped before it found the end. -/
def stopped (limit : ℕ) (room : List α → ℕ) (ahead : List α) : Bool :=
  readCount limit room ahead == limit || decide (readCount limit room ahead < ahead.length)

/-- No full page is the last one, and every page has room. -/
structure PagesFit (limit : ℕ) (room : List α → ℕ) (ahead : List α) : Prop where
  last : ahead = [] ∨ ¬limit ∣ ahead.length
  room : ∀ k, k * limit < ahead.length →
    min limit (ahead.length - k * limit) ≤ room (ahead.drop (k * limit))

section Fit

variable {limit : ℕ} {room : List α → ℕ} {ahead : List α}

/-- A last page. -/
theorem pagesFit_of_le (hle : ahead.length ≤ limit) :
    PagesFit limit room ahead ↔
      ahead = [] ∨ ahead.length ≠ limit ∧ ahead.length ≤ room ahead := by
  constructor
  · intro h
    rcases h.last with hnil | hlast
    · exact Or.inl hnil
    · refine Or.inr ⟨fun heq => hlast (heq ▸ dvd_rfl), ?_⟩
      rcases Nat.eq_zero_or_pos ahead.length with hzero | hpos
      · rw [hzero]
        exact Nat.zero_le _
      · have hroom := h.room 0 (by simpa using hpos)
        rw [Nat.zero_mul, Nat.sub_zero, List.drop_zero, min_eq_right hle] at hroom
        exact hroom
  · rintro (rfl | ⟨hne, hroom⟩)
    · exact ⟨Or.inl rfl, fun k hk => absurd hk (Nat.not_lt_zero _)⟩
    · refine ⟨?_, fun k hk => ?_⟩
      · by_cases hnil : ahead = []
        · exact Or.inl hnil
        · refine Or.inr fun hdvd => hne (le_antisymm hle (Nat.le_of_dvd ?_ hdvd))
          exact List.length_pos_iff.mpr hnil
      · obtain rfl : k = 0 := by
          by_contra hk0
          have hmul : 1 * limit ≤ k * limit := Nat.mul_le_mul_right _ (Nat.pos_of_ne_zero hk0)
          omega
        rw [Nat.zero_mul, Nat.sub_zero, List.drop_zero, min_eq_right hle]
        exact hroom

/-- A page with another one behind it. -/
theorem pagesFit_of_lt (hlt : limit < ahead.length) :
    PagesFit limit room ahead ↔ limit ≤ room ahead ∧ PagesFit limit room (ahead.drop limit) := by
  have hlength : (ahead.drop limit).length = ahead.length - limit := List.length_drop
  have hne : ahead ≠ [] := List.ne_nil_of_length_pos (Nat.zero_lt_of_lt hlt)
  have hne' : ahead.drop limit ≠ [] := List.ne_nil_of_length_pos (by omega)
  have hdvd : limit ∣ ahead.length ↔ limit ∣ (ahead.drop limit).length := by
    rw [hlength, Nat.dvd_sub_iff_left hlt.le dvd_rfl]
  constructor
  · intro h
    have hfirst := h.room 0 (by omega)
    rw [Nat.zero_mul, Nat.sub_zero, List.drop_zero, min_eq_left hlt.le] at hfirst
    refine ⟨hfirst, Or.inr (hdvd.not.mp (h.last.resolve_left hne)), fun k hk => ?_⟩
    have hnext := h.room (k + 1) (by rw [Nat.add_mul, Nat.one_mul]; omega)
    rw [Nat.add_mul, Nat.one_mul] at hnext
    rwa [List.drop_drop, hlength, Nat.add_comm limit, Nat.sub_sub, Nat.add_comm limit]
  · rintro ⟨hfirst, h⟩
    refine ⟨Or.inr (hdvd.not.mpr (h.last.resolve_left hne')), fun k hk => ?_⟩
    cases k with
    | zero =>
      rw [Nat.zero_mul, Nat.sub_zero, List.drop_zero, min_eq_left hlt.le]
      exact hfirst
    | succ k =>
      rw [Nat.add_mul, Nat.one_mul] at hk ⊢
      have hnext := h.room k (by omega)
      rwa [List.drop_drop, hlength, Nat.add_comm limit, Nat.sub_sub, Nat.add_comm limit] at hnext

end Fit

/-! ## Walks -/

section Walks

variable {key : α → κ} {travel : List α → List α} {limit : ℕ} {room : List α → ℕ}
  {At : Option κ → List α → Prop} {exact stopping : Option κ → Page α κ}
  {cursor : Option κ} {ahead : List α}

/-- Where an element and more are ahead of the first elements, the first page ends in an element. -/
theorem exists_take_eq (hlimit : 1 ≤ limit) (hlt : limit < ahead.length) :
    ∃ front x, ahead.take limit = front ++ [x] ∧ ahead = front ++ x :: ahead.drop limit := by
  have hne : ahead.take limit ≠ [] := by
    refine List.ne_nil_of_length_pos ?_
    rw [List.length_take]
    omega
  refine ⟨(ahead.take limit).dropLast, (ahead.take limit).getLast hne,
    (List.dropLast_append_getLast hne).symm, ?_⟩
  nth_rewrite 1 [← List.take_append_drop limit ahead]
  nth_rewrite 1 [← List.dropLast_append_getLast hne]
  simp

theorem pageOf_last {count : ℕ} : pageOf key travel count false ahead =
    ⟨travel (ahead.take count), false, none⟩ := rfl

theorem pageOf_more {count : ℕ} {front : List α} {x : α} (h : ahead.take count = front ++ [x]) :
    pageOf key travel count true ahead = ⟨travel (ahead.take count), true, some (key x)⟩ := by
  simp [pageOf, h]

theorem pageOf_data {count : ℕ} {more : Bool} :
    (pageOf key travel count more ahead).data = travel (ahead.take count) := by
  unfold pageOf
  dsimp only
  split_ifs <;> rfl

theorem pageOf_hasMore {count : ℕ} {more : Bool} :
    (pageOf key travel count more ahead).hasMore = (more && !(ahead.take count).isEmpty) := by
  unfold pageOf
  dsimp only
  split_ifs with h
  · exact h.symm
  · exact (Bool.eq_false_of_not_eq_true h).symm

/-- What the first page of a listing decides, and what the others. -/
theorem walk_cons {list : Option κ → Page α κ} {pages : List (Page α κ)}
    (h : Walk list cursor pages) :
    ((list cursor).nextCursor = none ∧ pages = [list cursor]) ∨
      ∃ next rest, (list cursor).nextCursor = some next ∧ Walk list (some next) rest ∧
        pages = list cursor :: rest := by
  cases h with
  | last hnone => exact Or.inl ⟨hnone, rfl⟩
  | next hsome hrest => exact Or.inr ⟨_, _, hsome, hrest, rfl⟩

section Compared

variable (hinvolutive : ∀ xs, travel (travel xs) = xs) (hlimit : 1 ≤ limit)
  (hstep : ∀ {cursor front x rest}, At cursor (front ++ x :: rest) → At (some (key x)) rest)
  (hexact : ∀ {cursor ahead}, At cursor ahead →
    exact cursor = pageOf key travel limit (decide (limit < ahead.length)) ahead)
  (hstopping : ∀ {cursor ahead}, At cursor ahead → stopping cursor =
    pageOf key travel (readCount limit room ahead) (stopped limit room ahead) ahead)

include hinvolutive hlimit hstep hexact

/-- **A listing that looks ahead enumerates.** -/
theorem exists_walk_exact (hat : At cursor ahead) :
    ∃ pages, Walk exact cursor pages ∧ Enumerates travel ahead pages := by
  induction hn : ahead.length using Nat.strong_induction_on generalizing cursor ahead with
  | _ n ih =>
  have hpage := hexact hat
  by_cases hlt : limit < ahead.length
  · obtain ⟨front, x, htake, hahead⟩ := exists_take_eq hlimit hlt
    rw [decide_eq_true hlt, pageOf_more htake] at hpage
    have hrest : At (some (key x)) (ahead.drop limit) := hstep (hahead ▸ hat)
    obtain ⟨pages, hwalk, henumerates⟩ := ih _ (by rw [List.length_drop]; omega) hrest rfl
    refine ⟨exact cursor :: pages, .next (by rw [hpage]) hwalk, ahead.drop limit, ?_, ?_,
      henumerates⟩
    · rw [hpage, hinvolutive, List.take_append_drop]
    · have hne : ahead.drop limit ≠ [] :=
        List.ne_nil_of_length_pos (by rw [List.length_drop]; omega)
      rw [hpage]
      exact ⟨fun _ => hne, fun _ => rfl⟩
  · rw [decide_eq_false hlt, pageOf_last] at hpage
    refine ⟨[exact cursor], .last (by rw [hpage]), [], ?_, ?_, rfl⟩
    · rw [hpage, hinvolutive, List.append_nil, List.take_of_length_le (not_lt.mp hlt)]
    · rw [hpage]
      exact ⟨fun h => absurd h Bool.false_ne_true, fun h => absurd rfl h⟩

include hstopping

omit hstep in
/-- The first page is the same when the reader takes as much, and stops when there is more. -/
theorem readCount_of_page_eq (hat : At cursor ahead) (h : exact cursor = stopping cursor) :
    min limit ahead.length = readCount limit room ahead ∧
      (ahead ≠ [] → decide (limit < ahead.length) = stopped limit room ahead) := by
  rw [hexact hat, hstopping hat] at h
  have hdata := congrArg (fun page => travel page.data) h
  simp only [pageOf_data, hinvolutive] at hdata
  have hcount : readCount limit room ahead ≤ ahead.length := min_le_right _ _
  have hlength := congrArg List.length hdata
  rw [List.length_take, List.length_take, min_eq_left hcount] at hlength
  refine ⟨hlength, fun hne => ?_⟩
  have hmore := congrArg Page.hasMore h
  rw [pageOf_hasMore, pageOf_hasMore, hdata] at hmore
  have hread : (ahead.take (readCount limit room ahead)).isEmpty = false := by
    rw [← hdata, List.isEmpty_eq_false_iff]
    refine List.ne_nil_of_length_pos ?_
    have hpos := List.length_pos_iff.mpr hne
    rw [List.length_take]
    omega
  rwa [hread, Bool.not_false, Bool.and_true, Bool.and_true] at hmore

/-- **Two listings give the same pages, and enumerate,** when the pages fit. -/
theorem walks_iff (hat : At cursor ahead) :
    (∃ pages, Walk exact cursor pages ∧ Walk stopping cursor pages ∧
      Enumerates travel ahead pages) ↔ PagesFit limit room ahead := by
  induction hn : ahead.length using Nat.strong_induction_on generalizing cursor ahead with
  | _ n ih =>
  have hpage := hexact hat
  have hpage' := hstopping hat
  have hfirst := readCount_of_page_eq hinvolutive hlimit @hexact @hstopping hat
  have hroom : readCount limit room ahead ≤ room ahead :=
    (min_le_left _ _).trans (min_le_right _ _)
  by_cases hlt : limit < ahead.length
  · obtain ⟨front, x, htake, hahead⟩ := exists_take_eq hlimit hlt
    have hrest : At (some (key x)) (ahead.drop limit) := hstep (hahead ▸ hat)
    have hih := ih _ (by rw [List.length_drop]; omega) hrest rfl
    rw [decide_eq_true hlt, pageOf_more htake] at hpage
    rw [pagesFit_of_lt hlt, ← hih]
    constructor
    · rintro ⟨pages, hwalk, hwalk', henumerates⟩
      obtain ⟨hnone, -⟩ | ⟨next, rest, hnext, hwalk, rfl⟩ := walk_cons hwalk
      · rw [hpage] at hnone
        cases hnone
      have hsame : exact cursor = stopping cursor := by
        obtain ⟨-, hpages⟩ | ⟨_, _, -, -, hpages⟩ := walk_cons hwalk'
        · exact (List.cons.inj hpages).1
        · exact (List.cons.inj hpages).1
      have hkey : some (key x) = some next := by rw [← hnext, hpage]
      obtain rfl := Option.some.inj hkey
      obtain ⟨hread, -⟩ := hfirst hsame
      rw [min_eq_left hlt.le] at hread
      refine ⟨hread.le.trans hroom, rest, hwalk, ?_, ?_⟩
      · obtain ⟨hnone, -⟩ | ⟨next', rest', hnext', hwalk', hpages⟩ := walk_cons hwalk'
        · rw [← hsame, hnext] at hnone
          cases hnone
        · rw [← hsame, hnext] at hnext'
          obtain rfl := Option.some.inj hnext'
          rw [(List.cons.inj hpages).2]
          exact hwalk'
      · obtain ⟨left, hleft, -, henumerates⟩ := henumerates
        rw [hpage, hinvolutive] at hleft
        nth_rewrite 1 [← List.take_append_drop limit ahead] at hleft
        rw [List.append_cancel_left hleft]
        exact henumerates
    · rintro ⟨hfits, pages, hwalk, hwalk', henumerates⟩
      have hread : readCount limit room ahead = limit := by
        rw [readCount, min_eq_left hfits, min_eq_left hlt.le]
      have hmore : stopped limit room ahead = true := by
        rw [stopped, hread, beq_self_eq_true, Bool.true_or]
      rw [hread, hmore, pageOf_more htake] at hpage'
      refine ⟨exact cursor :: pages, .next (by rw [hpage]) hwalk, ?_, ahead.drop limit, ?_, ?_,
        henumerates⟩
      · rw [hpage, ← hpage']
        exact .next (by rw [hpage']) hwalk'
      · rw [hpage, hinvolutive, List.take_append_drop]
      · have hne : ahead.drop limit ≠ [] :=
          List.ne_nil_of_length_pos (by rw [List.length_drop]; omega)
        rw [hpage]
        exact ⟨fun _ => hne, fun _ => rfl⟩
  · have hle := not_lt.mp hlt
    rw [decide_eq_false hlt, pageOf_last] at hpage
    rw [pagesFit_of_le hle]
    constructor
    · rintro ⟨pages, hwalk, hwalk', -⟩
      obtain ⟨-, rfl⟩ | ⟨_, _, hnext, -, -⟩ := walk_cons hwalk
      · have hsame : exact cursor = stopping cursor := by
          obtain ⟨-, hpages⟩ | ⟨_, _, -, -, hpages⟩ := walk_cons hwalk'
          · exact (List.cons.inj hpages).1
          · exact (List.cons.inj hpages).1
        obtain ⟨hread, hmore⟩ := hfirst hsame
        rw [min_eq_right hle] at hread
        by_cases hnil : ahead = []
        · exact Or.inl hnil
        · have hnot := hmore hnil
          rw [decide_eq_false hlt, stopped, ← hread] at hnot
          refine Or.inr ⟨fun heq => ?_, hread.le.trans hroom⟩
          rw [heq, beq_self_eq_true, Bool.true_or] at hnot
          cases hnot
      · rw [hpage] at hnext
        cases hnext
    · intro hfits
      obtain ⟨pages, hwalk, henumerates⟩ :=
        exists_walk_exact hinvolutive hlimit @hstep @hexact hat
      obtain ⟨-, rfl⟩ | ⟨_, _, hnext, -, -⟩ := walk_cons hwalk
      · have hsame : stopping cursor = exact cursor := by
          rw [hpage, hpage']
          rcases hfits with rfl | ⟨hne, hfits⟩
          · simp [pageOf]
          · have hread : readCount limit room ahead = ahead.length := by
              rw [readCount, min_eq_right (le_min hle hfits)]
            have hend : stopped limit room ahead = false := by
              rw [stopped, hread, beq_false_of_ne hne, decide_eq_false (lt_irrefl _), Bool.or_false]
            rw [hread, hend, pageOf_last, List.take_length, List.take_of_length_le hle]
        refine ⟨_, hwalk, ?_, henumerates⟩
        rw [← hsame]
        exact .last (by rw [hsame, hpage])
      · rw [hpage] at hnext
        cases hnext

end Compared

end Walks

end HayaSend
