import Mathlib.Data.List.Sort
import Mathlib.Order.Basic

/-!
# Keyset paging over a table that changes

A reader takes the rows of a table in descending order of a key, a page at a time: the next page has
the greatest keys below the last one it has. Between two pages rows may come and go.

`Walked` is what holds after each page: the keys that were read descend, and a key that was in the
table for every page is either read or below all that were read. After a page with nothing below it
the latter are read as well (`Walked.complete`).
-/

namespace HayaSend

variable {κ α : Type*} [LinearOrder κ]

/-- The rows below a key, in descending order; all of them without a key. -/
def rowsBelow (key : α → κ) (bound : Option κ) (rows : List α) : List α :=
  (rows.filter fun row => bound.all (key row < ·)).insertionSort fun a b => key b ≤ key a

section RowsBelow

variable {key : α → κ} {bound : Option κ} {rows : List α}

theorem mem_rowsBelow {row : α} :
    row ∈ rowsBelow key bound rows ↔ row ∈ rows ∧ ∀ k ∈ bound, key row < k := by
  rw [rowsBelow, List.mem_insertionSort, List.mem_filter]
  cases bound with
  | none => simp
  | some k => simp

theorem pairwise_rowsBelow (hn : (rows.map key).Nodup) :
    ((rowsBelow key bound rows).map key).Pairwise (· > ·) := by
  have hsorted : (rowsBelow key bound rows).Pairwise fun a b => key b ≤ key a :=
    List.pairwise_insertionSort _ _
  have hnodup : ((rowsBelow key bound rows).map key).Nodup := by
    refine (List.Perm.map key (List.perm_insertionSort _ _)).nodup_iff.mpr ?_
    exact hn.sublist (List.filter_sublist.map key)
  exact ((List.pairwise_map.mpr hsorted).and hnodup).imp fun h => lt_of_le_of_ne h.1 (Ne.symm h.2)

end RowsBelow

/-- The keys that were read, and the keys of the table at each page. -/
structure Walked (read : List κ) (tables : List (List κ)) : Prop where
  descending : read.Pairwise (· > ·)
  ahead : ∀ k, (∀ keys ∈ tables, k ∈ keys) → k ∈ read ∨ ∀ k' ∈ read, k < k'

namespace Walked

variable {read : List κ} {tables : List (List κ)}

theorem empty : Walked ([] : List κ) [] :=
  ⟨.nil, fun _ _ => .inr fun _ h => absurd h List.not_mem_nil⟩

/-- The last key is the least. -/
theorem last_le (h : Walked read tables) {k last : κ} (hk : k ∈ read)
    (hlast : last ∈ read.getLast?) : last ≤ k := by
  obtain ⟨front, rfl⟩ := List.getLast?_eq_some_iff.mp hlast
  rcases List.mem_append.mp hk with hk | hk
  · exact ((List.pairwise_append.mp h.descending).2.2 k hk last List.mem_cons_self).le
  · exact (List.mem_singleton.mp hk).ge

/-- What is below all that was read is below the last. -/
theorem mem_below {key : α → κ} {rows : List α} {row : α} (hrow : row ∈ rows)
    (hbelow : ∀ k ∈ read, key row < k) : row ∈ rowsBelow key read.getLast? rows :=
  mem_rowsBelow.mpr ⟨hrow, fun k hk => hbelow k (List.mem_of_getLast? hk)⟩

section Page

variable {key : α → κ} {rows : List α}

/-- **A page.** -/
theorem page (h : Walked read tables) (hn : (rows.map key).Nodup) (n : ℕ) :
    Walked (read ++ ((rowsBelow key read.getLast? rows).take n).map key)
      (tables ++ [rows.map key]) := by
  have hdesc : ((rowsBelow key read.getLast? rows).map key).Pairwise (· > ·) :=
    pairwise_rowsBelow hn
  refine ⟨List.pairwise_append.mpr ⟨h.descending, ?_, ?_⟩, fun k hk => ?_⟩
  · exact hdesc.sublist ((List.take_sublist _ _).map key)
  · intro a ha b hb
    obtain ⟨row, hrow, rfl⟩ := List.mem_map.mp hb
    obtain ⟨-, hbelow⟩ := mem_rowsBelow.mp (List.mem_of_mem_take hrow)
    have hlast := List.getLast?_eq_some_getLast (List.ne_nil_of_mem ha)
    exact lt_of_lt_of_le (hbelow _ hlast) (h.last_le ha hlast)
  · obtain ⟨hold, hnow⟩ := List.forall_mem_append.mp hk
    rcases h.ahead k hold with hread | hbelow
    · exact .inl (List.mem_append_left _ hread)
    obtain ⟨row, hrow, rfl⟩ := List.mem_map.mp (hnow _ List.mem_cons_self)
    have hmem := mem_below hrow hbelow
    rw [← List.take_append_drop n (rowsBelow key read.getLast? rows)] at hmem hdesc
    rcases List.mem_append.mp hmem with htaken | hleft
    · exact .inl (List.mem_append_right _ (List.mem_map_of_mem htaken))
    · refine .inr fun k' hk' => ?_
      rcases List.mem_append.mp hk' with hk' | hk'
      · exact hbelow k' hk'
      · rw [List.map_append, List.pairwise_append] at hdesc
        exact hdesc.2.2 k' hk' (key row) (List.mem_map_of_mem hleft)

/-- **The last page**: nothing that was there for every page is left out. -/
theorem complete (h : Walked read tables) {n : ℕ}
    (hle : (rowsBelow key read.getLast? rows).length ≤ n) {k : κ}
    (hk : ∀ keys ∈ tables ++ [rows.map key], k ∈ keys) :
    k ∈ read ++ ((rowsBelow key read.getLast? rows).take n).map key := by
  obtain ⟨hold, hnow⟩ := List.forall_mem_append.mp hk
  rcases h.ahead k hold with hread | hbelow
  · exact List.mem_append_left _ hread
  · obtain ⟨row, hrow, rfl⟩ := List.mem_map.mp (hnow _ List.mem_cons_self)
    rw [List.take_of_length_le hle]
    exact List.mem_append_right _ (List.mem_map_of_mem (mem_below hrow hbelow))

end Page

end Walked

end HayaSend
