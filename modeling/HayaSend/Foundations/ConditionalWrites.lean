import HayaSend.Foundations.OrderedMap

/-!
# Conditional writes of several items

A transaction writes several items of a table, each under a condition on the item as it stands. It
is applied as a whole or not at all (`transact_eq_ok`); it may not name an item twice, so that what
it leaves under a key is what its one write for the key says (`get_writeAll_of_mem`).
-/

namespace HayaSend

/-- A write of one item: its new value, or its removal. -/
structure ConditionalWrite (κ ν : Type*) where
  key : κ
  condition : Option ν → Bool := fun _ => true
  value : Option ν

inductive TransactError
  /-- A condition does not hold, or another transaction interferes. -/
  | canceled
  /-- Too many items, or an item named twice. -/
  | invalid
  deriving DecidableEq, Repr

namespace OrderedMap

variable {κ ν : Type*} [DecidableEq κ]

def write (m : OrderedMap κ ν) (w : ConditionalWrite κ ν) : OrderedMap κ ν :=
  match w.value with
  | some v => m.set w.key v
  | none => m.erase w.key

def writeAll (m : OrderedMap κ ν) (ws : List (ConditionalWrite κ ν)) : OrderedMap κ ν :=
  ws.foldl write m

/-- The transaction of the writes `ws`, at most `limit` many. -/
def transact (limit : ℕ) (interferes : Bool) (m : OrderedMap κ ν)
    (ws : List (ConditionalWrite κ ν)) : Except TransactError (OrderedMap κ ν) :=
  if limit < ws.length ∨ ¬(ws.map (·.key)).Nodup then .error .invalid
  else if interferes || !ws.all fun w => w.condition (m.get w.key) then .error .canceled
  else .ok (m.writeAll ws)

variable {m m' : OrderedMap κ ν} {ws : List (ConditionalWrite κ ν)}

theorem transact_eq_ok {limit : ℕ} {interferes : Bool} :
    transact limit interferes m ws = .ok m' ↔
      (ws.length ≤ limit ∧ (ws.map (·.key)).Nodup) ∧ interferes = false ∧
        (∀ w ∈ ws, w.condition (m.get w.key) = true) ∧ m.writeAll ws = m' := by
  unfold transact
  split_ifs with hinvalid hcanceled
  · simp only [false_iff, not_and]
    rintro ⟨hlen, hnodup⟩
    rcases hinvalid with h | h
    · omega
    · exact absurd hnodup h
  · simp only [false_iff, not_and]
    rintro - rfl hall
    simp only [Bool.false_or, Bool.not_eq_true', List.all_eq_false] at hcanceled
    obtain ⟨w, hw, hfalse⟩ := hcanceled
    exact absurd (hall w hw) hfalse
  · simp only [not_or, not_lt, not_not] at hinvalid
    simp only [Bool.or_eq_true, Bool.not_eq_true', not_or, Bool.not_eq_true, Bool.not_eq_false,
      List.all_eq_true] at hcanceled
    simp only [Except.ok.injEq]
    exact ⟨fun h => ⟨hinvalid, hcanceled.1, hcanceled.2, h⟩, fun h => h.2.2.2⟩

theorem get_write_ne (m : OrderedMap κ ν) {w : ConditionalWrite κ ν} {k : κ} (h : k ≠ w.key) :
    (m.write w).get k = m.get k := by
  unfold write
  split
  · exact get_set_ne m _ h
  · rw [get_erase, if_neg h]

theorem get_write_self (m : OrderedMap κ ν) (w : ConditionalWrite κ ν) :
    (m.write w).get w.key = w.value := by
  unfold write
  split
  · rename_i v hv
    rw [get_set_self, hv]
  · rename_i hv
    rw [get_erase, if_pos rfl, hv]

/-- Items that are not named stay. -/
theorem get_writeAll_of_notMem {k : κ} (h : k ∉ ws.map (·.key)) : (m.writeAll ws).get k = m.get k := by
  induction ws generalizing m with
  | nil => rfl
  | cons w ws ih =>
    simp only [List.map_cons, List.mem_cons, not_or] at h
    exact (ih h.2).trans (get_write_ne m h.1)

/-- A named item is as its write says. -/
theorem get_writeAll_of_mem (hnodup : (ws.map (·.key)).Nodup) {w : ConditionalWrite κ ν}
    (hw : w ∈ ws) : (m.writeAll ws).get w.key = w.value := by
  induction ws generalizing m with
  | nil => cases hw
  | cons w' ws ih =>
    obtain ⟨hnot, hnodup⟩ := List.nodup_cons.mp hnodup
    rcases List.mem_cons.mp hw with rfl | hw
    · exact (get_writeAll_of_notMem hnot).trans (get_write_self m _)
    · exact ih hnodup hw

end OrderedMap

end HayaSend
