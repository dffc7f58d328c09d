import Mathlib.Algebra.Ring.Nat
import Mathlib.Data.List.Sort

/-!
# Canonical JSON

The text whose digest identifies a request. `canonicalize` sorts the members of every object by
key. A member that is `undefined` in the source is absent here; a number is given by its text.
-/

namespace HayaSend

inductive Json
  | null
  | bool (value : Bool)
  | num (text : String)
  | str (value : String)
  | arr (items : List Json)
  | obj (members : List (String × Json))

namespace Json

/-- A member for every field that is set. -/
def ofFields (fields : List (String × Option Json)) : Json :=
  obj (fields.filterMap fun field => field.2.map (field.1, ·))

/-- The keys that an object lists first, in numerical order. -/
def arrayIndex (key : String) : Option ℕ :=
  let n := Nat.ofDigitChars 10 key.toList 0
  if key.toList.all Char.isDigit && toString n == key && decide (n < 4294967295) then some n
  else none

/-- `Object.fromEntries`: array indices come first, in numerical order. -/
def fromEntries (entries : List (String × Json)) : Json :=
  obj ((entries.filter fun e => (arrayIndex e.1).isSome).insertionSort
      (fun a b => (arrayIndex a.1).getD 0 ≤ (arrayIndex b.1).getD 0) ++
    entries.filter fun e => (arrayIndex e.1).isNone)

mutual

/-- `canonicalize`, for a given order of keys. -/
def canonicalize (localeCompare : String → String → Bool) : Json → Json
  | null => null
  | bool value => bool value
  | num text => num text
  | str value => str value
  | arr items => arr (canonicalizeItems localeCompare items)
  | obj members => fromEntries ((canonicalizeMembers localeCompare members).insertionSort
      fun a b => localeCompare a.1 b.1 = true)

def canonicalizeItems (localeCompare : String → String → Bool) : List Json → List Json
  | [] => []
  | item :: items => item.canonicalize localeCompare :: canonicalizeItems localeCompare items

def canonicalizeMembers (localeCompare : String → String → Bool) :
    List (String × Json) → List (String × Json)
  | [] => []
  | (key, value) :: members =>
    (key, value.canonicalize localeCompare) :: canonicalizeMembers localeCompare members

end

/-! ## `JSON.stringify` -/

/-- A character inside a JSON string. -/
def escape (c : Char) : String :=
  match c with
  | '"' => "\\\""
  | '\\' => "\\\\"
  | '\n' => "\\n"
  | '\r' => "\\r"
  | '\t' => "\\t"
  | c =>
    if c.toNat = 8 then "\\b"
    else if c.toNat = 12 then "\\f"
    else if c.toNat < 32 then
      "\\u00" ++ String.ofList [Nat.digitChar (c.toNat / 16), Nat.digitChar (c.toNat % 16)]
    else c.toString

def quote (s : String) : String := "\"" ++ String.join (s.toList.map escape) ++ "\""

mutual

/-- `JSON.stringify` -/
def stringify : Json → String
  | null => "null"
  | bool value => if value then "true" else "false"
  | num text => text
  | str value => quote value
  | arr items => "[" ++ String.intercalate "," (stringifyItems items) ++ "]"
  | obj members => "\x7b" ++ String.intercalate "," (stringifyMembers members) ++ "\x7d"

def stringifyItems : List Json → List String
  | [] => []
  | item :: items => item.stringify :: stringifyItems items

def stringifyMembers : List (String × Json) → List String
  | [] => []
  | (key, value) :: members => (quote key ++ ":" ++ value.stringify) :: stringifyMembers members

end

/-! ## The order of members -/

variable {localeCompare : String → String → Bool}

theorem canonicalizeMembers_eq_map (members : List (String × Json)) :
    canonicalizeMembers localeCompare members =
      members.map fun m => (m.1, m.2.canonicalize localeCompare) := by
  induction members with
  | nil => rfl
  | cons m members ih => rw [canonicalizeMembers, ih, List.map_cons]

end Json

end HayaSend
