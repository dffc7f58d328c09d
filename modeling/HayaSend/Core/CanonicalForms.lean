import HayaSend.Core.CanonicalJson
import HayaSend.Foundations.PrefixCodes
import HayaSend.Foundations.StableSort

/-!
# Canonical forms

The canonical text of a request determines it up to the order of the members
(`Json.alike_of_text_eq`), and the order of the members determines the text no further than by the
keys that the comparison of keys does not tell apart: these keep their order
(`Json.canonicalize_eq_iff`).
-/

namespace HayaSend

namespace Json

/-! ## Values -/

/-- Induction on a value, by its items and its members. -/
@[elab_as_elim]
theorem induction {motive : Json → Prop} (null : motive null) (bool : ∀ value, motive (bool value))
    (num : ∀ text, motive (num text)) (str : ∀ value, motive (str value))
    (arr : ∀ items, (∀ item ∈ items, motive item) → motive (arr items))
    (obj : ∀ members, (∀ member ∈ members, motive member.2) → motive (obj members)) (j : Json) :
    motive j := by
  refine Json.rec (motive_1 := motive) (motive_2 := fun items => ∀ item ∈ items, motive item)
    (motive_3 := fun members => ∀ member ∈ members, motive member.2)
    (motive_4 := fun member => motive member.2) null bool num str arr obj ?_ ?_ ?_ ?_ ?_ j
  · exact fun item hitem => (nomatch hitem)
  · exact fun _ _ hhead htail => List.forall_mem_cons.mpr ⟨hhead, htail⟩
  · exact fun member hmember => (nomatch hmember)
  · exact fun _ _ hhead htail => List.forall_mem_cons.mpr ⟨hhead, htail⟩
  · exact fun _ _ hvalue => hvalue

/-- The characters of numbers. -/
def isNumberChar (c : Char) : Bool := "0123456789+-.eE".toList.contains c

/-- Numbers have the texts of numbers, and objects distinct keys. -/
inductive Valid : Json → Prop
  | null : Valid null
  | bool (value : Bool) : Valid (bool value)
  | num {text : String} (hne : text.toList ≠ []) (hchars : ∀ c ∈ text.toList, isNumberChar c) :
      Valid (num text)
  | str (value : String) : Valid (str value)
  | arr {items : List Json} (hitems : ∀ item ∈ items, Valid item) : Valid (arr items)
  | obj {members : List (String × Json)} (hkeys : (members.map Prod.fst).Nodup)
      (hmembers : ∀ member ∈ members, Valid member.2) : Valid (obj members)

/-! ## Strings are read back -/

def hexValue (c : Char) : ℕ := if c.isDigit then c.toNat - 48 else c.toNat - 87

theorem hexValue_digitChar : ∀ n < 16, hexValue (Nat.digitChar n) = n := by decide

/-- A character inside a string, or its end. -/
def stringSymbol : Option Char → List Char
  | none => ['"']
  | some c => (escape c).toList

/-- The symbol at the beginning of a text. -/
def readSymbol : List Char → Option Char
  | '\\' :: 'n' :: _ => some '\n'
  | '\\' :: 'r' :: _ => some '\r'
  | '\\' :: 't' :: _ => some '\t'
  | '\\' :: 'b' :: _ => some (Char.ofNat 8)
  | '\\' :: 'f' :: _ => some (Char.ofNat 12)
  | '\\' :: 'u' :: _ :: _ :: high :: low :: _ =>
    some (Char.ofNat (16 * hexValue high + hexValue low))
  | '\\' :: c :: _ => some c
  | '"' :: _ => none
  | c :: _ => some c
  | [] => none

theorem readSymbol_cons {c : Char} {rest : List Char} (hslash : c ≠ '\\') (hquote : c ≠ '"') :
    readSymbol (c :: rest) = some c := by
  unfold readSymbol
  split <;> simp_all

theorem readSymbol_stringSymbol (symbol : Option Char) (rest : List Char) :
    readSymbol (stringSymbol symbol ++ rest) = symbol := by
  cases symbol with
  | none => rfl
  | some c =>
    rw [stringSymbol]
    fun_cases escape c with
    | case1 => rfl
    | case2 => rfl
    | case3 => rfl
    | case4 => rfl
    | case5 => rfl
    | case6 _ _ _ _ _ _ hc =>
      rw [← Char.ofNat_toNat c, hc]
      rfl
    | case7 _ _ _ _ _ _ _ hc =>
      rw [← Char.ofNat_toNat c, hc]
      rfl
    | case8 _ _ _ _ _ _ _ _ hc =>
      have hread : 16 * (c.toNat / 16) + c.toNat % 16 = c.toNat := Nat.div_add_mod _ 16
      have hhigh := hexValue_digitChar (c.toNat / 16) (by omega)
      have hlow := hexValue_digitChar (c.toNat % 16) (Nat.mod_lt _ (by decide))
      simp only [String.toList_append, String.toList_ofList]
      change some (Char.ofNat (16 * hexValue (Nat.digitChar (c.toNat / 16)) +
        hexValue (Nat.digitChar (c.toNat % 16)))) = some c
      rw [hhigh, hlow, hread, Char.ofNat_toNat]
    | case9 _ hquote hslash =>
      rw [Char.toString_eq_singleton, String.toList_singleton]
      exact readSymbol_cons hslash hquote

theorem prefixCode_stringSymbol : PrefixCode stringSymbol where
  ne_nil symbol hnil := by
    cases symbol with
    | none => cases hnil
    | some c =>
      have hread := readSymbol_stringSymbol (some c) []
      rw [hnil] at hread
      cases hread
  eq_of_append {a b x y} heq := by
    have hread := congrArg readSymbol heq
    rwa [readSymbol_stringSymbol, readSymbol_stringSymbol] at hread

theorem toList_quote (s : String) :
    (quote s).toList = '"' :: ((s.toList.map some).flatMap stringSymbol ++ stringSymbol none) := by
  rw [quote, String.toList_append, String.toList_append, String.toList_join, List.flatMap_map,
    List.flatMap_map]
  rfl

/-- A string is read off the front of any text. -/
theorem eq_of_quote {a b : String} {x y : List Char}
    (heq : (quote a).toList ++ x = (quote b).toList ++ y) : a = b ∧ x = y := by
  have hstop (s : String) : none ∉ s.toList.map some := by simp
  rw [toList_quote, toList_quote, List.cons_append, List.cons_append, List.append_assoc,
    List.append_assoc] at heq
  obtain ⟨hchars, hrest⟩ :=
    prefixCode_stringSymbol.eq_of_stop (hstop a) (hstop b) (List.cons.inj heq).2
  have hinj := List.map_injective_iff.mpr (Option.some_injective Char) hchars
  exact ⟨String.toList_inj.mp hinj, hrest⟩

/-! ## Texts are read back -/

/-- What follows a value. -/
def EndsValue (rest : List Char) : Prop := ∀ c ∈ rest.head?, isNumberChar c = false

theorem stringifyItems_eq_map (items : List Json) : stringifyItems items = items.map stringify := by
  induction items with
  | nil => rfl
  | cons item items ih => rw [stringifyItems, ih, List.map_cons]

theorem stringifyMembers_eq_map (members : List (String × Json)) :
    stringifyMembers members = members.map fun m => quote m.1 ++ ":" ++ m.2.stringify := by
  induction members with
  | nil => rfl
  | cons m members ih => rw [stringifyMembers, ih, List.map_cons]

/-- The text of a member. -/
def memberText (member : String × Json) : List Char :=
  (quote member.1).toList ++ ':' :: member.2.stringify.toList

theorem toList_stringify_arr (items : List Json) : (arr items).stringify.toList =
    '[' :: (separated ',' (fun item => item.stringify.toList) items ++ [']']) := by
  rw [stringify, stringifyItems_eq_map, String.toList_append, String.toList_append,
    String.toList_intercalate, List.map_map, ← intercalate_eq_separated]
  rfl

theorem toList_stringify_obj (members : List (String × Json)) : (obj members).stringify.toList =
    '\x7b' :: (separated ',' memberText members ++ ['\x7d']) := by
  have htext : String.toList ∘ (fun m : String × Json => quote m.1 ++ ":" ++ m.2.stringify) =
      memberText := by
    funext m
    rw [Function.comp_apply, String.toList_append, String.toList_append, memberText,
      List.append_assoc]
    rfl
  rw [stringify, stringifyMembers_eq_map, String.toList_append, String.toList_append,
    String.toList_intercalate, List.map_map, htext, ← intercalate_eq_separated]
  rfl

/-- The constructor of a value. -/
def kind : Json → ℕ
  | null => 0
  | bool _ => 1
  | num _ => 2
  | str _ => 3
  | arr _ => 4
  | obj _ => 5

/-- The constructor of the value that a character begins. -/
def kindOfChar (c : Char) : ℕ :=
  if c = 'n' then 0 else if c = 't' ∨ c = 'f' then 1 else if c = '"' then 3 else if c = '[' then 4
  else if c = '\x7b' then 5 else if isNumberChar c then 2 else 6

theorem exists_stringify_cons {j : Json} (h : Valid j) :
    ∃ c rest, j.stringify.toList = c :: rest ∧ kindOfChar c = j.kind := by
  cases h with
  | null => exact ⟨'n', _, rfl, rfl⟩
  | bool value => cases value <;> exact ⟨_, _, rfl, rfl⟩
  | @num text hne hchars =>
    obtain ⟨c, rest, htext⟩ := List.exists_cons_of_ne_nil hne
    have hkind : ("0123456789+-.eE".toList.all fun c => kindOfChar c == 2) = true := by decide
    have hc := List.all_eq_true.mp hkind c
      (List.contains_iff_mem.mp (hchars c (htext ▸ List.mem_cons_self)))
    exact ⟨c, rest, htext, beq_iff_eq.mp hc⟩
  | str value => exact ⟨'"', _, toList_quote value, rfl⟩
  | arr => exact ⟨'[', _, toList_stringify_arr _, rfl⟩
  | obj => exact ⟨'\x7b', _, toList_stringify_obj _, rfl⟩

/-- No value begins with a close. -/
theorem exists_stringify_cons_ne {j : Json} (h : Valid j) {close : Char}
    (hclose : kindOfChar close = 6) :
    ∃ c rest, j.stringify.toList = c :: rest ∧ c ≠ close := by
  obtain ⟨c, rest, hc, hkind⟩ := exists_stringify_cons h
  refine ⟨c, rest, hc, ?_⟩
  rintro rfl
  rw [hclose] at hkind
  cases j <;> cases hkind

theorem kind_eq_of_append {a b : Json} (ha : Valid a) (hb : Valid b) {x y : List Char}
    (heq : a.stringify.toList ++ x = b.stringify.toList ++ y) : a.kind = b.kind := by
  obtain ⟨c, rest, hc, hkind⟩ := exists_stringify_cons ha
  obtain ⟨c', rest', hc', hkind'⟩ := exists_stringify_cons hb
  rw [hc, hc'] at heq
  rw [← hkind, ← hkind', (List.cons.inj heq).1]

/-- What starts with a separator or a close ends a value. -/
theorem endsValue_cons {c : Char} (hc : isNumberChar c = false) (rest : List Char) :
    EndsValue (c :: rest) := by
  rintro d ⟨⟩
  exact hc

theorem takeWhile_number {text rest : List Char} (htext : ∀ c ∈ text, isNumberChar c)
    (hrest : EndsValue rest) : (text ++ rest).takeWhile isNumberChar = text := by
  rw [List.takeWhile_append_of_pos htext]
  cases rest with
  | nil => rw [List.takeWhile_nil, List.append_nil]
  | cons c rest =>
    rw [List.takeWhile_cons_of_neg (by rw [hrest c rfl]; exact Bool.false_ne_true),
      List.append_nil]

/-- **A value is read off the front of a text** that nothing of a number follows. -/
theorem readBefore_stringify {j : Json} (h : Valid j) :
    ReadBefore EndsValue Valid (fun j => j.stringify.toList) j := by
  intro b x y hb hx hy heq
  dsimp only at heq
  induction j using Json.induction generalizing b x y with
  | null =>
    have hkind := kind_eq_of_append h hb heq
    cases b with
    | null => exact ⟨rfl, List.append_cancel_left heq⟩
    | _ => cases hkind
  | bool value =>
    have hkind := kind_eq_of_append h hb heq
    cases b with
    | bool value' =>
      obtain rfl : value = value' := by
        cases value <;> cases value' <;> first | rfl | exact absurd (List.cons.inj heq).1 (by decide)
      exact ⟨rfl, List.append_cancel_left heq⟩
    | _ => cases hkind
  | num text =>
    have hkind := kind_eq_of_append h hb heq
    cases b with
    | num text' =>
      cases h with
      | num _ hchars =>
        cases hb with
        | num _ hchars' =>
          have htext := congrArg (List.takeWhile isNumberChar) heq
          rw [stringify, stringify, takeWhile_number hchars hx, takeWhile_number hchars' hy] at htext
          obtain rfl := String.toList_inj.mp htext
          exact ⟨rfl, List.append_cancel_left heq⟩
    | _ => cases hkind
  | str value =>
    have hkind := kind_eq_of_append h hb heq
    cases b with
    | str value' =>
      obtain ⟨rfl, hrest⟩ := eq_of_quote heq
      exact ⟨rfl, hrest⟩
    | _ => cases hkind
  | arr items ih =>
    have hkind := kind_eq_of_append h hb heq
    cases b with
    | arr items' =>
      cases h with
      | arr hitems =>
        cases hb with
        | arr hitems' =>
          rw [toList_stringify_arr, toList_stringify_arr, List.cons_append, List.cons_append,
            List.append_assoc, List.append_assoc] at heq
          have hread : ∀ item ∈ items, ReadBefore EndsValue Valid (fun j => j.stringify.toList) item :=
            fun item hitem _ _ _ hb hx hy heq => ih item hitem (hitems item hitem) hb hx hy heq
          have hstart : ∀ item ∈ items ++ items', ∃ c rest,
              item.stringify.toList = c :: rest ∧ c ≠ ']' := fun item hitem =>
            exists_stringify_cons_ne ((List.mem_append.mp hitem).elim (hitems item) (hitems' item))
              rfl
          obtain ⟨rfl, hrest⟩ := eq_of_separated (endsValue_cons rfl) (endsValue_cons rfl)
            (by decide) hread hitems' hstart (List.cons.inj heq).2
          exact ⟨rfl, hrest⟩
    | _ => cases hkind
  | obj members ih =>
    have hkind := kind_eq_of_append h hb heq
    cases b with
    | obj members' =>
      cases h with
      | obj _ hmembers =>
        cases hb with
        | obj _ hmembers' =>
          rw [toList_stringify_obj, toList_stringify_obj, List.cons_append, List.cons_append,
            List.append_assoc, List.append_assoc] at heq
          have hread : ∀ member ∈ members,
              ReadBefore EndsValue (fun m => Valid m.2) memberText member := by
            intro member hmember member' x y hb hx hy heq
            rw [memberText, memberText, List.append_assoc, List.append_assoc] at heq
            obtain ⟨hkey, heq⟩ := eq_of_quote heq
            obtain ⟨hvalue, hrest⟩ :=
              ih member hmember (hmembers member hmember) hb hx hy (List.cons.inj heq).2
            exact ⟨Prod.ext hkey hvalue, hrest⟩
          have hstart : ∀ member ∈ members ++ members', ∃ c rest,
              memberText member = c :: rest ∧ c ≠ '\x7d' := fun member _ =>
            ⟨'"', _, by rw [memberText, toList_quote, List.cons_append], by decide⟩
          obtain ⟨rfl, hrest⟩ := eq_of_separated (endsValue_cons rfl) (endsValue_cons rfl)
            (by decide) hread hmembers' hstart (List.cons.inj heq).2
          exact ⟨rfl, hrest⟩
    | _ => cases hkind

/-- **The text of a value determines it.** -/
theorem eq_of_stringify {a b : Json} (ha : Valid a) (hb : Valid b)
    (heq : a.stringify = b.stringify) : a = b := by
  have hends : EndsValue [] := fun c hc => (nomatch hc)
  refine (readBefore_stringify ha hb hends hends ?_).1
  dsimp only
  rw [heq]

/-! ## Values up to the order of members -/

/-- Values with the same items, and with members of the same keys in orders that are related. -/
inductive Alike (related : List String → List String → Prop) : Json → Json → Prop
  | null : Alike related null null
  | bool (value : Bool) : Alike related (bool value) (bool value)
  | num (text : String) : Alike related (num text) (num text)
  | str (value : String) : Alike related (str value) (str value)
  | arr {items items' : List Json} (hlength : items.length = items'.length)
      (hitems : ∀ (i : ℕ) a b, items[i]? = some a → items'[i]? = some b → Alike related a b) :
      Alike related (arr items) (arr items')
  | obj {members members' : List (String × Json)}
      (hkeys : (members.map Prod.fst).Perm (members'.map Prod.fst))
      (horder : related (members.map Prod.fst) (members'.map Prod.fst))
      (hmembers : ∀ key a b, (key, a) ∈ members → (key, b) ∈ members' → Alike related a b) :
      Alike related (obj members) (obj members')

/-- Equal up to the order of members. -/
def EqualUpToOrder : Json → Json → Prop := Alike fun _ _ => True

theorem Alike.mono {related related' : List String → List String → Prop}
    (hrelated : ∀ keys keys', related keys keys' → related' keys keys') {v w : Json}
    (h : Alike related v w) : Alike related' v w := by
  induction h with
  | null => exact .null
  | bool value => exact .bool value
  | num text => exact .num text
  | str value => exact .str value
  | arr hlength _ ih => exact .arr hlength ih
  | obj hkeys horder _ ih => exact .obj hkeys (hrelated _ _ horder) ih

/-- A preorder of the keys that compares all. -/
structure KeyPreorder (localeCompare : String → String → Bool) : Prop where
  total : ∀ a b, localeCompare a b = true ∨ localeCompare b a = true
  trans : ∀ a b c, localeCompare a b = true → localeCompare b c = true → localeCompare a c = true

/-- Keys that the comparison does not tell apart keep their order, array indices apart. -/
def TiesKept (localeCompare : String → String → Bool) (keys keys' : List String) : Prop :=
  ∀ a b, arrayIndex a = none → arrayIndex b = none → localeCompare a b = true →
    localeCompare b a = true → [a, b].Sublist keys → [a, b].Sublist keys'

/-! ## Sorted members -/

theorem eq_of_arrayIndex {a b : String} {n : ℕ} (ha : arrayIndex a = some n)
    (hb : arrayIndex b = some n) : a = b := by
  have hkey {key : String} (h : arrayIndex key = some n) : toString n = key := by
    rw [arrayIndex] at h
    split_ifs at h with hvalid
    obtain rfl := Option.some.inj h
    rw [Bool.and_eq_true, Bool.and_eq_true] at hvalid
    exact beq_iff_eq.mp hvalid.1.2
  rw [← hkey ha, hkey hb]

section Entries

variable {localeCompare : String → String → Bool} {es es' : List (String × Json)}

/-- Sort entries by their keys. -/
def sortEntries (localeCompare : String → String → Bool) (es : List (String × Json)) :
    List (String × Json) :=
  es.insertionSort fun a b => localeCompare a.1 b.1 = true

theorem sortEntries_perm (localeCompare : String → String → Bool) (es : List (String × Json)) :
    (sortEntries localeCompare es).Perm es :=
  List.perm_insertionSort _ es

/-- The entries of array indices, in order. -/
def indexEntries (es : List (String × Json)) : List (String × Json) :=
  (es.filter fun e => (arrayIndex e.1).isSome).insertionSort
    (fun a b => (arrayIndex a.1).getD 0 ≤ (arrayIndex b.1).getD 0)

theorem fromEntries_eq (es : List (String × Json)) :
    fromEntries es = obj (indexEntries es ++ es.filter fun e => (arrayIndex e.1).isNone) := rfl

theorem indexEntries_perm (es : List (String × Json)) :
    (indexEntries es).Perm (es.filter fun e => (arrayIndex e.1).isSome) :=
  List.perm_insertionSort _ _

/-- The members of an object are its entries. -/
theorem fromEntries_perm (es : List (String × Json)) :
    (indexEntries es ++ es.filter fun e => (arrayIndex e.1).isNone).Perm es := by
  have hnone : (fun e : String × Json => (arrayIndex e.1).isNone) =
      fun e => !(arrayIndex e.1).isSome := by
    funext e
    exact (Option.not_isSome _).symm
  rw [hnone]
  exact ((indexEntries_perm es).append_right _).trans (List.filter_append_perm _ es)

/-- Array indices come in one order. -/
theorem indexEntries_eq (hperm : es.Perm es') (hn : (es.map Prod.fst).Nodup) :
    indexEntries es = indexEntries es' := by
  let le : String × Json → String × Json → Prop :=
    fun a b => (arrayIndex a.1).getD 0 ≤ (arrayIndex b.1).getD 0
  have : Std.Total le := ⟨fun a b => Nat.le_total _ _⟩
  have : IsTrans (String × Json) le := ⟨fun a b c => Nat.le_trans⟩
  refine List.Perm.eq_of_pairwise (fun a b ha hb hab hba => ?_)
    (List.pairwise_insertionSort le _) (List.pairwise_insertionSort le _)
    ((indexEntries_perm es).trans ((hperm.filter _).trans (indexEntries_perm es').symm))
  obtain ⟨ha, haindex⟩ := List.mem_filter.mp ((indexEntries_perm es).mem_iff.mp ha)
  obtain ⟨hb, hbindex⟩ := List.mem_filter.mp ((indexEntries_perm es').mem_iff.mp hb)
  obtain ⟨n, hn'⟩ := Option.isSome_iff_exists.mp haindex
  obtain ⟨m, hm⟩ := Option.isSome_iff_exists.mp hbindex
  have hindex : n = m := by
    have hle := Nat.le_antisymm hab hba
    rwa [hn', hm] at hle
  exact List.inj_on_of_nodup_map hn ha (hperm.mem_iff.mpr hb)
    (eq_of_arrayIndex hn' (hindex ▸ hm))

/-- Two members, by their keys. -/
theorem exists_pair_of_keys {a b : String} (h : [a, b].Sublist (es.map Prod.fst)) :
    ∃ x y, [x, y].Sublist es ∧ x.1 = a ∧ y.1 = b := by
  obtain ⟨pair, hpair, heq⟩ := List.sublist_map_iff.mp h
  obtain ⟨x, rest, rfl, hx, hrest⟩ := List.map_eq_cons_iff.mp heq.symm
  obtain ⟨y, rest', rfl, hy, hrest'⟩ := List.map_eq_cons_iff.mp hrest
  obtain rfl := List.map_eq_nil_iff.mp hrest'
  exact ⟨x, y, hpair, hx, hy⟩

/-- Members in the order of their keys. -/
theorem pair_sublist_of_keys {x y : String × Json} (hn : (es.map Prod.fst).Nodup) (hx : x ∈ es)
    (hy : y ∈ es) (h : [x.1, y.1].Sublist (es.map Prod.fst)) : [x, y].Sublist es := by
  obtain ⟨x', y', hsub, hx', hy'⟩ := exists_pair_of_keys h
  have hmem {e : String × Json} (he : e ∈ [x', y']) : e ∈ es := hsub.subset he
  obtain rfl := List.inj_on_of_nodup_map hn (hmem List.mem_cons_self) hx hx'
  obtain rfl := List.inj_on_of_nodup_map hn
    (hmem (List.mem_cons_of_mem _ List.mem_cons_self)) hy hy'
  exact hsub

/-- **What the order of the members changes** in sorted members is the order of the keys that the
comparison does not tell apart. -/
theorem fromEntries_sort_eq_iff (hlocale : KeyPreorder localeCompare) (hperm : es.Perm es')
    (hn : (es.map Prod.fst).Nodup) :
    fromEntries (sortEntries localeCompare es) = fromEntries (sortEntries localeCompare es') ↔
      TiesKept localeCompare (es.map Prod.fst) (es'.map Prod.fst) := by
  let le : String × Json → String × Json → Prop := fun a b => localeCompare a.1 b.1 = true
  let plain : String × Json → Bool := fun e => (arrayIndex e.1).isNone
  have : Std.Total le := ⟨fun a b => hlocale.total a.1 b.1⟩
  have : IsTrans (String × Json) le := ⟨fun a b c => hlocale.trans a.1 b.1 c.1⟩
  have hsorted (xs : List (String × Json)) : (sortEntries localeCompare xs).Perm xs :=
    sortEntries_perm localeCompare xs
  have hn' : (es'.map Prod.fst).Nodup := (hperm.map _).nodup_iff.mp hn
  have hindex : indexEntries (sortEntries localeCompare es) =
      indexEntries (sortEntries localeCompare es') :=
    indexEntries_eq ((hsorted es).trans (hperm.trans (hsorted es').symm))
      (((hsorted es).map _).nodup_iff.mpr hn)
  have hstable (xs : List (String × Json)) :=
    (sortedStably_insertionSort (r := le) xs).filter plain
  rw [fromEntries_eq, fromEntries_eq, Json.obj.injEq, hindex, List.append_cancel_left_eq]
  refine ((hstable es).eq_iff (hstable es') (hperm.filter plain) ((hn.of_map _).filter plain)).trans
    ⟨fun h a b ha hb hab hba hsub => ?_, fun h x y hxy hyx hsub => ?_⟩
  · obtain ⟨x, y, hpair, rfl, rfl⟩ := exists_pair_of_keys hsub
    have hplain : [x, y].filter plain = [x, y] := by
      simp [plain, ha, hb]
    have hpair' := h x y hab hba (hplain ▸ hpair.filter plain)
    exact (hpair'.trans List.filter_sublist).map Prod.fst
  · have hmem {e : String × Json} (he : e ∈ [x, y]) : e ∈ es' ∧ arrayIndex e.1 = none := by
      obtain ⟨hes, hplain⟩ := List.mem_filter.mp (hsub.subset he)
      exact ⟨hperm.mem_iff.mp hes, Option.isNone_iff_eq_none.mp hplain⟩
    obtain ⟨hx, hxplain⟩ := hmem List.mem_cons_self
    obtain ⟨hy, hyplain⟩ := hmem (List.mem_cons_of_mem _ List.mem_cons_self)
    have hkeys := h x.1 y.1 hxplain hyplain hxy hyx ((hsub.trans List.filter_sublist).map Prod.fst)
    have hplain : [x, y].filter plain = [x, y] := by
      simp [plain, hxplain, hyplain]
    exact hplain ▸ (pair_sublist_of_keys hn' hx hy hkeys).filter plain

end Entries

/-! ## Canonical forms -/

section Canonical

variable {localeCompare : String → String → Bool}

theorem canonicalizeItems_eq_map (items : List Json) :
    canonicalizeItems localeCompare items = items.map (canonicalize localeCompare) := by
  induction items with
  | nil => rfl
  | cons item items ih => rw [canonicalizeItems, ih, List.map_cons]

/-- The members of an object in canonical form. -/
def canonicalEntries (localeCompare : String → String → Bool) (members : List (String × Json)) :
    List (String × Json) :=
  members.map fun m => (m.1, m.2.canonicalize localeCompare)

theorem map_fst_canonicalEntries (members : List (String × Json)) :
    (canonicalEntries localeCompare members).map Prod.fst = members.map Prod.fst := by
  rw [canonicalEntries, List.map_map]
  rfl

theorem canonicalize_obj (members : List (String × Json)) :
    (obj members).canonicalize localeCompare =
      fromEntries (sortEntries localeCompare (canonicalEntries localeCompare members)) := by
  rw [canonicalize, canonicalizeMembers_eq_map]
  rfl

/-- A canonical form has numbers and keys as the value has. -/
theorem Valid.canonicalize {j : Json} (h : Valid j) : Valid (j.canonicalize localeCompare) := by
  induction h with
  | null => exact .null
  | bool value => exact .bool value
  | num hne hchars => exact .num hne hchars
  | str value => exact .str value
  | arr _ ih =>
    rw [Json.canonicalize, canonicalizeItems_eq_map]
    refine .arr fun item hitem => ?_
    obtain ⟨a, ha, rfl⟩ := List.mem_map.mp hitem
    exact ih a ha
  | @obj members hkeys _ ih =>
    rw [canonicalize_obj, fromEntries_eq]
    have hperm := (fromEntries_perm _).trans
      (sortEntries_perm localeCompare (canonicalEntries localeCompare members))
    refine .obj ?_ fun member hmember => ?_
    · rwa [(hperm.map Prod.fst).nodup_iff, map_fst_canonicalEntries]
    · obtain ⟨m, hm, rfl⟩ := List.mem_map.mp (hperm.mem_iff.mp hmember)
      exact ih m hm

/-- Objects with one canonical form have the same entries. -/
theorem canonicalEntries_perm {members members' : List (String × Json)}
    (h : (obj members).canonicalize localeCompare = (obj members').canonicalize localeCompare) :
    (canonicalEntries localeCompare members).Perm (canonicalEntries localeCompare members') := by
  rw [canonicalize_obj, canonicalize_obj, fromEntries_eq, fromEntries_eq] at h
  have hperm (ms : List (String × Json)) := (fromEntries_perm _).trans
    (sortEntries_perm localeCompare (canonicalEntries localeCompare ms))
  exact (hperm members).symm.trans ((Json.obj.inj h) ▸ hperm members')

/-- Objects of the same keys with values of which something is the same. -/
theorem map_members_perm {γ : Type} {value : Json → γ} {members members' : List (String × Json)}
    (hkeys : (members.map Prod.fst).Perm (members'.map Prod.fst))
    (hn : (members.map Prod.fst).Nodup)
    (h : ∀ key a b, (key, a) ∈ members → (key, b) ∈ members' → value a = value b) :
    (members.map fun m => (m.1, value m.2)).Perm (members'.map fun m => (m.1, value m.2)) := by
  have hnodup (ms : List (String × Json)) (hms : (ms.map Prod.fst).Nodup) :
      (ms.map fun m => (m.1, value m.2)).Nodup :=
    .of_map Prod.fst (by rwa [List.map_map])
  rw [List.perm_ext_iff_of_nodup (hnodup members hn) (hnodup members' (hkeys.nodup_iff.mp hn))]
  intro e
  constructor
  · intro he
    obtain ⟨⟨key, a⟩, ha, rfl⟩ := List.mem_map.mp he
    obtain ⟨⟨_, b⟩, hb, rfl⟩ := List.mem_map.mp (hkeys.mem_iff.mp (List.mem_map_of_mem ha))
    rw [h _ a b ha hb]
    exact List.mem_map_of_mem hb
  · intro he
    obtain ⟨⟨key, b⟩, hb, rfl⟩ := List.mem_map.mp he
    obtain ⟨⟨_, a⟩, ha, rfl⟩ := List.mem_map.mp (hkeys.mem_iff.mpr (List.mem_map_of_mem hb))
    rw [← h _ a b ha hb]
    exact List.mem_map_of_mem ha

theorem eq_of_mem_members {members : List (String × Json)} {key : String} {a b : Json}
    (hn : (members.map Prod.fst).Nodup) (ha : (key, a) ∈ members) (hb : (key, b) ∈ members) :
    a = b :=
  (Prod.mk.inj (List.inj_on_of_nodup_map hn ha hb rfl)).2

/-- **What a canonical form says**: values with one canonical form are those that differ in the
order of members only, and not in the order of keys that the comparison does not tell apart. -/
theorem canonicalize_eq_iff (hlocale : KeyPreorder localeCompare) {v w : Json} (hv : Valid v)
    (hw : Valid w) : v.canonicalize localeCompare = w.canonicalize localeCompare ↔
      Alike (TiesKept localeCompare) v w := by
  induction v using Json.induction generalizing w with
  | null =>
    constructor
    · intro h
      cases w with
      | null => exact .null
      | _ => cases h
    · rintro ⟨⟩
      rfl
  | bool value =>
    constructor
    · intro h
      cases w with
      | bool value' =>
        obtain rfl := Json.bool.inj h
        exact .bool value
      | _ => cases h
    · rintro ⟨⟩
      rfl
  | num text =>
    constructor
    · intro h
      cases w with
      | num text' =>
        obtain rfl := Json.num.inj h
        exact .num text
      | _ => cases h
    · rintro ⟨⟩
      rfl
  | str value =>
    constructor
    · intro h
      cases w with
      | str value' =>
        obtain rfl := Json.str.inj h
        exact .str value
      | _ => cases h
    · rintro ⟨⟩
      rfl
  | arr items ih =>
    cases hv with
    | arr hitems =>
      constructor
      · intro h
        cases w with
        | arr items' =>
          cases hw with
          | arr hitems' =>
            rw [canonicalize, canonicalize, canonicalizeItems_eq_map, canonicalizeItems_eq_map,
              Json.arr.injEq] at h
            refine .arr ?_ fun i a b ha hb => ?_
            · have hlength := congrArg List.length h
              rwa [List.length_map, List.length_map] at hlength
            · have hi := congrArg (·[i]?) h
              rw [List.getElem?_map, List.getElem?_map, ha, hb] at hi
              exact (ih a (List.mem_of_getElem? ha) (hitems a (List.mem_of_getElem? ha))
                (hitems' b (List.mem_of_getElem? hb))).mp (Option.some.inj hi)
        | _ => cases h
      · intro h
        cases h with
        | @arr _ items' hlength hall =>
          cases hw with
          | arr hitems' =>
            rw [canonicalize, canonicalize, canonicalizeItems_eq_map, canonicalizeItems_eq_map,
              Json.arr.injEq]
            refine List.ext_getElem (by rwa [List.length_map, List.length_map]) fun i hi hi' => ?_
            rw [List.length_map] at hi hi'
            rw [List.getElem_map, List.getElem_map]
            have ha : items[i] ∈ items := List.getElem_mem hi
            have hb : items'[i] ∈ items' := List.getElem_mem hi'
            exact (ih _ ha (hitems _ ha) (hitems' _ hb)).mpr
              (hall i _ _ (List.getElem?_eq_getElem hi) (List.getElem?_eq_getElem hi'))
  | obj members ih =>
    cases hv with
    | obj hkeys hmembers =>
      constructor
      · intro h
        cases w with
        | obj members' =>
          cases hw with
          | obj hkeys' hmembers' =>
            have hperm := canonicalEntries_perm h
            have hn : ((canonicalEntries localeCompare members).map Prod.fst).Nodup := by
              rwa [map_fst_canonicalEntries]
            rw [canonicalize_obj, canonicalize_obj, fromEntries_sort_eq_iff hlocale hperm hn,
              map_fst_canonicalEntries, map_fst_canonicalEntries] at h
            have hperm' := hperm.map Prod.fst
            rw [map_fst_canonicalEntries, map_fst_canonicalEntries] at hperm'
            refine .obj hperm' h fun key a b ha hb => ?_
            have ha' : (key, a.canonicalize localeCompare) ∈ canonicalEntries localeCompare members' :=
              hperm.mem_iff.mp (List.mem_map_of_mem ha)
            have hb' : (key, b.canonicalize localeCompare) ∈ canonicalEntries localeCompare members' :=
              List.mem_map_of_mem hb
            exact (ih _ ha (hmembers _ ha) (hmembers' _ hb)).mp
              (eq_of_mem_members (by rwa [map_fst_canonicalEntries]) ha' hb')
        | _ => cases h
      · intro h
        cases h with
        | @obj _ members' hperm horder hall =>
          cases hw with
          | obj _ hmembers' =>
            have hentries : (canonicalEntries localeCompare members).Perm
                (canonicalEntries localeCompare members') :=
              map_members_perm hperm hkeys fun key a b ha hb =>
                (ih _ ha (hmembers _ ha) (hmembers' _ hb)).mpr (hall key a b ha hb)
            have hn : ((canonicalEntries localeCompare members).map Prod.fst).Nodup := by
              rwa [map_fst_canonicalEntries]
            rw [canonicalize_obj, canonicalize_obj, fromEntries_sort_eq_iff hlocale hentries hn,
              map_fst_canonicalEntries, map_fst_canonicalEntries]
            exact horder

theorem EqualUpToOrder.refl {v : Json} (hv : Valid v) : v.EqualUpToOrder v := by
  induction hv with
  | null => exact .null
  | bool value => exact .bool value
  | num => exact .num _
  | str value => exact .str value
  | arr _ ih =>
    refine .arr rfl fun i a b ha hb => ?_
    obtain rfl := Option.some.inj (ha.symm.trans hb)
    exact ih a (List.mem_of_getElem? ha)
  | obj hkeys _ ih =>
    refine .obj (List.Perm.refl _) trivial fun key a b ha hb => ?_
    obtain rfl := eq_of_mem_members hkeys ha hb
    exact ih _ ha

/-- Members in another order. -/
theorem EqualUpToOrder.of_perm {members members' : List (String × Json)} (hv : Valid (obj members))
    (hperm : members.Perm members') : (obj members).EqualUpToOrder (obj members') := by
  cases hv with
  | obj hkeys hmembers =>
    refine .obj (hperm.map _) trivial fun key a b ha hb => ?_
    obtain rfl := eq_of_mem_members hkeys ha (hperm.mem_iff.mpr hb)
    exact EqualUpToOrder.refl (hmembers _ ha)

/-- The last member in another form. -/
theorem EqualUpToOrder.of_last {members : List (String × Json)} {last : String} {a b : Json}
    (hv : Valid (obj (members ++ [(last, a)]))) (h : a.EqualUpToOrder b) :
    (obj (members ++ [(last, a)])).EqualUpToOrder (obj (members ++ [(last, b)])) := by
  cases hv with
  | obj hkeys hmembers =>
    rw [List.map_append] at hkeys
    obtain ⟨hfront, -, hdisjoint⟩ := List.nodup_append.mp hkeys
    have hnot (x : Json) : (last, x) ∉ members := fun hmem =>
      hdisjoint last (List.mem_map_of_mem hmem) last List.mem_cons_self rfl
    have hlast {key : String} {x y : Json} (hmem : (key, x) ∈ [(last, y)]) : key = last ∧ x = y :=
      Prod.mk.inj (List.mem_singleton.mp hmem)
    refine .obj (by rw [List.map_append, List.map_append]; rfl) trivial fun key x y hx hy => ?_
    rcases List.mem_append.mp hx with hx' | hx' <;> rcases List.mem_append.mp hy with hy' | hy'
    · obtain rfl := eq_of_mem_members hfront hx' hy'
      exact EqualUpToOrder.refl (hmembers _ (List.mem_append_left _ hx'))
    · obtain ⟨rfl, rfl⟩ := hlast hy'
      exact absurd hx' (hnot x)
    · obtain ⟨rfl, rfl⟩ := hlast hx'
      exact absurd hy' (hnot y)
    · obtain ⟨rfl, rfl⟩ := hlast hx'
      obtain ⟨-, rfl⟩ := hlast hy'
      exact h

end Canonical

/-! ## Sizes -/

/-- The bytes of a text, in UTF-8. -/
def textBytes (cs : List Char) : ℕ := (cs.map Char.utf8Size).sum

theorem textBytes_append (cs ds : List Char) : textBytes (cs ++ ds) = textBytes cs + textBytes ds := by
  rw [textBytes, List.map_append, List.sum_append]
  rfl

theorem textBytes_toList (s : String) : textBytes s.toList = s.utf8ByteSize := by
  obtain ⟨cs, rfl⟩ : ∃ cs, s = String.ofList cs := ⟨s.toList, String.ofList_toList.symm⟩
  rw [String.toList_ofList]
  induction cs with
  | nil => rfl
  | cons c cs ih =>
    have hsingle : (String.ofList [c]).utf8ByteSize = c.utf8Size := String.utf8ByteSize_singleton
    rw [← List.singleton_append, textBytes_append, String.ofList_append, String.utf8ByteSize_append,
      ih, hsingle]
    rfl

/-- The bytes of a list of texts, by those of the texts. -/
theorem textBytes_separated {α : Type} {word : α → List Char} {as bs : List α} (first last : Char)
    (h : (as.map fun a => textBytes (word a)).Perm (bs.map fun b => textBytes (word b))) :
    textBytes (first :: (separated ',' word as ++ [last])) =
      textBytes (first :: (separated ',' word bs ++ [last])) := by
  have hsum : textBytes (separated ',' word as) = textBytes (separated ',' word bs) :=
    sum_separated Char.utf8Size h
  rw [← List.singleton_append, textBytes_append, textBytes_append, hsum, ← textBytes_append,
    ← textBytes_append, List.singleton_append]

/-- **The size of a text does not depend on the order of members.** -/
theorem Alike.utf8ByteSize_stringify {related : List String → List String → Prop} {v w : Json}
    (h : Alike related v w) (hv : Valid v) :
    v.stringify.utf8ByteSize = w.stringify.utf8ByteSize := by
  rw [← textBytes_toList, ← textBytes_toList]
  induction h with
  | null | bool | num | str => rfl
  | @arr items items' hlength _ ih =>
    cases hv with
    | arr hitems =>
      have hsizes : items.map (fun item => textBytes item.stringify.toList) =
          items'.map fun item => textBytes item.stringify.toList := by
        refine List.ext_getElem (by rwa [List.length_map, List.length_map]) fun i hi hi' => ?_
        rw [List.length_map] at hi hi'
        rw [List.getElem_map, List.getElem_map]
        exact ih i _ _ (List.getElem?_eq_getElem hi) (List.getElem?_eq_getElem hi')
          (hitems _ (List.getElem_mem hi))
      rw [toList_stringify_arr, toList_stringify_arr]
      exact textBytes_separated '[' ']' (List.Perm.of_eq hsizes)
  | @obj members members' hkeys _ _ ih =>
    cases hv with
    | obj hnodup hmembers =>
      have hsizes : (members.map fun m => (m.1, textBytes m.2.stringify.toList)).Perm
          (members'.map fun m => (m.1, textBytes m.2.stringify.toList)) :=
        map_members_perm hkeys hnodup fun key a b ha hb => ih key a b ha hb (hmembers _ ha)
      have hmember (m : String × Json) : textBytes (memberText m) =
          textBytes (quote m.1).toList + (textBytes [':'] + textBytes m.2.stringify.toList) := by
        rw [memberText, textBytes_append, ← List.singleton_append, textBytes_append]
      have htexts := hsizes.map fun size : String × ℕ =>
        textBytes (quote size.1).toList + (textBytes [':'] + size.2)
      rw [List.map_map, List.map_map] at htexts
      rw [toList_stringify_obj, toList_stringify_obj]
      refine textBytes_separated '\x7b' '\x7d' ?_
      simp only [hmember]
      exact htexts

end Json

end HayaSend
