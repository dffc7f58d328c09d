import Mathlib.Data.List.Basic

/-!
# Address lists

An address list as RFC 5322 reads it: commas separate the addresses where they stand outside quotes
and angle brackets, and a mailbox is a bare address or a display name with an address in angle
brackets. Of the forms of an address this has atoms with dots between them on both sides of the at
sign; local parts in quotes and domain literals are left out.

* `splitAddresses` separates a list, `hasSeparator` tells whether there is anything to separate
  (`splitAddresses_eq_singleton`).
* `DisplayName` is the grammar of a display name: white space, atoms and dots, quoted strings,
  comments. `isDisplayName` reads one from the left (`isDisplayName_iff`).
-/

namespace HayaSend

namespace AddressLists

/-! ## Separation -/

/-- Where in a list a reader stands. -/
inductive Region
  | plain
  | quoted
  /-- Behind a backslash in quotes. -/
  | escaped
  | angle
  deriving DecidableEq, Repr

def Region.after : Region → Char → Region
  | plain, c => if c = '"' then quoted else if c = '<' then angle else plain
  | quoted, c => if c = '\\' then escaped else if c = '"' then plain else quoted
  | escaped, _ => quoted
  | angle, c => if c = '>' then plain else angle

/-- The addresses of a list. -/
def splitAddresses : Region → List Char → List (List Char)
  | _, [] => [[]]
  | region, c :: cs =>
    if region = .plain ∧ c = ',' then [] :: splitAddresses .plain cs
    else (splitAddresses (region.after c) cs).modifyHead (c :: ·)

/-- A comma separates. -/
def hasSeparator : Region → List Char → Bool
  | _, [] => false
  | region, c :: cs => (region == .plain && c == ',') || hasSeparator (region.after c) cs

theorem splitAddresses_ne_nil (region : Region) (cs : List Char) :
    splitAddresses region cs ≠ [] := by
  cases cs with
  | nil => exact List.cons_ne_nil _ _
  | cons c cs =>
    rw [splitAddresses]
    split_ifs
    · exact List.cons_ne_nil _ _
    · rw [Ne, List.modifyHead_eq_nil_iff]
      exact splitAddresses_ne_nil _ cs

/-- A list without a separator is one address. -/
theorem splitAddresses_eq_singleton {region : Region} {cs item : List Char} :
    splitAddresses region cs = [item] ↔ item = cs ∧ hasSeparator region cs = false := by
  induction cs generalizing region item with
  | nil => simp [splitAddresses, hasSeparator, eq_comm]
  | cons c cs ih =>
    rw [splitAddresses, hasSeparator]
    split_ifs with hseparates
    · simp [hseparates, splitAddresses_ne_nil]
    · have hfirst : (region == .plain && c == ',') = false := by
        simpa using hseparates
      rw [hfirst, Bool.false_or]
      constructor
      · intro h
        obtain ⟨first, rest, hsplit⟩ := List.exists_cons_of_ne_nil
          (splitAddresses_ne_nil (region.after c) cs)
        rw [hsplit, List.modifyHead_cons, List.cons.injEq] at h
        obtain ⟨rfl, rfl⟩ := h
        obtain ⟨rfl, hnone⟩ := ih.mp hsplit
        exact ⟨rfl, hnone⟩
      · rintro ⟨rfl, hnone⟩
        rw [ih.mpr ⟨rfl, hnone⟩, List.modifyHead_cons]

/-- A text without commas has no separator. -/
theorem hasSeparator_eq_false {region : Region} {cs : List Char} (h : ',' ∉ cs) :
    hasSeparator region cs = false := by
  induction cs generalizing region with
  | nil => rfl
  | cons c cs ih =>
    rw [List.mem_cons, not_or] at h
    rw [hasSeparator, ih h.2, Bool.or_false, beq_false_of_ne (Ne.symm h.1), Bool.and_false]

/-! ## Mailboxes -/

section Mailboxes

variable (isSpace : Char → Bool)

/-- The characters with a meaning of their own. -/
def specials : List Char := "()<>[]:;@\\,.\"".toList

/-- `atext`, with the characters beyond ASCII. -/
def isAtomChar (c : Char) : Bool :=
  decide (33 ≤ c.toNat) && decide (c.toNat ≠ 127) && !isSpace c && !specials.contains c

/-- Atoms with dots between them. -/
def DotAtom (cs : List Char) : Prop :=
  ∀ atom ∈ cs.splitOn '.', atom ≠ [] ∧ ∀ c ∈ atom, isAtomChar isSpace c = true

/-- `addr-spec` -/
def AddrSpec (cs : List Char) : Prop :=
  ∃ localPart domain, cs.splitOn '@' = [localPart, domain] ∧ DotAtom isSpace localPart ∧
    DotAtom isSpace domain

/-- What stands between quotes. -/
inductive QuotedText : List Char → Prop
  | nil : QuotedText []
  | char {c : Char} {cs : List Char} (hquote : c ≠ '"') (hbackslash : c ≠ '\\')
      (h : QuotedText cs) : QuotedText (c :: cs)
  | pair {c : Char} {cs : List Char} (h : QuotedText cs) : QuotedText ('\\' :: c :: cs)

/-- What stands between parentheses. -/
inductive CommentText : List Char → Prop
  | nil : CommentText []
  | char {c : Char} {cs : List Char} (hopen : c ≠ '(') (hclose : c ≠ ')') (hbackslash : c ≠ '\\')
      (h : CommentText cs) : CommentText (c :: cs)
  | pair {c : Char} {cs : List Char} (h : CommentText cs) : CommentText ('\\' :: c :: cs)
  | nested {inner cs : List Char} (hinner : CommentText inner) (h : CommentText cs) :
      CommentText ('(' :: inner ++ ')' :: cs)

/-- `display-name`; it may be empty. -/
inductive DisplayName : List Char → Prop
  | nil : DisplayName []
  | char {c : Char} {cs : List Char} (hquote : c ≠ '"') (hopen : c ≠ '(')
      (hc : isSpace c = true ∨ c = '.' ∨ isAtomChar isSpace c = true) (h : DisplayName cs) :
      DisplayName (c :: cs)
  | quoted {text cs : List Char} (htext : QuotedText text) (h : DisplayName cs) :
      DisplayName ('"' :: text ++ '"' :: cs)
  | comment {text cs : List Char} (htext : CommentText text) (h : DisplayName cs) :
      DisplayName ('(' :: text ++ ')' :: cs)

/-- A text without the white space around it. -/
def strip (cs : List Char) : List Char :=
  ((cs.dropWhile isSpace).reverse.dropWhile isSpace).reverse

/-- `mailbox`: the address of a bare address or of a display name and an address in angle
brackets. -/
def Mailbox (item address : List Char) : Prop :=
  AddrSpec isSpace address ∧ (strip isSpace item = address ∨
    ∃ name, DisplayName isSpace name ∧ strip isSpace item = name ++ '<' :: (address ++ ['>']))

/-- The list is one mailbox with this address. -/
def Denotes (list address : List Char) : Prop :=
  ∃ item, splitAddresses .plain list = [item] ∧ Mailbox isSpace item address

/-! ## Reading a display name -/

/-- Where in a display name a reader stands; a comment has so many open parentheses around it. -/
inductive NamePlace
  | plain
  | quoted
  | quotedPair
  | comment (around : ℕ)
  | commentPair (around : ℕ)
  deriving DecidableEq, Repr

def NamePlace.next : NamePlace → Char → Option NamePlace
  | plain, c =>
    if c = '"' then some quoted else if c = '(' then some (comment 0)
    else if isSpace c || c == '.' || isAtomChar isSpace c then some plain else none
  | quoted, c => some (if c = '\\' then quotedPair else if c = '"' then plain else quoted)
  | quotedPair, _ => some quoted
  | comment n, c =>
    some (if c = '\\' then commentPair n
      else if c = '(' then comment (n + 1)
      else if c = ')' then (match n with | 0 => plain | n + 1 => comment n)
      else comment n)
  | commentPair n, _ => some (comment n)

/-- The text ends what is open at a place, and the display name. -/
def endsName : NamePlace → List Char → Bool
  | place, [] => place == .plain
  | place, c :: cs => (place.next isSpace c).any (endsName · cs)

def isDisplayName (cs : List Char) : Bool := endsName isSpace .plain cs

variable {isSpace}

/-- What is left of a comment and of those around it, and then of the display name. -/
def ClosesComment (isSpace : Char → Bool) : ℕ → List Char → Prop
  | 0, cs => ∃ text rest, cs = text ++ ')' :: rest ∧ CommentText text ∧ DisplayName isSpace rest
  | n + 1, cs =>
    ∃ text rest, cs = text ++ ')' :: rest ∧ CommentText text ∧ ClosesComment isSpace n rest

/-- What is left of quotes, and then of the display name. -/
def ClosesQuotes (isSpace : Char → Bool) (cs : List Char) : Prop :=
  ∃ text rest, cs = text ++ '"' :: rest ∧ QuotedText text ∧ DisplayName isSpace rest

/-- What a reader at a place has still to find. -/
def NamePlace.Ends (isSpace : Char → Bool) : NamePlace → List Char → Prop
  | plain, cs => DisplayName isSpace cs
  | quoted, cs => ClosesQuotes isSpace cs
  | quotedPair, cs => ∃ c rest, cs = c :: rest ∧ ClosesQuotes isSpace rest
  | comment n, cs => ClosesComment isSpace n cs
  | commentPair n, cs => ∃ c rest, cs = c :: rest ∧ ClosesComment isSpace n rest

/-- More text in the comment that is open. -/
theorem ClosesComment.extend {n : ℕ} {before cs : List Char} (h : ClosesComment isSpace n cs)
    (hbefore : ∀ text, CommentText text → CommentText (before ++ text)) :
    ClosesComment isSpace n (before ++ cs) := by
  cases n with
  | zero =>
    obtain ⟨text, rest, rfl, htext, hrest⟩ := h
    exact ⟨before ++ text, rest, (List.append_assoc ..).symm, hbefore text htext, hrest⟩
  | succ n =>
    obtain ⟨text, rest, rfl, htext, hrest⟩ := h
    exact ⟨before ++ text, rest, (List.append_assoc ..).symm, hbefore text htext, hrest⟩

/-- What a reader accepts has the grammar that is still to be found. -/
theorem ends_of_endsName {place : NamePlace} {cs : List Char}
    (h : endsName isSpace place cs = true) : place.Ends isSpace cs := by
  induction cs generalizing place with
  | nil =>
    obtain rfl : place = .plain := by simpa [endsName] using h
    exact .nil
  | cons c cs ih =>
    rw [endsName, Option.any_eq_true] at h
    obtain ⟨next, hnext, h⟩ := h
    have hends := ih h
    cases place with
    | plain =>
      simp only [NamePlace.next] at hnext
      split_ifs at hnext with hquote hopen hchar
      · obtain rfl := Option.some.inj hnext
        obtain ⟨text, rest, rfl, htext, hrest⟩ := hends
        subst hquote
        exact .quoted htext hrest
      · obtain rfl := Option.some.inj hnext
        obtain ⟨text, rest, rfl, htext, hrest⟩ := hends
        subst hopen
        exact .comment htext hrest
      · obtain rfl := Option.some.inj hnext
        refine .char hquote hopen ?_ hends
        simpa [or_assoc] using hchar
    | quoted =>
      simp only [NamePlace.next, Option.some.injEq] at hnext
      split_ifs at hnext with hbackslash hquote
      · subst hnext hbackslash
        obtain ⟨d, rest, rfl, text, rest', rfl, htext, hrest⟩ := hends
        exact ⟨'\\' :: d :: text, rest', rfl, .pair htext, hrest⟩
      · subst hnext hquote
        exact ⟨[], cs, rfl, .nil, hends⟩
      · subst hnext
        obtain ⟨text, rest, rfl, htext, hrest⟩ := hends
        exact ⟨c :: text, rest, rfl, .char hquote hbackslash htext, hrest⟩
    | quotedPair =>
      simp only [NamePlace.next, Option.some.injEq] at hnext
      subst hnext
      exact ⟨c, cs, rfl, hends⟩
    | comment n =>
      simp only [NamePlace.next, Option.some.injEq] at hnext
      split_ifs at hnext with hbackslash hopen hclose
      · subst hnext hbackslash
        obtain ⟨d, rest, rfl, hrest⟩ := hends
        have hpair : ∀ text, CommentText text → CommentText (['\\', d] ++ text) :=
          fun _ htext => .pair htext
        exact hrest.extend hpair
      · -- the comment that opens here is closed, and what follows is in the one around it
        subst hnext hopen
        obtain ⟨inner, rest, rfl, hinner, hrest⟩ := hends
        have hnested : ∀ text, CommentText text →
            CommentText ('(' :: inner ++ [')'] ++ text) := fun text htext => by
          rw [List.append_assoc]
          exact .nested hinner htext
        have hextended := hrest.extend hnested
        rwa [List.append_assoc] at hextended
      · subst hclose
        cases n with
        | zero =>
          subst hnext
          exact ⟨[], cs, rfl, .nil, hends⟩
        | succ n =>
          subst hnext
          exact ⟨[], cs, rfl, .nil, hends⟩
      · subst hnext
        have hchar : ∀ text, CommentText text → CommentText ([c] ++ text) :=
          fun _ htext => .char hopen hclose hbackslash htext
        exact hends.extend hchar
    | commentPair n =>
      simp only [NamePlace.next, Option.some.injEq] at hnext
      subst hnext
      exact ⟨c, cs, rfl, hends⟩

theorem endsName_cons {place next : NamePlace} {c : Char} (h : place.next isSpace c = some next)
    (cs : List Char) : endsName isSpace place (c :: cs) = endsName isSpace next cs := by
  rw [endsName, h, Option.any_some]

theorem endsName_quoted {text : List Char} (h : QuotedText text) (rest : List Char) :
    endsName isSpace .quoted (text ++ '"' :: rest) = endsName isSpace .plain rest := by
  induction h with
  | nil => exact endsName_cons rfl rest
  | char hquote hbackslash _ ih =>
    rw [List.cons_append, endsName_cons (by simp [NamePlace.next, hquote, hbackslash]; rfl), ih]
  | pair _ ih =>
    rw [List.cons_append, endsName_cons rfl, List.cons_append, endsName_cons rfl, ih]

theorem endsName_comment {text : List Char} (h : CommentText text) (n : ℕ) (rest : List Char) :
    endsName isSpace (.comment n) (text ++ rest) = endsName isSpace (.comment n) rest := by
  induction h generalizing n rest with
  | nil => rfl
  | char hopen hclose hbackslash _ ih =>
    rw [List.cons_append, endsName_cons (by simp [NamePlace.next, hopen, hclose, hbackslash]; rfl),
      ih]
  | pair _ ih =>
    rw [List.cons_append, endsName_cons rfl, List.cons_append, endsName_cons rfl, ih]
  | nested _ _ ihInner ih =>
    have hopen : (NamePlace.comment n).next isSpace '(' = some (.comment (n + 1)) := rfl
    have hclose : (NamePlace.comment (n + 1)).next isSpace ')' = some (.comment n) := rfl
    rw [List.cons_append, List.cons_append, endsName_cons hopen, List.append_assoc, ihInner,
      List.cons_append, endsName_cons hclose, ih]

/-- **A display name is what the reader accepts.** -/
theorem isDisplayName_iff {cs : List Char} : isDisplayName isSpace cs = true ↔
    DisplayName isSpace cs := by
  refine ⟨ends_of_endsName, fun h => ?_⟩
  unfold isDisplayName
  induction h with
  | nil => rfl
  | @char c cs hquote hopen hc _ ih =>
    have hchar : (isSpace c || c == '.' || isAtomChar isSpace c) = true := by
      simpa [or_assoc] using hc
    have hnext : NamePlace.plain.next isSpace c = some .plain := by
      rw [NamePlace.next, if_neg hquote, if_neg hopen, if_pos hchar]
    rw [endsName_cons hnext, ih]
  | quoted htext _ ih =>
    rw [List.cons_append, endsName_cons rfl, endsName_quoted htext, ih]
  | comment htext _ ih =>
    have hclose : (NamePlace.comment 0).next isSpace ')' = some .plain := rfl
    rw [List.cons_append, endsName_cons rfl, endsName_comment htext, endsName_cons hclose, ih]

/-! ## Characters -/

/-- A character is the separator or stands in a part. -/
theorem mem_splitOn (sep : Char) {c : Char} {cs : List Char} (h : c ∈ cs) :
    c = sep ∨ ∃ part ∈ cs.splitOn sep, c ∈ part := by
  induction cs with
  | nil => cases h
  | cons d cs ih =>
    rw [List.splitOn_eq_splitOnP] at ih ⊢
    rw [List.splitOnP_cons_eq_if_modifyHead]
    obtain ⟨first, rest, hsplit⟩ := List.exists_cons_of_ne_nil (List.splitOnP_ne_nil (· == sep) cs)
    rw [hsplit] at ih ⊢
    split_ifs with hsep
    · rcases List.mem_cons.mp h with rfl | h
      · exact Or.inl (eq_of_beq hsep)
      · exact (ih h).imp_right fun ⟨part, hpart, hc⟩ => ⟨part, List.mem_cons_of_mem _ hpart, hc⟩
    · rw [List.modifyHead_cons]
      rcases List.mem_cons.mp h with rfl | h
      · exact Or.inr ⟨_, List.mem_cons_self, List.mem_cons_self⟩
      · refine (ih h).imp_right fun ⟨part, hpart, hc⟩ => ?_
        rcases List.mem_cons.mp hpart with rfl | hpart
        · exact ⟨_, List.mem_cons_self, List.mem_cons_of_mem _ hc⟩
        · exact ⟨part, List.mem_cons_of_mem _ hpart, hc⟩

/-- The characters of an address. -/
theorem AddrSpec.mem {cs : List Char} (h : AddrSpec isSpace cs) {c : Char}
    (hc : c ∈ cs) : c = '@' ∨ c = '.' ∨ isAtomChar isSpace c = true := by
  obtain ⟨localPart, domain, hsplit, hlocal, hdomain⟩ := h
  rcases mem_splitOn '@' hc with hat | ⟨part, hpart, hc⟩
  · exact Or.inl hat
  · refine Or.inr ?_
    rw [hsplit, List.mem_cons, List.mem_singleton] at hpart
    rcases hpart with rfl | rfl
    · rcases mem_splitOn '.' hc with hdot | ⟨atom, hatom, hc⟩
      · exact Or.inl hdot
      · exact Or.inr ((hlocal atom hatom).2 c hc)
    · rcases mem_splitOn '.' hc with hdot | ⟨atom, hatom, hc⟩
      · exact Or.inl hdot
      · exact Or.inr ((hdomain atom hatom).2 c hc)

end Mailboxes

end AddressLists

end HayaSend
