import Mathlib.Data.List.Basic

/-!
# Leftmost matches in a text

A text and a set of words to find in it, each standing for something. `Leftmost` cuts the text at
the leftmost word, then the rest of the text likewise: the segments that a global search and
replacement sees. `scan` is such a search: it looks for a word at one position after the other, and
after a word goes on behind it. It finds the segments (`scan_of_leftmost`), and every text has some
(`exists_leftmost`).
-/

namespace HayaSend

variable {α β : Type}

/-- A piece of a text: what is left of it as it is, or a word that stands for something. -/
inductive Segment (α β : Type)
  | literal (text : List α)
  | hit (word : List α) (meaning : β)

/-- A word begins the text. -/
def Begins (matches_ : List α → β → Prop) (text : List α) : Prop :=
  ∃ word b rest, text = word ++ rest ∧ matches_ word b

/-- The segments of a text at its leftmost, non-overlapping words. -/
inductive Leftmost (matches_ : List α → β → Prop) : List α → List (Segment α β) → Prop
  | last {text : List α}
      (hnone : ∀ before after, text = before ++ after → ¬ Begins matches_ after) :
      Leftmost matches_ text [.literal text]
  | hit {text word rest : List α} {b : β} {segments : List (Segment α β)}
      (hnone : ∀ before after, text = before ++ after → after ≠ [] →
        ¬ Begins matches_ (after ++ (word ++ rest)))
      (hword : matches_ word b) (hrest : Leftmost matches_ rest segments) :
      Leftmost matches_ (text ++ (word ++ rest)) (.literal text :: .hit word b :: segments)

/-- A segment as the pieces that a search passes. -/
def Segment.pieces : Segment α β → List (α ⊕ β)
  | literal text => text.map .inl
  | hit _ b => [.inr b]

/-- Search a text; `skip` elements of a word are still to be passed. -/
def scan (find : List α → Option (β × ℕ)) : ℕ → List α → List (α ⊕ β)
  | _, [] => []
  | skip + 1, _ :: text => scan find skip text
  | 0, a :: text =>
    match find (a :: text) with
    | some (b, length) => .inr b :: scan find (length - 1) text
    | none => .inl a :: scan find 0 text

/-- What is still to be passed of a word is passed. -/
theorem scan_drop (find : List α → Option (β × ℕ)) (skip : ℕ) (text : List α) :
    scan find skip text = scan find 0 (text.drop skip) := by
  induction text generalizing skip with
  | nil =>
    rw [List.drop_nil]
    cases skip <;> rfl
  | cons a text ih =>
    cases skip with
    | zero => rfl
    | succ skip => exact ih skip

/-- `find` finds the word at the beginning of a text. Words are not empty, and no two begin one
text. -/
structure Finds (find : List α → Option (β × ℕ)) (matches_ : List α → β → Prop) : Prop where
  some_iff : ∀ {text b n}, find text = some (b, n) ↔
    ∃ word rest, text = word ++ rest ∧ word.length = n ∧ matches_ word b
  ne_nil : ∀ {word b}, matches_ word b → word ≠ []

namespace Finds

variable {find : List α → Option (β × ℕ)} {matches_ : List α → β → Prop} {text : List α}

theorem none_iff (h : Finds find matches_) : find text = none ↔ ¬ Begins matches_ text := by
  constructor
  · rintro hnone ⟨word, b, rest, htext, hword⟩
    have hsome := h.some_iff.mpr ⟨word, rest, htext, rfl, hword⟩
    rw [hnone] at hsome
    cases hsome
  · intro hbegins
    rw [Option.eq_none_iff_forall_ne_some]
    rintro ⟨b, n⟩ hsome
    obtain ⟨word, rest, htext, -, hword⟩ := h.some_iff.mp hsome
    exact hbegins ⟨word, b, rest, htext, hword⟩

/-- A word is found. -/
theorem scan_word (h : Finds find matches_) {word rest : List α} {b : β} (hword : matches_ word b) :
    scan find 0 (word ++ rest) = .inr b :: scan find 0 rest := by
  have hfind := h.some_iff.mpr ⟨word, rest, rfl, rfl, hword⟩
  cases word with
  | nil => exact absurd rfl (h.ne_nil hword)
  | cons a word =>
    rw [List.cons_append] at hfind ⊢
    rw [scan, hfind]
    dsimp only
    rw [List.length_cons, Nat.add_sub_cancel, scan_drop, List.drop_left]

/-- Up to the leftmost word the text is passed as it is. -/
theorem scan_literal (h : Finds find matches_) {rest : List α}
    (hnone : ∀ before after, text = before ++ after → after ≠ [] → ¬ Begins matches_ (after ++ rest)) :
    scan find 0 (text ++ rest) = text.map .inl ++ scan find 0 rest := by
  induction text with
  | nil => rfl
  | cons a text ih =>
    have hfind : find (a :: text ++ rest) = none :=
      h.none_iff.mpr (hnone [] (a :: text) rfl (List.cons_ne_nil _ _))
    have htail : ∀ before after, text = before ++ after → after ≠ [] →
        ¬ Begins matches_ (after ++ rest) := fun before after heq hne =>
      hnone (a :: before) after (by rw [heq, List.cons_append]) hne
    rw [List.cons_append] at hfind ⊢
    rw [scan, hfind, List.map_cons, List.cons_append, ih htail]

/-- **A search finds the leftmost words.** -/
theorem scan_of_leftmost (h : Finds find matches_) {segments : List (Segment α β)}
    (hl : Leftmost matches_ text segments) : scan find 0 text = segments.flatMap Segment.pieces := by
  induction hl with
  | @last text hnone =>
    have hscan : scan find 0 (text ++ []) = text.map .inl ++ scan find 0 [] :=
      h.scan_literal fun before after heq _ => by
        rw [List.append_nil]
        exact hnone before after heq
    rw [List.append_nil] at hscan
    rw [hscan]
    simp [Segment.pieces, scan]
  | hit hnone hword _ ih =>
    rw [h.scan_literal hnone, h.scan_word hword, ih]
    rfl

/-- A text in which no word begins, before one that has been cut. -/
theorem exists_leftmost_cons {a : α} {segments : List (Segment α β)}
    (hnot : ¬ Begins matches_ (a :: text)) (hl : Leftmost matches_ text segments) :
    ∃ segments', Leftmost matches_ (a :: text) segments' := by
  cases hl with
  | last hnone =>
    refine ⟨_, .last fun before after heq => ?_⟩
    cases before with
    | nil => exact (show a :: text = after from heq) ▸ hnot
    | cons b before => exact hnone before after (List.cons.inj heq).2
  | @hit lit word rest b segments hnone hword hrest =>
    have hcut : Leftmost matches_ ((a :: lit) ++ (word ++ rest))
        (.literal (a :: lit) :: .hit word b :: segments) := by
      refine .hit (fun before after heq hne => ?_) hword hrest
      cases before with
      | nil => exact (show a :: lit = after from heq) ▸ hnot
      | cons b before => exact hnone before after (List.cons.inj heq).2 hne
    exact ⟨_, hcut⟩

/-- Every text has its leftmost words. -/
theorem exists_leftmost (h : Finds find matches_) (text : List α) :
    ∃ segments, Leftmost matches_ text segments := by
  induction hn : text.length using Nat.strongRecOn generalizing text with
  | ind n ih =>
    cases text with
    | nil =>
      refine ⟨_, .last ?_⟩
      rintro before after heq ⟨word, b, rest, hafter, hword⟩
      have hnil : after = [] := (List.append_eq_nil_iff.mp heq.symm).2
      exact h.ne_nil hword (List.append_eq_nil_iff.mp (hafter.symm.trans hnil)).1
    | cons a text =>
      rw [List.length_cons] at hn
      by_cases hbegins : Begins matches_ (a :: text)
      · obtain ⟨word, b, rest, htext, hword⟩ := hbegins
        have hlength := congrArg List.length htext
        have hpos := List.length_pos_of_ne_nil (h.ne_nil hword)
        rw [List.length_append, List.length_cons] at hlength
        obtain ⟨segments, hl⟩ := ih rest.length (by omega) rest rfl
        have hcut : Leftmost matches_ ([] ++ (word ++ rest))
            (.literal [] :: .hit word b :: segments) :=
          .hit (fun before after heq hne => absurd (List.append_eq_nil_iff.mp heq.symm).2 hne)
            hword hl
        rw [htext]
        exact ⟨_, hcut⟩
      · obtain ⟨segments, hl⟩ := ih text.length (by omega) text rfl
        exact exists_leftmost_cons hbegins hl

end Finds

end HayaSend
