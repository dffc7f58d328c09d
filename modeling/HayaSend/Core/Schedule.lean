import HayaSend.Core.Types

/-!
# Schedules

When a scheduled email is due, and how long a queue message for it may be delayed. A delay is a
whole number of seconds, at most one hop of 900 of them; a message delayed by one hop finds the
email not yet due and is delayed again.
-/

namespace HayaSend

/-- The unit of a relative schedule such as `in 10 minutes`. -/
inductive ScheduleUnit
  | minutes
  | hours
  | days
  deriving DecidableEq, Repr

def ScheduleUnit.multiplier : ScheduleUnit → ℕ
  | .minutes => 60000
  | .hours => 3600000
  | .days => 86400000

/-- The text of `scheduled_at` as the pattern and the date parser read it: relative, or a date,
`none` when the text is no date. -/
inductive ScheduleText
  | relative (amount : ℕ) (unit : ScheduleUnit)
  | date (parsed : Option ℕ)
  deriving DecidableEq, Repr

/-- `MAX_SCHEDULE_MS` -/
def maxScheduleMs : ℕ := 30 * 86400000

/-- The last time of a `Date`, a hundred million days after the epoch. -/
def maxDateMs : ℕ := 100000000 * 86400000

/-- `new Date(t)`, `none` for the invalid date. -/
def dateOfTime (t : ℕ) : Option ℕ := if t ≤ maxDateMs then some t else none

/-- `parseScheduledAt` -/
def parseScheduledAt (value : Option ScheduleText) (now : ℕ) :
    Except Failure (Option ℕ) :=
  match value with
  | none => .ok none
  | some text =>
    let parsed := match text with
      | .relative amount unit => dateOfTime (now + amount * unit.multiplier)
      | .date parsed => parsed
    match parsed with
    | none => .error (.validation
        "scheduled_at must be an ISO 8601 timestamp or a value such as 'in 10 minutes'.")
    | some t =>
      if t ≤ now then .error (.validation "scheduled_at must be in the future.")
      else if now + maxScheduleMs < t then
        .error (.validation "scheduled_at must be no more than 30 days in the future.")
      else .ok (some t)

/-- `secondsUntil`, rounded up. -/
def secondsUntil (scheduledAt : Option ℕ) (now : ℕ) : ℕ :=
  match scheduledAt with
  | none => 0
  | some t => (t - now + 999) / 1000

/-- `delaySecondsUntil` -/
def delaySecondsUntil (scheduledAt : Option ℕ) (now : ℕ) : ℕ :=
  min 900 (secondsUntil scheduledAt now)

/-- Rounding up loses nothing: the delay is positive until the time is reached. -/
theorem secondsUntil_pos_iff (t now : ℕ) : 0 < secondsUntil (some t) now ↔ now < t := by
  simp only [secondsUntil]
  omega

/-- A parsed schedule lies in the future, at most the maximum ahead. -/
theorem parseScheduledAt_eq_ok {value : Option ScheduleText} {now t : ℕ}
    (h : parseScheduledAt value now = .ok (some t)) : now < t ∧ t ≤ now + maxScheduleMs := by
  unfold parseScheduledAt at h
  split at h
  · cases h
  · dsimp only at h
    split at h
    · cases h
    · split_ifs at h with h₁ h₂
      obtain rfl : _ = t := by simpa using h
      omega

/-- A schedule that lies ahead of `later`: a date after it, or a wait that ends on a date. -/
def ScheduleText.Ahead (later : ℕ) : ScheduleText → Prop
  | .relative amount unit => later + amount * unit.multiplier ≤ maxDateMs
  | .date parsed => ∀ t, parsed = some t → later < t

/-- **When a schedule that was accepted is accepted again** at a later time: as long as it lies
ahead. -/
theorem parseScheduledAt_later {value : Option ScheduleText} {now later : ℕ} {at_ : Option ℕ}
    (h : parseScheduledAt value now = .ok at_) (hle : now ≤ later) :
    (∃ at', parseScheduledAt value later = .ok at' ∧ at'.isSome = at_.isSome) ↔
      ∀ text, value = some text → text.Ahead later := by
  rcases value with _ | text
  · cases h
    exact ⟨fun _ text htext => (by cases htext), fun _ => ⟨none, rfl, rfl⟩⟩
  cases text with
  | relative amount unit =>
    simp only [parseScheduledAt, dateOfTime] at h ⊢
    split at h
    · cases h
    · rename_i t hdate
      split_ifs at hdate
      obtain rfl := Option.some.inj hdate
      split_ifs at h with hpast hfar
      cases h
      constructor
      · rintro ⟨at', hat', -⟩ text htext
        obtain rfl := Option.some.inj htext
        by_contra hover
        rw [ScheduleText.Ahead] at hover
        rw [if_neg hover] at hat'
        cases hat'
      · intro hahead
        have hdate : later + amount * unit.multiplier ≤ maxDateMs := hahead _ rfl
        refine ⟨some (later + amount * unit.multiplier), ?_, rfl⟩
        rw [if_pos hdate]
        dsimp only
        rw [if_neg (by omega), if_neg (by omega)]
  | date parsed =>
    rcases parsed with _ | t
    · cases h
    simp only [parseScheduledAt] at h ⊢
    split_ifs at h with hpast hfar
    cases h
    constructor
    · rintro ⟨at', hat', -⟩ text htext
      obtain rfl := Option.some.inj htext
      rintro t' ht'
      obtain rfl := Option.some.inj ht'
      by_contra hlt
      rw [if_pos (by omega)] at hat'
      cases hat'
    · intro hahead
      have hlater : later < t := hahead _ rfl t rfl
      refine ⟨some t, ?_, rfl⟩
      rw [if_neg (by omega), if_neg (by omega)]

end HayaSend
