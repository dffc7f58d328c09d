import HayaSend.Core.CanonicalJson
import HayaSend.Core.Schedule

/-!
# The texts of a request

How a request's texts are read, mailboxes and schedules, and how dates are written. The functions
of the platform and of packages that are called on the way are those of a `Platform`.
-/

namespace HayaSend

/-- The functions of the platform and of packages that preparing a request calls. -/
structure Platform where
  /-- The time of a date text, `none` for an invalid date. -/
  parseDate : String → Option ℕ
  toLowerCase : String → String
  localeCompare : String → String → Bool
  /-- `convert`, the text of an HTML body, of at most so much input. -/
  convertHtml : String → ℕ → String
  /-- `base64ToBytes(…).byteLength`, for a canonical text. -/
  base64Length : String → Option ℕ
  sha256 : String → String

/-- `\s` -/
def isWhiteSpace (c : Char) : Bool :=
  (9 ≤ c.toNat && c.toNat ≤ 13) || (0x2000 ≤ c.toNat && c.toNat ≤ 0x200A) ||
    [0x20, 0xA0, 0x1680, 0x2028, 0x2029, 0x202F, 0x205F, 0x3000, 0xFEFF].contains c.toNat

def trim (cs : List Char) : List Char :=
  ((cs.dropWhile isWhiteSpace).reverse.dropWhile isWhiteSpace).reverse

/-- The separator stands in the text with a character on either side. -/
def holdsInside (sep : Char) (cs : List Char) : Bool := (cs.drop 1).dropLast.contains sep

/-! ## Mailboxes -/

/-- `<([^<>\s]+@[^<>\s]+)>$` -/
def angleAddress (cs : List Char) : Option (List Char) :=
  match cs.reverse with
  | '>' :: before =>
    let inner := before.takeWhile fun c => c != '<' && c != '>' && !isWhiteSpace c
    if (before.drop inner.length).head? == some '<' && holdsInside '@' inner then
      some inner.reverse
    else none
  | _ => none

/-- `^[^@\s]+@[^@\s]+\.[^@\s]+$` -/
def isMailbox (s : String) : Bool :=
  match s.toList.splitOn '@' with
  | [localPart, domain] =>
    !localPart.isEmpty && holdsInside '.' domain && s.toList.all (!isWhiteSpace ·)
  | _ => false

/-- `normalizeMailbox` -/
def normalizeMailbox (p : Platform) (value : String) : Except Failure String :=
  let trimmed := trim value.toList
  let normalized := p.toLowerCase (String.ofList ((angleAddress trimmed).getD trimmed))
  if isMailbox normalized then .ok normalized
  else .error (.validation ("Invalid email address: " ++ value))

/-! ## Dates -/

/-- The decimal digits of a number, at least so many. -/
def padded (width n : ℕ) : String :=
  String.ofList (List.replicate (width - (toString n).length) '0') ++ toString n

/-- `toISOString`, from the days and milliseconds since the epoch; years from 10000 on have a sign
and six digits. -/
def toISOString (t : ℕ) : String :=
  let days := t / 86400000 + 719468
  let dayOfEra := days % 146097
  let yearOfEra := (dayOfEra - dayOfEra / 1460 + dayOfEra / 36524 - dayOfEra / 146096) / 365
  let dayOfYear := dayOfEra - (365 * yearOfEra + yearOfEra / 4 - yearOfEra / 100)
  let monthFromMarch := (5 * dayOfYear + 2) / 153
  let day := dayOfYear - (153 * monthFromMarch + 2) / 5 + 1
  let month := if monthFromMarch < 10 then monthFromMarch + 3 else monthFromMarch - 9
  let year := yearOfEra + days / 146097 * 400 + (if month ≤ 2 then 1 else 0)
  let yearText := if year < 10000 then padded 4 year else "+" ++ padded 6 year
  yearText ++ "-" ++ padded 2 month ++ "-" ++ padded 2 day ++ "T" ++
    padded 2 (t / 3600000 % 24) ++ ":" ++ padded 2 (t / 60000 % 60) ++ ":" ++
    padded 2 (t / 1000 % 60) ++ "." ++ padded 3 (t % 1000) ++ "Z"

example : toISOString 1893456000000 = "2030-01-01T00:00:00.000Z" := by decide +kernel

/-! ## Schedules -/

/-- `minute|minutes|min|hour|hours|day|days` -/
def scheduleUnit (word : String) : Option ScheduleUnit :=
  if ["minute", "minutes", "min"].contains word then some .minutes
  else if ["hour", "hours"].contains word then some .hours
  else if ["day", "days"].contains word then some .days
  else none

/-- `RELATIVE_SCHEDULE`: `^in\s+(\d+)\s*(unit)$`, in any case. -/
def relativeSchedule (cs : List Char) : Option (ℕ × ScheduleUnit) :=
  match cs with
  | i :: n :: rest =>
    let amount := (rest.dropWhile isWhiteSpace).takeWhile Char.isDigit
    let word := ((rest.dropWhile isWhiteSpace).dropWhile Char.isDigit).dropWhile isWhiteSpace
    if i.toLower == 'i' && n.toLower == 'n' && rest.head?.any isWhiteSpace && !amount.isEmpty then
      (scheduleUnit (String.ofList (word.map Char.toLower))).map
        (Nat.ofDigitChars 10 amount 0, ·)
    else none
  | _ => none

/-- `scheduled_at` as `parseScheduledAt` reads it. -/
def readSchedule (p : Platform) (value : String) : ScheduleText :=
  match relativeSchedule (trim value.toList) with
  | some (amount, unit) => .relative amount unit
  | none => .date (p.parseDate value)

example : relativeSchedule "In 10 Minutes".toList = some (10, .minutes) := by decide +kernel

end HayaSend
