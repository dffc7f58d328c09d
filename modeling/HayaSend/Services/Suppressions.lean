import HayaSend.Core.RequestText
import HayaSend.Foundations.Fallible
import HayaSend.Foundations.OrderedMap

/-!
# The suppression list

`SuppressionService` over a store of suppression records under the digests of their addresses.
-/

namespace HayaSend

inductive SuppressionReason
  | bounce
  | complaint
  | manual
  deriving DecidableEq, Repr

structure SuppressionRecord where
  id : String
  email : String
  reason : SuppressionReason
  createdAt : ℕ
  updatedAt : ℕ
  sourceEmailId : Option String := none
  detail : Option String := none
  deriving DecidableEq, Repr

/-- What `put` is given. -/
structure SuppressionInput where
  email : String
  reason : SuppressionReason
  sourceEmailId : Option String := none
  detail : Option String := none
  deriving DecidableEq, Repr

abbrev SuppressionStore := OrderedMap String SuppressionRecord

namespace SuppressionStore

variable (p : Platform)

/-- `put` -/
def put (s : SuppressionStore) (input : SuppressionInput) (now : ℕ) :
    Except Failure (SuppressionStore × SuppressionRecord) := do
  let email ← normalizeMailbox p input.email
  let id := p.sha256 email
  let record : SuppressionRecord := {
    id := id
    email := email
    reason := input.reason
    createdAt := ((s.get id).map (·.createdAt)).getD now
    updatedAt := now
    sourceEmailId := input.sourceEmailId.filter (· != "")
    detail := input.detail.filter (· != "") }
  return (OrderedMap.set s id record, record)

/-- `findSuppressed` -/
def findSuppressed (s : SuppressionStore) (addresses : List String) :
    Except Failure (List SuppressionRecord) := do
  let normalized ← addresses.mapM (normalizeMailbox p)
  return normalized.eraseDups.filterMap fun email => OrderedMap.get s (p.sha256 email)

variable {p}

/-- Whether the lookup succeeds depends on the addresses only. -/
theorem findSuppressed_ok {s : SuppressionStore} {addresses : List String}
    {records : List SuppressionRecord} (h : s.findSuppressed p addresses = .ok records)
    (s' : SuppressionStore) : ∃ records', s'.findSuppressed p addresses = .ok records' := by
  obtain ⟨normalized, hn, -⟩ := bind_eq_ok.mp h
  exact ⟨_, bind_eq_ok.mpr ⟨normalized, hn, rfl⟩⟩

end SuppressionStore

end HayaSend
