import Mathlib.Algebra.Ring.Nat
import Mathlib.Data.Nat.Init

/-!
# Subnets

A subnet is a network address with the number of its leading bits that count; an address lies in
it if it has the same leading bits. `Subnet.contains_iff` reads this off the numbers of the two.
-/

namespace HayaSend

/-- A subnet of the addresses of `w` bits. -/
structure Subnet (w : ℕ) where
  network : BitVec w
  prefixLength : ℕ
  deriving DecidableEq, Repr

namespace Subnet

variable {w : ℕ} (s : Subnet w) (a : BitVec w)

def contains : Bool :=
  a >>> (w - s.prefixLength) == s.network >>> (w - s.prefixLength)

theorem contains_iff : s.contains a = true ↔
    a.toNat / 2 ^ (w - s.prefixLength) = s.network.toNat / 2 ^ (w - s.prefixLength) := by
  rw [contains, beq_iff_eq, ← BitVec.toNat_inj, BitVec.toNat_ushiftRight,
    BitVec.toNat_ushiftRight, Nat.shiftRight_eq_div_pow, Nat.shiftRight_eq_div_pow]

end Subnet

end HayaSend
