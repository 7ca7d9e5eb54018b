/-!
# Alignment

Positions in images are multiples of units that are powers of two.
-/

namespace NativeExports

/-- `value` rounded up to a multiple of `alignment`, a power of two: the bits below the unit are
cleared after going up by just less than the unit. -/
def roundUp (value alignment : Nat) : Nat :=
  value + alignment - 1 - ((value + alignment - 1) &&& (alignment - 1))

def isPowerOfTwo (n : Nat) : Bool :=
  n != 0 && n &&& (n - 1) == 0

theorem roundUp_two_pow (value k : Nat) :
    roundUp value (2 ^ k) = (value + 2 ^ k - 1) / 2 ^ k * 2 ^ k := by
  have hdiv := Nat.div_add_mod (value + 2 ^ k - 1) (2 ^ k)
  rw [Nat.mul_comm] at hdiv
  rw [roundUp, Nat.and_two_pow_sub_one_eq_mod]
  omega

end NativeExports
