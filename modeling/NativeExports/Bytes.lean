/-!
# Byte strings

Images, heaps, signatures and method bodies are all byte strings. This module fixes their
representation as lists of bytes and provides the handful of operations everything else is
written with: little-endian numbers, slices, and overwriting in place.

Numbers are natural numbers throughout; a field of `w` bytes holds a number below `256 ^ w`.
-/

-- Powers and sums of numbers are the built-in ones, also next to a library with more general ones.
attribute [instance (2000), default_instance 20000] instPowNat
attribute [instance (2000)] Zero.ofOfNat0

namespace NativeExports

abbrev Bytes := List UInt8

namespace Bytes

/-- The number a byte string denotes, least significant byte first. -/
def leValue : Bytes → Nat
  | [] => 0
  | b :: rest => b.toNat + 256 * leValue rest

/-- The `width` low bytes of `n`, least significant byte first. -/
def leBytes : Nat → Nat → Bytes
  | 0, _ => []
  | width + 1, n => UInt8.ofNat n :: leBytes width (n / 256)

/-- The `width` low bytes of `n`, most significant byte first. -/
def beBytes (width n : Nat) : Bytes :=
  (leBytes width n).reverse

/-- The signed number stored in `width` bytes as `n`, in two's complement. -/
def signed (width n : Nat) : Int :=
  if 2 * n < 256 ^ width then n else (n : Int) - (256 ^ width : Nat)

def zeros (count : Nat) : Bytes :=
  List.replicate count 0

/-- The `count` bytes at `start`, if they lie inside `data`. -/
def slice? (data : Bytes) (start count : Nat) : Option Bytes :=
  if start + count ≤ data.length then some ((data.drop start).take count) else none

/-- The little-endian number in the `width` bytes at `start`, if they lie inside `data`. -/
def le? (data : Bytes) (width start : Nat) : Option Nat :=
  (data.slice? start width).map leValue

/-- The little-endian number in the `width` bytes at `start`, as far as `data` has them. -/
def field (data : Bytes) (start width : Nat) : Nat :=
  leValue ((data.drop start).take width)

/-- `data` with the bytes from `start` on replaced by `content`. -/
def overwrite (data : Bytes) (start : Nat) (content : Bytes) : Bytes :=
  data.take start ++ content ++ data.drop (start + content.length)

/-- `overwrite`, refused if the written range leaves `data`. -/
def overwrite? (data : Bytes) (start : Nat) (content : Bytes) : Option Bytes :=
  if start + content.length ≤ data.length then some (data.overwrite start content) else none

/-- `n` rounded up to a multiple of four. -/
def ceil4 (n : Nat) : Nat :=
  (n + 3) / 4 * 4

/-- `data` followed by the zero bytes that make its length a multiple of four. -/
def pad4 (data : Bytes) : Bytes :=
  data ++ zeros (ceil4 data.length - data.length)

/-- `data` up to its first zero byte. -/
def untilNul (data : Bytes) : Bytes :=
  data.takeWhile (· != 0)

@[simp]
theorem length_leBytes (width n : Nat) : (leBytes width n).length = width := by
  induction width generalizing n with
  | zero => rfl
  | succ width ih => simp [leBytes, ih]

@[simp]
theorem length_zeros (count : Nat) : (zeros count).length = count := by
  simp [zeros]

theorem leValue_lt (data : Bytes) : leValue data < 256 ^ data.length := by
  induction data with
  | nil => simp [leValue]
  | cons b rest ih =>
    have hb := b.toNat_lt
    simp only [leValue, List.length_cons, Nat.pow_succ]
    omega

/-- Writing a number and reading it back keeps its low bytes. -/
theorem leValue_leBytes (width n : Nat) : leValue (leBytes width n) = n % 256 ^ width := by
  induction width generalizing n with
  | zero => simp [leBytes, leValue, Nat.mod_one]
  | succ width ih =>
    simp only [leBytes, leValue, ih, UInt8.toNat_ofNat', Nat.pow_succ _ width]
    rw [Nat.mul_comm (256 ^ width) 256, Nat.mod_mul]

theorem leBytes_leValue (data : Bytes) : leBytes data.length (leValue data) = data := by
  induction data with
  | nil => rfl
  | cons b rest ih =>
    have hb := b.toNat_lt
    have hdiv : (b.toNat + 256 * leValue rest) / 256 = leValue rest := by omega
    have hbyte : UInt8.ofNat (b.toNat + 256 * leValue rest) = b := by
      apply UInt8.toNat_inj.mp
      rw [UInt8.toNat_ofNat']
      omega
    simp [leBytes, leValue, hdiv, hbyte, ih]

/-- Overwriting inside a byte string keeps its length. -/
theorem length_overwrite {data content : Bytes} {start : Nat}
    (h : start + content.length ≤ data.length) :
    (data.overwrite start content).length = data.length := by
  simp [overwrite]
  omega

end Bytes

end NativeExports
