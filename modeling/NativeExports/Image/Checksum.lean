import NativeExports.Bytes

/-!
# The checksum of an image

The file is summed in 16-bit words, a carry being added back at the low end; the four bytes of the
checksum itself are left out, and the size of the file is added to the sum.
-/

namespace NativeExports.Checksum

/-- Adds a word to a sum of 16 bits, with the carry added back at the low end. -/
def addWord (sum word : Nat) : Nat :=
  let total := sum + word
  if 0xFFFF < total then total % 0x10000 + total / 0x10000 else total

/-- Whether the word at `offset` belongs to the checksum field at `field`. -/
def isFieldWord (field offset : Nat) : Bool :=
  field ≤ offset && offset < field + 4

/-- Adds the words of `data`, whose first byte stands at `offset`; an odd last byte is a word of its
own. -/
def sumFrom (field offset sum : Nat) : Bytes → Nat
  | [] => sum
  | [b] => if isFieldWord field offset then sum else addWord sum b.toNat
  | low :: high :: rest =>
    let next :=
      if isFieldWord field offset then sum else addWord sum (low.toNat + 256 * high.toNat)
    sumFrom field (offset + 2) next rest

/-- The checksum of an image whose checksum field stands at `field`. -/
def compute (data : Bytes) (field : Nat) : Nat :=
  (sumFrom field 0 0 data + data.length) % 2 ^ 32

end NativeExports.Checksum
