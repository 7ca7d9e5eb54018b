/-!
# Target architectures

A library is usable as a native extension only if it is pinned to one processor architecture. The
machine field of the image and one flag of the CLI header decide which one that is.
-/

namespace NativeExports

/-- The processor architecture a library is pinned to. -/
inductive Architecture where
  | x86
  | x64
  | ambiguous
  deriving DecidableEq, Repr, Inhabited

namespace Architecture

/-- The machine field of 32-bit images. -/
def machineI386 : Nat := 0x014C

/-- The machine field of 64-bit images. -/
def machineAmd64 : Nat := 0x8664

/-- The bit of the CLI header flags that restricts an image to 32-bit processes. -/
def required32BitBit : Nat := 1

/-- The architecture of an image with the given machine and CLI header flags. An image for the
32-bit machine that does not insist on a 32-bit process runs in either, so it is pinned to none. -/
def detect (machine corFlags : Nat) : Architecture :=
  if machine = machineAmd64 then .x64
  else if machine = machineI386 ∧ corFlags.testBit required32BitBit then .x86
  else .ambiguous

def switch? : Architecture → Option String
  | .x86 => some "/X86"
  | .x64 => some "/X64"
  | .ambiguous => none

def display : Architecture → String
  | .x86 => "x86"
  | .x64 => "x64"
  | .ambiguous => "AnyCPU"

instance : ToString Architecture := ⟨display⟩

end Architecture

end NativeExports
