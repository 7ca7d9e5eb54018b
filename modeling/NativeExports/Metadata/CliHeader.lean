import NativeExports.Bytes.Reader

/-!
# The CLI header

The header that makes an executable image a managed one (ECMA-335, II.25.3.3). It locates the
metadata and holds the flags that pin a library to an architecture.
-/

namespace NativeExports

/-- The CLI header of an image. The parts that it locates are given by address and size, and the
entry point is 0 for libraries without one. -/
structure CliHeader where
  cb : Nat
  majorRuntime : Nat
  minorRuntime : Nat
  metadataRva : Nat
  metadataSize : Nat
  flags : Nat
  entryPoint : Nat
  resources : Nat × Nat
  strongName : Nat × Nat
  vtableFixups : Nat × Nat

namespace CliHeader

def size : Nat := 72

def metadataRvaOffset : Nat := 8

def metadataSizeOffset : Nat := 12

def entryPointOffset : Nat := 20

/-- The positions of the flags with a meaning: code in the common language only, 32-bit required,
strong name, native entry point, 32-bit preferred. -/
def knownFlagBits : List Nat :=
  [0, 1, 3, 4, 17]

/-- The part of `flags` that consists of the given bits. -/
def maskBits (bits : List Nat) (flags : Nat) : Nat :=
  (bits.map fun bit => if flags.testBit bit then 2 ^ bit else 0).sum

def knownFlags (header : CliHeader) : Nat :=
  maskBits knownFlagBits header.flags

/-- Reads an address and a size. -/
def directory : Reader (Nat × Nat) := do
  let rva ← Reader.le 4
  let size ← Reader.le 4
  return (rva, size)

def reader : Reader CliHeader := do
  let cb ← Reader.le 4
  if cb ≠ size then Reader.malformed (.cliHeaderSize cb)
  let majorRuntime ← Reader.le 2
  let minorRuntime ← Reader.le 2
  let (metadataRva, metadataSize) ← directory
  if metadataRva = 0 ∨ metadataSize = 0 then Reader.malformed .metadataLocation
  let flags ← Reader.le 4
  let entryPoint ← Reader.le 4
  let resources ← directory
  let strongName ← directory
  let _ ← directory
  let vtableFixups ← directory
  return ⟨cb, majorRuntime, minorRuntime, metadataRva, metadataSize, flags, entryPoint, resources,
    strongName, vtableFixups⟩

/-- The CLI header at the front of `data`, which has to hold all of it. -/
def read (data : Bytes) : Except Error CliHeader :=
  if data.length < size then .error .outOfBounds else reader.parse data

end CliHeader

end NativeExports
