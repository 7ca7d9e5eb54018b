import NativeExports.Error

/-!
# Executable images

An image is a file whose headers say which of its bytes are loaded at which addresses. Addresses
count from where the image is loaded; the sections map ranges of them to ranges of the file, and
what lies in front of the sections is mapped one to one.
-/

namespace NativeExports

/-- An entry of the section table. What is virtual is about the loaded image, and what is raw about
the file. -/
structure ImageSection where
  name : String
  virtualSize : Nat
  virtualAddress : Nat
  rawSize : Nat
  rawPointer : Nat
  characteristics : Nat
  deriving DecidableEq, Repr

namespace ImageSection

def fileEnd (s : ImageSection) : Nat :=
  s.rawPointer + s.rawSize

def memoryEnd (s : ImageSection) : Nat :=
  s.virtualAddress + max s.virtualSize s.rawSize

/-- Whether an address lies in the section. -/
def contains (s : ImageSection) (rva : Nat) : Bool :=
  s.virtualAddress ≤ rva && rva < s.memoryEnd

def headerSize : Nat := 40

end ImageSection

/-- An image and the header values that locate its parts. The CLI header and the debug directory are
given by address and size. -/
structure Image where
  data : Bytes
  machine : Nat
  characteristics : Nat
  is64 : Bool
  peOffset : Nat
  sectionTableOffset : Nat
  fileAlignment : Nat
  sectionAlignment : Nat
  headersSize : Nat
  sections : List ImageSection
  cli : Nat × Nat
  debug : Option (Nat × Nat)

namespace Image

def libraryBit : Nat := 13

def isLibrary (image : Image) : Bool :=
  image.characteristics.testBit libraryBit

/-- Where the optional header begins: behind the signature and the file header. -/
def optionalHeaderOffset (image : Image) : Nat :=
  image.peOffset + 24

def certificateDirectory : Nat := 4

/-- The number of the data directory of the debug information. -/
def debugDirectory : Nat := 6

/-- The number of the data directory of the CLI header. -/
def cliDirectory : Nat := 14

/-- The size of the optional header without the data directories. -/
def optionalHeaderBase (is64 : Bool) : Nat :=
  if is64 then 112 else 96

/-- Where the entry of a data directory stands. -/
def directoryOffset (image : Image) (index : Nat) : Nat :=
  image.optionalHeaderOffset + optionalHeaderBase image.is64 + index * 8

/-- Where the byte at an address stands in the file. The first section that holds the address
decides. -/
def offsetOf (image : Image) (rva : Nat) : Except Error Nat :=
  if rva < image.headersSize then .ok rva
  else
    match image.sections.find? (·.contains rva) with
    | some s =>
      if rva - s.virtualAddress < s.rawSize then .ok (s.rawPointer + (rva - s.virtualAddress))
      else .error (.malformed (.uninitializedAddress rva s.name))
    | none => .error (.malformed (.unmappedAddress rva))

/-- The `count` bytes from an address on, as they stand in the file. -/
def bytesAt (image : Image) (rva count : Nat) : Except Error Bytes := do
  let offset ← image.offsetOf rva
  match image.data.slice? offset count with
  | some bytes => return bytes
  | none => throw .outOfBounds

end Image

end NativeExports
