import NativeExports.Image.Alignment
import NativeExports.Image.Basic

/-!
# Placing another section

New content goes into a section of its own behind the last one, both in the file and in the loaded
image, so that no address changes. Its entry in the section table may need room that the headers do
not have; then the headers grow by whole units of the file, and everything that sections hold in the
file moves down.
-/

namespace NativeExports

/-- Where a new section goes. The content of the old sections began at `rawStart` in the file and
moves by `rawShift`. -/
structure Placement where
  virtualAddress : Nat
  virtualSize : Nat
  rawPointer : Nat
  rawSize : Nat
  headersSize : Nat
  rawStart : Nat
  rawShift : Nat
  deriving DecidableEq, Repr

namespace Placement

def least? : List Nat → Option Nat
  | [] => none
  | n :: rest => some (rest.foldl min n)

def largest (numbers : List Nat) : Nat :=
  numbers.foldl max 0

/-- A value that fits into a header field. -/
def fit (value : Nat) : Except Error Nat :=
  if value < 2 ^ 32 then .ok value else .error (.layout (.placement value))

/-- Where the content of the sections of an image begins in the file. -/
def contentStart (image : Image) : Nat :=
  (least? ((image.sections.filter (·.rawSize != 0)).map (·.rawPointer))).getD image.headersSize

/-- Where the section table ends once it has another entry. -/
def tableEnd (image : Image) : Nat :=
  image.sectionTableOffset + (image.sections.length + 1) * ImageSection.headerSize

/-- The address that the headers must not reach. -/
def firstAddress (image : Image) : Nat :=
  (least? (image.sections.map (·.virtualAddress))).getD (2 ^ 64 - 1)

/-- The size of the headers with another section, and how far the content of the others moves. -/
def growth (image : Image) : Except Error (Nat × Nat) :=
  let rawStart := contentStart image
  if tableEnd image ≤ min image.headersSize rawStart then .ok (image.headersSize, 0)
  else
    let unit := max image.fileAlignment 1
    let headers := roundUp (tableEnd image) unit
    if firstAddress image < headers then
      .error (.layout (.headerRoom headers (firstAddress image)))
    else .ok (headers, roundUp (headers - rawStart) unit)

/-- Places a section of `size` bytes behind the last section of an image. -/
def behind (image : Image) (size : Nat) : Except Error Placement := do
  let fileUnit := max image.fileAlignment 1
  let (headers, rawShift) ← growth image
  let memoryEnd := largest (image.sections.map (·.memoryEnd))
  let fileEnd := largest (image.sections.map (·.fileEnd))
  return {
    virtualAddress := ← fit (roundUp memoryEnd (max image.sectionAlignment 1))
    virtualSize := ← fit size
    rawPointer := ← fit (roundUp (max (fileEnd + rawShift) headers) fileUnit)
    rawSize := ← fit (roundUp size fileUnit)
    headersSize := ← fit headers
    rawStart := ← fit (contentStart image)
    rawShift := ← fit rawShift }

/-- Where a position of the old file goes. -/
def move (placement : Placement) (offset : Nat) : Nat :=
  if placement.rawStart ≤ offset then offset + placement.rawShift else offset

def newSize (placement : Placement) : Nat :=
  placement.rawPointer + placement.rawSize

/-- The attributes of the new section: initialized data that can be read. -/
def characteristics : Nat := 0x40000040

/-- The entry of the new section in the section table. -/
def header (placement : Placement) (name : String) : Bytes :=
  let name := (Utf8.encode name).take 8
  name ++ Bytes.zeros (8 - name.length) ++ Bytes.leBytes 4 placement.virtualSize ++
    Bytes.leBytes 4 placement.virtualAddress ++ Bytes.leBytes 4 placement.rawSize ++
    Bytes.leBytes 4 placement.rawPointer ++ Bytes.zeros 12 ++ Bytes.leBytes 4 characteristics

end Placement

end NativeExports
