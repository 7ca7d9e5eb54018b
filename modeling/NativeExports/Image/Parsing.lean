import NativeExports.Image.Alignment
import NativeExports.Image.Reading

/-!
# A parser of executable files

The headers of a file are taken as they are stored, once all their parts lie inside the file, and so
do the certificates, the debug directory, the CLI header and the metadata root, as far as the file
has them. The check finds addresses by a rule of its own, which only counts what a loader would map
from the file.

What is proved about images holds for every parser that reports header fields as stored, so it does
not depend on these checks.
-/

namespace NativeExports.Image

namespace OptionalHeader

/-- The first number of the 32-bit form. -/
def magic32 : Nat := 0x10B

/-- The first number of the 64-bit form. -/
def magic64 : Nat := 0x20B

def maxDirectories : Nat := 16

def sectionAlignmentOffset : Nat := 32

def fileAlignmentOffset : Nat := 36

def headersSizeOffset : Nat := 60

def parse (data : Bytes) (start : Nat) : Option OptionalHeader := do
  let magic ← data.le? 2 start
  guard (magic = magic32 ∨ magic = magic64)
  let is64 := magic == magic64
  let base := optionalHeaderBase is64
  let count ← data.le? 4 (start + base - 4)
  guard (count ≤ maxDirectories ∧ start + base + count * 8 ≤ data.length)
  let word (offset : Nat) : Nat := Bytes.field data (start + offset) 4
  return {
    is64
    sectionAlignment := word sectionAlignmentOffset
    fileAlignment := word fileAlignmentOffset
    headersSize := word headersSizeOffset
    directories := (List.range count).map fun n => (word (base + n * 8), word (base + n * 8 + 4)) }

/-- Reads the optional header of `size` bytes at `start`, if there is one. -/
def parseSized (data : Bytes) (start size : Nat) : Option (Option OptionalHeader) :=
  if size = 0 then some none else (parse data start).map some

/-- A data directory, unless it is absent. -/
def directory? (header : OptionalHeader) (index : Nat) : Option (Nat × Nat) :=
  (header.directories[index]?).filter (· != (0, 0))

end OptionalHeader

/-- Reads the entry of the section table at `start`. -/
def SectionHeader.parse (data : Bytes) (start : Nat) : SectionHeader :=
  let stored := (data.drop start).take ImageSection.headerSize
  let field := Bytes.field stored
  ⟨stored.take 8, field 8 4, field 12 4, field 16 4, field 20 4, field 36 4⟩

/-- Reads a section table with `count` entries. -/
def parseSections (data : Bytes) (start count : Nat) : Option (List SectionHeader) := do
  guard (count ≤ data.length / ImageSection.headerSize)
  guard (start + count * ImageSection.headerSize ≤ data.length)
  return (List.range count).map fun n =>
    SectionHeader.parse data (start + n * ImageSection.headerSize)

/-- The unit of memory. -/
def pageSize : Nat := 0x1000

/-- The unit that sections are read from the file in. -/
def diskUnit : Nat := 0x200

def SectionHeader.mappedSize (fileAlignment : Nat) (s : SectionHeader) : Nat :=
  if s.rawSize = 0 then 0
  else
    let stored :=
      roundUp (s.rawPointer + s.rawSize) fileAlignment - s.rawPointer / diskUnit * diskUnit
    let size := min stored (roundUp s.rawSize pageSize)
    if s.virtualSize = 0 then size else min size (roundUp s.virtualSize pageSize)

/-- Where a mapped address stands in the file. -/
def mappedOffset (fileAlignment : Nat) (sections : List SectionHeader) (rva : Nat) :
    Option Nat := do
  guard (isPowerOfTwo fileAlignment)
  let s ← sections.find? fun s =>
    s.virtualAddress ≤ rva && rva < s.virtualAddress + s.mappedSize fileAlignment
  return s.rawPointer + (rva - s.virtualAddress)

/-- Checks the certificates from `start` up to `stop`: each has a header of eight bytes, lies inside
the file and has a known revision and kind. They begin at multiples of eight, so there are fewer
than bytes. -/
def checkCertificates (data : Bytes) (stop : Nat) : Nat → Nat → Option Unit
  | 0, _ => some ()
  | fuel + 1, start =>
    if stop ≤ start then some ()
    else do
      let size := max (← data.le? 4 start) 8
      let revision ← data.le? 2 (start + 4)
      let kind ← data.le? 2 (start + 6)
      guard (start + size ≤ data.length)
      guard (revision = 0x100 ∨ revision = 0x200)
      guard (1 ≤ kind ∧ kind ≤ 4)
      checkCertificates data stop fuel ((start + size + 7) / 8 * 8)

/-- Checks the CLI header at `start` and the metadata root it locates. Both the metadata and its
root lie inside the file, but the root need not lie inside the metadata. -/
def checkCli (data : Bytes) (offsetOf : Nat → Option Nat) (start : Nat) : Option Unit := do
  guard (start + 72 ≤ data.length)
  let rva ← data.le? 4 (start + 8)
  let size ← data.le? 4 (start + 12)
  let root ← offsetOf rva
  guard (root + size ≤ data.length)
  let length ← data.le? 4 (root + 12)
  guard (root + 16 + length + 4 ≤ data.length)
  guard (Utf8.decode ((data.drop (root + 16)).take length)).isOk

/-- Checks everything that the data directories locate. -/
def checkDirectories (data : Bytes) (header : OptionalHeader) (sections : List SectionHeader) :
    Option Unit := do
  let offsetOf := mappedOffset header.fileAlignment sections
  if let some (start, size) := header.directory? certificateDirectory then
    guard (start + size ≤ data.length)
    checkCertificates data (start + size) (data.length + 1) start
  if let some (rva, size) := header.directory? debugDirectory then
    guard ((← offsetOf rva) + size ≤ data.length)
  if let some (rva, _) := header.directory? cliDirectory then
    checkCli data offsetOf (← offsetOf rva)

/-- The size of the oldest part of the headers, which locates the others. -/
def stubSize : Nat := 0x40

def peOffsetOffset : Nat := 0x3C

/-- Reads the headers of a file. -/
def Headers.parse (data : Bytes) : Option Headers := do
  guard (stubSize ≤ data.length ∧ data.take 2 = [0x4D, 0x5A])
  let peOffset ← data.le? 4 peOffsetOffset
  guard (stubSize ≤ peOffset ∧ peOffset + 24 ≤ data.length)
  let header := (data.drop peOffset).take 24
  guard (header.take 4 = [0x50, 0x45, 0, 0])
  let optionalSize := Bytes.field header 20 2
  let optional ← OptionalHeader.parseSized data (peOffset + 24) optionalSize
  let sections ← parseSections data (peOffset + 24 + optionalSize) (Bytes.field header 6 2)
  optional.forM fun optional => checkDirectories data optional sections
  return {
    peOffset
    machine := Bytes.field header 4 2
    characteristics := Bytes.field header 22 2
    optionalSize, optional, sections }

instance linkedParser : Parser := ⟨Headers.parse⟩

end NativeExports.Image
