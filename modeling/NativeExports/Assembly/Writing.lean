import NativeExports.Assembly.Basic
import NativeExports.Host.Output
import NativeExports.Image.Checksum
import NativeExports.Image.Placement

/-!
# Writing assemblies

The sections of the image are kept as they are, at their addresses. What changed goes into a new
section behind them: the bodies of the added methods and the whole metadata. The old metadata is
wiped, the headers are brought up to date, and the certificates, which no longer match, are dropped
together with anything else behind the last section.
-/

namespace NativeExports.Assembly

def newSectionName : String := ".meta"

/-- What is going to be written: the new section, and where the metadata stands in its content. -/
structure WritePlan where
  placement : Placement
  content : Bytes
  metadataOffset : Nat
  metadataSize : Nat

/-- Lays the added bodies out behind `content`, each at a multiple of four bytes, and tells their
methods where they are; `base` is the address of the content. -/
def placeBodies (base : Nat) (tables : Tables) (content : Bytes) :
    List (Nat × Bytes) → Except Error (Tables × Bytes)
  | [] => .ok (tables, content.pad4)
  | (method, body) :: rest => do
    let content := content.pad4
    let tables ← tables.put .methodDef method MethodDef.rvaColumn (base + content.length)
    placeBodies base tables (content ++ body) rest

/-- Plans the new section. -/
def plan (assembly : Assembly) : Except Error WritePlan := do
  let base := (← Placement.behind assembly.image 0).virtualAddress
  let (tables, bodies) ← placeBodies base assembly.tables [] assembly.addedBodies
  let metadata ← Metadata.build assembly.version assembly.rootFlags tables assembly.heaps
  let content := bodies ++ metadata
  let placement ← Placement.behind assembly.image content.length
  return ⟨placement, content, bodies.length, metadata.length⟩

def WritePlan.message (plan : WritePlan) : String :=
  let placement := plan.placement
  s!"Placing {newSectionName} at RVA 0x{Text.upperHex placement.virtualAddress} / file offset " ++
    s!"0x{Text.upperHex placement.rawPointer}: {plan.metadataOffset} bytes of bodies, " ++
    s!"{plan.metadataSize} bytes of metadata"

/-! ## Positions in headers -/

/-- Where the number of sections stands behind the signature of the headers. -/
def sectionCountOffset : Nat := 6

/-- Where the size of the initialized data stands in the optional header. -/
def initializedSizeOffset : Nat := 8

/-- Where the size of the loaded image stands in the optional header. -/
def imageSizeOffset : Nat := 56

/-- Where the size of the headers stands in the optional header. -/
def headersSizeOffset : Nat := 60

/-- Where the checksum stands in the optional header. -/
def checksumOffset : Nat := 64

/-- Where the position of its content stands in an entry of the section table. -/
def rawPointerOffset : Nat := 20

def debugEntrySize : Nat := 28

/-- Where the position of its data stands in an entry of the debug directory. -/
def debugPointerOffset : Nat := 24

/-! ## Filling the output -/

/-- Where the copied part of the old file ends. -/
def copiedSize (image : Image) : Nat :=
  min (max (Placement.largest (image.sections.map (·.fileEnd))) image.headersSize) image.data.length

/-- Copies the old file; the content of its sections moves. -/
def copyOld (image : Image) (placement : Placement) (output : Output) : Except Error Output := do
  let size := copiedSize image
  let headers := min placement.rawStart size
  let output ← output.write 0 (image.data.take headers)
  output.write (placement.move headers) ((image.data.take size).drop headers)

/-- The new form of a position in the old file, where it has to fit into 32 bits. -/
def relocated (placement : Placement) (offset : Nat) : Except Error Nat :=
  if placement.move offset < 2 ^ 32 then .ok (placement.move offset)
  else .error (.layout (.movedOffset offset))

/-- Stores where the content of a section went; `header` is where its entry stands. -/
def moveSection (placement : Placement) (output : Output) (entry : Nat × ImageSection) :
    Except Error Output := do
  let (header, s) := entry
  if s.rawSize = 0 ∨ s.rawPointer = 0 then return output
  output.writeLe 4 (header + rawPointerOffset) (← relocated placement s.rawPointer)

/-- The sections with the positions of their entries in the section table. -/
def sectionEntries (image : Image) : List (Nat × ImageSection) :=
  image.sections.zipIdx.map fun (s, n) =>
    (image.sectionTableOffset + n * ImageSection.headerSize, s)

/-- The little-endian number in four bytes of the old file. -/
def oldWord (image : Image) (offset : Nat) : Except Error Nat :=
  match image.data.le? 4 offset with
  | some n => .ok n
  | none => .error .outOfBounds

/-- Stores where the data of an entry of the debug directory went; `field` is where its position
stands in the old file. -/
def moveDebugEntry (image : Image) (placement : Placement) (output : Output) (field : Nat) :
    Except Error Output := do
  let pointer ← oldWord image field
  if pointer = 0 then return output
  output.writeLe 4 (placement.move field) (← relocated placement pointer)

/-- Stores the size of the headers, and where the content of the sections went if it moved. -/
def moveOld (image : Image) (placement : Placement) (output : Output) : Except Error Output := do
  let output ← output.writeLe 4 (image.optionalHeaderOffset + headersSizeOffset)
    placement.headersSize
  if placement.rawShift = 0 then return output
  let output ← (sectionEntries image).foldlM (moveSection placement) output
  match image.debug with
  | none => return output
  | some (rva, size) =>
    let entries ← image.offsetOf rva
    ((List.range (size / debugEntrySize)).map fun n =>
      entries + n * debugEntrySize + debugPointerOffset).foldlM (moveDebugEntry image placement)
      output

def addSectionEntry (image : Image) (placement : Placement) (output : Output) :
    Except Error Output := do
  let header := image.sectionTableOffset + image.sections.length * ImageSection.headerSize
  let output ← output.write header (placement.header newSectionName)
  let countOffset := image.peOffset + sectionCountOffset
  let output ← output.writeLe 2 countOffset (Bytes.field image.data countOffset 2 + 1)
  let sizeOffset := image.optionalHeaderOffset + initializedSizeOffset
  let initialized ← oldWord image sizeOffset
  let output ← output.writeLe 4 sizeOffset (initialized + placement.rawSize)
  let imageSize := roundUp (placement.virtualAddress + placement.virtualSize)
    (max image.sectionAlignment 1)
  if 2 ^ 32 ≤ imageSize then throw (.layout .imageSize)
  output.writeLe 4 (image.optionalHeaderOffset + imageSizeOffset) imageSize

/-- Points the CLI header to the new metadata and stores the entry point. -/
def updateCli (assembly : Assembly) (plan : WritePlan) (output : Output) : Except Error Output := do
  let header := plan.placement.move (← assembly.image.offsetOf assembly.image.cli.1)
  let rva := plan.placement.virtualAddress + plan.metadataOffset
  let output ← output.writeLe 4 (header + CliHeader.metadataRvaOffset) rva
  let output ← output.writeLe 4 (header + CliHeader.metadataSizeOffset) plan.metadataSize
  output.writeLe 4 (header + CliHeader.entryPointOffset) assembly.entryPoint.value

/-- Stores the checksum of the output. -/
def stampChecksum (image : Image) (output : Output) : Except Error Output :=
  let field := image.optionalHeaderOffset + checksumOffset
  output.writeLe 4 field (Checksum.compute output.content field)

def fill (assembly : Assembly) (plan : WritePlan) (output : Output) : Except Error Output := do
  let image := assembly.image
  let placement := plan.placement
  let output ← copyOld image placement output
  let oldMetadata ← image.offsetOf assembly.cli.metadataRva
  let output ← output.zero (placement.move oldMetadata) assembly.cli.metadataSize
  let output ← output.write placement.rawPointer plan.content
  let output ← moveOld image placement output
  let output ← addSectionEntry image placement output
  let output ← output.zero (image.directoryOffset Image.certificateDirectory) 8
  let output ← updateCli assembly plan output
  stampChecksum image output

/-- Writes the assembly to a file, which may be the one it was loaded from. -/
def save (assembly : Assembly) (path : String) : Job Unit := do
  let plan ← assembly.plan
  Logged.debug plan.message
  Output.produce path plan.placement.newSize (assembly.fill plan)

end NativeExports.Assembly
