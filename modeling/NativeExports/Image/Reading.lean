import NativeExports.Image.Basic

/-!
# Reading images

What the headers of an image store is found out by a parser of executable files, which the program
is linked with. An image is what the parser reports about a file, as far as the program has a use
for it.
-/

namespace NativeExports.Image

/-- An entry of the section table, with the padding of its name. -/
structure SectionHeader where
  name : Bytes
  virtualSize : Nat
  virtualAddress : Nat
  rawSize : Nat
  rawPointer : Nat
  characteristics : Nat
  deriving DecidableEq, Repr

/-- The values of the optional header that matter. The data directories are addresses and sizes. -/
structure OptionalHeader where
  is64 : Bool
  sectionAlignment : Nat
  fileAlignment : Nat
  headersSize : Nat
  directories : List (Nat × Nat)
  deriving DecidableEq, Repr

/-- What a parser reports about the headers of a file. -/
structure Headers where
  peOffset : Nat
  machine : Nat
  characteristics : Nat
  optionalSize : Nat
  optional : Option OptionalHeader
  sections : List SectionHeader
  deriving DecidableEq, Repr

/-- The parser of executable files that the program is linked with. It refuses files that are no
images. -/
class Parser where
  parse : Bytes → Option Headers

/-- A data directory with both an address and a size. -/
def OptionalHeader.located? (header : OptionalHeader) (index : Nat) : Option (Nat × Nat) :=
  (header.directories[index]?).filter fun (rva, size) => rva != 0 && size != 0

/-- The name in an entry of the section table: nothing unless it is text. -/
def sectionName (stored : Bytes) : String :=
  match Utf8.decode (stored.reverse.dropWhile (· == 0)).reverse with
  | .ok name => name
  | .error _ => ""

def ofSectionHeader (header : SectionHeader) : ImageSection :=
  ⟨sectionName header.name, header.virtualSize, header.virtualAddress, header.rawSize,
    header.rawPointer, header.characteristics⟩

/-- The image in a file with some headers, which have to locate a CLI header. -/
def ofHeaders (data : Bytes) (headers : Headers) : Except Error Image :=
  match headers.optional with
  | none => .error (.malformed .noOptionalHeader)
  | some optional =>
    match optional.located? cliDirectory with
    | none => .error (.malformed .noCliHeader)
    | some cli =>
      .ok {
        data
        machine := headers.machine
        characteristics := headers.characteristics
        is64 := optional.is64
        peOffset := headers.peOffset
        sectionTableOffset := headers.peOffset + 24 + headers.optionalSize
        fileAlignment := optional.fileAlignment
        sectionAlignment := optional.sectionAlignment
        headersSize := optional.headersSize
        sections := headers.sections.map ofSectionHeader
        cli
        debug := optional.located? debugDirectory }

def read [Parser] (data : Bytes) : Except Error Image :=
  if data.isEmpty then .error .emptyInput
  else
    match Parser.parse data with
    | none => .error .invalidImage
    | some headers => ofHeaders data headers

end NativeExports.Image
