import NativeExports.Export.EntryPoint
import NativeExports.Metadata.CodedKind
import NativeExports.Metadata.Token
import NativeExports.Text.Digits
import NativeExports.Text.Utf8

/-!
# Errors

Everything that can go wrong, as causes. `Error` names the kind of failure; failures that come in
many variants carry a cause of their own type: `Malformation` for input that breaks a format,
`Unsupported` for input that follows a format nobody writes, `Violation` for edits that would break
the image, `LayoutFault` for images that cannot be laid out and `FileFault` for refused file
operations. The wording of each is a function of the cause.
-/

namespace NativeExports

/-- An external program an injection needs. -/
inductive ToolKind where
  | assembler
  | disassembler
  deriving DecidableEq, Repr

def ToolKind.display : ToolKind → String
  | .assembler => "the IL assembler (ilasm)"
  | .disassembler => "the IL disassembler (ildasm)"

/-- Why a file operation was refused. -/
inductive FileFault where
  | notFound
  | permissionDenied
  | isADirectory
  | notADirectory
  | nameTooLong
  | noDevice
  | interrupted
  deriving DecidableEq, Repr, Inhabited

namespace FileFault

def name : FileFault → String
  | .notFound => "NotFound"
  | .permissionDenied => "PermissionDenied"
  | .isADirectory => "IsADirectory"
  | .notADirectory => "NotADirectory"
  | .nameTooLong => "InvalidFilename"
  | .noDevice => "Uncategorized"
  | .interrupted => "Interrupted"

def message : FileFault → String
  | .notFound => "No such file or directory (os error 2)"
  | .permissionDenied => "Permission denied (os error 13)"
  | .isADirectory => "Is a directory (os error 21)"
  | .notADirectory => "Not a directory (os error 20)"
  | .nameTooLong => "File name too long (os error 36)"
  | .noDevice => "No such device (os error 19)"
  | .interrupted => "Interrupted system call (os error 4)"

end FileFault

/-- How input can break the format it should follow. -/
inductive Malformation where
  | columnOverflow (value : Nat)
  | compressedLead (byte : Nat)
  | compressedToken (value : Nat)
  | compressedRange (value : Nat)
  | tokenTable (token : Token)
  | noOptionalHeader
  | noCliHeader
  | uninitializedAddress (rva : Nat) (sectionName : String)
  | unmappedAddress (rva : Nat)
  | missingRow (row : Nat) (table : Table)
  | missingColumn (column : Nat) (table : Table)
  | codedTag (tag : Nat) (kind : CodedKind)
  | codedTable (kind : CodedKind) (table : Table)
  | stringHeapLead
  | brokenString (index : Nat)
  | blobHeapLead
  | rootMagic (value : Nat)
  | streamCount (count : Nat)
  | streamExtent (offset size : Nat)
  | streamName
  | cliHeaderSize (size : Nat)
  | metadataLocation
  | attributeProlog (value : Nat)
  | signatureNesting
  | genericBase (byte : Nat)
  | elementType (byte : Nat)
  | opcodeWide (byte : Nat)
  | opcode (byte : Nat)
  | opcodeReserved (code : Nat)
  | bodyEmpty
  | bodyFormat (byte : Nat)
  | bodyHeaderSize (size : Nat)
  | bodySection (flags : Nat)
  | tinyCodeSize (size : Nat)
  | noTables
  | unownedMethod (row : Nat)
  | noCoreLibrary
  | listingLength (size : Nat)
  | listingUtf16 (reason : String)
  | listingUtf8 (fault : Utf8.Fault)
  deriving DecidableEq, Repr

/-- The deepest nesting of types in a signature, plus one. -/
def maxSignatureNesting : Nat := 50

def signatureRoom : Nat := maxSignatureNesting - 1

def Malformation.message : Malformation → String
  | .columnOverflow value =>
    s!"Index 0x{Text.upperHex value} does not fit into a 2 byte column"
  | .compressedLead byte => s!"Invalid compressed uint - {byte}"
  | .compressedToken value => s!"Invalid compressed token - {value}"
  | .compressedRange value => s!"Value too large for compressed encoding - {value}"
  | .tokenTable token => s!"Token {token} can not be encoded as TypeDefOrRef"
  | .noOptionalHeader => "File does not have an OptionalHeader"
  | .noCliHeader => "File does not have a CLR runtime header directory"
  | .uninitializedAddress rva name =>
    s!"RVA 0x{Text.upperHex rva} maps to uninitialized data of section {name}"
  | .unmappedAddress rva => s!"RVA could not be converted to offset - 0x{Text.upperHex rva}"
  | .missingRow row table => s!"Row {row} of {table.name} does not exist"
  | .missingColumn column table => s!"Column {column} of {table.name} does not exist"
  | .codedTag tag kind => s!"Invalid tag {tag} for coded index {kind.name}"
  | .codedTable kind table => s!"Coded index {kind.name} can not reference {table.name}"
  | .stringHeapLead => "Provided #String heap does not start with NUL"
  | .brokenString index => s!"Invalid string at index - {index}"
  | .blobHeapLead => "Provided #Blob heap does not start with an empty blob"
  | .rootMagic value => s!"CIL_HEADER_MAGIC does not match - {value}"
  | .streamCount count => s!"Invalid stream count - {count}"
  | .streamExtent offset size =>
    s!"Stream offset and size cause integer overflow - {offset} + {size}"
  | .streamName => "Stream header name is not terminated"
  | .cliHeaderSize size => s!"Invalid CLR header size: expected 72, got {size}"
  | .metadataLocation => "Metadata location cannot be zero"
  | .attributeProlog value =>
    s!"Invalid custom attribute prolog - expected 0x0001, got 0x{Text.upperHex value 4}"
  | .signatureNesting => s!"Signature nesting exceeds {maxSignatureNesting} levels"
  | .genericBase byte => s!"GENERICINST - Next byte is not TYPE_CLASS or TYPE_VALUE - {byte}"
  | .elementType byte => s!"Unsupported ELEMENT_TYPE - {byte}"
  | .opcodeWide byte => s!"Invalid opcode: FE {Text.upperHex byte 2}"
  | .opcode byte => s!"Invalid opcode: {Text.upperHex byte}"
  | .opcodeReserved code => s!"Reserved opcode: {Text.upperHex code 4}"
  | .bodyEmpty => "Provided data for body parsing is empty"
  | .bodyFormat byte => s!"MethodHeader is neither FAT nor TINY - {byte}"
  | .bodyHeaderSize size => s!"Fat method header too small - {size}"
  | .bodySection flags => s!"Unsupported method data section - 0x{Text.upperHex flags 2}"
  | .tinyCodeSize size => s!"Code size {size} exceeds the tiny header format"
  | .noTables => "Metadata has no '#~' tables stream"
  | .unownedMethod row => s!"MethodDef {row} is not owned by any type"
  | .noCoreLibrary => "Module does not reference a core library"
  | .listingLength size => s!"UTF-16 listing has an odd length of {size} bytes"
  | .listingUtf16 reason => s!"Invalid UTF-16 in listing - {reason}"
  | .listingUtf8 fault => s!"Invalid UTF-8 in listing - {fault.message}"

/-- Edits that would break the image or were asked for inconsistently. -/
inductive Violation where
  | removedToken (token : Token)
  | removedRow (source target : Table) (row : Nat)
  | rowCount (table : Table) (expected actual : Nat)
  | suppliedRows (count : Nat) (table : Table)
  | order (table : Table)
  | wrapperExists (container name : String)
  | noContainer
  | noContainerMethod
  deriving DecidableEq, Repr

def Violation.message : Violation → String
  | .removedToken token => s!"{token} still referenced after its removal"
  | .removedRow source target row =>
    s!"{source.name} still references removed {target.name} row {row}"
  | .rowCount table expected actual =>
    s!"row remap for {table.name} built for {expected} rows, table has {actual}"
  | .suppliedRows count table =>
    s!"{count} rows supplied for {table.name} do not match the row remap"
  | .order table => s!"invalid row order for {table.name}"
  | .wrapperExists container name =>
    s!"{container} already contains a method named '{name}'"
  | .noContainer => "wrapper container missing"
  | .noContainerMethod => "wrapper container has no method to attach the exports to"

/-- Variants of the metadata format that cannot be edited. -/
inductive Unsupported where
  | unknownTables (valid : Nat)
  | pointerTable (table : Table)
  | uncompressedTables
  deriving DecidableEq, Repr

/-- The wording of an unsupported variant, as the log has it. -/
def Unsupported.message : Unsupported → String
  | .unknownTables valid =>
    s!"Tables stream contains unknown tables (valid mask 0x{Text.upperHex valid 16})"
  | .pointerTable table => s!"Pointer table {table.name} present, unoptimized metadata"
  | .uncompressedTables => "Uncompressed metadata tables ('#-') are not supported"

/-- Why an output image cannot be laid out. -/
inductive LayoutFault where
  | headerRoom (headers first : Nat)
  | placement (value : Nat)
  | imageSize
  | movedOffset (offset : Nat)
  | write (count offset size : Nat)
  deriving DecidableEq, Repr

def LayoutFault.message : LayoutFault → String
  | .headerRoom headers first =>
    s!"no room for another section header (headers would end at 0x{Text.upperHex headers}, " ++
      s!"first section at RVA 0x{Text.upperHex first})"
  | .placement value => s!"section placement 0x{Text.upperHex value} exceeds 32 bits"
  | .imageSize => "SizeOfImage exceeds 32 bits"
  | .movedOffset offset => s!"relocated offset of 0x{Text.upperHex offset} exceeds 32 bits"
  | .write count offset size =>
    s!"write of {count} bytes at 0x{Text.upperHex offset} exceeds the output size " ++
      s!"0x{Text.upperHex size}"

/-- A failure of any operation. -/
inductive Error where
  | ambiguousArchitecture (machine corFlags : Nat)
  | unsupportedModuleKind
  | missingToolPath (tool : ToolKind)
  | duplicateExport (entryPoint : EntryPoint)
  | invalidExport (method : String) (entryPoint : EntryPoint)
  | unknownEntryPoint (value : Int)
  | invariant (violation : Violation)
  | toolFailure (tool : String) (code : Int) (stdout stderr : String)
  | toolSpawn (tool : String) (fault : FileFault)
  | alreadyInjected
  | outOfBounds
  | unsupported (variant : Unsupported)
  | emptyInput
  | layout (fault : LayoutFault)
  | malformed (cause : Malformation)
  | file (fault : FileFault)
  | invalidImage
  deriving DecidableEq, Repr

namespace Error

def name : Error → String
  | .ambiguousArchitecture .. => "AmbiguousArchitecture"
  | .unsupportedModuleKind => "UnsupportedModuleKind"
  | .missingToolPath _ => "MissingToolPath"
  | .duplicateExport _ => "DuplicateExportDeclaration"
  | .invalidExport .. => "InvalidExportSignature"
  | .unknownEntryPoint _ => "UnknownExportKind"
  | .invariant _ => "InvariantViolation"
  | .toolFailure .. => "ExternalToolFailure"
  | .toolSpawn .. => "ToolSpawn"
  | .alreadyInjected => "AlreadyInjected"
  | .outOfBounds => "OutOfBounds"
  | .unsupported _ => "NotSupported"
  | .emptyInput => "Empty"
  | .layout _ => "WriteLayout"
  | .malformed _ => "Malformed"
  | .file _ => "FileError"
  | .invalidImage => "InvalidImage"

def message : Error → String
  | .ambiguousArchitecture machine corFlags =>
    s!"Ambiguous architecture (machine 0x{Text.upperHex machine 4}, CLI flags " ++
      s!"0x{Text.upperHex corFlags 8}) - build the library for x86 or x64"
  | .unsupportedModuleKind => "Only libraries are supported"
  | .missingToolPath tool => s!"No usable path configured for {tool.display}"
  | .duplicateExport entryPoint =>
    s!"Multiple methods are marked for export as {entryPoint}; only one is allowed per kind"
  | .invalidExport method entryPoint =>
    s!"The export method '{method}' for {entryPoint} must be public and static"
  | .unknownEntryPoint value => s!"Unknown export kind value - {value}"
  | .invariant violation => s!"Invariant violated - {violation.message}"
  | .toolFailure tool code stdout stderr =>
    s!"Process '{tool}' exited with code {code}.\nOutput:\n{stdout}\nError:\n{stderr}"
  | .toolSpawn tool fault => s!"Failed to start '{tool}' - {fault.message}"
  | .alreadyInjected => "You can only inject into a library once"
  | .outOfBounds => "Out of Bound read would have occurred!"
  | .unsupported _ => "This file type is not supported"
  | .emptyInput => "Provided input was empty"
  | .layout fault => s!"Failed to lay out the output image - {fault.message}"
  | .malformed cause => s!"Malformed - {cause.message}"
  | .file fault => fault.message
  | .invalidImage => "Invalid image"

/-- The cause behind an error that is reported as a cause of its own, if there is one. -/
def source? : Error → Option String
  | .toolSpawn _ fault => some fault.message
  | .file fault => some fault.message
  | _ => none

end Error

end NativeExports
