import NativeExports.Architecture
import NativeExports.Assembly.Loading
import NativeExports.Export.Candidate
import NativeExports.Host.Job
import NativeExports.Image.Reading

/-!
# Libraries

A library is an assembly that was opened from a file, together with what is known about that file:
the architecture it is pinned to, whether it has debug information, and the file with its debug
symbols. Images that are no libraries, or that are pinned to no architecture, are refused.
-/

namespace NativeExports

structure Library where
  path : String
  architecture : Architecture
  hasDebugInfo : Bool
  companion : Option String
  assembly : Assembly
  isInjected : Bool

/-- A type of a library, with its first method and the row behind its last one. -/
structure TypeSummary where
  token : Token
  space : String
  name : String
  flags : Nat
  methods : Nat × Nat

structure MethodSummary where
  token : Token
  name : String
  flags : Nat
  signature : Bytes

namespace Assembly

/-- A type defined here. -/
def typeSummary (assembly : Assembly) (row : Nat) : Except Error TypeSummary := do
  let (space, name) ← assembly.nameOfTypeDef row
  let flags ← assembly.tables.value .typeDef row TypeDef.flagsColumn
  let methods ← assembly.methodRun row
  return ⟨Token.ofRow .typeDef row, space, name, flags, methods⟩

def types (assembly : Assembly) : Except Error (List TypeSummary) :=
  (assembly.rowNumbers .typeDef).mapM assembly.typeSummary

/-- A method defined here. -/
def methodSummary (assembly : Assembly) (row : Nat) : Except Error MethodSummary := do
  let name ← assembly.columnString .methodDef row MethodDef.nameColumn
  let flags ← assembly.tables.value .methodDef row MethodDef.flagsColumn
  let signature ← assembly.columnBlob .methodDef row MethodDef.signatureColumn
  return ⟨Token.ofRow .methodDef row, name, flags, signature⟩

/-- The methods of a type, in order. -/
def methodsOf (assembly : Assembly) (type : TypeSummary) : Except Error (List MethodSummary) :=
  (List.range' type.methods.1 (type.methods.2 - type.methods.1)).mapM assembly.methodSummary

def qualifiedMethodName (assembly : Assembly) (method : Nat) : Except Error String := do
  let (space, typeName) ← assembly.nameOfTypeDef (← assembly.ownerOf method)
  let name ← assembly.columnString .methodDef method MethodDef.nameColumn
  return memberName space typeName name

end Assembly

namespace Library

/-- The debug symbols next to a library, if there are any. -/
def findCompanion (path : String) : Job (Option String) := do
  let symbols := Path.replaceExtension path "pdb"
  if ← Job.isFile symbols then
    Logged.info s!"Using debug symbols from {symbols}"
    return some symbols
  else return none

def load [Image.Parser] (path : String) : Job Library := do
  let image ← Image.read (← Job.mapFile path)
  if !image.isLibrary then Job.fail .unsupportedModuleKind
  let assembly ← Assembly.load image
  let flags := assembly.cli.flags
  let architecture := Architecture.detect image.machine flags
  if architecture = .ambiguous then Job.fail (.ambiguousArchitecture image.machine flags)
  let companion ← findCompanion path
  let hasDebugInfo := image.debug.isSome
  Logged.debug s!"Opened {path} ({architecture}, debug info: {hasDebugInfo})"
  return { path, architecture, hasDebugInfo, companion, assembly, isInjected := false }

end Library

end NativeExports
