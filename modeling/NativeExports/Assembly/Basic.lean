import NativeExports.Code.MethodBody
import NativeExports.Image.Basic
import NativeExports.Metadata.BlobHeap
import NativeExports.Metadata.Block
import NativeExports.Metadata.CliHeader
import NativeExports.Metadata.CodedIndex
import NativeExports.Metadata.MethodFlags
import NativeExports.Metadata.StringHeap

/-!
# Assemblies

An assembly is an image together with its metadata, taken apart for editing. Method bodies stay in
the image; those of methods that are added during an edit are kept aside until the assembly is
written.
-/

namespace NativeExports

/-- An assembly that can be edited. The image has the bodies of its methods up to date, and the CLI
header its entry point. The bodies of added methods come with their rows, in ascending order. -/
structure Assembly where
  image : Image
  cli : CliHeader
  version : String
  rootFlags : Nat
  tables : Tables
  strings : StringHeap
  blobs : BlobHeap
  guids : Bytes
  userStrings : Bytes
  addedBodies : List (Nat × Bytes)

namespace Assembly

def heaps (assembly : Assembly) : Heaps :=
  ⟨assembly.strings.data, assembly.userStrings, assembly.guids, assembly.blobs.data⟩

/-- The token of the method that runs first. -/
def entryPoint (assembly : Assembly) : Token :=
  ⟨assembly.cli.entryPoint⟩

/-- Sets the body of row `method` in a list in ascending order of the rows. -/
def insertBody (method : Nat) (body : Bytes) : List (Nat × Bytes) → List (Nat × Bytes)
  | [] => [(method, body)]
  | (row, other) :: rest =>
    if method < row then (method, body) :: (row, other) :: rest
    else if method = row then (method, body) :: rest
    else (row, other) :: insertBody method body rest

/-- Sets the body of an added method. -/
def setBody (assembly : Assembly) (method : Nat) (body : Bytes) : Assembly :=
  { assembly with addedBodies := insertBody method body assembly.addedBodies }

/-! ## Names and blobs of rows -/

/-- The name that a column of a row refers to. -/
def columnString (assembly : Assembly) (table : Table) (row column : Nat) :
    Except Error String := do
  assembly.strings.get (← assembly.tables.value table row column)

def columnBlob (assembly : Assembly) (table : Table) (row column : Nat) : Except Error Bytes := do
  assembly.blobs.get (← assembly.tables.value table row column)

/-- The namespace and the name of a row, from the columns that hold them. -/
def qualifiedName (assembly : Assembly) (table : Table) (spaceColumn nameColumn row : Nat) :
    Except Error (String × String) := do
  let space ← assembly.columnString table row spaceColumn
  let name ← assembly.columnString table row nameColumn
  return (space, name)

def nameOfTypeDef (assembly : Assembly) : Nat → Except Error (String × String) :=
  assembly.qualifiedName .typeDef TypeDef.namespaceColumn TypeDef.nameColumn

def nameOfTypeRef (assembly : Assembly) : Nat → Except Error (String × String) :=
  assembly.qualifiedName .typeRef TypeRef.namespaceColumn TypeRef.nameColumn

/-- The numbers of the rows of a table. -/
def rowNumbers (assembly : Assembly) (table : Table) : List Nat :=
  List.range' 1 (assembly.tables.count table)

/-- The first row of a table of which `view` gives a certain value. -/
def findRow? [BEq α] (assembly : Assembly) (table : Table) (view : Nat → Except Error α)
    (wanted : α) : Option Nat :=
  (assembly.rowNumbers table).find? fun row =>
    match view row with
    | .ok found => found == wanted
    | .error _ => false

/-- The first type defined here with a given namespace and name. -/
def typeDefNamed? (assembly : Assembly) (space name : String) : Option Nat :=
  assembly.findRow? .typeDef assembly.nameOfTypeDef (space, name)

/-- The first type defined elsewhere with a given namespace and name. -/
def typeRefNamed? (assembly : Assembly) (space name : String) : Option Nat :=
  assembly.findRow? .typeRef assembly.nameOfTypeRef (space, name)

def assemblyRefNamed? (assembly : Assembly) (name : String) : Option Nat :=
  assembly.findRow? .assemblyRef
    (fun row => assembly.columnString .assemblyRef row AssemblyRef.nameColumn) name

/-! ## Structure -/

/-- Follows the scopes of type references, at most `count` of them, to one that is none. -/
def scopeFrom (tables : Tables) : Nat → Nat → Except Error (Option (Table × Nat))
  | 0, _ => .ok none
  | count + 1, row => do
    let stored ← tables.value .typeRef row TypeRef.scopeColumn
    match ← CodedKind.resolutionScope.decode stored with
    | (_, 0) => return none
    | (.typeRef, next) => scopeFrom tables count next
    | found => return some found

/-- Where a type reference is resolved in the end. A type nested in another one has that type as its
scope; there is no answer if the scopes run into nothing or in circles. -/
def resolvingScope (assembly : Assembly) (typeRef : Nat) : Except Error (Option (Table × Nat)) :=
  scopeFrom assembly.tables (assembly.tables.count .typeRef + 1) typeRef

/-- The methods of a type: the first row and the row behind the last one. -/
def methodRun (assembly : Assembly) (typeDef : Nat) : Except Error (Nat × Nat) :=
  assembly.tables.runOf .typeDef typeDef TypeDef.methodColumn .methodDef

/-- The parameters of a method: the first row and the row behind the last one. -/
def paramRun (assembly : Assembly) (method : Nat) : Except Error (Nat × Nat) :=
  assembly.tables.runOf .methodDef method MethodDef.paramColumn .param

/-- The first of some types that has the given method. -/
def ownerAmong (assembly : Assembly) (method : Nat) : List Nat → Except Error Nat
  | [] => .error (.malformed (.unownedMethod method))
  | typeDef :: rest => do
    let (start, stop) ← assembly.methodRun typeDef
    if start ≤ method ∧ method < stop then return typeDef
    else ownerAmong assembly method rest

/-- The type a method belongs to. -/
def ownerOf (assembly : Assembly) (method : Nat) : Except Error Nat :=
  assembly.ownerAmong method (assembly.rowNumbers .typeDef)

/-! ## Method bodies in the image -/

/-- The address of the body of a method, if it has one in the image that consists of intermediate
code. -/
def bodyRva? (row : Row) : Option Nat :=
  let rva := row.getD MethodDef.rvaColumn 0
  if rva ≠ 0 ∧ MethodFlags.isIl (row.getD MethodDef.implFlagsColumn 0) then some rva else none

/-- Drops every number that equals the one in front of it. -/
def dropRepeats : List Nat → List Nat
  | [] => []
  | [n] => [n]
  | m :: n :: rest => if m = n then dropRepeats (n :: rest) else m :: dropRepeats (n :: rest)

/-- The addresses of the bodies in the image, each once and in ascending order. -/
def bodyRvas (assembly : Assembly) : List Nat :=
  dropRepeats (((assembly.tables.rows .methodDef).filterMap bodyRva?).mergeSort (· ≤ ·))

/-- Where the bodies stand in the file. -/
def bodyOffsets (assembly : Assembly) : Except Error (List Nat) :=
  assembly.bodyRvas.mapM assembly.image.offsetOf

/-- The layout of the body at a position of the file. -/
def bodyFrom (image : Image) (offset : Nat) : Except Error MethodBody :=
  if offset ≤ image.data.length then MethodBody.read (image.data.drop offset)
  else .error .outOfBounds

end Assembly

end NativeExports
