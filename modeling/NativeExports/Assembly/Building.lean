import NativeExports.Assembly.Renumber

/-!
# Adding to an assembly

References and types are added behind the last row of their tables, which renumbers nothing. Methods
and parameters have to stay in the run of their owner and are put in at its end.
-/

namespace NativeExports

/-- A change of an assembly that may fail. -/
abbrev Edit := StateT Assembly (Except Error)

/-- A parameter to be added, with how it is marshalled if that is to be stated. -/
structure ParamDraft where
  name : String
  marshal : Option Bytes
  deriving DecidableEq, Repr

/-- A method to be added. The body has its header. -/
structure MethodDraft where
  flags : Nat
  implFlags : Nat
  name : String
  signature : Bytes
  params : List ParamDraft
  body : Bytes
  deriving DecidableEq, Repr

namespace Assembly

/-- Adds a name and tells its offset. -/
def internString (name : String) : Edit Nat := fun assembly =>
  let (index, strings) := assembly.strings.intern name
  .ok (index, { assembly with strings })

/-- Adds a blob and tells its offset. -/
def appendBlob (blob : Bytes) : Edit Nat := fun assembly => do
  let (index, blobs) ← assembly.blobs.append blob
  return (index, { assembly with blobs })

/-- Adds a row behind the last one of a table and tells its number. -/
def appendRow (table : Table) (row : Row) : Edit Nat := fun assembly =>
  let tables := assembly.tables.push table row
  .ok (tables.count table, { assembly with tables })

/-- Adds a reference to a type defined elsewhere. -/
def appendTypeRef (scope : Table × Nat) (space name : String) : Edit Nat := do
  let stored ← CodedKind.resolutionScope.encode scope.1 scope.2
  let name ← internString name
  let space ← internString space
  appendRow .typeRef [stored, name, space]

/-- Whether a row is a reference to a certain type. -/
def isTypeRef (assembly : Assembly) (scope : Nat) (space name : String) (row : Nat) :
    Except Error Bool := do
  if (← assembly.tables.value .typeRef row TypeRef.scopeColumn) ≠ scope then return false
  return (← assembly.nameOfTypeRef row) == (space, name)

/-- The reference to a type defined elsewhere, which is added unless it is there. -/
def typeRefFor (scope : Table × Nat) (space name : String) : Edit Nat := do
  let stored ← CodedKind.resolutionScope.encode scope.1 scope.2
  let assembly ← get
  let found ← monadLift <|
    (assembly.rowNumbers .typeRef).findM? (assembly.isTypeRef stored space name)
  match found with
  | some row => return row
  | none => appendTypeRef scope space name

/-- Whether a row is a reference to a certain member. -/
def isMemberRef (assembly : Assembly) (parent : Nat) (name : String) (signature : Bytes)
    (row : Nat) : Except Error Bool := do
  if (← assembly.tables.value .memberRef row MemberRef.parentColumn) ≠ parent then return false
  if (← assembly.columnString .memberRef row MemberRef.nameColumn) ≠ name then return false
  return (← assembly.columnBlob .memberRef row MemberRef.signatureColumn) == signature

/-- The reference to a member of a type, which is added unless it is there. -/
def memberRefFor (parent : Table × Nat) (name : String) (signature : Bytes) : Edit Nat := do
  let stored ← CodedKind.memberRefParent.encode parent.1 parent.2
  let assembly ← get
  let found ← monadLift <|
    (assembly.rowNumbers .memberRef).findM? (assembly.isMemberRef stored name signature)
  match found with
  | some row => return row
  | none =>
    let name ← internString name
    let signature ← appendBlob signature
    appendRow .memberRef [stored, name, signature]

/-- Adds a type without any members. -/
def appendTypeDef (flags : Nat) (space name : String) (baseType : Table × Nat) : Edit Nat := do
  let base ← CodedKind.typeDefOrRef.encode baseType.1 baseType.2
  let name ← internString name
  let space ← internString space
  let tables := (← get).tables
  appendRow .typeDef
    [flags, name, space, base, tables.count .field + 1, tables.count .methodDef + 1]

/-- Renumbers rows and puts rows in. -/
def renumberWith (renumbering : Renumbering) (inserted : List Row) : Edit Unit := do
  set (← (← get).renumber renumbering inserted)

/-- The rows of parameters, of which the first one has number `sequence`. -/
def paramRows (sequence : Nat) : List ParamDraft → Edit (List Row)
  | [] => pure []
  | param :: rest => do
    let flags := if param.marshal.isSome then ParamFlags.hasFieldMarshal else 0
    let name ← internString param.name
    let rows ← paramRows (sequence + 1) rest
    return [flags, sequence, name] :: rows

/-- Adds the marshalling of parameters, of which the first one has row `row`. -/
def addMarshalling (row : Nat) : List ParamDraft → Edit Unit
  | [] => pure ()
  | param :: rest => do
    if let some type := param.marshal then
      let parent ← CodedKind.hasFieldMarshal.encode .param row
      let type ← appendBlob type
      let _ ← appendRow .fieldMarshal [parent, type]
    addMarshalling (row + 1) rest

/-- Adds parameters behind those of a method. -/
def insertParams (method : Nat) (params : List ParamDraft) : Edit Unit := do
  let assembly ← get
  let position := (← assembly.paramRun method).2
  let rows ← paramRows 1 params
  renumberWith
    (Renumbering.insertion .param (assembly.tables.count .param) position params.length
      (some (.methodDef, method)))
    rows
  addMarshalling position params

/-- The first parameter of a method that is put in at a row: its parameters come in front of those
of the method that stood there. -/
def firstParam (tables : Tables) (position : Nat) : Except Error Nat :=
  if position ≤ tables.count .methodDef then
    tables.value .methodDef position MethodDef.paramColumn
  else .ok (tables.count .param + 1)

/-- Adds a method behind those of a type and tells its row. Its body is kept aside, and it has no
address until the assembly is written. -/
def insertMethod (typeDef : Nat) (method : MethodDraft) : Edit Nat := do
  let assembly ← get
  let position := (← assembly.methodRun typeDef).2
  let param ← firstParam assembly.tables position
  let name ← internString method.name
  let signature ← appendBlob method.signature
  renumberWith
    (Renumbering.insertion .methodDef (assembly.tables.count .methodDef) position 1
      (some (.typeDef, typeDef)))
    [[0, method.implFlags, method.flags, name, signature, param]]
  modify fun assembly => assembly.setBody position method.body
  if !method.params.isEmpty then insertParams position method.params
  return position

end Assembly

end NativeExports
