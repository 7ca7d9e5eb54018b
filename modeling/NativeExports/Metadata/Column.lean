import NativeExports.Metadata.CodedKind

/-!
# Columns of the metadata tables

Every row of a table has the same columns, one number each (ECMA-335, II.22). What a number means
is the kind of its column: a constant, an offset into a heap, a row of another table, the first row
of a run in another table, or a coded index. All references between rows are found through these
kinds, so the lists below decide what renumbering touches.
-/

namespace NativeExports

inductive ColumnKind where
  | u16
  | u32
  | string
  | guid
  | blob
  | index (target : Table)
  | list (target : Table)
  | coded (kind : CodedKind)
  deriving DecidableEq, Repr, Inhabited

namespace Table

def columns : Table → List ColumnKind
  | .module => [.u16, .string, .guid, .guid, .guid]
  | .typeRef => [.coded .resolutionScope, .string, .string]
  | .typeDef => [.u32, .string, .string, .coded .typeDefOrRef, .list .field, .list .methodDef]
  | .fieldPtr => [.index .field]
  | .field => [.u16, .string, .blob]
  | .methodPtr => [.index .methodDef]
  | .methodDef => [.u32, .u16, .u16, .string, .blob, .list .param]
  | .paramPtr => [.index .param]
  | .param => [.u16, .u16, .string]
  | .interfaceImpl => [.index .typeDef, .coded .typeDefOrRef]
  | .memberRef => [.coded .memberRefParent, .string, .blob]
  | .constant => [.u16, .coded .hasConstant, .blob]
  | .customAttribute => [.coded .hasCustomAttribute, .coded .customAttributeType, .blob]
  | .fieldMarshal => [.coded .hasFieldMarshal, .blob]
  | .declSecurity => [.u16, .coded .hasDeclSecurity, .blob]
  | .classLayout => [.u16, .u32, .index .typeDef]
  | .fieldLayout => [.u32, .index .field]
  | .standAloneSig => [.blob]
  | .eventMap => [.index .typeDef, .list .event]
  | .eventPtr => [.index .event]
  | .event => [.u16, .string, .coded .typeDefOrRef]
  | .propertyMap => [.index .typeDef, .list .property]
  | .propertyPtr => [.index .property]
  | .property => [.u16, .string, .blob]
  | .methodSemantics => [.u16, .index .methodDef, .coded .hasSemantics]
  | .methodImpl => [.index .typeDef, .coded .methodDefOrRef, .coded .methodDefOrRef]
  | .moduleRef => [.string]
  | .typeSpec => [.blob]
  | .implMap => [.u16, .coded .memberForwarded, .string, .index .moduleRef]
  | .fieldRva => [.u32, .index .field]
  | .encLog => [.u32, .u32]
  | .encMap => [.u32]
  | .assembly => [.u32, .u16, .u16, .u16, .u16, .u32, .blob, .string, .string]
  | .assemblyProcessor => [.u32]
  | .assemblyOs => [.u32, .u32, .u32]
  | .assemblyRef => [.u16, .u16, .u16, .u16, .u32, .blob, .string, .string, .blob]
  | .assemblyRefProcessor => [.u32, .index .assemblyRef]
  | .assemblyRefOs => [.u32, .u32, .u32, .index .assemblyRef]
  | .file => [.u32, .string, .blob]
  | .exportedType => [.u32, .u32, .string, .string, .coded .implementation]
  | .manifestResource => [.u32, .u32, .string, .coded .implementation]
  | .nestedClass => [.index .typeDef, .index .typeDef]
  | .genericParam => [.u16, .u16, .coded .typeOrMethodDef, .string]
  | .methodSpec => [.coded .methodDefOrRef, .blob]
  | .genericParamConstraint => [.index .genericParam, .coded .typeDefOrRef]

/-- The columns a table must be sorted by, the most significant first. -/
def orderKey? : Table → Option (List Nat)
  | .interfaceImpl => some [0, 1]
  | .constant => some [1]
  | .customAttribute => some [0]
  | .fieldMarshal => some [0]
  | .declSecurity => some [1]
  | .classLayout => some [2]
  | .fieldLayout => some [1]
  | .methodSemantics => some [2]
  | .methodImpl => some [0]
  | .implMap => some [1]
  | .fieldRva => some [1]
  | .nestedClass => some [0]
  | .genericParam => some [2, 0]
  | .genericParamConstraint => some [0]
  | _ => none

end Table

/-! ## Columns that are used by name -/

def TypeRef.scopeColumn : Nat := 0

def TypeRef.nameColumn : Nat := 1

def TypeRef.namespaceColumn : Nat := 2

def TypeDef.flagsColumn : Nat := 0

def TypeDef.nameColumn : Nat := 1

def TypeDef.namespaceColumn : Nat := 2

def TypeDef.methodColumn : Nat := 5

def MethodDef.rvaColumn : Nat := 0

def MethodDef.implFlagsColumn : Nat := 1

def MethodDef.flagsColumn : Nat := 2

def MethodDef.nameColumn : Nat := 3

def MethodDef.signatureColumn : Nat := 4

def MethodDef.paramColumn : Nat := 5

def MemberRef.parentColumn : Nat := 0

def MemberRef.nameColumn : Nat := 1

def MemberRef.signatureColumn : Nat := 2

def CustomAttribute.parentColumn : Nat := 0

def CustomAttribute.constructorColumn : Nat := 1

def CustomAttribute.valueColumn : Nat := 2

def AssemblyRef.nameColumn : Nat := 6

end NativeExports
