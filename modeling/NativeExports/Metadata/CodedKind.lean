import NativeExports.Metadata.Table

/-!
# Coded index kinds

A coded index names a row of one of several tables: its low bits, the tag, select the table and the
bits above hold the row number. Each kind of coded index has its own list of tables; a table's tag
is its position in that list.
-/

namespace NativeExports

/-- The kinds of coded indices of ECMA-335, partition II. -/
inductive CodedKind where
  | typeDefOrRef
  | hasConstant
  | hasCustomAttribute
  | hasFieldMarshal
  | hasDeclSecurity
  | memberRefParent
  | hasSemantics
  | methodDefOrRef
  | memberForwarded
  | implementation
  | customAttributeType
  | resolutionScope
  | typeOrMethodDef
  deriving DecidableEq, Repr, Inhabited

namespace CodedKind

def all : List CodedKind :=
  [.typeDefOrRef, .hasConstant, .hasCustomAttribute, .hasFieldMarshal, .hasDeclSecurity,
    .memberRefParent, .hasSemantics, .methodDefOrRef, .memberForwarded, .implementation,
    .customAttributeType, .resolutionScope, .typeOrMethodDef]

def name : CodedKind → String
  | .typeDefOrRef => "TypeDefOrRef"
  | .hasConstant => "HasConstant"
  | .hasCustomAttribute => "HasCustomAttribute"
  | .hasFieldMarshal => "HasFieldMarshal"
  | .hasDeclSecurity => "HasDeclSecurity"
  | .memberRefParent => "MemberRefParent"
  | .hasSemantics => "HasSemantics"
  | .methodDefOrRef => "MethodDefOrRef"
  | .memberForwarded => "MemberForwarded"
  | .implementation => "Implementation"
  | .customAttributeType => "CustomAttributeType"
  | .resolutionScope => "ResolutionScope"
  | .typeOrMethodDef => "TypeOrMethodDef"

/-- The tables of a kind in tag order. An attribute constructor has five tags of which only two
are in use, those of `methodDef` and `memberRef` at positions 2 and 3; the others repeat these
tables so that the number of tags, and with it the width of the tag, comes out right. -/
def tables : CodedKind → List Table
  | .typeDefOrRef => [.typeDef, .typeRef, .typeSpec]
  | .hasConstant => [.field, .param, .property]
  | .hasCustomAttribute =>
    [.methodDef, .field, .typeRef, .typeDef, .param, .interfaceImpl, .memberRef, .module,
      .declSecurity, .property, .event, .standAloneSig, .moduleRef, .typeSpec, .assembly,
      .assemblyRef, .file, .exportedType, .manifestResource, .genericParam,
      .genericParamConstraint, .methodSpec]
  | .hasFieldMarshal => [.field, .param]
  | .hasDeclSecurity => [.typeDef, .methodDef, .assembly]
  | .memberRefParent => [.typeDef, .typeRef, .moduleRef, .methodDef, .typeSpec]
  | .hasSemantics => [.event, .property]
  | .methodDefOrRef => [.methodDef, .memberRef]
  | .memberForwarded => [.field, .methodDef]
  | .implementation => [.file, .assemblyRef, .exportedType]
  | .customAttributeType => [.methodDef, .methodDef, .methodDef, .memberRef, .memberRef]
  | .resolutionScope => [.module, .moduleRef, .assemblyRef, .typeRef]
  | .typeOrMethodDef => [.typeDef, .methodDef]

/-- The number of tag bits: the fewest that tell the tables of the kind apart. -/
def tagWidth (kind : CodedKind) : Nat :=
  Nat.log2 (kind.tables.length - 1) + 1

/-- The tag of a table, if the kind can name its rows. -/
def tag? (kind : CodedKind) (table : Table) : Option Nat :=
  match kind, table with
  | .customAttributeType, .methodDef => some 2
  | .customAttributeType, .memberRef => some 3
  | .customAttributeType, _ => none
  | kind, table => kind.tables.findIdx? (· == table)

/-- The table a tag selects, if the tag is in use. -/
def table? (kind : CodedKind) (tag : Nat) : Option Table :=
  match kind, tag with
  | .customAttributeType, 2 => some .methodDef
  | .customAttributeType, 3 => some .memberRef
  | .customAttributeType, _ => none
  | kind, tag => kind.tables[tag]?

/-- Whether the kind can name rows of `table`. -/
def contains (kind : CodedKind) (table : Table) : Bool :=
  (kind.tag? table).isSome

theorem tag_lt {kind : CodedKind} {table : Table} {tag : Nat} (h : kind.tag? table = some tag) :
    tag < 2 ^ kind.tagWidth := by
  have hall : (kind.tag? table).all (fun t => decide (t < 2 ^ kind.tagWidth)) = true := by
    cases kind <;> cases table <;> rfl
  simpa [h] using hall

/-- A table is found again under its tag. -/
theorem table?_of_tag? {kind : CodedKind} {table : Table} {tag : Nat}
    (h : kind.tag? table = some tag) : kind.table? tag = some table := by
  have hall : (kind.tag? table).all (fun t => decide (kind.table? t = some table)) = true := by
    cases kind <;> cases table <;> rfl
  simpa [h] using hall

end CodedKind

end NativeExports
