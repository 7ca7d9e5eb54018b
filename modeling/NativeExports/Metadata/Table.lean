/-!
# The metadata tables

The forty-five tables of ECMA-335, partition II. A table's number is its position in the list
`Table.all`; it is the high byte of a token and the table's bit in the masks of the tables stream.
-/

namespace NativeExports

inductive Table where
  | module
  | typeRef
  | typeDef
  | fieldPtr
  | field
  | methodPtr
  | methodDef
  | paramPtr
  | param
  | interfaceImpl
  | memberRef
  | constant
  | customAttribute
  | fieldMarshal
  | declSecurity
  | classLayout
  | fieldLayout
  | standAloneSig
  | eventMap
  | eventPtr
  | event
  | propertyMap
  | propertyPtr
  | property
  | methodSemantics
  | methodImpl
  | moduleRef
  | typeSpec
  | implMap
  | fieldRva
  | encLog
  | encMap
  | assembly
  | assemblyProcessor
  | assemblyOs
  | assemblyRef
  | assemblyRefProcessor
  | assemblyRefOs
  | file
  | exportedType
  | manifestResource
  | nestedClass
  | genericParam
  | methodSpec
  | genericParamConstraint
  deriving DecidableEq, Repr, Inhabited

namespace Table

def all : List Table :=
  [.module, .typeRef, .typeDef, .fieldPtr, .field, .methodPtr, .methodDef, .paramPtr, .param,
    .interfaceImpl, .memberRef, .constant, .customAttribute, .fieldMarshal, .declSecurity,
    .classLayout, .fieldLayout, .standAloneSig, .eventMap, .eventPtr, .event, .propertyMap,
    .propertyPtr, .property, .methodSemantics, .methodImpl, .moduleRef, .typeSpec, .implMap,
    .fieldRva, .encLog, .encMap, .assembly, .assemblyProcessor, .assemblyOs, .assemblyRef,
    .assemblyRefProcessor, .assemblyRefOs, .file, .exportedType, .manifestResource,
    .nestedClass, .genericParam, .methodSpec, .genericParamConstraint]

def number (table : Table) : Nat :=
  table.ctorIdx

def ofNumber? (n : Nat) : Option Table :=
  all[n]?

def name : Table → String
  | .module => "Module"
  | .typeRef => "TypeRef"
  | .typeDef => "TypeDef"
  | .fieldPtr => "FieldPtr"
  | .field => "Field"
  | .methodPtr => "MethodPtr"
  | .methodDef => "MethodDef"
  | .paramPtr => "ParamPtr"
  | .param => "Param"
  | .interfaceImpl => "InterfaceImpl"
  | .memberRef => "MemberRef"
  | .constant => "Constant"
  | .customAttribute => "CustomAttribute"
  | .fieldMarshal => "FieldMarshal"
  | .declSecurity => "DeclSecurity"
  | .classLayout => "ClassLayout"
  | .fieldLayout => "FieldLayout"
  | .standAloneSig => "StandAloneSig"
  | .eventMap => "EventMap"
  | .eventPtr => "EventPtr"
  | .event => "Event"
  | .propertyMap => "PropertyMap"
  | .propertyPtr => "PropertyPtr"
  | .property => "Property"
  | .methodSemantics => "MethodSemantics"
  | .methodImpl => "MethodImpl"
  | .moduleRef => "ModuleRef"
  | .typeSpec => "TypeSpec"
  | .implMap => "ImplMap"
  | .fieldRva => "FieldRVA"
  | .encLog => "EncLog"
  | .encMap => "EncMap"
  | .assembly => "Assembly"
  | .assemblyProcessor => "AssemblyProcessor"
  | .assemblyOs => "AssemblyOS"
  | .assemblyRef => "AssemblyRef"
  | .assemblyRefProcessor => "AssemblyRefProcessor"
  | .assemblyRefOs => "AssemblyRefOS"
  | .file => "File"
  | .exportedType => "ExportedType"
  | .manifestResource => "ManifestResource"
  | .nestedClass => "NestedClass"
  | .genericParam => "GenericParam"
  | .methodSpec => "MethodSpec"
  | .genericParamConstraint => "GenericParamConstraint"

/-- Whether the table is one of the indirections that only unoptimized metadata has. -/
def isPointer : Table → Bool
  | .fieldPtr | .methodPtr | .paramPtr | .eventPtr | .propertyPtr => true
  | _ => false

def bit (table : Table) : Nat :=
  2 ^ table.number

/-- Whether the bit of `table` is set in `mask`. -/
def isIn (table : Table) (mask : Nat) : Bool :=
  mask.testBit table.number

theorem number_lt (table : Table) : table.number < 45 := by
  cases table <;> decide

@[simp]
theorem ofNumber?_number (table : Table) : ofNumber? table.number = some table := by
  cases table <;> rfl

theorem mem_all (table : Table) : table ∈ all := by
  cases table <;> decide

theorem number_injective {a b : Table} (h : a.number = b.number) : a = b := by
  have ha := ofNumber?_number a
  rw [h, ofNumber?_number b] at ha
  exact (Option.some.inj ha).symm

theorem nodup_all : all.Nodup := by
  decide

end Table

end NativeExports
