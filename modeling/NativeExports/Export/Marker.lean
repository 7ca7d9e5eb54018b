import NativeExports.Library

/-!
# Markers

A marker is an attribute whose constructor belongs to a type of a certain name, wherever that type
is defined. The constructor is found through a member reference if the type is defined elsewhere,
or as a method if it is defined here.
-/

namespace NativeExports

structure Marker where
  row : Nat
  parent : Token
  type : Token
  deriving DecidableEq, Repr

namespace Marker

def typeName : String := "ArmaDllExportAttribute"

/-- The type that declares the constructor of an attribute, given as a column of the attribute. -/
def constructorOwner? (assembly : Assembly) (constructor : Nat) : Except Error (Option Token) := do
  match ← CodedKind.customAttributeType.decode constructor with
  | (.methodDef, row) =>
    if row = 0 then return none
    return some (Token.ofRow .typeDef (← assembly.ownerOf row))
  | (.memberRef, row) =>
    if row = 0 then return none
    let parent ← assembly.tables.value .memberRef row MemberRef.parentColumn
    match ← CodedKind.memberRefParent.decode parent with
    | (.typeRef, row) => return if row = 0 then none else some (Token.ofRow .typeRef row)
    | (.typeDef, row) => return if row = 0 then none else some (Token.ofRow .typeDef row)
    | _ => return none
  | _ => return none

/-- Namespace and name of a type, defined here or elsewhere. -/
def nameOf? (assembly : Assembly) (type : Token) : Except Error (Option (String × String)) :=
  match type.table? with
  | some .typeRef => some <$> assembly.nameOfTypeRef type.row
  | some .typeDef => some <$> assembly.nameOfTypeDef type.row
  | _ => .ok none

def ofRow? (assembly : Assembly) (row : Nat) : Except Error (Option Marker) := do
  let constructor ← assembly.tables.value .customAttribute row CustomAttribute.constructorColumn
  match ← constructorOwner? assembly constructor with
  | none => return none
  | some type =>
    match ← nameOf? assembly type with
    | none => return none
    | some (_, name) =>
      if name ≠ typeName then return none
      let stored ← assembly.tables.value .customAttribute row CustomAttribute.parentColumn
      let (table, parent) ← CodedKind.hasCustomAttribute.decode stored
      return some ⟨row, Token.ofRow table parent, type⟩

def all (assembly : Assembly) : Except Error (List Marker) := do
  return (← (assembly.rowNumbers .customAttribute).mapM (ofRow? assembly)).filterMap id

end Marker

end NativeExports
