/-!
# Flags of methods, parameters and types

The attributes of a method pack its accessibility into three bits and single properties into the
bits above (ECMA-335, II.23.1.10); its implementation flags tell in two bits what its body consists
of.
-/

namespace NativeExports

namespace MethodFlags

/-- The accessibility that attributes encode. -/
def access (flags : Nat) : Nat :=
  flags % 8

def publicAccess : Nat := 6

/-- Whether a method can be called from everywhere. -/
def isPublic (flags : Nat) : Bool :=
  access flags == publicAccess

/-- The attribute of a method without an instance. -/
def staticBit : Nat := 4

/-- Whether a method is called without an instance. -/
def isStatic (flags : Nat) : Bool :=
  flags.testBit staticBit

/-- The positions of the attributes with a meaning: static, final, virtual, hidden by signature, new
slot, abstract, special name, special name for the runtime, implemented elsewhere. -/
def modifierBits : List Nat :=
  [4, 5, 6, 7, 8, 10, 11, 12, 13]

/-- The part of the attributes that single bits with a meaning make up. -/
def modifiers (flags : Nat) : Nat :=
  (modifierBits.map fun bit => if flags.testBit bit then 2 ^ bit else 0).sum

/-- What a body consists of, according to implementation flags. -/
def codeKind (implFlags : Nat) : Nat :=
  implFlags % 4

/-- Whether a body consists of intermediate code. -/
def isIl (implFlags : Nat) : Bool :=
  codeKind implFlags == 0

end MethodFlags

/-- The attribute of a parameter with marshalling information. -/
def ParamFlags.hasFieldMarshal : Nat := 0x2000

/-- The attributes of a public type that cannot be extended. -/
def TypeFlags.publicSealed : Nat := 0x101

def NativeType.ansiText : UInt8 := 0x14

end NativeExports
