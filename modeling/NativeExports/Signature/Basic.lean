import NativeExports.Metadata.Token
import NativeExports.Signature.Element

/-!
# Signatures

The types of methods and of their parameters (ECMA-335, II.23.2). A function pointer holds the
signature of a method, so types and signatures refer to each other. Modifiers of types are not part
of the tree.
-/

namespace NativeExports

/-- The signature of a method over some representation of types. -/
structure SignatureOf (τ : Type) where
  hasThis : Bool
  explicitThis : Bool
  convention : Nat
  genericCount : Nat
  result : τ
  params : List τ
  varargs : List τ
  deriving DecidableEq, Repr, Inhabited

inductive SignatureType where
  | primitive (type : PrimitiveType)
  | pointer (target : SignatureType)
  | reference (target : SignatureType)
  | vector (item : SignatureType)
  | pinned (type : SignatureType)
  | valueType (token : Token)
  | classType (token : Token)
  | typeParameter (number : Nat)
  | methodParameter (number : Nat)
  | array (item : SignatureType) (rank : Nat) (sizes lowerBounds : List Nat)
  | genericInstance (base : SignatureType) (args : List SignatureType)
  | functionPointer (signature : SignatureOf SignatureType)
  deriving Repr

def SignatureType.isPrimitive (wanted : PrimitiveType) : SignatureType → Bool
  | .primitive type => type == wanted
  | _ => false

instance : Inhabited SignatureType := ⟨.primitive .void⟩

abbrev Signature := SignatureOf SignatureType

namespace SignatureOf

/-- The signature of a static method without generic parameters. -/
def static (convention : Nat) (result : τ) (params : List τ) : SignatureOf τ :=
  ⟨false, false, convention, 0, result, params, []⟩

end SignatureOf

namespace Convention

def managed : Nat := 0

/-- The calling convention of the native entry points on 32-bit targets. -/
def standardCall : Nat := 2

end Convention

/-! ## The first byte of a signature -/

namespace SignatureLead

def genericBit : Nat := 4

def hasThisBit : Nat := 5

/-- The bit of a signature whose first parameter is the instance. -/
def explicitThisBit : Nat := 6

def field : Nat := 6

/-- The first byte of the signature of local variables. -/
def locals : Nat := 7

/-- The low bits of the first byte of the signature of a property. -/
def property : Nat := 8

/-- The first byte of the signature of an instance of a generic method. -/
def methodInstance : Nat := 10

end SignatureLead

end NativeExports
