/-!
# Element types

Types in signatures begin with a byte that says what they are (ECMA-335, II.23.1.16). Most types
are complete with that byte; the others are followed by tokens, numbers or further types.
-/

namespace NativeExports

/-- A type that takes a single byte. -/
inductive PrimitiveType where
  | void
  | boolean
  | char
  | int8
  | uint8
  | int16
  | uint16
  | int32
  | uint32
  | int64
  | uint64
  | float32
  | float64
  | string
  | typedByRef
  | native
  | unsignedNative
  | object
  deriving DecidableEq, Repr

namespace PrimitiveType

def all : List PrimitiveType :=
  [.void, .boolean, .char, .int8, .uint8, .int16, .uint16, .int32, .uint32, .int64, .uint64,
    .float32, .float64, .string, .typedByRef, .native, .unsignedNative, .object]

def byte : PrimitiveType → UInt8
  | .void => 0x01
  | .boolean => 0x02
  | .char => 0x03
  | .int8 => 0x04
  | .uint8 => 0x05
  | .int16 => 0x06
  | .uint16 => 0x07
  | .int32 => 0x08
  | .uint32 => 0x09
  | .int64 => 0x0A
  | .uint64 => 0x0B
  | .float32 => 0x0C
  | .float64 => 0x0D
  | .string => 0x0E
  | .typedByRef => 0x16
  | .native => 0x18
  | .unsignedNative => 0x19
  | .object => 0x1C

end PrimitiveType

/-- What the first byte of a type announces. -/
inductive ElementType where
  | primitive (type : PrimitiveType)
  | pointer
  | reference
  | valueType
  | classType
  | typeParameter
  | array
  | genericInstance
  | functionPointer
  | vector
  | methodParameter
  | requiredModifier
  | optionalModifier
  | sentinel
  | pinned
  deriving DecidableEq, Repr

namespace ElementType

/-- Every element type that more follows after. -/
def compound : List ElementType :=
  [.pointer, .reference, .valueType, .classType, .typeParameter, .array, .genericInstance,
    .functionPointer, .vector, .methodParameter, .requiredModifier, .optionalModifier, .sentinel,
    .pinned]

def all : List ElementType :=
  PrimitiveType.all.map .primitive ++ compound

def byte : ElementType → UInt8
  | .primitive type => type.byte
  | .pointer => 0x0F
  | .reference => 0x10
  | .valueType => 0x11
  | .classType => 0x12
  | .typeParameter => 0x13
  | .array => 0x14
  | .genericInstance => 0x15
  | .functionPointer => 0x1B
  | .vector => 0x1D
  | .methodParameter => 0x1E
  | .requiredModifier => 0x1F
  | .optionalModifier => 0x20
  | .sentinel => 0x41
  | .pinned => 0x45

def ofByte? (b : UInt8) : Option ElementType :=
  all.find? fun element => element.byte == b

/-- Whether the element type is a modifier of the type behind it. -/
def isModifier : ElementType → Bool
  | .requiredModifier | .optionalModifier => true
  | _ => false

/-- An element type is found again by its byte. -/
@[simp]
theorem ofByte?_byte (element : ElementType) : ofByte? element.byte = some element := by
  cases element with
  | primitive type => cases type <;> rfl
  | _ => rfl

theorem byte_of_ofByte? {b : UInt8} {element : ElementType} (h : ofByte? b = some element) :
    element.byte = b := by
  simpa using List.find?_some h

end ElementType

end NativeExports
