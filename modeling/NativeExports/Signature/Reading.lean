import NativeExports.Bytes.Compressed
import NativeExports.Signature.Basic

/-!
# Reading signatures

Signatures are read into trees. Modifiers in front of a type are skipped. Types nest at most
`maxSignatureNesting - 1` levels deep; the readers of types therefore take the number of levels
that are left, and a reader for one level is made from the reader for the types inside.
-/

namespace NativeExports

namespace SignatureReader

def isModifierByte (n : Nat) : Bool :=
  match ElementType.ofByte? (.ofNat n) with
  | some element => element.isModifier
  | none => false

def skipModifiers : Nat → Reader Unit
  | 0 => pure ()
  | count + 1 => do
    if (← Reader.remaining) = 0 then pure ()
    else if isModifierByte (← Reader.peek) then
      let _ ← Reader.byte
      let _ ← Compressed.readToken
      skipModifiers count
    else pure ()

def numbers : Reader (List Nat) := do
  let count ← Compressed.read
  Reader.times Compressed.read count

/-- Reads the parameters of a method: `count` in all, of which those behind the mark for variable
arguments are `varargs`. The parameters seen so far are in reverse order. -/
def parametersFrom (type : Reader SignatureType) (params varargs : List SignatureType)
    (marked : Bool) : Nat → Reader (List SignatureType × List SignatureType)
  | 0 => pure (params.reverse, varargs.reverse)
  | count + 1 => do
    let mark := (← Reader.peek) = ElementType.sentinel.byte.toNat
    if mark then
      let _ ← Reader.byte
    let param ← type
    if marked ∨ mark then parametersFrom type params (param :: varargs) true count
    else parametersFrom type (param :: params) varargs false count

/-- Reads the signature of a method, given how to read a type. -/
def method (type : Reader SignatureType) : Reader Signature := do
  let lead ← Reader.byte
  let genericCount ← if lead.testBit SignatureLead.genericBit then Compressed.read else pure 0
  let count ← Compressed.read
  let result ← type
  let (params, varargs) ← parametersFrom type [] [] false count
  return {
    hasThis := lead.testBit SignatureLead.hasThisBit
    explicitThis := lead.testBit SignatureLead.explicitThisBit
    convention := lead % 16
    genericCount, result, params, varargs }

/-- Reads an instance of a generic type, given how to read a type. Only classes and value types
have instances. -/
def genericInstance (type : Reader SignatureType) : Reader SignatureType := do
  let base ← Reader.peek
  if base ≠ ElementType.classType.byte.toNat ∧ base ≠ ElementType.valueType.byte.toNat then
    Reader.malformed (.genericBase base)
  let base ← type
  let count ← Compressed.read
  let args ← Reader.times type count
  return .genericInstance base args

def array (type : Reader SignatureType) : Reader SignatureType := do
  let item ← type
  let rank ← Compressed.read
  let sizes ← numbers
  let lowerBounds ← numbers
  return .array item rank sizes lowerBounds

/-- Reads what follows the first byte of a type, given how to read the types inside. -/
def body (inner : Reader SignatureType) (lead : Nat) : Reader SignatureType :=
  match ElementType.ofByte? (.ofNat lead) with
  | some (.primitive type) => return .primitive type
  | some .pointer => return .pointer (← inner)
  | some .reference => return .reference (← inner)
  | some .vector => return .vector (← inner)
  | some .pinned => return .pinned (← inner)
  | some .valueType => return .valueType (← Compressed.readToken)
  | some .classType => return .classType (← Compressed.readToken)
  | some .typeParameter => return .typeParameter (← Compressed.read)
  | some .methodParameter => return .methodParameter (← Compressed.read)
  | some .array => array inner
  | some .genericInstance => genericInstance inner
  | some .functionPointer => return .functionPointer (← method inner)
  | some .requiredModifier | some .optionalModifier | some .sentinel | none =>
    Reader.malformed (.elementType lead)

/-- Reads a type with the given number of levels left. -/
def type : Nat → Reader SignatureType
  | 0 => Reader.malformed .signatureNesting
  | room + 1 => do
    skipModifiers (← Reader.remaining)
    let lead ← Reader.byte
    body (type room) lead

end SignatureReader

def SignatureType.reader : Reader SignatureType :=
  SignatureReader.type signatureRoom

def Signature.reader : Reader Signature :=
  SignatureReader.method SignatureType.reader

end NativeExports
