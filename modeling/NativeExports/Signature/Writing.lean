import NativeExports.Bytes.Compressed
import NativeExports.Signature.Basic

/-!
# Writing signatures

The stored form of a signature. Types nest at most `maxSignatureNesting - 1` levels deep, where a
function pointer counts as two levels: itself and its signature.
-/

namespace NativeExports

namespace SignatureWriter

/-- A way of storing types. -/
abbrev TypeWriter := SignatureType → Except Error Bytes

/-- The first byte of a signature. -/
def lead (signature : Signature) : UInt8 :=
  .ofNat (signature.convention % 16 +
    (if signature.hasThis then 2 ^ SignatureLead.hasThisBit else 0) +
    (if signature.explicitThis then 2 ^ SignatureLead.explicitThisBit else 0) +
    (if 0 < signature.genericCount then 2 ^ SignatureLead.genericBit else 0))

def types (type : TypeWriter) (items : List SignatureType) : Except Error Bytes := do
  return (← items.mapM type).flatten

def numbers (items : List Nat) : Except Error Bytes := do
  let count ← Compressed.encode items.length
  return count ++ (← items.mapM Compressed.encode).flatten

/-- Stores the signature of a method, given how to store a type. -/
def method (type : TypeWriter) (signature : Signature) : Except Error Bytes := do
  let genericCount ←
    if 0 < signature.genericCount then Compressed.encode signature.genericCount else pure []
  let count ← Compressed.encode (signature.params.length + signature.varargs.length)
  let result ← type signature.result
  let params ← types type signature.params
  let varargs ← types type signature.varargs
  let mark := if signature.varargs.isEmpty then [] else [ElementType.sentinel.byte]
  return [lead signature] ++ genericCount ++ count ++ result ++ params ++ mark ++ varargs

/-- Stores what follows the first byte of a type, given how to store the types inside and those
inside the signature of a function pointer. -/
def body (inner deep : TypeWriter) : SignatureType → Except Error (ElementType × Bytes)
  | .primitive type => return (.primitive type, [])
  | .pointer target => return (.pointer, ← inner target)
  | .reference target => return (.reference, ← inner target)
  | .vector item => return (.vector, ← inner item)
  | .pinned type => return (.pinned, ← inner type)
  | .valueType token => return (.valueType, ← Compressed.encodeToken token)
  | .classType token => return (.classType, ← Compressed.encodeToken token)
  | .typeParameter number => return (.typeParameter, ← Compressed.encode number)
  | .methodParameter number => return (.methodParameter, ← Compressed.encode number)
  | .array item rank sizes lowerBounds => do
    let item ← inner item
    let rank ← Compressed.encode rank
    let sizes ← numbers sizes
    let lowerBounds ← numbers lowerBounds
    return (.array, item ++ rank ++ sizes ++ lowerBounds)
  | .genericInstance base args => do
    let base ← inner base
    let count ← Compressed.encode args.length
    let args ← types inner args
    return (.genericInstance, base ++ count ++ args)
  | .functionPointer signature => return (.functionPointer, ← method deep signature)

/-- Stores a type, given how to store the types inside and those inside the signature of a function
pointer. -/
def typeOver (inner deep : TypeWriter) (type : SignatureType) : Except Error Bytes := do
  let (element, rest) ← body inner deep type
  return element.byte :: rest

/-- The refusal of types that nest too deeply. -/
def tooDeep : TypeWriter :=
  fun _ => .error (.malformed .signatureNesting)

/-- Stores a type with the given number of levels left. -/
def type : Nat → TypeWriter
  | 0 => tooDeep
  | 1 => typeOver tooDeep tooDeep
  | room + 2 => typeOver (type (room + 1)) (type room)

end SignatureWriter

def Signature.encode (signature : Signature) : Except Error Bytes :=
  SignatureWriter.method (SignatureWriter.type signatureRoom) signature

end NativeExports
