import NativeExports.Bytes.Compressed
import NativeExports.Signature.Basic

/-!
# Tokens in signatures

A stored signature is cut into pieces: tokens, and the bytes between them. The cut follows the same
grammar as reading into trees, but covers every kind of signature and keeps modifiers. Replacing
tokens then acts on the pieces alone, so everything between the tokens is carried over byte for
byte.

A walk over a signature collects pieces until it fails or is done. The pieces in front of a failure
are kept, because the replacement of a token may fail before the walk does.
-/

namespace NativeExports

inductive Piece where
  | raw (data : Bytes)
  | token (named : Token) (stored : Bytes)
  deriving DecidableEq, Repr

namespace Piece

def bytes : Piece → Bytes
  | .raw data => data
  | .token _ stored => stored

def token? : Piece → Option Token
  | .raw _ => none
  | .token named _ => some named

/-- The bytes of a piece after its token is replaced. -/
def mapToken (map : Token → Except Error Token) : Piece → Except Error Bytes
  | .raw data => .ok data
  | .token named _ => do Compressed.encodeToken (← map named)

end Piece

/-- A walk over the front of a byte string: the pieces passed, and the result with the bytes left.
-/
def Walk (α : Type) := Bytes → List Piece × Except Error (α × Bytes)

namespace Walk

instance : Monad Walk where
  pure a := fun data => ([], .ok (a, data))
  bind walk next := fun data =>
    match walk data with
    | (pieces, .ok (a, rest)) =>
      let (more, outcome) := next a rest
      (pieces ++ more, outcome)
    | (pieces, .error e) => (pieces, .error e)

/-- Fails because the signature breaks the grammar. -/
def malformed (cause : Malformation) : Walk α :=
  fun _ => ([], .error (.malformed cause))

/-- Passes what a reader consumes as a single piece. -/
def pass (reader : Reader α) (piece : α → Bytes → Piece) : Walk α := fun data =>
  match reader data with
  | .ok a rest => ([piece a (data.take (data.length - rest.length))], .ok (a, rest))
  | .error e _ => ([], .error e)

def byte : Walk Nat :=
  pass Reader.byte fun _ => .raw

def number : Walk Nat :=
  pass Compressed.read fun _ => .raw

def token : Walk Unit := do
  let _ ← pass Compressed.readToken .token
  pure ()

/-- Looks at the next byte without passing it. -/
def peek : Walk Nat := fun data =>
  match data with
  | [] => ([], .error .outOfBounds)
  | b :: _ => ([], .ok (b.toNat, data))

def times (walk : Walk Unit) : Nat → Walk Unit
  | 0 => pure ()
  | count + 1 => do
    walk
    times walk count

def numbers : Walk Unit := do
  let count ← number
  times (do let _ ← number) count

/-- Passes the signature of a method, given how to pass a type. -/
def method (type : Walk Unit) : Walk Unit := do
  let lead ← byte
  if lead.testBit SignatureLead.genericBit then
    let _ ← number
  let count ← number
  type
  times type count

/-- Passes what follows the first byte of a type, given how to pass the types inside. A modifier
and the mark for variable arguments are followed by a type. -/
def body (inner : Walk Unit) (lead : Nat) : Walk Unit :=
  match ElementType.ofByte? (.ofNat lead) with
  | some (.primitive _) => pure ()
  | some .pointer | some .reference | some .vector | some .pinned | some .sentinel => inner
  | some .valueType | some .classType => token
  | some .typeParameter | some .methodParameter => do
    let _ ← number
  | some .requiredModifier | some .optionalModifier => do
    token
    inner
  | some .array => do
    inner
    let _ ← number
    numbers
    numbers
  | some .genericInstance => do
    let base ← byte
    if base ≠ ElementType.classType.byte.toNat ∧ base ≠ ElementType.valueType.byte.toNat then
      malformed (.genericBase base)
    token
    let count ← number
    times inner count
  | some .functionPointer => method inner
  | none => malformed (.elementType lead)

/-- Passes a type with the given number of levels left. -/
def type : Nat → Walk Unit
  | 0 => malformed .signatureNesting
  | room + 1 => do
    let lead ← byte
    body (type room) lead

/-- Passes a signature of any kind, given how to pass a type. -/
def signature (type : Walk Unit) : Walk Unit := do
  let lead ← peek
  if lead = SignatureLead.field then
    let _ ← byte
    type
  else if lead = SignatureLead.locals ∨ lead = SignatureLead.methodInstance then
    let _ ← byte
    let count ← number
    times type count
  else if lead % 16 = SignatureLead.property then
    let _ ← byte
    let count ← number
    type
    times type count
  else method type

end Walk

inductive BlobForm where
  | type
  | signature
  deriving DecidableEq, Repr

namespace BlobForm

/-- Passes a blob of this shape. -/
def walk : BlobForm → Walk Unit
  | .type => Walk.type signatureRoom
  | .signature => Walk.signature (Walk.type signatureRoom)

def tokens (shape : BlobForm) (blob : Bytes) : Except Error (List Token) := do
  let (pieces, outcome) := shape.walk blob
  let _ ← outcome
  return pieces.filterMap Piece.token?

/-- A blob with its tokens replaced. What follows the signature is kept. -/
def mapTokens (shape : BlobForm) (map : Token → Except Error Token) (blob : Bytes) :
    Except Error Bytes := do
  let (pieces, outcome) := shape.walk blob
  let mapped ← pieces.mapM (Piece.mapToken map)
  let (_, rest) ← outcome
  return mapped.flatten ++ rest

end BlobForm

end NativeExports
