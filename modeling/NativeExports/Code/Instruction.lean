import NativeExports.Bytes.Reader
import NativeExports.Code.Opcode

/-!
# Instructions

Code is a sequence of instructions without gaps, so reading it front to back finds every operand.
An instruction remembers where it stands and how many bytes it takes.

`mapTokens` replaces the tokens among the operands. Everything is read before anything is
written, and a token takes four bytes whatever its value, so nothing else moves.
-/

namespace NativeExports

inductive Operand where
  | none
  | immediate (value : Int)
  | float32 (bits : Nat)
  | float64 (bits : Nat)
  | token (token : Token)
  | switch (targets : List Int)
  deriving DecidableEq, Repr

structure Instruction where
  offset : Nat
  size : Nat
  wide : Bool
  code : Nat
  mnemonic : String
  operand : Operand
  deriving DecidableEq, Repr

namespace OperandKind

/-- Reads an operand and tells how many bytes it takes. A list of targets that cannot fit into the
rest of the code is refused before it is read. -/
def read : OperandKind → Reader (Nat × Operand)
  | .none => return (0, .none)
  | .int8 => return (1, .immediate (← Reader.signedLe 1))
  | .uint8 => return (1, .immediate (← Reader.le 1))
  | .uint16 => return (2, .immediate (← Reader.le 2))
  | .int32 => return (4, .immediate (← Reader.signedLe 4))
  | .int64 => return (8, .immediate (← Reader.signedLe 8))
  | .float32 => return (4, .float32 (← Reader.le 4))
  | .float64 => return (8, .float64 (← Reader.le 8))
  | .token => return (4, .token ⟨← Reader.le 4⟩)
  | .switch => do
    let count ← Reader.le 4
    if (← Reader.remaining) < count * 4 then throw .outOfBounds
    let targets ← Reader.times (Reader.signedLe 4) count
    return (4 + count * 4, .switch targets)

end OperandKind

namespace Opcode

/-- Reads an opcode: whether it takes two bytes, the byte that selects it, and the opcode. -/
def read : Reader (Bool × Nat × Opcode) := do
  let lead ← Reader.byte
  if lead = wideLead then
    let code ← Reader.byte
    match wide[code]? with
    | some (some opcode) => return (true, code, opcode)
    | some none => Reader.malformed (.opcodeReserved (wideLead * 0x100 + code))
    | none => Reader.malformed (.opcodeWide code)
  else
    match narrow[lead]? with
    | some (some opcode) => return (false, lead, opcode)
    | some none => Reader.malformed (.opcodeReserved lead)
    | none => Reader.malformed (.opcode lead)

end Opcode

namespace Instruction

def read (offset : Nat) : Reader Instruction := do
  let (wide, code, opcode) ← Opcode.read
  let (operandSize, operand) ← opcode.operand.read
  return ⟨offset, (if wide then 2 else 1) + operandSize, wide, code, opcode.mnemonic, operand⟩

/-- Reads instructions up to the end of the code; `seen` are those in front, in reverse order. Every
instruction takes at least one byte, so there are at most as many as bytes. -/
def readAll (seen : List Instruction) (offset : Nat) :
    Nat → Bytes → Except Error (List Instruction)
  | _, [] => .ok seen.reverse
  | 0, _ :: _ => .error .outOfBounds
  | fuel + 1, code =>
    match read offset code with
    | .ok instruction rest =>
      readAll (instruction :: seen) (offset + instruction.size) fuel rest
    | .error e _ => .error e

end Instruction

namespace Code

def decode (code : Bytes) : Except Error (List Instruction) :=
  Instruction.readAll [] 0 code.length code

/-- The tokens among the operands of a list of instructions, in order. -/
def tokensOf (instructions : List Instruction) : List Token :=
  instructions.filterMap fun instruction =>
    match instruction.operand with
    | .token token => some token
    | _ => none

/-- The position and new value of every token that `map` changes. -/
def replacements (map : Token → Except Error Token) (instructions : List Instruction) :
    Except Error (List (Nat × Token)) := do
  let mapped ← instructions.mapM fun instruction =>
    match instruction.operand with
    | .token token => do
      let new ← map token
      return if new = token then none else some (instruction.offset + instruction.size - 4, new)
    | _ => return none
  return mapped.filterMap id

/-- Replaces the tokens among the operands and tells how many of them changed. -/
def mapTokens (map : Token → Except Error Token) (code : Bytes) :
    Except Error (Nat × Bytes) := do
  let changes ← replacements map (← decode code)
  let patched := changes.foldl
    (fun code (position, token) => Bytes.overwrite code position (Bytes.leBytes 4 token.value))
    code
  return (changes.length, patched)

/-- Stores a token in a buffer; this fails if its four bytes do not lie inside. -/
def storeAt (change : Nat × Token) : EStateM Error Bytes PUnit := fun buffer =>
  match buffer.overwrite? change.1 (Bytes.leBytes 4 change.2.value) with
  | some patched => .ok () patched
  | none => .error .outOfBounds buffer

/-- Replaces the tokens of the code in a buffer, one write after the other, and tells how many of
them changed. What has been written when a write fails stays in the buffer. -/
def patch (map : Token → Except Error Token) : EStateM Error Bytes Nat := do
  let changes ← ofExcept (decode (← get) >>= replacements map)
  changes.forM storeAt
  return changes.length

end Code

end NativeExports
