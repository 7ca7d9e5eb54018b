/-!
# Opcodes

The instruction set of the common intermediate language (ECMA-335, III). An opcode is one byte, or
the byte `0xFE` followed by a second one; either way the byte is a position in a table. What follows
the opcode in the code is fixed by the opcode, which is all that is needed to find the operands.
-/

namespace NativeExports

/-- How the operand of an instruction is stored. -/
inductive OperandKind where
  | none
  | int8
  | uint8
  | uint16
  | int32
  | int64
  | float32
  | float64
  | token
  | switch
  deriving DecidableEq, Repr, Inhabited

namespace OperandKind

def width? : OperandKind → Option Nat
  | .none => some 0
  | .int8 | .uint8 => some 1
  | .uint16 => some 2
  | .int32 | .float32 | .token => some 4
  | .int64 | .float64 => some 8
  | .switch => Option.none

def name : OperandKind → String
  | .none => "None"
  | .int8 => "Int8"
  | .uint8 => "UInt8"
  | .uint16 => "UInt16"
  | .int32 => "Int32"
  | .int64 => "Int64"
  | .float32 => "Float32"
  | .float64 => "Float64"
  | .token => "Token"
  | .switch => "Switch"

end OperandKind

structure Opcode where
  mnemonic : String
  operand : OperandKind
  deriving DecidableEq, Repr

namespace Opcode

/-- An opcode as the tables list it. -/
def op (mnemonic : String) (operand : OperandKind := .none) : Option Opcode :=
  some ⟨mnemonic, operand⟩

/-- The byte that announces an opcode of two bytes. -/
def wideLead : Nat := 0xFE

/-- The opcodes of one byte, at the positions of their bytes. Reserved ones are missing. -/
def narrow : Array (Option Opcode) :=
  #[op "nop", op "break", op "ldarg.0", op "ldarg.1", op "ldarg.2", op "ldarg.3", op "ldloc.0",
    op "ldloc.1", op "ldloc.2", op "ldloc.3", op "stloc.0", op "stloc.1", op "stloc.2",
    op "stloc.3", op "ldarg.s" .uint8, op "ldarga.s" .uint8, op "starg.s" .uint8,
    op "ldloc.s" .uint8, op "ldloca.s" .uint8, op "stloc.s" .uint8, op "ldnull", op "ldc.i4.m1",
    op "ldc.i4.0", op "ldc.i4.1", op "ldc.i4.2", op "ldc.i4.3", op "ldc.i4.4", op "ldc.i4.5",
    op "ldc.i4.6", op "ldc.i4.7", op "ldc.i4.8", op "ldc.i4.s" .int8, op "ldc.i4" .int32,
    op "ldc.i8" .int64, op "ldc.r4" .float32, op "ldc.r8" .float64, none, op "dup", op "pop",
    op "jmp" .token, op "call" .token, op "calli" .token, op "ret", op "br.s" .int8,
    op "brfalse.s" .int8, op "brtrue.s" .int8, op "beq.s" .int8, op "bge.s" .int8,
    op "bgt.s" .int8, op "ble.s" .int8, op "blt.s" .int8, op "bne.un.s" .int8,
    op "bge.un.s" .int8, op "bgt.un.s" .int8, op "ble.un.s" .int8, op "blt.un.s" .int8,
    op "br" .int32, op "brfalse" .int32, op "brtrue" .int32, op "beq" .int32, op "bge" .int32,
    op "bgt" .int32, op "ble" .int32, op "blt" .int32, op "bne.un" .int32, op "bge.un" .int32,
    op "bgt.un" .int32, op "ble.un" .int32, op "blt.un" .int32, op "switch" .switch,
    op "ldind.i1", op "ldind.u1", op "ldind.i2", op "ldind.u2", op "ldind.i4", op "ldind.u4",
    op "ldind.i8", op "ldind.i", op "ldind.r4", op "ldind.r8", op "ldind.ref", op "stind.ref",
    op "stind.i1", op "stind.i2", op "stind.i4", op "stind.i8", op "stind.r4", op "stind.r8",
    op "add", op "sub", op "mul", op "div", op "div.un", op "rem", op "rem.un", op "and", op "or",
    op "xor", op "shl", op "shr", op "shr.un", op "neg", op "not", op "conv.i1", op "conv.i2",
    op "conv.i4", op "conv.i8", op "conv.r4", op "conv.r8", op "conv.u4", op "conv.u8",
    op "callvirt" .token, op "cpobj" .token, op "ldobj" .token, op "ldstr" .token,
    op "newobj" .token, op "castclass" .token, op "isinst" .token, op "conv.r.un", none, none,
    op "unbox" .token, op "throw", op "ldfld" .token, op "ldflda" .token, op "stfld" .token,
    op "ldsfld" .token, op "ldsflda" .token, op "stsfld" .token, op "stobj" .token,
    op "conv.ovf.i1.un", op "conv.ovf.i2.un", op "conv.ovf.i4.un", op "conv.ovf.i8.un",
    op "conv.ovf.u1.un", op "conv.ovf.u2.un", op "conv.ovf.u4.un", op "conv.ovf.u8.un",
    op "conv.ovf.i.un", op "conv.ovf.u.un", op "box" .token, op "newarr" .token, op "ldlen",
    op "ldelema" .token, op "ldelem.i1", op "ldelem.u1", op "ldelem.i2", op "ldelem.u2",
    op "ldelem.i4", op "ldelem.u4", op "ldelem.i8", op "ldelem.i", op "ldelem.r4", op "ldelem.r8",
    op "ldelem.ref", op "stelem.i", op "stelem.i1", op "stelem.i2", op "stelem.i4",
    op "stelem.i8", op "stelem.r4", op "stelem.r8", op "stelem.ref", op "ldelem" .token,
    op "stelem" .token, op "unbox.any" .token, none, none, none, none, none, none, none, none,
    none, none, none, none, none, op "conv.ovf.i1", op "conv.ovf.u1", op "conv.ovf.i2",
    op "conv.ovf.u2", op "conv.ovf.i4", op "conv.ovf.u4", op "conv.ovf.i8", op "conv.ovf.u8",
    none, none, none, none, none, none, none, op "refanyval" .token, op "ckfinite", none, none,
    op "mkrefany" .token, none, none, none, none, none, none, none, none, none,
    op "ldtoken" .token, op "conv.u2", op "conv.u1", op "conv.i", op "conv.ovf.i",
    op "conv.ovf.u", op "add.ovf", op "add.ovf.un", op "mul.ovf", op "mul.ovf.un", op "sub.ovf",
    op "sub.ovf.un", op "endfinally", op "leave" .int32, op "leave.s" .int8, op "stind.i",
    op "conv.u"]

/-- The opcodes of two bytes, at the positions of their second bytes. Reserved ones are missing. -/
def wide : Array (Option Opcode) :=
  #[op "arglist", op "ceq", op "cgt", op "cgt.un", op "clt", op "clt.un", op "ldftn" .token,
    op "ldvirtftn" .token, none, op "ldarg" .uint16, op "ldarga" .uint16, op "starg" .uint16,
    op "ldloc" .uint16, op "ldloca" .uint16, op "stloc" .uint16, op "localloc", none,
    op "endfilter", op "unaligned." .uint8, op "volatile.", op "tail.", op "initobj" .token,
    op "constrained." .token, op "cpblk", op "initblk", op "no." .uint8, op "rethrow", none,
    op "sizeof" .token, op "refanytype", op "readonly."]

end Opcode

end NativeExports
