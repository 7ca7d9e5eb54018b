import NativeExports.Bytes.Reader

/-!
# Method bodies

A method body is a header, the code, and for some methods sections of exception clauses (ECMA-335,
II.25.4). Small methods have a header of one byte. All positions count from the start of the
header, so that what has to be patched can be found again.
-/

namespace NativeExports

/-- A clause of the exception table of a method. It ends with the token of the caught type, or with
where the filter begins; `position` is where that field stands in the body. -/
structure ExceptionClause where
  flags : Nat
  tryOffset : Nat
  tryLength : Nat
  handlerOffset : Nat
  handlerLength : Nat
  classOrFilter : Nat
  position : Nat
  deriving DecidableEq, Repr

/-- Whether the clause catches exceptions of a type, which is then named by a token. The three low
flags mark filters, finally clauses and fault clauses. -/
def ExceptionClause.namesType (clause : ExceptionClause) : Bool :=
  clause.flags % 8 == 0

/-- The layout of a method body. Without local variables, the token of their signature is 0. -/
structure MethodBody where
  codeSize : Nat
  headerSize : Nat
  localsToken : Nat
  maxStack : Nat
  isFat : Bool
  initLocals : Bool
  clauses : List ExceptionClause
  deriving DecidableEq, Repr

namespace MethodBody

/-- The largest code size a small header can express. -/
def tinyLimit : Nat := 0x3F

/-- The low bits of the first byte of a small header. -/
def tinyFormat : Nat := 2

/-- The low bits of the first byte of a large header. -/
def fatFormat : Nat := 3

/-- Where a large header holds the token of the local variables. -/
def localsOffset : Nat := 8

/-- The flag of a large header for sections behind the code. -/
def moreSectionsBit : Nat := 3

/-- The flag of a large header for local variables that start out zero. -/
def initLocalsBit : Nat := 4

/-- The size of a body without its exception clauses. -/
def size (body : MethodBody) : Nat :=
  body.headerSize + body.codeSize

def code (body : MethodBody) (data : Bytes) : Bytes :=
  (data.drop body.headerSize).take body.codeSize

/-- The clause of a section with four-byte fields that stands at `start`. -/
def fatClause (data : Bytes) (start : Nat) : ExceptionClause :=
  let field := Bytes.field data
  ⟨field start 2, field (start + 4) 4, field (start + 8) 4, field (start + 12) 4,
    field (start + 16) 4, field (start + 20) 4, start + 20⟩

/-- The clause of a section with short fields that stands at `start`. -/
def smallClause (data : Bytes) (start : Nat) : ExceptionClause :=
  let field := Bytes.field data
  ⟨field start 2, field (start + 2) 2, field (start + 4) 1, field (start + 5) 2,
    field (start + 7) 1, field (start + 8) 4, start + 8⟩

/-- The clauses in the section of `size` bytes at `cursor`. -/
def sectionClauses (data : Bytes) (fat : Bool) (cursor size : Nat) : List ExceptionClause :=
  if fat then
    (List.range ((size - 4) / 24)).map fun n => fatClause data (cursor + 4 + n * 24)
  else
    (List.range ((size - 4) / 12)).map fun n => smallClause data (cursor + 4 + n * 12)

/-- The section flag for exception clauses. -/
def exceptionTableBit : Nat := 0

/-- The section flag for four-byte fields. -/
def fatSectionBit : Nat := 6

/-- The section flag for another section behind this one. -/
def moreBit : Nat := 7

def sectionFlags (byte : Nat) : Nat :=
  byte % 4 + byte / 64 * 64

/-- The clauses of the sections from `cursor` on. Every section takes at least four bytes, so there
are fewer of them than bytes. -/
def readSections (data : Bytes) (limit : Nat) : Nat → Nat → Except Error (List ExceptionClause)
  | 0, _ => .error .outOfBounds
  | fuel + 1, cursor => do
    if limit < cursor + 4 then throw .outOfBounds
    let flags := Bytes.field data cursor 1
    if !flags.testBit exceptionTableBit then throw (.malformed (.bodySection (sectionFlags flags)))
    let fat := flags.testBit fatSectionBit
    let size := if fat then Bytes.field data (cursor + 1) 3 else Bytes.field data (cursor + 1) 1
    if size < 4 ∨ limit < cursor + size then throw .outOfBounds
    let clauses := sectionClauses data fat cursor size
    if flags.testBit moreBit then
      let rest ← readSections data limit fuel (Bytes.ceil4 (cursor + size))
      return clauses ++ rest
    else return clauses

def readTiny (data : Bytes) (lead : Nat) : Except Error MethodBody :=
  let codeSize := lead / 4
  if (data.take (codeSize + 1)).length < codeSize + 1 then .error .outOfBounds
  else .ok ⟨codeSize, 1, 0, 8, false, false, []⟩

def readFat (data : Bytes) : Except Error MethodBody := do
  let limit := data.length
  if limit < 12 then throw .outOfBounds
  let field := Bytes.field data
  let flags := field 0 2
  let headerSize := flags / 0x1000 * 4
  if headerSize < 12 then throw (.malformed (.bodyHeaderSize headerSize))
  let codeSize := field 4 4
  if limit < codeSize + headerSize then throw .outOfBounds
  let clauses ←
    if flags.testBit moreSectionsBit then
      readSections data limit limit (Bytes.ceil4 (headerSize + codeSize))
    else pure []
  return ⟨codeSize, headerSize, field localsOffset 4, field 2 2, true,
    flags.testBit initLocalsBit, clauses⟩

/-- The layout of the body that `data` begins with. -/
def read (data : Bytes) : Except Error MethodBody :=
  match data with
  | [] => .error (.malformed .bodyEmpty)
  | lead :: _ =>
    if lead.toNat % 4 = tinyFormat then readTiny data lead.toNat
    else if lead.toNat % 4 = fatFormat then readFat data
    else .error (.malformed (.bodyFormat lead.toNat))

/-- A body with a small header: no local variables, no exception clauses. -/
def tiny (code : Bytes) : Except Error Bytes :=
  if tinyLimit < code.length then .error (.malformed (.tinyCodeSize code.length))
  else .ok (UInt8.ofNat (code.length * 4 + tinyFormat) :: code)

end MethodBody

end NativeExports
