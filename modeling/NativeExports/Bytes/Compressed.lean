import NativeExports.Bytes.Reader

/-!
# Compressed numbers and tokens

Heaps and signatures store numbers below `2 ^ 29` in one, two or four bytes, most significant byte
first; the leading bits of the first byte tell how many (ECMA-335, II.23.2). A compressed token is
a compressed number whose two low bits select one of three tables.
-/

namespace NativeExports.Compressed

def limit : Nat := 2 ^ 29

/-- Reads a compressed number. Forms longer than necessary are accepted. -/
def read : Reader Nat := do
  let first ← Reader.byte
  if first < 0x80 then
    return first
  else if first < 0xC0 then
    let b1 ← Reader.byte
    return (first - 0x80) * 0x100 + b1
  else if first < 0xE0 then
    let b1 ← Reader.byte
    let b2 ← Reader.byte
    let b3 ← Reader.byte
    return (first - 0xC0) * 0x1000000 + b1 * 0x10000 + b2 * 0x100 + b3
  else
    Reader.malformed (.compressedLead first)

def encode (n : Nat) : Except Error Bytes :=
  if n < 0x80 then .ok (Bytes.beBytes 1 n)
  else if n < 0x4000 then .ok (Bytes.beBytes 2 (0x8000 + n))
  else if n < limit then .ok (Bytes.beBytes 4 (0xC0000000 + n))
  else .error (.malformed (.compressedRange n))

/-- Puts the compressed form of a number behind a buffer, which is there also if there is no such
form. -/
def push (n : Nat) (buffer : Bytes) : Except Error Unit × Bytes :=
  if n < 0x80 then (.ok (), buffer ++ Bytes.beBytes 1 n)
  else if n < 0x4000 then (.ok (), buffer ++ Bytes.beBytes 2 (0x8000 + n))
  else if n < limit then (.ok (), buffer ++ Bytes.beBytes 4 (0xC0000000 + n))
  else (.error (.malformed (.compressedRange n)), buffer)

def tokenTables : List Table :=
  [.typeDef, .typeRef, .typeSpec]

def readToken : Reader Token := do
  let n ← read
  match tokenTables[n % 4]? with
  | some table => return Token.ofRow table (n / 4)
  | none => Reader.malformed (.compressedToken n)

/-- The tag of the table that a token names. -/
def tag? (token : Token) : Option Nat :=
  match token.table? with
  | some .typeDef => some 0
  | some .typeRef => some 1
  | some .typeSpec => some 2
  | _ => none

def encodeToken (token : Token) : Except Error Bytes :=
  match tag? token with
  | some tag => encode (token.row * 4 + tag)
  | none => .error (.malformed (.tokenTable token))

end NativeExports.Compressed
