import NativeExports.Bytes.Reader

/-!
# The metadata root

The metadata begins with a root (ECMA-335, II.24.2.1): a signature, the version of the runtime, and
the directory of the streams, each with its offset from the root, its size and its name. Names and
version are padded with zeros to four bytes.
-/

namespace NativeExports

/-- An entry of the stream directory. Offsets count from the root. -/
structure StreamHeader where
  offset : Nat
  size : Nat
  name : String
  deriving DecidableEq, Repr

namespace StreamHeader

/-- The most bytes a stream name takes, its end included. -/
def maxNameSize : Nat := 32

def paddedNameSize (name : String) : Nat :=
  Bytes.ceil4 (Utf8.size name + 1)

/-- The bytes that the entry takes. -/
def storedSize (header : StreamHeader) : Nat :=
  8 + paddedNameSize header.name

def read (data : Bytes) : Except Error StreamHeader := do
  if (data.take 9).length < 9 then throw .outOfBounds
  let name := (data.drop 8).take maxNameSize
  if !name.contains 0 then throw (.malformed .streamName)
  return ⟨Bytes.field data 0 4, Bytes.field data 4 4, Utf8.decodeLossy (Bytes.untilNul name)⟩

def write (header : StreamHeader) : Bytes :=
  Bytes.leBytes 4 header.offset ++ Bytes.leBytes 4 header.size ++
    (Utf8.encode header.name ++ [0]).pad4

end StreamHeader

/-- The metadata root. The version counts with its padding for `length`. -/
structure Root where
  signature : Nat
  majorVersion : Nat
  minorVersion : Nat
  reserved : Nat
  length : Nat
  version : String
  flags : Nat
  streams : List StreamHeader

namespace Root

/-- The signature of a metadata root, the letters `BSJB`. -/
def magic : Nat := 0x424A5342

/-- Reads `count` entries of the directory from `data`, for metadata of `limit` bytes: every stream
has to lie inside it. -/
def readStreams (limit : Nat) (data : Bytes) : Nat → Except Error (List StreamHeader)
  | 0 => .ok []
  | count + 1 => do
    let header ← StreamHeader.read data
    if 2 ^ 32 ≤ header.offset + header.size then
      throw (.malformed (.streamExtent header.offset header.size))
    if limit < header.offset + header.size then throw .outOfBounds
    let rest ← readStreams limit (data.drop header.storedSize) count
    return header :: rest

def read (data : Bytes) : Except Error Root := do
  if data.length < 20 then throw .outOfBounds
  let field := Bytes.field data
  let signature := field 0 4
  if signature ≠ magic then throw (.malformed (.rootMagic signature))
  let length := field 12 4
  if data.length < 16 + length + 4 then throw .outOfBounds
  let version := Utf8.decodeLossy (Bytes.untilNul ((data.drop 16).take length))
  let count := field (16 + length + 2) 2
  if count = 0 ∨ data.length < count * 9 then throw (.malformed (.streamCount count))
  let streams ← readStreams data.length (data.drop (16 + length + 4)) count
  return ⟨signature, field 4 2, field 6 2, field 8 4, length, version, field (16 + length) 2,
    streams⟩

/-- The bytes that a version text takes with its end and padding. -/
def paddedVersionSize (version : String) : Nat :=
  Bytes.ceil4 (Utf8.size version + 1)

/-- The size of a root with the given version and stream names. -/
def headerSize (version : String) (names : List String) : Nat :=
  16 + paddedVersionSize version + 4 +
    (names.map fun name => 8 + StreamHeader.paddedNameSize name).sum

/-- The stored form of a root with the given version, flags and directory. -/
def write (version : String) (flags : Nat) (streams : List StreamHeader) : Bytes :=
  Bytes.leBytes 4 magic ++ Bytes.leBytes 2 1 ++ Bytes.leBytes 2 1 ++ Bytes.leBytes 4 0 ++
    Bytes.leBytes 4 (paddedVersionSize version) ++ (Utf8.encode version ++ [0]).pad4 ++
    Bytes.leBytes 2 flags ++ Bytes.leBytes 2 streams.length ++
    streams.flatMap StreamHeader.write

end Root

end NativeExports
