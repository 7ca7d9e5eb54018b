import NativeExports.Metadata.Root
import NativeExports.Metadata.TablesStream

/-!
# The metadata block

The whole metadata as it is stored: the root, followed by the tables and the heaps, each padded to
four bytes. A heap of user strings is left out if it is empty.
-/

namespace NativeExports

/-- The heaps stored next to the tables. -/
structure Heaps where
  strings : Bytes
  userStrings : Bytes
  guids : Bytes
  blobs : Bytes

namespace Heaps

/-- The flags that tell which heaps need wide columns. -/
def flags (heaps : Heaps) : Nat :=
  (if 0x10000 ≤ heaps.strings.length then 2 ^ Widths.stringsBit else 0) +
    (if 0x10000 ≤ heaps.guids.length / 16 then 2 ^ Widths.guidsBit else 0) +
    (if 0x10000 ≤ heaps.blobs.length then 2 ^ Widths.blobsBit else 0)

/-- The streams of the metadata with the given tables stream, in storage order. -/
def streams (heaps : Heaps) (tablesStream : Bytes) : List (String × Bytes) :=
  [("#~", tablesStream), ("#Strings", heaps.strings)] ++
    (if heaps.userStrings.isEmpty then [] else [("#US", heaps.userStrings)]) ++
    [("#GUID", heaps.guids), ("#Blob", heaps.blobs)]

end Heaps

namespace Metadata

/-- The directory of streams that are stored one after the other from `offset` on. -/
def directory (offset : Nat) : List (String × Bytes) → List StreamHeader
  | [] => []
  | (name, data) :: rest =>
    let size := Bytes.ceil4 data.length
    ⟨offset, size, name⟩ :: directory (offset + size) rest

def build (version : String) (flags : Nat) (tables : Tables) (heaps : Heaps) :
    Except Error Bytes := do
  let tablesStream ← tables.write heaps.flags
  let streams := heaps.streams tablesStream
  let start := Root.headerSize version (streams.map Prod.fst)
  return Root.write version flags (directory start streams) ++
    streams.flatMap fun stream => stream.2.pad4

end Metadata

end NativeExports
