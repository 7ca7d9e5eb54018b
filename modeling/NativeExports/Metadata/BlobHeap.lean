import NativeExports.Bytes.Compressed
import NativeExports.Metadata.StringHeap

/-!
# The blob heap

Signatures and other small byte strings are stored with their compressed length in front and
referred to by offset (ECMA-335, II.24.2.4). The heap only grows, so an offset that resolves keeps
resolving to the same blob.
-/

namespace NativeExports

structure BlobHeap where
  data : Bytes

namespace BlobHeap

def ofBytes (data : Bytes) : Except Error BlobHeap :=
  .mk <$> heapBytes .blobHeapLead data

/-- Reads a blob with its length in front. -/
def entry : Reader Bytes := do
  let size ← Compressed.read
  Reader.bytes size

def get (heap : BlobHeap) (index : Nat) : Except Error Bytes :=
  entry.parse (heap.data.drop index)

/-- Adds a blob and tells its offset; the empty blob is always at 0. -/
def append (heap : BlobHeap) (blob : Bytes) : Except Error (Nat × BlobHeap) :=
  if blob.isEmpty then .ok (0, heap)
  else do
    let size ← Compressed.encode blob.length
    return (heap.data.length, ⟨heap.data ++ size ++ blob⟩)

/-- Adds a blob to a heap, which is there whether this succeeds or not. The length is put behind the
heap first. -/
def appendInPlace (heap : BlobHeap) (blob : Bytes) : Except Error Nat × BlobHeap :=
  if blob.isEmpty then (.ok 0, heap)
  else
    match Compressed.push blob.length heap.data with
    | (.ok (), data) => (.ok heap.data.length, ⟨data ++ blob⟩)
    | (.error e, data) => (.error e, ⟨data⟩)

end BlobHeap

end NativeExports
