import NativeExports.Error

/-!
# The string heap

Names are stored as NUL-terminated UTF-8 and referred to by offset (ECMA-335, II.24.2.3). The heap
only grows, so an offset that resolves keeps resolving to the same name. A name that already occurs
with a NUL behind it, be it as the tail of a longer name, is not stored again.
-/

namespace NativeExports

/-- The bytes of a heap, which begin with a zero byte: the entry at 0 is empty. An absent heap holds
that entry only. -/
def heapBytes (lead : Malformation) : Bytes → Except Error Bytes
  | [] => .ok [0]
  | b :: rest => if b = 0 then .ok (b :: rest) else .error (.malformed lead)

/-- The string heap: the stored names. -/
structure StringHeap where
  data : Bytes

namespace StringHeap

def ofBytes (data : Bytes) : Except Error StringHeap :=
  .mk <$> heapBytes .stringHeapLead data

def get (heap : StringHeap) (index : Nat) : Except Error String :=
  let tail := heap.data.drop index
  if tail.isEmpty then .error .outOfBounds
  else if !tail.contains 0 then .error (.malformed (.brokenString index))
  else
    match Utf8.decode (Bytes.untilNul tail) with
    | .ok text => .ok text
    | .error _ => .error (.malformed (.brokenString index))

/-- The first position at which `pattern` occurs in `data`, counted from `start`. -/
def find? (pattern : Bytes) (start : Nat) : Bytes → Option Nat
  | [] => none
  | b :: rest =>
    if pattern.isPrefixOf (b :: rest) then some start else find? pattern (start + 1) rest

/-- The offset of a name, which is added behind the heap if it does not occur yet. -/
def intern (heap : StringHeap) (name : String) : Nat × StringHeap :=
  if name.isEmpty then (0, heap)
  else
    let entry := Utf8.encode name ++ [0]
    match find? entry 0 heap.data with
    | some index => (index, heap)
    | none => (heap.data.length, ⟨heap.data ++ entry⟩)

end StringHeap

end NativeExports
