import NativeExports.Error

/-!
# Readers

A reader consumes the front of a byte string and either yields a value or fails; in both cases it
leaves the bytes it did not consume, so that a failure can be located. `Cursor` adds the position
that repositioning needs.
-/

namespace NativeExports

/-- A computation that consumes bytes from the front of a byte string. -/
abbrev Reader := EStateM Error Bytes

namespace Reader

def parse (reader : Reader α) (data : Bytes) : Except Error α :=
  match reader data with
  | .ok a _ => .ok a
  | .error e _ => .error e

/-- Fails because the input breaks its format. -/
def malformed (cause : Malformation) : Reader α :=
  throw (.malformed cause)

/-- The next `count` bytes; nothing is consumed if there are fewer. -/
def bytes (count : Nat) : Reader Bytes := fun data =>
  if (data.take count).length = count then .ok (data.take count) (data.drop count)
  else .error .outOfBounds data

/-- The little-endian number in the next `width` bytes. -/
def le (width : Nat) : Reader Nat :=
  Bytes.leValue <$> bytes width

/-- The signed little-endian number in the next `width` bytes. -/
def signedLe (width : Nat) : Reader Int :=
  Bytes.signed width <$> le width

def byte : Reader Nat :=
  le 1

/-- The next byte, which stays unread. -/
def peek : Reader Nat := fun data =>
  match data with
  | [] => .error .outOfBounds data
  | b :: _ => .ok b.toNat data

/-- The number of bytes left. -/
def remaining : Reader Nat := fun data =>
  .ok data.length data

/-- Reads `count` items behind those of `seen`, which are in reverse order. -/
def timesFrom (item : Reader α) (seen : List α) : Nat → Reader (List α)
  | 0 => pure seen.reverse
  | count + 1 => do
    let a ← item
    timesFrom item (a :: seen) count

/-- Reads `count` items one after the other. -/
def times (item : Reader α) (count : Nat) : Reader (List α) :=
  timesFrom item [] count

end Reader

/-- A position in a byte string. -/
structure Cursor where
  data : Bytes
  position : Nat

namespace Cursor

def ofBytes (data : Bytes) : Cursor :=
  ⟨data, 0⟩

def remaining (cursor : Cursor) : Nat :=
  cursor.data.length - cursor.position

def hasMore (cursor : Cursor) : Bool :=
  cursor.position < cursor.data.length

/-- The cursor at another position, which may be the end of the data. -/
def seek (cursor : Cursor) (position : Nat) : Except Error Cursor :=
  if position ≤ cursor.data.length then .ok { cursor with position } else .error .outOfBounds

/-- Reads at the cursor and moves it past what was consumed. -/
def read (cursor : Cursor) (reader : Reader α) : Except Error α × Cursor :=
  match reader (cursor.data.drop cursor.position) with
  | .ok a rest => (.ok a, { cursor with position := cursor.data.length - rest.length })
  | .error e rest => (.error e, { cursor with position := cursor.data.length - rest.length })

end Cursor

end NativeExports
