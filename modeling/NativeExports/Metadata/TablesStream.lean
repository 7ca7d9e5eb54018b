import NativeExports.Bytes.Reader
import NativeExports.Metadata.Tables
import NativeExports.Metadata.Widths

/-!
# The tables stream

The stored form of the tables (ECMA-335, II.24.2.6): a header with the masks of the present and the
sorted tables, the row counts of the present ones, and the rows of one table after the other. The
widths of the columns follow from the counts and the heap flags, so reader and writer compute them
alike.
-/

namespace NativeExports

namespace Column

/-- Stores a value in a column of four or two bytes. -/
def encode (wide : Bool) (value : Nat) : Except Error Bytes :=
  if wide then
    if value < 2 ^ 32 then .ok (Bytes.leBytes 4 value)
    else .error (.malformed (.columnOverflow value))
  else if value < 2 ^ 16 then .ok (Bytes.leBytes 2 value)
  else .error (.malformed (.columnOverflow value))

def readRow : List Nat → Reader Row
  | [] => pure []
  | size :: sizes => do
    let value ← Reader.le size
    let rest ← readRow sizes
    return value :: rest

end Column

namespace Tables

def knownMask : Nat := 2 ^ 45 - 1

/-- The size of the rows of the tables is declared by their counts: every table in `valid` has one
in the stream. -/
def readCounts (valid : Nat) : List Table → Reader (List Nat)
  | [] => pure []
  | table :: rest =>
    if table.isIn valid then
      if table.isPointer then throw (.unsupported (.pointerTable table))
      else do
        let count ← Reader.le 4
        let counts ← readCounts valid rest
        return count :: counts
    else do
      let counts ← readCounts valid rest
      return 0 :: counts

/-- Reads the rows of the tables with the given widths, in order. A table that announces more rows
than the stream can hold is refused before any of them is read. -/
def readRows (widths : Widths) : List Table → Reader (List (List Row))
  | [] => pure []
  | table :: rest => do
    let count := widths.count table
    let rows ←
      if count = 0 then pure []
      else do
        if (← Reader.remaining) < count * widths.rowWidth table then throw .outOfBounds
        Reader.times (Column.readRow (widths.columnSizes table)) count
    let others ← readRows widths rest
    return rows :: others

def reader : Reader Tables := do
  let _ ← Reader.le 4
  let majorVersion ← Reader.byte
  let minorVersion ← Reader.byte
  let heapFlags ← Reader.byte
  let _ ← Reader.byte
  let valid ← Reader.le 8
  let sorted ← Reader.le 8
  if knownMask < valid then throw (.unsupported (.unknownTables valid))
  let counts ← readCounts valid Table.all
  if heapFlags.testBit Widths.extraBit then
    let _ ← Reader.bytes 4
  let widths : Widths := ⟨fun table => counts.getD table.number 0, heapFlags⟩
  let rows ← readRows widths Table.all
  return ⟨majorVersion, minorVersion, sorted, Vector.ofFn fun n => rows.getD n []⟩

def read (data : Bytes) : Except Error Tables :=
  reader.parse data

/-- The widths for storing `tables` next to heaps with the given flags. -/
def widths (tables : Tables) (heapFlags : Nat) : Widths :=
  ⟨tables.count, heapFlags⟩

def encodeRow (wide : List Bool) (row : Row) : Except Error Bytes := do
  let columns ← (wide.zip row).mapM fun (wide, value) => Column.encode wide value
  return columns.flatten

def encodeRows (widths : Widths) (table : Table) (rows : List Row) : Except Error Bytes := do
  let wide := table.columns.map widths.isWide
  let encoded ← rows.mapM (encodeRow wide)
  return encoded.flatten

/-- The header of the stream and the row counts of the tables that have rows. -/
def encodeHeader (tables : Tables) (heapFlags : Nat) : Bytes :=
  Bytes.zeros 4 ++ Bytes.leBytes 1 tables.majorVersion ++ Bytes.leBytes 1 tables.minorVersion ++
    Bytes.leBytes 1 heapFlags ++ Bytes.leBytes 1 1 ++ Bytes.leBytes 8 tables.valid ++
    Bytes.leBytes 8 tables.sorted ++
    ((Table.all.filter fun table => !(tables.rows table).isEmpty).flatMap fun table =>
      Bytes.leBytes 4 (tables.count table))

/-- The stored form of the tables next to heaps with the given flags, padded to four bytes. The flag
for an extra word is dropped, since none is written. -/
def write (tables : Tables) (heapFlags : Nat) : Except Error Bytes := do
  let heapFlags := heapFlags % 2 ^ Widths.extraBit +
    heapFlags / 2 ^ (Widths.extraBit + 1) * 2 ^ (Widths.extraBit + 1)
  let widths := tables.widths heapFlags
  let rows ← Table.all.mapM fun table => encodeRows widths table (tables.rows table)
  return (tables.encodeHeader heapFlags ++ rows.flatten).pad4

end Tables

end NativeExports
