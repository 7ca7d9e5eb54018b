import NativeExports.Metadata.Column

/-!
# Column widths

Constants have fixed widths; every other column is two or four bytes wide, whichever its possible
values need. References depend on the row counts of the tables they can name, heap offsets on three
flags that the stream records.
-/

namespace NativeExports

/-- What the widths of columns depend on: the number of rows of each table and the heap flags of the
tables stream. -/
structure Widths where
  count : Table → Nat
  heapFlags : Nat

namespace Widths

/-- The heap flag for wide offsets into the string heap. -/
def stringsBit : Nat := 0

/-- The heap flag for wide numbers of GUIDs. -/
def guidsBit : Nat := 1

/-- The heap flag for wide offsets into the blob heap. -/
def blobsBit : Nat := 2

/-- The heap flag for an extra word behind the row counts. -/
def extraBit : Nat := 6

/-- The bits that the number of the last row of a table takes, at least one. -/
def indexBits (widths : Widths) (table : Table) : Nat :=
  Nat.log2 (widths.count table) + 1

/-- Whether row numbers of a table take four bytes. -/
def isWideIndex (widths : Widths) (table : Table) : Bool :=
  0xFFFF < widths.count table

/-- The bits that the largest coded index of a kind takes. -/
def codedBits (widths : Widths) (kind : CodedKind) : Nat :=
  (kind.tables.map widths.indexBits).foldl max 1 + kind.tagWidth

/-- Whether coded indices of a kind take four bytes. -/
def isWideCoded (widths : Widths) (kind : CodedKind) : Bool :=
  16 < widths.codedBits kind

/-- Whether a column takes four bytes. -/
def isWide (widths : Widths) : ColumnKind → Bool
  | .u16 => false
  | .u32 => true
  | .string => widths.heapFlags.testBit stringsBit
  | .guid => widths.heapFlags.testBit guidsBit
  | .blob => widths.heapFlags.testBit blobsBit
  | .index table | .list table => widths.isWideIndex table
  | .coded kind => widths.isWideCoded kind

def columnWidth (widths : Widths) (kind : ColumnKind) : Nat :=
  if widths.isWide kind then 4 else 2

/-- The bytes that the columns of a row take, in order. -/
def columnSizes (widths : Widths) (table : Table) : List Nat :=
  table.columns.map widths.columnWidth

/-- The bytes that a row of a table takes. -/
def rowWidth (widths : Widths) (table : Table) : Nat :=
  (widths.columnSizes table).sum

end Widths

end NativeExports
