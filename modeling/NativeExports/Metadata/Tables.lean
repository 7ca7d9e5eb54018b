import NativeExports.Error
import NativeExports.Metadata.Column

/-!
# The contents of the metadata tables

`Tables` holds the rows of every table, each row as one number per column. Rows are numbered from
1; 0 stands for no row. `Tables.rows` is the view everything else is stated through: storing rows
of one table changes that view for this table only.
-/

namespace NativeExports

/-- A row, one number per column. -/
abbrev Row := List Nat

/-- The rows of all tables, by table number, and the header fields stored with them: the version of
the layout and the mask of the tables that are declared to be sorted. -/
structure Tables where
  majorVersion : Nat
  minorVersion : Nat
  sorted : Nat
  store : Vector (List Row) 45

namespace Table

/-- The table with a number below forty-five. -/
def ofFin (n : Fin 45) : Table :=
  all.get n

end Table

namespace Tables

/-- The sorted tables of a freshly made stream. -/
def defaultSorted : Nat := 0x16003301FA00

def empty : Tables :=
  ⟨2, 0, defaultSorted, Vector.replicate 45 []⟩

def rows (tables : Tables) (table : Table) : List Row :=
  have := table.number_lt
  tables.store[table.number]

def setRows (tables : Tables) (table : Table) (rows : List Row) : Tables :=
  { tables with store := tables.store.set table.number rows table.number_lt }

def count (tables : Tables) (table : Table) : Nat :=
  (tables.rows table).length

/-- The mask of the tables that have rows. -/
def valid (tables : Tables) : Nat :=
  ((Table.all.filter fun table => !(tables.rows table).isEmpty).map Table.bit).sum

def row? (tables : Tables) (table : Table) (row : Nat) : Option Row :=
  if row = 0 then none else (tables.rows table)[row - 1]?

def row (tables : Tables) (table : Table) (row : Nat) : Except Error Row :=
  match tables.row? table row with
  | some columns => .ok columns
  | none => .error (.malformed (.missingRow row table))

def value (tables : Tables) (table : Table) (row column : Nat) : Except Error Nat := do
  match (← tables.row table row)[column]? with
  | some value => return value
  | none => throw (.malformed (.missingColumn column table))

def put (tables : Tables) (table : Table) (row column value : Nat) :
    Except Error Tables :=
  match tables.row? table row with
  | some columns =>
    if column < columns.length then
      .ok (tables.setRows table ((tables.rows table).set (row - 1) (columns.set column value)))
    else .error (.malformed (.missingRow row table))
  | none => .error (.malformed (.missingRow row table))

def push (tables : Tables) (table : Table) (row : Row) : Tables :=
  tables.setRows table (tables.rows table ++ [row])

/-- The run of rows of `target` that a row owns through a list column: from the start it stores up
to the start that the next row stores, or to the end of `target` for the last row. Starts past the
end count as the end, and a run that would end before its start is empty. -/
def runOf (tables : Tables) (table : Table) (row column : Nat) (target : Table) :
    Except Error (Nat × Nat) := do
  let bound := tables.count target + 1
  let start := min (← tables.value table row column) bound
  let stop ←
    if row < tables.count table then
      (min · bound) <$> tables.value table (row + 1) column
    else pure bound
  return (start, max start stop)

@[simp]
theorem rows_setRows_self (tables : Tables) (table : Table) (rows : List Row) :
    (tables.setRows table rows).rows table = rows := by
  simp [setRows, Tables.rows]

theorem rows_setRows_ne {tables : Tables} {table other : Table} {rows : List Row}
    (h : other ≠ table) : (tables.setRows table rows).rows other = tables.rows other := by
  have hne : table.number ≠ other.number := fun e => h (Table.number_injective e.symm)
  simp [setRows, Tables.rows, Vector.getElem_set_ne, hne]

@[simp]
theorem rows_empty (table : Table) : empty.rows table = [] := by
  simp [empty, Tables.rows]

end Tables

end NativeExports
