import NativeExports.Assembly.Renumber
import NativeExports.Logged

/-!
# Sorting tables

Some tables have to be sorted by certain columns. Sorting one of them renumbers its rows, which can
upset the order of a table that refers to it; only attributes refer to tables that are sorted, so
they are sorted last. Rows with equal keys keep their order.
-/

namespace NativeExports.Assembly

def sortingOrder : List Table :=
  Table.all.filter (· != .customAttribute) ++ [.customAttribute]

/-- Whether one list of key columns does not come behind another. -/
def keyLe : List Nat → List Nat → Bool
  | [], _ => true
  | _ :: _, [] => false
  | a :: as, b :: bs => a < b || (a == b && keyLe as bs)

/-- The key columns of a row. -/
def keyOf (key : List Nat) (row : Row) : List Nat :=
  key.map fun column => row.getD column 0

/-- The rows of a table in the order of their keys. -/
def keyOrder (key : List Nat) (rows : List Row) : List Nat :=
  let keyed := (rows.map (keyOf key)).zip (List.range' 1 rows.length)
  (keyed.mergeSort fun a b => keyLe a.1 b.1).map (·.2)

def markSorted (tables : Tables) (table : Table) : Tables :=
  { tables with sorted := tables.sorted ||| table.bit }

def sortTable (assembly : Assembly) (table : Table) : Logged Assembly :=
  match table.orderKey? with
  | none => pure assembly
  | some key => do
    let order := keyOrder key (assembly.tables.rows table)
    let renumbering ← Renumbering.permutation table order
    let assembly ←
      if renumbering.isIdentity then pure assembly
      else do
        Logged.debug s!"Re-sorting {table.name}"
        monadLift (assembly.renumber renumbering)
    return { assembly with tables := markSorted assembly.tables table }

/-- Sorts every table that has a key. -/
def sortAll (assembly : Assembly) : Logged Assembly :=
  sortingOrder.foldlM sortTable assembly

end NativeExports.Assembly
