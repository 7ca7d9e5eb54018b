import NativeExports.Error

/-!
# Renumbering of rows

Taking rows out of a table, putting rows in or reordering a table changes the numbers of other rows
of that table. A `Renumbering` records one such edit; `newRow` gives the new number of an old row
and `newStart` the new value of a column that holds the start of a run.

Row 0 stands for no row and stays 0. Rows behind the end of the table are invalid references; they
move with the end, so that they stay invalid.
-/

namespace NativeExports

/-- What happens to the rows of a table. -/
inductive RowEdit where
  /-- Rows are taken out. `kept` tells for each old row whether it stays, and `below` how many of
  the rows in front of it stay; `below` has one more entry, for the end of the table. -/
  | removal (kept : Array Bool) (below : Array Nat)
  /-- `count` rows are put in at `position`; they join the run of `owner`. -/
  | insertion (position count : Nat) (owner : Option (Table × Nat))
  /-- The rows are reordered: `order` lists the old rows in their new order, and `numbers` tells the
  new number of each old row. -/
  | permutation (order : List Nat) (numbers : Array Nat)

/-- An edit of the rows of one table. -/
structure Renumbering where
  table : Table
  oldCount : Nat
  newCount : Nat
  edit : RowEdit

namespace Renumbering

/-- The numbers of kept rows in front of each of a list of rows and behind the last one, after those
of `seen`, with `count` kept rows in front of the first one. -/
def keptBelow (seen : Array Nat) (count : Nat) : List Bool → Array Nat
  | [] => seen.push count
  | kept :: rest => keptBelow (seen.push count) (if kept then count + 1 else count) rest

/-- Takes rows out of a table and keeps the order of the others. -/
def removal (table : Table) (oldCount : Nat) (removed : List Nat) : Renumbering :=
  let kept := (List.range oldCount).map fun n => !removed.contains (n + 1)
  ⟨table, oldCount, kept.count true, .removal kept.toArray (keptBelow #[] 0 kept)⟩

/-- Puts `count` rows in at `position`, where they join the run of `owner`. -/
def insertion (table : Table) (oldCount position count : Nat) (owner : Option (Table × Nat)) :
    Renumbering :=
  ⟨table, oldCount, oldCount + count, .insertion position count owner⟩

/-- Notes the new numbers of a list of old rows, the first of which becomes row `number`. Fails if
an old row does not exist or occurs twice. -/
def assign (numbers : Array Nat) (number : Nat) : List Nat → Option (Array Nat)
  | [] => some numbers
  | old :: rest =>
    if old ≠ 0 ∧ numbers[old - 1]? = some 0 then
      assign (numbers.setIfInBounds (old - 1) number) (number + 1) rest
    else none

/-- Reorders a table: the rows of `order` become the first, second, … row. -/
def permutation (table : Table) (order : List Nat) : Except Error Renumbering :=
  match assign (Array.replicate order.length 0) 1 order with
  | some numbers => .ok ⟨table, order.length, order.length, .permutation order numbers⟩
  | none => .error (.invariant (.order table))

/-- The new number of an old row, unless it is taken out. -/
def newRow (renumbering : Renumbering) (row : Nat) : Option Nat :=
  if row = 0 then some 0
  else if renumbering.oldCount < row then
    some (row - renumbering.oldCount + renumbering.newCount)
  else
    match renumbering.edit with
    | .removal kept below =>
      if kept.getD (row - 1) false then some (below.getD (row - 1) 0 + 1) else none
    | .insertion position count _ => some (if row < position then row else row + count)
    | .permutation _ numbers => numbers[row - 1]?

/-- Whether every row keeps its number. -/
def isIdentity (renumbering : Renumbering) : Bool :=
  renumbering.newCount == renumbering.oldCount &&
    (List.range renumbering.oldCount).all fun n => renumbering.newRow (n + 1) == some (n + 1)

/-- The new value of a list column in row `owner` of `ownerTable`, which holds the start of a run.

If rows are taken out, the run starts at the first of its old rows, or of the rows behind them, that
stays. If rows are put in where a run starts, the runs of the rows up to the owner of the new rows
still start there, and the others start behind the new rows; so the new rows end up in the run of
their owner. A table whose rows are in runs is never reordered. -/
def newStart (renumbering : Renumbering) (ownerTable : Table) (owner value : Nat) : Nat :=
  match renumbering.edit with
  | .removal _ below =>
    match below[value - 1]? with
    | some count => count + 1
    | none => value - renumbering.oldCount + renumbering.newCount
  | .insertion position count receiver =>
    if value < position then value
    else if position < value then value + count
    else
      match receiver with
      | some (table, row) => if table = ownerTable ∧ owner ≤ row then value else value + count
      | none => value + count
  | .permutation _ _ => value

/-- The new form of a token. Tokens of other tables stay as they are. -/
def newToken (renumbering : Renumbering) (token : Token) : Except Error Token :=
  if token.table? = some renumbering.table then
    match renumbering.newRow token.row with
    | some row => .ok (Token.ofRow renumbering.table row)
    | none => .error (.invariant (.removedToken token))
  else .ok token

def newReference (renumbering : Renumbering) (source : Table) (row : Nat) : Except Error Nat :=
  match renumbering.newRow row with
  | some row => .ok row
  | none => .error (.invariant (.removedRow source renumbering.table row))

/-- Whether a row of the edited table is one of the rows put in. -/
def isInserted (renumbering : Renumbering) (row : Nat) : Bool :=
  match renumbering.edit with
  | .insertion position count _ => position ≤ row && row < position + count
  | _ => false

def suppliedCount (renumbering : Renumbering) : Nat :=
  match renumbering.edit with
  | .insertion _ count _ => count
  | _ => 0

/-- The rows of the table after the edit. -/
def arrange (renumbering : Renumbering) (rows inserted : List α) : List α :=
  match renumbering.edit with
  | .removal kept _ => ((kept.toList.zip rows).filter (·.1)).map (·.2)
  | .insertion position _ _ => rows.take (position - 1) ++ inserted ++ rows.drop (position - 1)
  | .permutation order _ =>
    let stored := rows.toArray
    order.filterMap fun old => stored[old - 1]?

end Renumbering

end NativeExports
