import NativeExports.Assembly.Basic
import NativeExports.Code.Instruction
import NativeExports.Metadata.SignatureColumns
import NativeExports.Renumbering

/-!
# Renumbering in an assembly

When the rows of a table change, so does everything that refers to them: columns of rows, the entry
point, the keys of the added bodies, tokens in code and in exception clauses, and tokens in
signatures. A reference to a row that is taken out is an error, since rows may only be taken out
once nothing refers to them.

Rows that are put in are given with the final row numbers, and their columns stay as they are.
-/

namespace NativeExports

/-! ## References in columns -/

namespace Renumbering

/-- The new value of a column in row `row` of `source`. -/
def newColumn (renumbering : Renumbering) (source : Table) (row : Nat) (kind : ColumnKind)
    (value : Nat) : Except Error Nat :=
  match kind with
  | .index target =>
    if target = renumbering.table then renumbering.newReference source value else .ok value
  | .list target =>
    .ok (if target = renumbering.table then renumbering.newStart source row value else value)
  | .coded coded =>
    if coded.contains renumbering.table then do
      let (target, old) ← coded.decode value
      if target = renumbering.table ∧ old ≠ 0 then
        coded.encode target (← renumbering.newReference source old)
      else return value
    else .ok value
  | _ => .ok value

/-- The new columns of row `row` of `source`, of the given kinds. -/
def newColumns (renumbering : Renumbering) (source : Table) (row : Nat) :
    List ColumnKind → Row → Except Error Row
  | kind :: kinds, value :: values => do
    let value ← renumbering.newColumn source row kind value
    let values ← renumbering.newColumns source row kinds values
    return value :: values
  | _, values => .ok values

/-- The new form of the rows of `source` from row `row` on, behind those of `seen`, which are in
reverse order. Rows that were put in stay. -/
def newRowsFrom (renumbering : Renumbering) (source : Table) (seen : List Row) (row : Nat) :
    List Row → Except Error (List Row)
  | [] => .ok seen.reverse
  | columns :: rest => do
    let columns ←
      if source = renumbering.table ∧ renumbering.isInserted row then pure columns
      else renumbering.newColumns source row source.columns columns
    renumbering.newRowsFrom source (columns :: seen) (row + 1) rest

/-- Whether a column can refer to the edited table. -/
def touches (renumbering : Renumbering) : ColumnKind → Bool
  | .index target | .list target => target = renumbering.table
  | .coded coded => coded.contains renumbering.table
  | _ => false

def newTables (renumbering : Renumbering) (tables : Tables) : Except Error Tables :=
  Table.all.foldlM
    (fun tables source =>
      if source.columns.any renumbering.touches then do
        let rows ← renumbering.newRowsFrom source [] 1 (tables.rows source)
        return tables.setRows source rows
      else .ok tables)
    tables

end Renumbering

namespace Assembly

/-- Edits the rows of the renumbered table itself. -/
def rearrange (renumbering : Renumbering) (tables : Tables) (inserted : List Row) :
    Except Error Tables := do
  let table := renumbering.table
  let count := tables.count table
  if count ≠ renumbering.oldCount then
    throw (.invariant (.rowCount table renumbering.oldCount count))
  if inserted.length ≠ renumbering.suppliedCount then
    throw (.invariant (.suppliedRows inserted.length table))
  return tables.setRows table (renumbering.arrange (tables.rows table) inserted)

/-! ## References in code -/

/-- Renumbers the code at a position of a byte string. -/
def renumberCode (renumbering : Renumbering) (data : Bytes) (start size : Nat) :
    Except Error Bytes := do
  let (changed, code) ← Code.mapTokens renumbering.newToken ((data.drop start).take size)
  return if changed = 0 then data else data.overwrite start code

/-- Renumbers the token at a position of a byte string. -/
def renumberToken (renumbering : Renumbering) (data : Bytes) (position : Nat) (token : Token) :
    Except Error Bytes := do
  return data.overwrite position (Bytes.leBytes 4 (← renumbering.newToken token).value)

/-- Renumbers the type of an exception clause of the body at `offset`. -/
def renumberClause (renumbering : Renumbering) (offset : Nat) (data : Bytes)
    (clause : ExceptionClause) : Except Error Bytes :=
  let position := offset + clause.position
  let token : Token := ⟨Bytes.field data position 4⟩
  if clause.namesType ∧ !token.isNull then renumberToken renumbering data position token
  else .ok data

def renumberBody (renumbering : Renumbering) (image : Image) (offset : Nat) :
    Except Error Image := do
  let body ← bodyFrom image offset
  let data ← renumberCode renumbering image.data (offset + body.headerSize) body.codeSize
  let data ← body.clauses.foldlM (renumberClause renumbering offset) data
  let data ←
    if body.isFat ∧ body.localsToken ≠ 0 then
      renumberToken renumbering data (offset + MethodBody.localsOffset) ⟨body.localsToken⟩
    else pure data
  return { image with data }

def renumberAddedBody (renumbering : Renumbering) (added : Nat × Bytes) :
    Except Error (Nat × Bytes) := do
  let body ← MethodBody.read added.2
  let data ← renumberCode renumbering added.2 body.headerSize body.codeSize
  return (added.1, data)

def renumberBodies (renumbering : Renumbering) (assembly : Assembly) : Except Error Assembly := do
  let offsets ← assembly.bodyOffsets
  let image ← offsets.foldlM (renumberBody renumbering) assembly.image
  let addedBodies ← assembly.addedBodies.mapM (renumberAddedBody renumbering)
  return { assembly with image, addedBodies }

/-- Moves the added bodies to the new rows of their methods. -/
def rekeyBodies (renumbering : Renumbering) (bodies : List (Nat × Bytes)) :
    Except Error (List (Nat × Bytes)) :=
  bodies.foldlM
    (fun moved (method, body) => do
      return insertBody (← renumbering.newReference .methodDef method) body moved)
    []

/-! ## References in signatures -/

/-- The blobs and the tables while signatures are renumbered, with the old and the new offset of
every signature that was seen. -/
structure SignatureRenumbering where
  tables : Tables
  blobs : BlobHeap
  moved : List (Nat × Nat)

/-- Where a signature goes: a signature that changes is added behind the heap. -/
def moveSignature (renumbering : Renumbering) (shape : BlobForm) (state : SignatureRenumbering)
    (index : Nat) : Except Error (Nat × SignatureRenumbering) :=
  match state.moved.lookup index with
  | some new => .ok (new, state)
  | none => do
    let blob ← state.blobs.get index
    let updated ← shape.mapTokens renumbering.newToken blob
    let (new, blobs) ←
      if updated = blob then pure (index, state.blobs) else state.blobs.append updated
    return (new, { state with blobs, moved := (index, new) :: state.moved })

def renumberSignature (renumbering : Renumbering) (site : SignatureColumn)
    (state : SignatureRenumbering) (row : Nat) : Except Error SignatureRenumbering := do
  let index ← state.tables.value site.table row site.column
  if index = 0 then return state
  let (new, state) ← moveSignature renumbering site.shape state index
  if new = index then return state
  return { state with tables := ← state.tables.put site.table row site.column new }

/-- Renumbers all signatures. A signature that several rows share is renumbered once. -/
def renumberSignatures (renumbering : Renumbering) (assembly : Assembly) :
    Except Error Assembly := do
  let state ← SignatureColumn.all.foldlM
    (fun state site =>
      (List.range' 1 (state.tables.count site.table)).foldlM (renumberSignature renumbering site)
        state)
    { tables := assembly.tables, blobs := assembly.blobs, moved := [] }
  return { assembly with tables := state.tables, blobs := state.blobs }

/-! ## All references -/

/-- Edits the rows of a table and everything that refers to them. `inserted` are the rows that are
put in. -/
def renumber (assembly : Assembly) (renumbering : Renumbering) (inserted : List Row := []) :
    Except Error Assembly := do
  let table := renumbering.table
  let tables ← rearrange renumbering assembly.tables inserted
  let tables ← renumbering.newTables tables
  let entryPoint ←
    if assembly.entryPoint.isNull then pure assembly.entryPoint
    else renumbering.newToken assembly.entryPoint
  let addedBodies ←
    if table = .methodDef then rekeyBodies renumbering assembly.addedBodies
    else pure assembly.addedBodies
  let assembly := { assembly with
    tables, addedBodies, cli := { assembly.cli with entryPoint := entryPoint.value } }
  let assembly ← if table.isCodeTarget then renumberBodies renumbering assembly else pure assembly
  if table.isSignatureTarget then renumberSignatures renumbering assembly else pure assembly

end Assembly

end NativeExports
