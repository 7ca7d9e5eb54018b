import NativeExports.Assembly.References
import NativeExports.Proofs.Renumbering.AddedBodies
import NativeExports.Proofs.Renumbering.Bodies
import NativeExports.Proofs.Tables

/-!
# Well-formed assemblies

In a well-formed assembly every reference leads somewhere: rows have the columns of their table,
columns that refer to rows are null or name an existing row, bodies can be read and do not overlap,
and code names rows of those tables only that code can name.
-/

namespace NativeExports

/-- A column refers to no row or to an existing one. -/
def Tables.InRange (tables : Tables) (kind : ColumnKind) (value : Nat) : Prop :=
  match kind with
  | .index target => value ≤ tables.count target
  | .coded coded =>
    ∃ target row, coded.decode value = .ok (target, row) ∧ row ≤ tables.count target
  | _ => True

instance (tables : Tables) (kind : ColumnKind) (value : Nat) :
    Decidable (tables.InRange kind value) :=
  match kind with
  | .index target => inferInstanceAs (Decidable (value ≤ tables.count target))
  | .coded coded =>
    match h : coded.decode value with
    | .ok (target, row) =>
      decidable_of_iff (row ≤ tables.count target)
        ⟨fun hle => ⟨target, row, h, hle⟩, fun ⟨target', row', h', hle⟩ => by
          rw [h] at h'
          obtain ⟨rfl, rfl⟩ := Prod.mk.inj (Except.ok.inj h')
          exact hle⟩
    | .error _ => .isFalse fun ⟨_, _, h', _⟩ => by rw [h] at h'; cases h'
  | .u16 | .u32 | .string | .guid | .blob | .list _ => .isTrue trivial

theorem Tables.inRange_of_zip {tables : Tables} {kinds : List ColumnKind} {columns : Row}
    (h : ∀ entry ∈ kinds.zip columns, tables.InRange entry.1 entry.2) (c : Nat) (kind : ColumnKind)
    (value : Nat) (hkind : kinds[c]? = some kind) (hvalue : columns[c]? = some value) :
    tables.InRange kind value :=
  h (kind, value) (List.mem_of_getElem? (List.getElem?_zip_eq_some.mpr ⟨hkind, hvalue⟩))

/-- A token that code may hold: it names a row of a table that code can refer to, or, like a string
literal, a row of no table at all. -/
def Token.IsCodeToken (token : Token) : Prop :=
  ∀ table, token.table? = some table → table.isCodeTarget = true

instance (token : Token) : Decidable token.IsCodeToken :=
  inferInstanceAs (Decidable (∀ table, token.table? = some table → table.isCodeTarget = true))

namespace MethodBody

/-- The tokens of a body outside its code: the types that its clauses name, and its local
variables. -/
def outerTokens (body : MethodBody) : List Token :=
  Assembly.clauseTokens body.clauses ++
    if body.isFat ∧ body.localsToken ≠ 0 then [⟨body.localsToken⟩] else []

theorem mem_outerTokens {body : MethodBody} {token : Token} :
    token ∈ body.outerTokens ↔
      (∃ clause ∈ body.clauses, clause.namesType = true ∧ clause.classOrFilter ≠ 0 ∧
        token = ⟨clause.classOrFilter⟩) ∨
      (body.isFat = true ∧ body.localsToken ≠ 0 ∧ token = ⟨body.localsToken⟩) := by
  rw [outerTokens, List.mem_append, Assembly.clauseTokens, List.mem_filterMap]
  refine or_congr ⟨?_, ?_⟩ ?_
  · rintro ⟨clause, hmem, h⟩
    split at h
    · rename_i hnames
      exact ⟨clause, hmem, hnames.1, hnames.2, (Option.some.inj h).symm⟩
    · cases h
  · rintro ⟨clause, hmem, hnames, hne, rfl⟩
    exact ⟨clause, hmem, if_pos ⟨hnames, hne⟩⟩
  · split <;> simp_all

/-- All tokens of a body. -/
def tokens (body : MethodBody) (instructions : List Instruction) : List Token :=
  Code.tokensOf instructions ++ body.outerTokens

end MethodBody

namespace Assembly

/-- An assembly in which every reference leads somewhere. -/
structure WellFormed (assembly : Assembly) : Prop where
  /-- Every row has the columns of its table. -/
  arity : ∀ table, ∀ columns ∈ assembly.tables.rows table,
    columns.length = table.columns.length
  /-- Every column that refers to a row refers to an existing one, or to none. -/
  inRange : ∀ table, ∀ columns ∈ assembly.tables.rows table, ∀ (c : Nat) kind value,
    table.columns[c]? = some kind → columns[c]? = some value → assembly.tables.InRange kind value
  /-- Tokens can tell the rows of every table apart. -/
  counts : ∀ table, assembly.tables.count table < Token.rowLimit
  /-- The bodies of the image can be read, and different ones do not overlap. -/
  bodies : assembly.BodiesFit
  /-- The bodies of the image hold such tokens only as code may hold. -/
  bodyTokens : ∀ rva ∈ assembly.bodyRvas, ∀ offset body instructions,
    assembly.image.offsetOf rva = .ok offset → HasBody assembly.image offset body instructions →
      ∀ token ∈ body.tokens instructions, token.IsCodeToken
  /-- The bodies of added methods can be read. -/
  added : ∀ entry ∈ assembly.addedBodies, ∃ body instructions,
    MethodBody.read entry.2 = .ok body ∧ Code.decode (body.code entry.2) = .ok instructions ∧
      ∀ token ∈ body.tokens instructions, token.IsCodeToken
  /-- Added bodies are listed in the order of their rows. -/
  ascending : Ascending assembly.addedBodies

theorem mem_rowNumbers {assembly : Assembly} {table : Table} {row : Nat} :
    row ∈ assembly.rowNumbers table ↔ ∃ columns, assembly.tables.row? table row = some columns := by
  rw [Tables.exists_row?, rowNumbers, List.mem_range'_1]
  omega

/-- The token of an existing row holds its whole number. -/
theorem WellFormed.row_token {assembly : Assembly} (h : assembly.WellFormed) {table : Table}
    {row : Nat} (hrow : ∃ columns, assembly.tables.row? table row = some columns) :
    (Token.ofRow table row).row = row := by
  rw [Token.row_ofRow]
  exact Nat.mod_eq_of_lt (Nat.lt_of_le_of_lt (Tables.exists_row?.mp hrow).2 (h.counts table))

theorem Token.table_of_ofRow_eq {table table' : Table} {row row' : Nat}
    (h : Token.ofRow table row = Token.ofRow table' row') : table = table' := by
  have htables := congrArg Token.table? h
  rw [Token.table?_ofRow, Token.table?_ofRow] at htables
  exact Option.some.inj htables

/-- Existing rows of a table have different tokens. -/
theorem WellFormed.row_of_ofRow_eq {assembly : Assembly} (h : assembly.WellFormed) {table : Table}
    {row row' : Nat} (hrow : ∃ columns, assembly.tables.row? table row = some columns)
    (hrow' : ∃ columns, assembly.tables.row? table row' = some columns)
    (heq : Token.ofRow table row = Token.ofRow table row') : row = row' := by
  rw [← h.row_token hrow, heq, h.row_token hrow']

/-- Every row has a value in each of its columns. -/
theorem WellFormed.exists_value {assembly : Assembly} (h : assembly.WellFormed) {table : Table}
    {row : Nat} {columns : Row} (hrow : assembly.tables.row? table row = some columns) {c : Nat}
    {kind : ColumnKind} (hkind : table.columns[c]? = some kind) :
    ∃ value, columns[c]? = some value ∧ assembly.tables.value table row c = .ok value ∧
      assembly.tables.InRange kind value := by
  have hmem := Tables.mem_rows.mpr ⟨row, hrow⟩
  have hlt : c < columns.length := by
    rw [h.arity table columns hmem]
    exact (List.getElem?_eq_some_iff.mp hkind).1
  have hget := List.getElem?_eq_getElem hlt
  exact ⟨columns[c], hget, Tables.value_eq_ok.mpr ⟨columns, hrow, hget⟩,
    h.inRange table columns hmem c kind _ hkind hget⟩

/-- A coded index of a row names an existing row, or none. -/
theorem WellFormed.exists_decode {assembly : Assembly} (h : assembly.WellFormed) {table : Table}
    {row : Nat} {columns : Row} (hrow : assembly.tables.row? table row = some columns) {c : Nat}
    {kind : CodedKind} (hkind : table.columns[c]? = some (.coded kind)) :
    ∃ value target named, columns[c]? = some value ∧ assembly.tables.value table row c = .ok value ∧
      kind.decode value = .ok (target, named) ∧ named ≤ assembly.tables.count target := by
  obtain ⟨value, hget, hvalue, target, named, hdecode, hin⟩ := h.exists_value hrow hkind
  exact ⟨value, target, named, hget, hvalue, hdecode, hin⟩

end Assembly

end NativeExports
