import NativeExports.Metadata.SignatureColumns
import NativeExports.Metadata.Tables
import NativeExports.Proofs.Outcome

/-!
# Reading and writing table rows

The operations on single rows and columns, stated through the rows of a table.
-/

namespace NativeExports

instance {p : Table → Prop} [DecidablePred p] : Decidable (∀ table, p table) :=
  decidable_of_iff (∀ table ∈ Table.all, p table)
    ⟨fun h table => h table table.mem_all, fun h table _ => h table⟩

namespace Tables

theorem row?_eq_some {tables : Tables} {table : Table} {row : Nat} {columns : Row} :
    tables.row? table row = some columns ↔
      1 ≤ row ∧ (tables.rows table)[row - 1]? = some columns := by
  unfold row?
  split
  · rename_i hzero
    simp [hzero]
  · exact ⟨fun h => ⟨by omega, h⟩, fun h => h.2⟩

/-- The rows of a table are numbered from 1 to their count. -/
theorem exists_row? {tables : Tables} {table : Table} {row : Nat} :
    (∃ columns, tables.row? table row = some columns) ↔ 1 ≤ row ∧ row ≤ tables.count table := by
  constructor
  · rintro ⟨columns, h⟩
    obtain ⟨hlo, hget⟩ := row?_eq_some.mp h
    have := (List.getElem?_eq_some_iff.mp hget).1
    exact ⟨hlo, by unfold count; omega⟩
  · rintro ⟨hlo, hhi⟩
    unfold count at hhi
    exact ⟨_, row?_eq_some.mpr ⟨hlo, List.getElem?_eq_getElem (by omega)⟩⟩

theorem mem_rows {tables : Tables} {table : Table} {columns : Row} :
    columns ∈ tables.rows table ↔ ∃ row, tables.row? table row = some columns := by
  constructor
  · intro h
    obtain ⟨n, hn⟩ := List.mem_iff_getElem?.mp h
    exact ⟨n + 1, row?_eq_some.mpr ⟨Nat.succ_pos n, hn⟩⟩
  · rintro ⟨row, h⟩
    exact List.mem_of_getElem? (row?_eq_some.mp h).2

theorem row_eq_ok {tables : Tables} {table : Table} {row : Nat} {columns : Row} :
    tables.row table row = .ok columns ↔ tables.row? table row = some columns := by
  unfold Tables.row
  split <;> simp_all

theorem value_eq_ok {tables : Tables} {table : Table} {row column value : Nat} :
    tables.value table row column = .ok value ↔
      ∃ columns, tables.row? table row = some columns ∧ columns[column]? = some value := by
  unfold Tables.value
  rw [Outcome.bind_eq_ok]
  constructor
  · rintro ⟨columns, hcolumns, h⟩
    refine ⟨columns, row_eq_ok.mp hcolumns, ?_⟩
    split at h
    · rename_i found hfound
      rw [hfound, Outcome.pure_eq_ok.mp h]
    · cases h
  · rintro ⟨columns, hcolumns, h⟩
    refine ⟨columns, row_eq_ok.mpr hcolumns, ?_⟩
    rw [h]
    rfl

/-- Only the rows of a table have values. -/
theorem exists_row_of_value {tables : Tables} {table : Table} {row column value : Nat}
    (h : tables.value table row column = .ok value) :
    ∃ columns, tables.row? table row = some columns := by
  obtain ⟨columns, hcolumns, -⟩ := value_eq_ok.mp h
  exact ⟨columns, hcolumns⟩

theorem bounds_of_value {tables : Tables} {table : Table} {row column value : Nat}
    (h : tables.value table row column = .ok value) : 1 ≤ row ∧ row ≤ tables.count table :=
  exists_row?.mp (exists_row_of_value h)

theorem row?_of_rows_eq {tables other : Tables} {table : Table}
    (h : other.rows table = tables.rows table) (row : Nat) :
    other.row? table row = tables.row? table row := by
  rw [row?, row?, h]

/-- Writing a column leaves everything else alone. -/
theorem put_eq_ok {tables tables' : Tables} {table : Table} {row column value : Nat}
    (h : tables.put table row column value = .ok tables') :
    ∃ columns, tables.row? table row = some columns ∧ column < columns.length ∧
      tables' = tables.setRows table
        ((tables.rows table).set (row - 1) (columns.set column value)) := by
  unfold put at h
  split at h
  · rename_i columns hcolumns
    split at h
    · exact ⟨columns, hcolumns, ‹_›, (Except.ok.inj h).symm⟩
    · cases h
  · cases h

theorem exists_put {tables : Tables} {table : Table} {row column : Nat} {columns : Row}
    (hrow : tables.row? table row = some columns) (hcolumn : column < columns.length)
    (value : Nat) : ∃ tables', tables.put table row column value = .ok tables' := by
  unfold put
  rw [hrow]
  simp only [if_pos hcolumn]
  exact ⟨_, rfl⟩

/-- Writing a row leaves the other rows alone. -/
theorem row?_set_of_ne {tables : Tables} {table other : Table} {row row' : Nat} {columns : Row}
    (hlo : 1 ≤ row) (h : ¬(other = table ∧ row' = row)) :
    (tables.setRows table ((tables.rows table).set (row - 1) columns)).row? other row' =
      tables.row? other row' := by
  by_cases htable : other = table
  · subst htable
    unfold row?
    by_cases hzero : row' = 0
    · rw [if_pos hzero, if_pos hzero]
    · rw [if_neg hzero, if_neg hzero, rows_setRows_self]
      have hne : row' ≠ row := fun heq => h ⟨rfl, heq⟩
      exact List.getElem?_set_ne (by omega)
  · exact row?_of_rows_eq (rows_setRows_ne htable) row'

/-- Writing a column changes one row, and of that one column. -/
theorem row?_of_put {tables tables' : Tables} {table : Table} {row column value : Nat}
    (h : tables.put table row column value = .ok tables') :
    (∃ columns, tables.row? table row = some columns ∧ column < columns.length ∧
      tables'.row? table row = some (columns.set column value)) ∧
    ∀ other row', ¬(other = table ∧ row' = row) →
      tables'.row? other row' = tables.row? other row' := by
  obtain ⟨columns, hrow, hcolumn, rfl⟩ := put_eq_ok h
  obtain ⟨hlo, hget⟩ := row?_eq_some.mp hrow
  refine ⟨⟨columns, hrow, hcolumn, row?_eq_some.mpr ⟨hlo, ?_⟩⟩, fun other row' =>
    row?_set_of_ne hlo⟩
  rw [rows_setRows_self, List.getElem?_set_self (List.getElem?_eq_some_iff.mp hget).1]

/-! ## Rows that differ in their signatures only -/

/-- Whether a column holds signatures. -/
def IsSignatureColumn (table : Table) (column : Nat) : Prop :=
  ∃ site ∈ SignatureColumn.all, site.table = table ∧ site.column = column

instance (table : Table) (column : Nat) : Decidable (IsSignatureColumn table column) :=
  inferInstanceAs (Decidable (∃ site ∈ SignatureColumn.all, site.table = table ∧
    site.column = column))

theorem kind_of_signatureColumn :
    ∀ site ∈ SignatureColumn.all, site.table.columns[site.column]? = some .blob := by
  decide

/-- A row with other signatures. -/
def SameButSignatures (table : Table) (columns columns' : Row) : Prop :=
  columns'.length = columns.length ∧
    ∀ c : Nat, ¬IsSignatureColumn table c → columns'[c]? = columns[c]?

/-- Tables with other signatures. -/
def ResignedFrom (before after : Tables) : Prop :=
  ∀ table, after.count table = before.count table ∧
    ∀ row columns, before.row? table row = some columns →
      ∃ columns', after.row? table row = some columns' ∧ SameButSignatures table columns columns'

theorem SameButSignatures.refl (table : Table) (columns : Row) :
    SameButSignatures table columns columns :=
  ⟨rfl, fun _ _ => rfl⟩

theorem SameButSignatures.trans {table : Table} {first second third : Row}
    (h : SameButSignatures table first second) (h' : SameButSignatures table second third) :
    SameButSignatures table first third :=
  ⟨h'.1.trans h.1, fun c hc => (h'.2 c hc).trans (h.2 c hc)⟩

theorem ResignedFrom.refl (tables : Tables) : ResignedFrom tables tables :=
  fun table => ⟨rfl, fun _ columns h => ⟨columns, h, .refl table columns⟩⟩

theorem ResignedFrom.trans {first second third : Tables} (h : ResignedFrom first second)
    (h' : ResignedFrom second third) : ResignedFrom first third := by
  intro table
  refine ⟨(h' table).1.trans (h table).1, fun row columns hrow => ?_⟩
  obtain ⟨columns', hrow', hsame⟩ := (h table).2 row columns hrow
  obtain ⟨columns'', hrow'', hsame'⟩ := (h' table).2 row columns' hrow'
  exact ⟨columns'', hrow'', hsame.trans hsame'⟩

/-- Writing a signature changes signatures only. -/
theorem resignedFrom_put {tables tables' : Tables} {site : SignatureColumn} {row value : Nat}
    (hsite : site ∈ SignatureColumn.all)
    (h : tables.put site.table row site.column value = .ok tables') :
    ResignedFrom tables tables' := by
  obtain ⟨columns, hrow, hcolumn, rfl⟩ := put_eq_ok h
  obtain ⟨hlo, hget⟩ := row?_eq_some.mp hrow
  have hlt := (List.getElem?_eq_some_iff.mp hget).1
  intro table
  by_cases htable : table = site.table
  · subst htable
    refine ⟨by simp [count], fun row' old hold => ?_⟩
    obtain ⟨hlo', hget'⟩ := row?_eq_some.mp hold
    by_cases hsame : row' = row
    · subst hsame
      obtain rfl : columns = old := by
        rw [hget] at hget'
        exact Option.some.inj hget'
      refine ⟨columns.set site.column value, row?_eq_some.mpr ⟨hlo, ?_⟩, by simp, fun c hc => ?_⟩
      · rw [rows_setRows_self, List.getElem?_set_self hlt]
      · rw [List.getElem?_set_ne]
        rintro rfl
        exact hc ⟨site, hsite, rfl, rfl⟩
    · refine ⟨old, row?_eq_some.mpr ⟨hlo', ?_⟩, .refl _ _⟩
      rw [rows_setRows_self, List.getElem?_set_ne (by omega)]
      exact hget'
  · have hrows : (tables.setRows site.table
        ((tables.rows site.table).set (row - 1) (columns.set site.column value))).rows table =
          tables.rows table := rows_setRows_ne htable
    refine ⟨by rw [count, count, hrows], fun row' old hold => ⟨old, ?_, .refl _ _⟩⟩
    rw [row?_of_rows_eq hrows]
    exact hold

end Tables

end NativeExports
