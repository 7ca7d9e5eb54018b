import NativeExports.Proofs.Renumbering.Columns
import NativeExports.Proofs.Renumbering.RowNumbers
import NativeExports.Proofs.Renumbering.Signatures

/-!
# The rows of a renumbered assembly

Renumbering an assembly rearranges the rows of one table, renews the columns of all rows, and then
may move signatures.  Taken together, every row that stays stands at its new place, with each column
renewed that holds no signature.
-/

namespace NativeExports

namespace Renumbering

/-- Where a row of any table stands after renumbering. -/
def place (renumbering : Renumbering) (table : Table) (row : Nat) : Option Nat :=
  if table = renumbering.table then renumbering.newRow row else some row

/-- The columns of a row at `row` after renumbering, signatures aside. -/
def RowFollows (renumbering : Renumbering) (table : Table) (row : Nat) (old new : Row) : Prop :=
  new.length = old.length ∧
    ∀ (c : Nat) kind value, table.columns[c]? = some kind → old[c]? = some value →
      ¬Tables.IsSignatureColumn table c →
        ∃ value', new[c]? = some value' ∧ renumbering.newColumn table row kind value = .ok value'

/-- A column that renumbering leaves alone stays. -/
theorem RowFollows.getElem?_eq {renumbering : Renumbering} {table : Table} {row c : Nat}
    {kind : ColumnKind} {old new : Row} (h : renumbering.RowFollows table row old new)
    (hkind : table.columns[c]? = some kind) (hc : ¬Tables.IsSignatureColumn table c)
    (hstays : ∀ value, renumbering.newColumn table row kind value = .ok value) :
    new[c]? = old[c]? := by
  rcases hold : old[c]? with _ | value
  · rw [List.getElem?_eq_none_iff] at hold ⊢
    exact h.1 ▸ hold
  · obtain ⟨value', hnew, hvalue⟩ := h.2 c kind value hkind hold hc
    rw [hstays] at hvalue
    rw [hnew, Except.ok.inj hvalue]

theorem place_self (renumbering : Renumbering) (row : Nat) :
    renumbering.place renumbering.table row = renumbering.newRow row :=
  if_pos rfl

theorem place_of_ne {renumbering : Renumbering} {table : Table} (h : table ≠ renumbering.table)
    (row : Nat) : renumbering.place table row = some row :=
  if_neg h

end Renumbering

/-- Every row of `before` that stays stands at its new place in `after`, and `after` has no other
rows than these and the ones put in. -/
structure Tables.MovedTo (renumbering : Renumbering) (inserted : List Row) (before after : Tables) :
    Prop where
  /-- The tables were made for the renumbering. -/
  fits : before.count renumbering.table = renumbering.oldCount ∧
    inserted.length = renumbering.suppliedCount
  counts : ∀ table, after.count table =
    if table = renumbering.table then renumbering.newCount else before.count table
  rows : ∀ table row row' columns, before.row? table row = some columns →
    renumbering.place table row = some row' →
    ∃ columns', after.row? table row' = some columns' ∧
      renumbering.RowFollows table row' columns columns'
  inserted : ∀ position count owner, renumbering.edit = .insertion position count owner →
    ∀ n columns, inserted[n]? = some columns →
      ∃ columns', after.row? renumbering.table (position + n) = some columns' ∧
        Tables.SameButSignatures renumbering.table columns columns'
  origin : ∀ table row' columns', after.row? table row' = some columns' →
    (table = renumbering.table ∧ renumbering.isInserted row' = true) ∨
      ∃ row columns, before.row? table row = some columns ∧
        renumbering.place table row = some row'

/-- Every row put in is one of those supplied. -/
theorem Renumbering.exists_supplied {renumbering : Renumbering} {inserted : List Row}
    (hlength : inserted.length = renumbering.suppliedCount) {row : Nat}
    (hin : renumbering.isInserted row = true) :
    ∃ position count owner n columns, renumbering.edit = .insertion position count owner ∧
      row = position + n ∧ inserted[n]? = some columns := by
  unfold isInserted at hin
  unfold suppliedCount at hlength
  split at hin
  · rename_i position count owner hedit
    rw [hedit] at hlength
    dsimp only at hlength
    simp only [Bool.and_eq_true, decide_eq_true_eq] at hin
    exact ⟨position, count, owner, row - position, _, hedit, (Nat.add_sub_cancel' hin.1).symm,
      List.getElem?_eq_getElem (by omega)⟩
  · cases hin

/-- Rows are supplied only to be put in. -/
theorem Renumbering.exists_insertion {renumbering : Renumbering} {inserted : List Row}
    (hlength : inserted.length = renumbering.suppliedCount) {columns : Row}
    (hmem : columns ∈ inserted) :
    ∃ position count owner, renumbering.edit = .insertion position count owner := by
  have hpos := List.length_pos_of_mem hmem
  unfold suppliedCount at hlength
  split at hlength
  · rename_i count hedit
    exact ⟨_, _, _, hedit⟩
  · omega

theorem Tables.MovedTo.of_isInserted {renumbering : Renumbering} {inserted : List Row}
    {before after : Tables} (h : before.MovedTo renumbering inserted after) {row : Nat}
    (hin : renumbering.isInserted row = true) :
    ∃ columns ∈ inserted, ∃ columns', after.row? renumbering.table row = some columns' ∧
      Tables.SameButSignatures renumbering.table columns columns' := by
  obtain ⟨position, count, owner, n, columns, hedit, rfl, hget⟩ :=
    Renumbering.exists_supplied h.fits.2 hin
  exact ⟨columns, List.mem_of_getElem? hget, h.inserted position count owner hedit n columns hget⟩

namespace Assembly

theorem rearrange_eq_ok {renumbering : Renumbering} {tables tables' : Tables} {inserted : List Row}
    (h : rearrange renumbering tables inserted = .ok tables') :
    tables.count renumbering.table = renumbering.oldCount ∧
      inserted.length = renumbering.suppliedCount ∧
      tables' = tables.setRows renumbering.table
        (renumbering.arrange (tables.rows renumbering.table) inserted) := by
  simp only [rearrange] at h
  by_cases hcount : tables.count renumbering.table = renumbering.oldCount
  · rw [if_neg (not_not_intro hcount)] at h
    by_cases hlength : inserted.length = renumbering.suppliedCount
    · rw [if_neg (not_not_intro hlength)] at h
      exact ⟨hcount, hlength, (Outcome.pure_eq_ok.mp h).symm⟩
    · rw [if_pos hlength] at h
      cases h
  · rw [if_pos hcount] at h
    cases h

/-- Rearranging puts every row that stays at its place. -/
theorem row?_of_rearrange {renumbering : Renumbering} (hmade : renumbering.Made)
    {tables tables' : Tables} {inserted : List Row}
    (h : rearrange renumbering tables inserted = .ok tables') {table : Table} {row row' : Nat}
    {columns : Row} (hrow : tables.row? table row = some columns)
    (hplace : renumbering.place table row = some row') :
    tables'.row? table row' = some columns ∧
      ¬(table = renumbering.table ∧ renumbering.isInserted row' = true) := by
  obtain ⟨hcount, hlength, rfl⟩ := rearrange_eq_ok h
  obtain ⟨hlo, hget⟩ := Tables.row?_eq_some.mp hrow
  by_cases htable : table = renumbering.table
  · subst htable
    rw [renumbering.place_self] at hplace
    have hhi : row ≤ renumbering.oldCount := by
      rw [← hcount]
      exact (Tables.exists_row?.mp ⟨columns, hrow⟩).2
    obtain ⟨hlo', -, hnot⟩ := hmade.lawful.range row row' hlo hhi hplace
    refine ⟨Tables.row?_eq_some.mpr ⟨hlo', ?_⟩, by simp [hnot]⟩
    rw [Tables.rows_setRows_self, hmade.lawful.survivor _ inserted row row' hcount hlength hlo hhi
      hplace]
    exact hget
  · rw [renumbering.place_of_ne htable] at hplace
    obtain rfl := Option.some.inj hplace
    refine ⟨Tables.row?_eq_some.mpr ⟨hlo, ?_⟩, fun hin => htable hin.1⟩
    rw [Tables.rows_setRows_ne htable]
    exact hget

/-- Rearranging makes no rows. -/
theorem origin_of_rearrange {renumbering : Renumbering} (hmade : renumbering.Made)
    {tables tables' : Tables} {inserted : List Row}
    (h : rearrange renumbering tables inserted = .ok tables') {table : Table} {row' : Nat}
    {columns : Row} (hrow' : tables'.row? table row' = some columns) :
    (table = renumbering.table ∧ renumbering.isInserted row' = true) ∨
      ∃ row, tables.row? table row = some columns ∧ renumbering.place table row = some row' := by
  have h' := h
  obtain ⟨hcount, hlength, rfl⟩ := rearrange_eq_ok h
  by_cases htable : table = renumbering.table
  · subst htable
    obtain ⟨hlo, hhi⟩ := Tables.exists_row?.mp ⟨columns, hrow'⟩
    rw [Tables.count, Tables.rows_setRows_self, hmade.lawful.length _ _ hcount hlength] at hhi
    rcases hmade.lawful.origin row' hlo hhi with hin | ⟨row, hlo', hhi', hnew⟩
    · exact .inl ⟨rfl, hin⟩
    · obtain ⟨old, hrow⟩ := Tables.exists_row?.mpr ⟨hlo', hcount ▸ hhi'⟩
      have hplace := (renumbering.place_self row).trans hnew
      have hmoved := (row?_of_rearrange hmade h' hrow hplace).1
      rw [hrow'] at hmoved
      obtain rfl := Option.some.inj hmoved
      exact .inr ⟨row, hrow, hplace⟩
  · rw [Tables.row?_of_rows_eq (Tables.rows_setRows_ne htable)] at hrow'
    exact .inr ⟨row', hrow', renumbering.place_of_ne htable row'⟩

/-- Renewing keeps every row where it is. -/
theorem row?_of_newTables {renumbering : Renumbering} {tables tables' : Tables}
    (h : renumbering.newTables tables = .ok tables') {table : Table} {row : Nat} {columns : Row}
    (hrow : tables.row? table row = some columns) :
    ∃ columns', tables'.row? table row = some columns' ∧
      renumbering.newRowOf table row columns = .ok columns' := by
  obtain ⟨hlo, hget⟩ := Tables.row?_eq_some.mp hrow
  obtain ⟨rows, hrows, -, hcolumns⟩ :=
    Renumbering.newRowsFrom_eq_ok.mp (Renumbering.newTables_eq_ok h table)
  obtain ⟨columns', hget', hnew⟩ := hcolumns (row - 1) columns hget
  rw [List.reverse_nil, List.nil_append] at hrows
  rw [Nat.add_comm, Nat.sub_add_cancel hlo] at hnew
  exact ⟨columns', Tables.row?_eq_some.mpr ⟨hlo, hrows ▸ hget'⟩, hnew⟩

theorem count_of_newTables {renumbering : Renumbering} {tables tables' : Tables}
    (h : renumbering.newTables tables = .ok tables') (table : Table) :
    tables'.count table = tables.count table := by
  obtain ⟨rows, hrows, hlength, -⟩ :=
    Renumbering.newRowsFrom_eq_ok.mp (Renumbering.newTables_eq_ok h table)
  rw [List.reverse_nil, List.nil_append] at hrows
  rw [Tables.count, hrows, hlength, Tables.count]

/-- Rows that are put in stand at their position, with the columns supplied. -/
theorem inserted_of_newTables {renumbering : Renumbering} (hmade : renumbering.Made)
    {tables arranged renewed : Tables} {inserted : List Row}
    (harranged : rearrange renumbering tables inserted = .ok arranged)
    (hrenewed : renumbering.newTables arranged = .ok renewed) {position count : Nat}
    {owner : Option (Table × Nat)} (hedit : renumbering.edit = .insertion position count owner)
    {n : Nat} {columns : Row} (hget : inserted[n]? = some columns) :
    renewed.row? renumbering.table (position + n) = some columns := by
  obtain ⟨hcount, hlength, rfl⟩ := rearrange_eq_ok harranged
  obtain ⟨hlo, hin, harrange⟩ := hmade.inserted hedit hcount hlength
    (List.getElem?_eq_some_iff.mp hget).1
  rw [hget] at harrange
  have hrow : (tables.setRows renumbering.table
      (renumbering.arrange (tables.rows renumbering.table) inserted)).row? renumbering.table
        (position + n) = some columns :=
    Tables.row?_eq_some.mpr ⟨by omega, by rw [Tables.rows_setRows_self]; exact harrange⟩
  obtain ⟨columns', hrow', hnew⟩ := row?_of_newTables hrenewed hrow
  rw [Renumbering.newRowOf, if_pos ⟨rfl, hin⟩] at hnew
  obtain rfl := Outcome.pure_eq_ok.mp hnew
  exact hrow'

theorem movedTo_of_newTables {renumbering : Renumbering} (hmade : renumbering.Made)
    {before arranged renewed after : Tables} {inserted : List Row}
    (harranged : rearrange renumbering before inserted = .ok arranged)
    (hrenewed : renumbering.newTables arranged = .ok renewed)
    (hafter : renewed.ResignedFrom after) : before.MovedTo renumbering inserted after := by
  obtain ⟨hcount, hlength, hrows⟩ := rearrange_eq_ok harranged
  have hcounts : ∀ table, after.count table = arranged.count table := fun table =>
    (hafter table).1.trans (count_of_newTables hrenewed table)
  refine ⟨⟨hcount, hlength⟩, fun table => ?_, ?_, ?_, ?_⟩
  · rw [hcounts, hrows]
    split
    · rename_i htable
      subst htable
      rw [Tables.count, Tables.rows_setRows_self]
      exact hmade.lawful.length _ _ hcount hlength
    · rename_i htable
      rw [Tables.count, Tables.rows_setRows_ne htable, Tables.count]
  · intro table row row' columns hrow hplace
    obtain ⟨hrow', hnot⟩ := row?_of_rearrange hmade harranged hrow hplace
    obtain ⟨columns', hrow'', hnew⟩ := row?_of_newTables hrenewed hrow'
    obtain ⟨columns'', hlast, hlength', hsame⟩ := (hafter table).2 row' columns' hrow''
    rw [Renumbering.newRowOf, if_neg hnot] at hnew
    obtain ⟨hlength, hcolumns⟩ := Renumbering.renews_of_newColumns hnew
    refine ⟨columns'', hlast, hlength'.trans hlength, fun c kind value hkind hvalue hc => ?_⟩
    rw [hsame c hc]
    exact hcolumns c kind value hkind hvalue
  · intro position count owner hedit n columns hget
    exact (hafter renumbering.table).2 _ _
      (inserted_of_newTables hmade harranged hrenewed hedit hget)
  · intro table row' columns' hrow'
    obtain ⟨columns, hrow⟩ : ∃ columns, arranged.row? table row' = some columns := by
      rw [Tables.exists_row?, ← hcounts, ← Tables.exists_row?]
      exact ⟨columns', hrow'⟩
    rcases origin_of_rearrange hmade harranged hrow with hin | ⟨row, hbefore, hplace⟩
    · exact .inl hin
    · exact .inr ⟨row, columns, hbefore, hplace⟩

end Assembly

end NativeExports
