import NativeExports.Assembly.Renumber
import NativeExports.Proofs.Outcome

/-!
# Columns of rows under renumbering

Renumbering walks over the columns of all rows.  The walk is described here by its effect on single
columns: `newColumn` tells what becomes of a column, and a row, a table and all tables are renewed
column by column.
-/

namespace NativeExports.Renumbering

/-! ## Rows -/

/-- Each column of the given kinds becomes what `newColumn` makes of it. -/
def Renews (renumbering : Renumbering) (source : Table) (row : Nat) (kinds : List ColumnKind)
    (old new : Row) : Prop :=
  new.length = old.length ∧
    ∀ (c : Nat) kind value, kinds[c]? = some kind → old[c]? = some value →
      ∃ value', new[c]? = some value' ∧ renumbering.newColumn source row kind value = .ok value'

theorem renews_of_newColumns {renumbering : Renumbering} {source : Table} {row : Nat}
    {kinds : List ColumnKind} {old new : Row}
    (h : renumbering.newColumns source row kinds old = .ok new) :
    renumbering.Renews source row kinds old new := by
  induction kinds generalizing old new with
  | nil =>
      obtain rfl := Except.ok.inj h
      exact ⟨rfl, nofun⟩
  | cons kind kinds ih =>
      cases old with
      | nil =>
          obtain rfl := Except.ok.inj h
          exact ⟨rfl, nofun⟩
      | cons value values =>
          rw [newColumns] at h
          obtain ⟨value', hvalue, h⟩ := Outcome.bind_eq_ok.mp h
          obtain ⟨values', hvalues, h⟩ := Outcome.bind_eq_ok.mp h
          obtain rfl := Outcome.pure_eq_ok.mp h
          obtain ⟨hlength, hcolumns⟩ := ih hvalues
          refine ⟨by simp [hlength], fun c => ?_⟩
          cases c with
          | zero =>
              intro kind' value₀ hkind hold
              obtain rfl : kind = kind' := by simpa using hkind
              obtain rfl : value = value₀ := by simpa using hold
              exact ⟨value', rfl, hvalue⟩
          | succ c => exact hcolumns c

theorem failsOnly_newColumns {kind : Error → Prop} {renumbering : Renumbering} {source : Table}
    {row : Nat} {kinds : List ColumnKind} {old : Row}
    (h : ∀ (c : Nat) column value, kinds[c]? = some column → old[c]? = some value →
      Outcome.FailsOnly kind (renumbering.newColumn source row column value)) :
    Outcome.FailsOnly kind (renumbering.newColumns source row kinds old) := by
  induction kinds generalizing old with
  | nil => exact .ok old
  | cons column kinds ih =>
      cases old with
      | nil => exact .ok []
      | cons value values =>
          rw [newColumns]
          exact (h 0 column value rfl rfl).bind fun value' _ =>
            (ih fun c => h (c + 1)).bind fun values' _ => .ok (value' :: values')

theorem newColumn_of_not_touches {renumbering : Renumbering} {source : Table} {row value : Nat}
    {kind : ColumnKind} (h : renumbering.touches kind = false) :
    renumbering.newColumn source row kind value = .ok value := by
  cases kind with
  | index target => simp_all [touches, newColumn]
  | list target => simp_all [touches, newColumn]
  | coded coded => simp_all [touches, newColumn]
  | _ => rfl

/-- Nothing becomes of columns that cannot refer to the edited table. -/
theorem newColumns_of_not_touches {renumbering : Renumbering} {source : Table} {row : Nat}
    {kinds : List ColumnKind} {old : Row} (h : kinds.any renumbering.touches = false) :
    renumbering.newColumns source row kinds old = .ok old := by
  induction kinds generalizing old with
  | nil => rfl
  | cons kind kinds ih =>
      rw [List.any_cons, Bool.or_eq_false_iff] at h
      cases old with
      | nil => rfl
      | cons value values =>
          rw [newColumns, newColumn_of_not_touches h.1, Outcome.ok_bind, ih h.2]
          rfl

/-! ## Tables -/

/-- What becomes of row `row` of `source`. -/
def newRowOf (renumbering : Renumbering) (source : Table) (row : Nat) (columns : Row) :
    Except Error Row :=
  if source = renumbering.table ∧ renumbering.isInserted row then pure columns
  else renumbering.newColumns source row source.columns columns

theorem newRowsFrom_cons (renumbering : Renumbering) (source : Table) (seen : List Row) (row : Nat)
    (columns : Row) (rest : List Row) :
    renumbering.newRowsFrom source seen row (columns :: rest) = (do
      let columns ← renumbering.newRowOf source row columns
      renumbering.newRowsFrom source (columns :: seen) (row + 1) rest) := by
  rw [newRowsFrom, newRowOf]
  split <;> rfl

theorem newRowsFrom_eq_ok {renumbering : Renumbering} {source : Table} {seen rows out : List Row}
    {row : Nat} :
    renumbering.newRowsFrom source seen row rows = .ok out ↔
      ∃ rows', out = seen.reverse ++ rows' ∧ rows'.length = rows.length ∧
        ∀ n columns, rows[n]? = some columns →
          ∃ columns', rows'[n]? = some columns' ∧
            renumbering.newRowOf source (row + n) columns = .ok columns' := by
  induction rows generalizing seen row with
  | nil =>
      constructor
      · intro h
        exact ⟨[], by simpa [newRowsFrom] using h.symm, rfl, nofun⟩
      · rintro ⟨rows', rfl, hlength, -⟩
        rw [List.eq_nil_of_length_eq_zero hlength, List.append_nil]
        rfl
  | cons columns rest ih =>
      rw [newRowsFrom_cons, Outcome.bind_eq_ok]
      constructor
      · rintro ⟨columns', hcolumns, h⟩
        obtain ⟨rest', rfl, hlength, hrest⟩ := ih.mp h
        refine ⟨columns' :: rest', by simp, by simp [hlength], fun n old hold => ?_⟩
        cases n with
        | zero =>
            obtain rfl : columns = old := by simpa using hold
            exact ⟨columns', rfl, hcolumns⟩
        | succ n =>
            rw [show row + (n + 1) = row + 1 + n by omega]
            exact hrest n old hold
      · rintro ⟨rows', rfl, hlength, hrows⟩
        obtain ⟨columns', rest', rfl⟩ := List.exists_cons_of_length_eq_add_one hlength
        obtain ⟨columns'', hget, hcolumns⟩ := hrows 0 columns rfl
        obtain rfl : columns' = columns'' := by simpa using hget
        refine ⟨columns', hcolumns,
          ih.mpr ⟨rest', by simp, by simpa using hlength, fun n old hold => ?_⟩⟩
        rw [show row + 1 + n = row + (n + 1) by omega]
        exact hrows (n + 1) old hold

theorem failsOnly_newRowsFrom {kind : Error → Prop} {renumbering : Renumbering} {source : Table}
    {rows : List Row} (seen : List Row) (row : Nat)
    (h : ∀ n columns, rows[n]? = some columns →
      Outcome.FailsOnly kind (renumbering.newRowOf source (row + n) columns)) :
    Outcome.FailsOnly kind (renumbering.newRowsFrom source seen row rows) := by
  induction rows generalizing seen row with
  | nil => exact .ok _
  | cons columns rest ih =>
      rw [newRowsFrom_cons]
      refine (h 0 columns rfl).bind fun columns' _ => ih (columns' :: seen) (row + 1) ?_
      intro n old hold
      rw [show row + 1 + n = row + (n + 1) by omega]
      exact h (n + 1) old hold

/-- A table none of whose columns can refer to the edited table stays. -/
theorem newRowsFrom_of_not_touches {renumbering : Renumbering} {source : Table}
    (h : source.columns.any renumbering.touches = false) (rows : List Row) :
    renumbering.newRowsFrom source [] 1 rows = .ok rows := by
  refine newRowsFrom_eq_ok.mpr ⟨rows, rfl, rfl, fun n columns hget => ⟨columns, hget, ?_⟩⟩
  rw [newRowOf, newColumns_of_not_touches h]
  split <;> rfl

/-! ## All tables -/

/-- What becomes of the rows of a table while the other tables stay. -/
def renewTable (renumbering : Renumbering) (tables : Tables) (source : Table) :
    Except Error Tables :=
  if source.columns.any renumbering.touches then do
    let rows ← renumbering.newRowsFrom source [] 1 (tables.rows source)
    return tables.setRows source rows
  else .ok tables

theorem renewTable_eq_ok {renumbering : Renumbering} {tables tables' : Tables} {source : Table}
    (h : renumbering.renewTable tables source = .ok tables') :
    renumbering.newRowsFrom source [] 1 (tables.rows source) = .ok (tables'.rows source) ∧
      ∀ other, other ≠ source → tables'.rows other = tables.rows other := by
  unfold renewTable at h
  split at h
  · obtain ⟨rows, hrows, h⟩ := Outcome.bind_eq_ok.mp h
    obtain rfl := Outcome.pure_eq_ok.mp h
    rw [Tables.rows_setRows_self]
    exact ⟨hrows, fun other hne => Tables.rows_setRows_ne hne⟩
  · rename_i htouches
    obtain rfl := Except.ok.inj h
    exact ⟨newRowsFrom_of_not_touches (by simpa using htouches) _, fun _ _ => rfl⟩

theorem failsOnly_renewTable {kind : Error → Prop} {renumbering : Renumbering} {tables : Tables}
    {source : Table}
    (h : Outcome.FailsOnly kind (renumbering.newRowsFrom source [] 1 (tables.rows source))) :
    Outcome.FailsOnly kind (renumbering.renewTable tables source) := by
  unfold renewTable
  split
  · exact h.bind fun rows _ => .ok (tables.setRows source rows)
  · exact .ok tables

theorem foldlM_renewTable {renumbering : Renumbering} {sources : List Table}
    {tables tables' : Tables} (hnodup : sources.Nodup)
    (h : sources.foldlM renumbering.renewTable tables = .ok tables') (source : Table) :
    (source ∈ sources →
      renumbering.newRowsFrom source [] 1 (tables.rows source) = .ok (tables'.rows source)) ∧
    (source ∉ sources → tables'.rows source = tables.rows source) := by
  induction sources generalizing tables with
  | nil =>
      obtain rfl := Outcome.pure_eq_ok.mp h
      exact ⟨nofun, fun _ => rfl⟩
  | cons first rest ih =>
      rw [List.foldlM_cons] at h
      obtain ⟨between, hfirst, h⟩ := Outcome.bind_eq_ok.mp h
      obtain ⟨hnew, hothers⟩ := renewTable_eq_ok hfirst
      obtain ⟨hfresh, hrest⟩ := List.nodup_cons.mp hnodup
      obtain ⟨hin, hout⟩ := ih hrest h
      constructor
      · intro hmem
        rcases List.mem_cons.mp hmem with rfl | hmem
        · rw [hout hfresh]
          exact hnew
        · rw [← hothers source fun heq => hfresh (heq ▸ hmem)]
          exact hin hmem
      · intro hmem
        rw [List.mem_cons, not_or] at hmem
        rw [hout hmem.2, hothers source hmem.1]

/-- Every table is renewed row by row. -/
theorem newTables_eq_ok {renumbering : Renumbering} {tables tables' : Tables}
    (h : renumbering.newTables tables = .ok tables') (source : Table) :
    renumbering.newRowsFrom source [] 1 (tables.rows source) = .ok (tables'.rows source) :=
  (foldlM_renewTable Table.nodup_all h source).1 (Table.mem_all source)

theorem failsOnly_newTables {kind : Error → Prop} {renumbering : Renumbering} {tables : Tables}
    (h : ∀ source,
      Outcome.FailsOnly kind (renumbering.newRowsFrom source [] 1 (tables.rows source))) :
    Outcome.FailsOnly kind (renumbering.newTables tables) := by
  have hstep : ∀ source rest state,
      ((source :: rest).Nodup ∧
        ∀ other ∈ source :: rest, state.rows other = tables.rows other) →
      Outcome.FailsOnly kind (renumbering.renewTable state source) ∧
        ∀ state', renumbering.renewTable state source = .ok state' →
          rest.Nodup ∧ ∀ other ∈ rest, state'.rows other = tables.rows other := by
    intro source rest state ⟨hnodup, hsame⟩
    obtain ⟨hfresh, hrest⟩ := List.nodup_cons.mp hnodup
    refine ⟨failsOnly_renewTable ?_, fun state' hstate => ⟨hrest, fun other hmem => ?_⟩⟩
    · rw [hsame source (.head _)]
      exact h source
    · rw [(renewTable_eq_ok hstate).2 other fun heq => hfresh (heq ▸ hmem)]
      exact hsame other (.tail _ hmem)
  exact Outcome.FailsOnly.foldlM (motive := fun (rest : List Table) (state : Tables) =>
    rest.Nodup ∧ ∀ source ∈ rest, state.rows source = tables.rows source) hstep
    ⟨Table.nodup_all, fun _ _ => rfl⟩

end NativeExports.Renumbering
