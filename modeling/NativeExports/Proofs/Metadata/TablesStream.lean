import Mathlib.Data.Nat.BitIndices
import NativeExports.Proofs.Metadata.StoredColumns
import NativeExports.Proofs.Readers

/-!
# Tables read back from their stream

The stream of tables stores no widths: writer and reader both compute them from the row counts and
the flags of the heaps.  The main statement, `read_of_write`, says that they agree: tables that were
stored are read back unchanged.
-/

namespace NativeExports.Tables

variable {tables : Tables} {widths : Widths}

/-! ## Rows -/

theorem lt_of_fits {kind : ColumnKind} {value : Nat}
    (h : Column.Fits (widths.isWide kind) value) : value < 256 ^ widths.columnWidth kind := by
  unfold Column.Fits at h
  unfold Widths.columnWidth
  cases hwide : widths.isWide kind <;> rw [hwide] at h <;> exact h

theorem readRow_takes {kinds : List ColumnKind} {columns : Row}
    (hlength : columns.length = kinds.length)
    (hfits : ∀ entry ∈ kinds.zip columns, Column.Fits (widths.isWide entry.1) entry.2) :
    (Column.readRow (kinds.map widths.columnWidth)).Takes
      ((kinds.zip columns).flatMap fun entry =>
        Bytes.leBytes (widths.columnWidth entry.1) entry.2) columns := by
  induction kinds generalizing columns with
  | nil =>
      obtain rfl := List.length_eq_zero_iff.mp hlength
      exact .pure _
  | cons kind kinds ih =>
      cases columns with
      | nil => cases hlength
      | cons value columns =>
          have hvalue := lt_of_fits (hfits (kind, value) (.head _))
          have hrest := ih (Nat.succ.inj hlength) fun entry hmem => hfits entry (.tail _ hmem)
          rw [List.map_cons, List.zip_cons_cons, List.flatMap_cons]
          exact (Reader.le_takes_leBytes hvalue).bind hrest.bind_pure

theorem length_storedRow {table : Table} {columns : Row}
    (hlength : columns.length = table.columns.length) :
    (storedRow widths table columns).length = widths.rowWidth table := by
  rw [storedRow, List.length_flatMap, Widths.rowWidth, Widths.columnSizes]
  have hmap : (table.columns.zip columns).map
      (fun entry => (Bytes.leBytes (widths.columnWidth entry.1) entry.2).length) =
        ((table.columns.zip columns).map Prod.fst).map widths.columnWidth := by
    simp
  rw [hmap, List.map_fst_zip (Nat.le_of_eq hlength.symm)]

/-- The rows of some tables are read back in order. -/
theorem readRows_takes {list : List Table} (hcount : widths.count = tables.count)
    (harity : ∀ table, ∀ columns ∈ tables.rows table, columns.length = table.columns.length)
    (hfits : ∀ table, ∀ columns ∈ tables.rows table, RowFits widths table columns) :
    (readRows widths list).Takes
      (list.flatMap fun table => (tables.rows table).flatMap (storedRow widths table))
      (list.map tables.rows) := by
  induction list with
  | nil => exact .pure _
  | cons table list ih =>
      have hrows : (Reader.times (Column.readRow (widths.columnSizes table))
          (tables.rows table).length).Takes
            ((tables.rows table).flatMap (storedRow widths table)) (tables.rows table) :=
        .times fun columns hmem =>
          readRow_takes (harity table columns hmem) (hfits table columns hmem)
      have hlength : ((tables.rows table).flatMap (storedRow widths table)).length =
          (tables.rows table).length * widths.rowWidth table := by
        rw [List.length_flatMap, List.map_congr_left fun columns hmem =>
          length_storedRow (harity table columns hmem), List.map_const', List.sum_replicate_nat]
      rw [List.flatMap_cons, List.map_cons]
      unfold readRows
      dsimp only
      rw [hcount, count]
      split
      · rename_i hzero
        rw [List.length_eq_zero_iff.mp hzero]
        exact ih.bind_pure
      · intro rest
        refine Reader.bind_eq_ok.mpr ⟨_, _, rfl, ?_⟩
        rw [if_neg (by simp [hlength])]
        exact hrows.bind ih.bind_pure rest

/-! ## Row counts -/

theorem sortedLT_numbers : (Table.all.map Table.number).SortedLT := by
  decide

theorem testBit_valid (tables : Tables) (n : Nat) :
    tables.valid.testBit n = true ↔ ∃ table : Table, tables.rows table ≠ [] ∧ table.number = n := by
  have hsorted : ((Table.all.filter fun table => !(tables.rows table).isEmpty).map
      Table.number).SortedLT :=
    (sortedLT_numbers.pairwise.sublist (List.filter_sublist.map _)).sortedLT
  have hvalid : tables.valid = (((Table.all.filter fun table =>
      !(tables.rows table).isEmpty).map Table.number).map fun n => 2 ^ n).sum := by
    rw [List.map_map]
    rfl
  rw [← Nat.mem_bitIndices, hvalid, Nat.bitIndices_sum_map_two_pow hsorted]
  simp [Table.mem_all]

/-- The mask of present tables tells which tables have rows. -/
theorem isIn_valid (tables : Tables) (table : Table) :
    table.isIn tables.valid = !(tables.rows table).isEmpty := by
  rw [Bool.eq_iff_iff]
  refine (testBit_valid tables table.number).trans ?_
  rw [Bool.not_eq_true', List.isEmpty_eq_false_iff]
  constructor
  · rintro ⟨other, hrows, hnumber⟩
    exact Table.number_injective hnumber ▸ hrows
  · exact fun hrows => ⟨table, hrows, rfl⟩

theorem valid_lt (tables : Tables) : tables.valid < 2 ^ 45 := by
  refine Nat.lt_pow_two_of_testBit _ fun n hn => ?_
  rw [← Bool.not_eq_true, testBit_valid]
  rintro ⟨table, -, rfl⟩
  exact absurd table.number_lt (by omega)

/-- The row counts of some tables are read back: only the tables that have rows store theirs. -/
theorem readCounts_takes {valid : Nat} {list : List Table}
    (hvalid : ∀ table, table.isIn valid = !(tables.rows table).isEmpty)
    (hpointer : ∀ table, table.isPointer = true → tables.rows table = [])
    (hcount : ∀ table, tables.count table < 2 ^ 32) :
    (readCounts valid list).Takes
      ((list.filter fun table => !(tables.rows table).isEmpty).flatMap fun table =>
        Bytes.leBytes 4 (tables.count table)) (list.map tables.count) := by
  induction list with
  | nil => exact .pure _
  | cons table list ih =>
      unfold readCounts
      rw [hvalid, List.map_cons]
      cases hempty : (tables.rows table).isEmpty with
      | true =>
          have hzero : tables.count table = 0 := by
            rw [count, List.isEmpty_iff.mp hempty, List.length_nil]
          rw [List.filter_cons_of_neg (by simp [hempty]), hzero]
          exact ih.bind_pure
      | false =>
          have hplain : ¬table.isPointer = true := fun hpointed =>
            List.isEmpty_eq_false_iff.mp hempty (hpointer table hpointed)
          rw [List.filter_cons_of_pos (by simp [hempty]), List.flatMap_cons]
          simp only [Bool.not_false, if_true, if_neg hplain]
          exact (Reader.le_takes_leBytes (hcount table)).bind ih.bind_pure

/-! ## The stream -/

/-- What the header of the stream can hold. -/
structure HeaderFits (tables : Tables) : Prop where
  /-- The versions take one byte each. -/
  majorVersion : tables.majorVersion < 2 ^ 8
  minorVersion : tables.minorVersion < 2 ^ 8
  /-- The mask of the sorted tables takes eight bytes. -/
  sorted : tables.sorted < 2 ^ 64

theorem storedFlags_lt {heapFlags : Nat} (h : heapFlags < 2 ^ 8) :
    storedFlags heapFlags < 2 ^ 8 := by
  unfold storedFlags Widths.extraBit
  omega

theorem testBit_storedFlags (heapFlags : Nat) :
    (storedFlags heapFlags).testBit Widths.extraBit = false := by
  rw [Nat.testBit_eq_decide_div_mod_eq, decide_eq_false_iff_not]
  unfold storedFlags Widths.extraBit
  omega

theorem number_ofFin (n : Fin 45) : (Table.ofFin n).number = n := by
  decide +revert

theorem getD_map_all {α : Type} (f : Table → α) (default : α) (table : Table) :
    (Table.all.map f).getD table.number default = f table := by
  have hget : Table.all[table.number]? = some table := table.ofNumber?_number
  rw [List.getD_eq_getElem?_getD, List.getElem?_map, hget]
  rfl

/-- The rows of all tables make up the tables again. -/
theorem ofFn_rows (tables : Tables) :
    (Vector.ofFn fun n : Fin 45 => (Table.all.map tables.rows).getD n []) = tables.store := by
  ext n hn
  have hrows := getD_map_all tables.rows [] (.ofFin ⟨n, hn⟩)
  rw [Vector.getElem_ofFn]
  rw [number_ofFin] at hrows
  rw [hrows]
  simp only [rows, number_ofFin]

theorem reader_takes {heapFlags : Nat} (hflags : heapFlags < 2 ^ 8)
    (hextra : heapFlags.testBit Widths.extraBit = false) (hheader : tables.HeaderFits)
    (hpointer : ∀ table, table.isPointer = true → tables.rows table = [])
    (hcount : ∀ table, tables.count table < 2 ^ 32)
    (harity : ∀ table, ∀ columns ∈ tables.rows table, columns.length = table.columns.length)
    (hfits : ∀ table, ∀ columns ∈ tables.rows table,
      RowFits (tables.widths heapFlags) table columns) :
    reader.Takes (tables.stored heapFlags) tables := by
  intro rest
  unfold stored encodeHeader reader
  simp only [List.append_assoc]
  refine Reader.bind_eq_ok.mpr ⟨0, _, Reader.le_takes_leBytes (by decide) _, ?_⟩
  refine Reader.bind_eq_ok.mpr ⟨_, _, Reader.le_takes_leBytes hheader.majorVersion _, ?_⟩
  refine Reader.bind_eq_ok.mpr ⟨_, _, Reader.le_takes_leBytes hheader.minorVersion _, ?_⟩
  refine Reader.bind_eq_ok.mpr ⟨_, _, Reader.le_takes_leBytes hflags _, ?_⟩
  refine Reader.bind_eq_ok.mpr ⟨1, _, Reader.le_takes_leBytes (by decide) _, ?_⟩
  have hvalid := Nat.lt_of_lt_of_le tables.valid_lt (by decide : 2 ^ 45 ≤ 256 ^ 8)
  refine Reader.bind_eq_ok.mpr ⟨_, _, Reader.le_takes_leBytes hvalid _, ?_⟩
  refine Reader.bind_eq_ok.mpr ⟨_, _, Reader.le_takes_leBytes hheader.sorted _, ?_⟩
  have hknown : ¬knownMask < tables.valid := Nat.not_lt.mpr (Nat.le_sub_one_of_lt tables.valid_lt)
  rw [if_neg hknown]
  refine Reader.bind_eq_ok.mpr ⟨_, _, readCounts_takes (isIn_valid tables) hpointer hcount _, ?_⟩
  rw [hextra, if_neg Bool.false_ne_true]
  have hwidths : (fun table => (Table.all.map tables.count).getD table.number 0) = tables.count :=
    funext (getD_map_all tables.count 0)
  simp only [hwidths]
  refine Reader.bind_eq_ok.mpr ⟨_, _, readRows_takes rfl harity hfits _, ?_⟩
  rw [ofFn_rows]
  rfl

/-- Tables that were stored are read back unchanged. -/
theorem read_of_write {heapFlags : Nat} {data : Bytes} (hflags : heapFlags < 2 ^ 8)
    (hheader : tables.HeaderFits)
    (hpointer : ∀ table, table.isPointer = true → tables.rows table = [])
    (hcount : ∀ table, tables.count table < 2 ^ 32)
    (harity : ∀ table, ∀ columns ∈ tables.rows table, columns.length = table.columns.length)
    (h : tables.write heapFlags = .ok data) : read data = .ok tables := by
  obtain ⟨hfits, rfl⟩ := write_eq_ok.mp h
  have htakes := reader_takes (storedFlags_lt hflags) (testBit_storedFlags heapFlags) hheader
    hpointer hcount harity hfits
  rw [read, Reader.parse, Bytes.pad4, htakes]

end NativeExports.Tables
