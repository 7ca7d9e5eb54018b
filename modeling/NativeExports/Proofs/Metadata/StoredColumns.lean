import NativeExports.Metadata.Block
import NativeExports.Proofs.CodedIndices
import NativeExports.Proofs.WellFormed

/-!
# Columns wide enough for their values

The stored form of the tables gives every column two or four bytes, from the row counts and the
sizes of the heaps.  `Tables.Bounded` collects the bounds that the values of a meaningful assembly
keep; the main statement, `succeedsIff_write`, says that such tables can be stored, except if a run
begins behind the last row of a table with exactly 65535 rows: this start is the one value that does
not fit, and storing the tables fails with it.
-/

namespace NativeExports

namespace Column

/-- The value fits into a column of four or of two bytes. -/
def Fits (wide : Bool) (value : Nat) : Prop :=
  value < if wide then 2 ^ 32 else 2 ^ 16

instance (wide : Bool) (value : Nat) : Decidable (Fits wide value) :=
  Nat.decLt ..

theorem encode_eq (wide : Bool) (value : Nat) : encode wide value =
    if Fits wide value then .ok (Bytes.leBytes (if wide then 4 else 2) value)
    else .error (.malformed (.columnOverflow value)) := by
  cases wide <;> rfl

theorem encode_eq_ok {wide : Bool} {value : Nat} {data : Bytes} :
    encode wide value = .ok data ↔
      Fits wide value ∧ data = Bytes.leBytes (if wide then 4 else 2) value := by
  rw [encode_eq]
  split
  · rename_i hfits
    rw [Except.ok.injEq]
    exact ⟨fun h => ⟨hfits, h.symm⟩, fun h => h.2.symm⟩
  · rename_i hfits
    exact ⟨nofun, fun h => absurd h.1 hfits⟩

end Column

namespace Tables

variable {tables : Tables} {heaps : Heaps} {widths : Widths}

/-- Every column of a row holds a value that fits into its bytes. -/
def RowFits (widths : Widths) (table : Table) (columns : Row) : Prop :=
  ∀ entry ∈ table.columns.zip columns, Column.Fits (widths.isWide entry.1) entry.2

/-- The stored form of a row whose columns fit. -/
def storedRow (widths : Widths) (table : Table) (columns : Row) : Bytes :=
  (table.columns.zip columns).flatMap fun entry =>
    Bytes.leBytes (widths.columnWidth entry.1) entry.2

theorem encodeRow_eq_ok {table : Table} {columns : Row} {data : Bytes} :
    encodeRow (table.columns.map widths.isWide) columns = .ok data ↔
      RowFits widths table columns ∧ data = storedRow widths table columns := by
  have hzip : (table.columns.map widths.isWide).zip columns =
      (table.columns.zip columns).map fun entry => (widths.isWide entry.1, entry.2) := by
    rw [List.zip_map_left]
    rfl
  rw [encodeRow, Outcome.bind_eq_ok]
  simp only [Outcome.mapM_eq_ok_map (fun _ _ => Column.encode_eq_ok), Outcome.pure_eq_ok, hzip,
    List.forall_mem_map, List.map_map]
  constructor
  · rintro ⟨_, ⟨hfits, rfl⟩, rfl⟩
    exact ⟨hfits, (List.flatMap_def ..).symm⟩
  · rintro ⟨hfits, rfl⟩
    exact ⟨_, ⟨hfits, rfl⟩, (List.flatMap_def ..).symm⟩

theorem encodeRows_eq_ok {table : Table} {rows : List Row} {data : Bytes} :
    encodeRows widths table rows = .ok data ↔
      (∀ columns ∈ rows, RowFits widths table columns) ∧
        data = rows.flatMap (storedRow widths table) := by
  rw [encodeRows, Outcome.bind_eq_ok]
  simp only [Outcome.mapM_eq_ok_map (fun _ _ => encodeRow_eq_ok), Outcome.pure_eq_ok]
  constructor
  · rintro ⟨_, ⟨hfits, rfl⟩, rfl⟩
    exact ⟨hfits, (List.flatMap_def ..).symm⟩
  · rintro ⟨hfits, rfl⟩
    exact ⟨_, ⟨hfits, rfl⟩, (List.flatMap_def ..).symm⟩

/-- The flags that are stored: no extra word is. -/
def storedFlags (heapFlags : Nat) : Nat :=
  heapFlags % 2 ^ Widths.extraBit +
    heapFlags / 2 ^ (Widths.extraBit + 1) * 2 ^ (Widths.extraBit + 1)

/-- The stored form of tables whose columns fit. -/
def stored (tables : Tables) (heapFlags : Nat) : Bytes :=
  tables.encodeHeader heapFlags ++ Table.all.flatMap fun table =>
    (tables.rows table).flatMap (storedRow (tables.widths heapFlags) table)

theorem write_eq_ok {heapFlags : Nat} {data : Bytes} :
    tables.write heapFlags = .ok data ↔
      (∀ table, ∀ columns ∈ tables.rows table,
        RowFits (tables.widths (storedFlags heapFlags)) table columns) ∧
        data = (tables.stored (storedFlags heapFlags)).pad4 := by
  unfold write
  rw [Outcome.bind_eq_ok]
  simp only [Outcome.mapM_eq_ok_map (fun _ _ => encodeRows_eq_ok), Outcome.pure_eq_ok]
  constructor
  · rintro ⟨_, ⟨hfits, rfl⟩, rfl⟩
    exact ⟨fun table => hfits table table.mem_all, by rw [stored, List.flatMap_def]; rfl⟩
  · rintro ⟨hfits, rfl⟩
    exact ⟨_, ⟨fun table _ => hfits table, rfl⟩, by rw [stored, List.flatMap_def]; rfl⟩

/-! ## The flags of the heaps -/

theorem flags_lt (heaps : Heaps) : heaps.flags < 2 ^ 3 := by
  unfold Heaps.flags
  split <;> split <;> split <;> decide

theorem storedFlags_flags (heaps : Heaps) : storedFlags heaps.flags = heaps.flags := by
  have hlt := flags_lt heaps
  unfold storedFlags
  rw [Nat.mod_eq_of_lt (Nat.lt_of_lt_of_le hlt (by decide)),
    Nat.div_eq_of_lt (Nat.lt_of_lt_of_le hlt (by decide)), Nat.zero_mul, Nat.add_zero]

theorem testBit_flags (heaps : Heaps) :
    heaps.flags.testBit Widths.stringsBit = decide (0x10000 ≤ heaps.strings.length) ∧
      heaps.flags.testBit Widths.guidsBit = decide (0x10000 ≤ heaps.guids.length / 16) ∧
      heaps.flags.testBit Widths.blobsBit = decide (0x10000 ≤ heaps.blobs.length) := by
  unfold Heaps.flags
  by_cases hstrings : 0x10000 ≤ heaps.strings.length <;>
    by_cases hguids : 0x10000 ≤ heaps.guids.length / 16 <;>
    by_cases hblobs : 0x10000 ≤ heaps.blobs.length <;>
    simp only [hstrings, hguids, hblobs, if_true, if_false, decide_true, decide_false] <;> decide

/-! ## Values within their bounds -/

/-- The values that a column may hold next to the given heaps: offsets lie inside their heap, rows
exist, and a run may begin behind the last row of its table. -/
def Bounded (tables : Tables) (heaps : Heaps) (kind : ColumnKind) (value : Nat) : Prop :=
  match kind with
  | .u16 => value < 2 ^ 16
  | .u32 => True
  | .string => value < heaps.strings.length
  | .guid => value ≤ heaps.guids.length / 16
  | .blob => value < heaps.blobs.length
  | .list target => value ≤ tables.count target + 1
  | .index _ | .coded _ => tables.InRange kind value

/-- Tables whose columns keep their bounds. -/
structure Bounds (tables : Tables) (heaps : Heaps) : Prop where
  /-- Every row has the columns of its table. -/
  arity : ∀ table, ∀ columns ∈ tables.rows table, columns.length = table.columns.length
  /-- Every column holds a number of 32 bits. -/
  words : ∀ table, ∀ columns ∈ tables.rows table, ∀ value ∈ columns, value < 2 ^ 32
  /-- Every column holds a value that it may hold. -/
  bounded : ∀ table, ∀ columns ∈ tables.rows table, ∀ entry ∈ table.columns.zip columns,
    tables.Bounded heaps entry.1 entry.2

/-- A run begins behind the last row of a table with 65535 rows. -/
def BeginsPastWide (tables : Tables) (kind : ColumnKind) (value : Nat) : Prop :=
  ∃ target, kind = .list target ∧ tables.count target = 2 ^ 16 - 1 ∧ value = 2 ^ 16

/-- A coded index of an existing row takes no more bits than its column counts. -/
theorem lt_of_decode {kind : CodedKind} {value row : Nat} {target : Table}
    (h : kind.decode value = .ok (target, row)) (hrow : row ≤ widths.count target) :
    value < 2 ^ widths.codedBits kind := by
  have hmem : target ∈ kind.tables := CodedKind.mem_tables_of_decode h
  have hbits : widths.indexBits target ≤ (kind.tables.map widths.indexBits).foldl max 1 := by
    rw [List.foldl_max]
    exact Nat.le_trans (List.le_max?_getD_of_mem (List.mem_map_of_mem hmem)) (Nat.le_max_right ..)
  have hlt : value / 2 ^ kind.tagWidth < 2 ^ widths.indexBits target := by
    rw [CodedKind.row_of_decode h]
    exact Nat.lt_of_le_of_lt hrow Nat.lt_log2_self
  rw [Widths.codedBits, Nat.pow_add]
  refine Nat.lt_of_lt_of_le ((Nat.div_lt_iff_lt_mul (Nat.two_pow_pos _)).mp hlt) ?_
  exact Nat.mul_le_mul_right _ (Nat.pow_le_pow_right (by decide) hbits)

/-- A value within its bounds fits into its column, except for the start of a run behind the last
row of a table with 65535 rows. -/
theorem fits_iff {kind : ColumnKind} {value : Nat} (hword : value < 2 ^ 32)
    (h : tables.Bounded heaps kind value) :
    Column.Fits ((tables.widths heaps.flags).isWide kind) value ↔
      ¬tables.BeginsPastWide kind value := by
  obtain ⟨hstrings, hguids, hblobs⟩ := testBit_flags heaps
  have hother : (∀ target, kind ≠ .list target) →
      ((tables.widths heaps.flags).isWide kind = false → value < 2 ^ 16) →
        (Column.Fits ((tables.widths heaps.flags).isWide kind) value ↔
          ¬tables.BeginsPastWide kind value) := by
    intro hkind hnarrow
    refine iff_of_true ?_ fun ⟨target, hlist, _⟩ => hkind target hlist
    unfold Column.Fits
    split
    · exact hword
    · exact hnarrow (Bool.eq_false_iff.mpr ‹_›)
  cases kind with
  | u16 => exact hother nofun fun _ => h
  | u32 => exact hother nofun nofun
  | string =>
      refine hother nofun fun hwide => ?_
      simp only [Widths.isWide, Tables.widths, hstrings, decide_eq_false_iff_not] at hwide
      simp only [Bounded] at h
      omega
  | guid =>
      refine hother nofun fun hwide => ?_
      simp only [Widths.isWide, Tables.widths, hguids, decide_eq_false_iff_not] at hwide
      simp only [Bounded] at h
      omega
  | blob =>
      refine hother nofun fun hwide => ?_
      simp only [Widths.isWide, Tables.widths, hblobs, decide_eq_false_iff_not] at hwide
      simp only [Bounded] at h
      omega
  | index target =>
      refine hother nofun fun hwide => ?_
      have hnarrow : ¬0xFFFF < tables.count target := of_decide_eq_false hwide
      simp only [Bounded, InRange] at h
      omega
  | coded coded =>
      refine hother nofun fun hwide => ?_
      obtain ⟨target, row, hdecode, hrow⟩ := h
      have hlt : value < 2 ^ (tables.widths heaps.flags).codedBits coded :=
        lt_of_decode hdecode hrow
      simp only [Widths.isWide, Widths.isWideCoded, decide_eq_false_iff_not, Nat.not_lt] at hwide
      exact Nat.lt_of_lt_of_le hlt (Nat.pow_le_pow_right (by decide) hwide)
  | list target =>
      simp only [Bounded] at h
      simp only [Column.Fits, BeginsPastWide, ColumnKind.list.injEq, exists_eq_left']
      cases hwide : (tables.widths heaps.flags).isWide (.list target) with
      | true =>
          have hcount : 0xFFFF < tables.count target := of_decide_eq_true hwide
          exact iff_of_true hword (by omega)
      | false =>
          have hcount : ¬0xFFFF < tables.count target := of_decide_eq_false hwide
          simp only [Bool.false_eq_true, if_false]
          omega

/-- The start of such a run is the only value within its bounds that a column refuses. -/
theorem succeedsIff_encode {kind : ColumnKind} {value : Nat} (hword : value < 2 ^ 32)
    (h : tables.Bounded heaps kind value) :
    Outcome.SucceedsIff (.malformed (.columnOverflow (2 ^ 16))) (¬tables.BeginsPastWide kind value)
      (Column.encode ((tables.widths heaps.flags).isWide kind) value) := by
  rw [Column.encode_eq]
  by_cases hbegins : tables.BeginsPastWide kind value
  · rw [if_neg (mt (fits_iff hword h).mp (not_not_intro hbegins))]
    obtain ⟨_, -, -, rfl⟩ := id hbegins
    exact .inr ⟨not_not_intro hbegins, rfl⟩
  · rw [if_pos ((fits_iff hword h).mpr hbegins)]
    exact .inl ⟨hbegins, _, rfl⟩

/-- Tables are stored as their columns are. -/
theorem succeedsIff_write_of_encode {e : Error} {p : ColumnKind → Nat → Prop}
    (h : ∀ table, ∀ columns ∈ tables.rows table, ∀ entry ∈ table.columns.zip columns,
      Outcome.SucceedsIff e (p entry.1 entry.2)
        (Column.encode ((tables.widths heaps.flags).isWide entry.1) entry.2)) :
    Outcome.SucceedsIff e (∀ table, ∀ columns ∈ tables.rows table,
      ∀ entry ∈ table.columns.zip columns, p entry.1 entry.2) (tables.write heaps.flags) := by
  have hrow : ∀ table, ∀ columns ∈ tables.rows table,
      Outcome.SucceedsIff e (∀ entry ∈ table.columns.zip columns, p entry.1 entry.2)
        (encodeRow (table.columns.map (tables.widths heaps.flags).isWide) columns) := by
    intro table columns hmem
    rw [encodeRow, List.zip_map_left, Outcome.mapM_map]
    exact (Outcome.SucceedsIff.mapM (h table columns hmem)).bind_pure
  have hrows : ∀ table, Outcome.SucceedsIff e
      (∀ columns ∈ tables.rows table, ∀ entry ∈ table.columns.zip columns, p entry.1 entry.2)
      (encodeRows (tables.widths heaps.flags) table (tables.rows table)) := fun table =>
    (Outcome.SucceedsIff.mapM (hrow table)).bind_pure
  have hall : Outcome.SucceedsIff e (∀ table ∈ Table.all, ∀ columns ∈ tables.rows table,
      ∀ entry ∈ table.columns.zip columns, p entry.1 entry.2)
      (Table.all.mapM fun table =>
        encodeRows (tables.widths (storedFlags heaps.flags)) table (tables.rows table)) := by
    rw [storedFlags_flags]
    exact .mapM fun table _ => hrows table
  exact hall.bind_pure.congr ⟨fun h table => h table table.mem_all, fun h table _ => h table⟩

/-- Tables whose columns keep their bounds can be stored next to their heaps, unless a run begins
behind the last row of a table with 65535 rows.  Then its start is reported, which does not fit. -/
theorem succeedsIff_write (h : tables.Bounds heaps) :
    Outcome.SucceedsIff (.malformed (.columnOverflow (2 ^ 16)))
      (∀ table, ∀ columns ∈ tables.rows table, ∀ entry ∈ table.columns.zip columns,
        ¬tables.BeginsPastWide entry.1 entry.2)
      (tables.write heaps.flags) :=
  succeedsIff_write_of_encode (p := fun kind value => ¬tables.BeginsPastWide kind value)
    fun table columns hmem entry hentry =>
      succeedsIff_encode (h.words table columns hmem _ (List.of_mem_zip hentry).2)
        (h.bounded table columns hmem entry hentry)

/-! ## A method without parameters behind the last parameter -/

/-- Some parameters, and a method whose run of parameters is empty and begins behind them. -/
def withLastRun (params : Nat) : Tables :=
  (empty.setRows .param (List.replicate params [0, 0, 0])).setRows .methodDef
    [[0, 0, 0, 0, 0, params + 1]]

/-- Heaps that hold the empty name and the empty blob. -/
def emptyHeaps : Heaps :=
  ⟨[0], [], [], [0]⟩

theorem mem_rows_withLastRun {params : Nat} {table : Table} {columns : Row}
    (h : columns ∈ (withLastRun params).rows table) :
    (table = .param ∧ columns = [0, 0, 0]) ∨
      (table = .methodDef ∧ columns = [0, 0, 0, 0, 0, params + 1]) := by
  unfold withLastRun at h
  by_cases hmethod : table = .methodDef
  · subst hmethod
    rw [rows_setRows_self] at h
    exact .inr ⟨rfl, List.mem_singleton.mp h⟩
  · rw [rows_setRows_ne hmethod] at h
    by_cases hparam : table = .param
    · subst hparam
      rw [rows_setRows_self] at h
      exact .inl ⟨rfl, (List.mem_replicate.mp h).2⟩
    · rw [rows_setRows_ne hparam, rows_empty] at h
      cases h

theorem count_param_withLastRun (params : Nat) : (withLastRun params).count .param = params := by
  have hne : Table.param ≠ .methodDef := by decide
  rw [withLastRun, count, rows_setRows_ne hne, rows_setRows_self, List.length_replicate]

theorem bounds_withLastRun {params : Nat} (h : params + 1 < 2 ^ 32) :
    (withLastRun params).Bounds emptyHeaps where
  arity table columns hmem := by
    rcases mem_rows_withLastRun hmem with ⟨rfl, rfl⟩ | ⟨rfl, rfl⟩ <;> rfl
  words table columns hmem value hvalue := by
    rcases mem_rows_withLastRun hmem with ⟨rfl, rfl⟩ | ⟨rfl, rfl⟩ <;> simp at hvalue <;> omega
  bounded table columns hmem entry hentry := by
    rcases mem_rows_withLastRun hmem with ⟨rfl, rfl⟩ | ⟨rfl, rfl⟩
    · simp only [Table.columns, List.zip_cons_cons, List.zip_nil_left, List.mem_cons,
        List.not_mem_nil, or_false] at hentry
      rcases hentry with rfl | rfl | rfl <;> simp [Bounded, emptyHeaps]
    · simp only [Table.columns, List.zip_cons_cons, List.zip_nil_left, List.mem_cons,
        List.not_mem_nil, or_false] at hentry
      rcases hentry with rfl | rfl | rfl | rfl | rfl | rfl <;>
        simp [Bounded, emptyHeaps, count_param_withLastRun]

/-- One parameter less than that, and the start of the run still fits into two bytes. -/
theorem exists_write_below_wide :
    (withLastRun (2 ^ 16 - 2)).Bounds emptyHeaps ∧
      ∃ data, (withLastRun (2 ^ 16 - 2)).write emptyHeaps.flags = .ok data := by
  have hbounds : (withLastRun (2 ^ 16 - 2)).Bounds emptyHeaps := bounds_withLastRun (by decide)
  refine ⟨hbounds, (succeedsIff_write hbounds).exists_ok ?_⟩
  rintro table columns hmem entry hentry ⟨target, hlist, hcount, hvalue⟩
  rcases mem_rows_withLastRun hmem with ⟨rfl, rfl⟩ | ⟨rfl, rfl⟩
  · have := (List.of_mem_zip hentry).2
    simp [hvalue] at this
  · have := (List.of_mem_zip hentry).2
    simp [hvalue] at this

/-- With 65535 parameters, the start of the run does not fit. -/
theorem write_overflows_at_wide :
    (withLastRun (2 ^ 16 - 1)).Bounds emptyHeaps ∧
      (withLastRun (2 ^ 16 - 1)).write emptyHeaps.flags =
        .error (.malformed (.columnOverflow (2 ^ 16))) := by
  have hbounds : (withLastRun (2 ^ 16 - 1)).Bounds emptyHeaps := bounds_withLastRun (by decide)
  have hmem : [0, 0, 0, 0, 0, 2 ^ 16] ∈ (withLastRun (2 ^ 16 - 1)).rows .methodDef := by
    rw [withLastRun, rows_setRows_self]
    exact List.mem_singleton.mpr rfl
  have hentry : (ColumnKind.list .param, 2 ^ 16) ∈
      Table.methodDef.columns.zip [0, 0, 0, 0, 0, 2 ^ 16] := by decide
  refine ⟨hbounds, (succeedsIff_write_of_encode
    (p := fun kind value => ¬(withLastRun (2 ^ 16 - 1)).BeginsPastWide kind value)
    fun table columns hmem entry hentry =>
      succeedsIff_encode (hbounds.words table columns hmem _ (List.of_mem_zip hentry).2)
        (hbounds.bounded table columns hmem entry hentry)).eq_error fun hnever => ?_⟩
  exact hnever _ _ hmem _ hentry ⟨.param, rfl, count_param_withLastRun _, rfl⟩

end Tables

end NativeExports
