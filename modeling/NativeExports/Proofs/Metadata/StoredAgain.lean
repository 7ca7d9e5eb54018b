import NativeExports.Proofs.Metadata.Root
import NativeExports.Proofs.Metadata.TablesStream

/-!
# Tables stored again

A stream of tables from elsewhere may have row counts of zero, an extra word, any reserved fields,
wide columns for small heaps, and anything behind the last row.  `reader_eq_ok` says what the stream
looks like if it can be read at all; the widths that the reader takes from the header are those of
the tables that it finds.

The main statement, `write_of_read`, says that the tables of such a stream can be stored with the
flags of its header and are read back, and that a stream without any of these liberties is stored as
it was.
-/

namespace NativeExports.Tables

variable {tables : Tables} {widths : Widths}

/-! ## Rows -/

theorem fits_of_lt {kind : ColumnKind} {value : Nat} (h : value < 256 ^ widths.columnWidth kind) :
    Column.Fits (widths.isWide kind) value := by
  unfold Widths.columnWidth at h
  unfold Column.Fits
  cases hwide : widths.isWide kind <;> rw [hwide] at h <;> exact h

/-- A row has a column of every kind of its table, and each value fits into its column. -/
def RowStands (widths : Widths) (table : Table) (columns : Row) : Prop :=
  columns.length = table.columns.length ∧ RowFits widths table columns

theorem readRow_accepts (kinds : List ColumnKind) :
    (Column.readRow (kinds.map widths.columnWidth)).Accepts
      (fun columns => (kinds.zip columns).flatMap fun entry =>
        Bytes.leBytes (widths.columnWidth entry.1) entry.2)
      fun columns => columns.length = kinds.length ∧
        ∀ entry ∈ kinds.zip columns, Column.Fits (widths.isWide entry.1) entry.2 := by
  induction kinds with
  | nil =>
      intro data columns rest h
      obtain ⟨rfl, rfl⟩ := Reader.pure_eq_ok.mp h
      exact ⟨rfl, rfl, nofun⟩
  | cons kind kinds ih =>
      intro data columns rest h
      obtain ⟨value, mid, hvalue, h⟩ := Reader.bind_eq_ok.mp h
      obtain ⟨others, mid', hothers, h⟩ := Reader.bind_eq_ok.mp h
      obtain ⟨rfl, rfl⟩ := Reader.pure_eq_ok.mp h
      obtain ⟨rfl, hlt⟩ := Reader.accepts_le _ _ _ _ hvalue
      obtain ⟨rfl, hlength, hfits⟩ := ih _ _ _ hothers
      refine ⟨?_, congrArg Nat.succ hlength, ?_⟩
      · simp only [List.zip_cons_cons, List.flatMap_cons, List.append_assoc]
      · rw [List.zip_cons_cons]
        exact List.forall_mem_cons.mpr ⟨fits_of_lt hlt, hfits⟩

/-- Reads the rows of one table, unless it announces more than the stream can hold. -/
def readTable (widths : Widths) (table : Table) : Reader (List Row) :=
  if widths.count table = 0 then pure []
  else do
    if (← Reader.remaining) < widths.count table * widths.rowWidth table then throw .outOfBounds
    Reader.times (Column.readRow (widths.columnSizes table)) (widths.count table)

theorem readRows_cons (widths : Widths) (table : Table) (list : List Table) :
    readRows widths (table :: list) = (do
      let rows ← readTable widths table
      let others ← readRows widths list
      return rows :: others) := by
  rw [readRows, readTable]
  dsimp only
  split
  · rfl
  · simp only [bind_assoc]
    congr 1
    funext remaining
    split <;> rfl

theorem readTable_accepts (widths : Widths) (table : Table) :
    (readTable widths table).Accepts (fun rows => rows.flatMap (storedRow widths table)) fun rows =>
      rows.length = widths.count table ∧ ∀ columns ∈ rows, RowStands widths table columns := by
  intro data rows rest h
  unfold readTable at h
  split at h
  · rename_i hzero
    obtain ⟨rfl, rfl⟩ := Reader.pure_eq_ok.mp h
    exact ⟨rfl, hzero.symm, nofun⟩
  · obtain ⟨remaining, start, hremaining, h⟩ := Reader.bind_eq_ok.mp h
    obtain ⟨-, rfl⟩ := EStateM.Result.ok.inj hremaining
    split at h
    · exact (Reader.throw_ne_ok.mp h).elim
    · exact (readRow_accepts table.columns).times _ _ _ _ h

/-- The rows of some tables were stored in order. -/
theorem readRows_eq_ok {list : List Table} {lists : List (List Row)} {data rest : Bytes}
    (h : readRows widths list data = .ok lists rest) :
    lists.length = list.length ∧ ∀ rows : Table → List Row, list.map rows = lists →
      data = (list.flatMap fun table => (rows table).flatMap (storedRow widths table)) ++ rest ∧
        ∀ table ∈ list, (rows table).length = widths.count table ∧
          ∀ columns ∈ rows table, RowStands widths table columns := by
  induction list generalizing lists data with
  | nil =>
      obtain ⟨rfl, rfl⟩ := Reader.pure_eq_ok.mp h
      exact ⟨rfl, fun rows _ => ⟨rfl, nofun⟩⟩
  | cons table list ih =>
      rw [readRows_cons] at h
      obtain ⟨first, mid, hfirst, h⟩ := Reader.bind_eq_ok.mp h
      obtain ⟨others, mid', hothers, h⟩ := Reader.bind_eq_ok.mp h
      obtain ⟨rfl, rfl⟩ := Reader.pure_eq_ok.mp h
      obtain ⟨hdata, hstands⟩ := readTable_accepts _ _ _ _ _ hfirst
      obtain ⟨hlength, hrest⟩ := ih hothers
      refine ⟨congrArg Nat.succ hlength, ?_⟩
      intro rows hmap
      obtain ⟨rfl, htail⟩ := List.cons.inj hmap
      obtain ⟨hmid, hothers⟩ := hrest rows htail
      refine ⟨?_, List.forall_mem_cons.mpr ⟨hstands, hothers⟩⟩
      rw [hdata, hmid, List.flatMap_cons, List.append_assoc]

/-! ## Row counts -/

/-- The row counts of the tables of a mask were stored, and no other table has rows. -/
theorem readCounts_eq_ok {valid : Nat} {list : List Table} {counts : List Nat} {data rest : Bytes}
    (h : readCounts valid list data = .ok counts rest) :
    counts.length = list.length ∧ ∀ count : Table → Nat, list.map count = counts →
      data = ((list.filter fun table => table.isIn valid).flatMap fun table =>
        Bytes.leBytes 4 (count table)) ++ rest ∧
          ∀ table ∈ list, count table < 2 ^ 32 ∧ (count table ≠ 0 → table.isIn valid = true) ∧
            (table.isIn valid = true → table.isPointer = false) := by
  induction list generalizing counts data with
  | nil =>
      obtain ⟨rfl, rfl⟩ := Reader.pure_eq_ok.mp h
      exact ⟨rfl, fun count _ => ⟨rfl, nofun⟩⟩
  | cons table list ih =>
      unfold readCounts at h
      split at h
      · rename_i hin
        split at h
        · exact (Reader.throw_ne_ok.mp h).elim
        rename_i hpointer
        obtain ⟨first, mid, hfirst, h⟩ := Reader.bind_eq_ok.mp h
        obtain ⟨others, mid', hothers, h⟩ := Reader.bind_eq_ok.mp h
        obtain ⟨rfl, rfl⟩ := Reader.pure_eq_ok.mp h
        obtain ⟨rfl, hlt⟩ := Reader.accepts_le _ _ _ _ hfirst
        obtain ⟨hlength, hrest⟩ := ih hothers
        refine ⟨congrArg Nat.succ hlength, ?_⟩
        intro count hmap
        obtain ⟨rfl, htail⟩ := List.cons.inj hmap
        obtain ⟨rfl, hcounts⟩ := hrest count htail
        refine ⟨?_, List.forall_mem_cons.mpr ⟨⟨hlt, fun _ => hin, ?_⟩, hcounts⟩⟩
        · rw [List.filter_cons_of_pos (by exact hin), List.flatMap_cons, List.append_assoc]
        · exact fun _ => Bool.eq_false_iff.mpr hpointer
      · rename_i hout
        obtain ⟨others, mid, hothers, h⟩ := Reader.bind_eq_ok.mp h
        obtain ⟨rfl, rfl⟩ := Reader.pure_eq_ok.mp h
        obtain ⟨hlength, hrest⟩ := ih hothers
        refine ⟨congrArg Nat.succ hlength, ?_⟩
        intro count hmap
        obtain ⟨hzero, htail⟩ := List.cons.inj hmap
        obtain ⟨rfl, hcounts⟩ := hrest count htail
        refine ⟨?_, List.forall_mem_cons.mpr ⟨⟨?_, ?_, ?_⟩, hcounts⟩⟩
        · rw [List.filter_cons_of_neg (by exact hout)]
        · simp [hzero]
        · exact fun hcount => absurd hzero hcount
        · exact fun hin => absurd hin hout

/-! ## The stream -/

/-- What the header of a stream from elsewhere says besides the versions, the sorted tables and the
row counts. -/
structure Prologue where
  /-- The reserved fields. -/
  reserved : Nat
  reserved' : Nat
  /-- The flags of the heaps. -/
  heapFlags : Nat
  /-- The mask of the tables with a row count. -/
  valid : Nat
  /-- The extra word behind the row counts, if there is one. -/
  extra : Bytes

/-- The tables in a stream with a certain prologue. -/
def layout (tables : Tables) (prologue : Prologue) : Bytes :=
  Bytes.leBytes 4 prologue.reserved ++ (Bytes.leBytes 1 tables.majorVersion ++
    (Bytes.leBytes 1 tables.minorVersion ++ (Bytes.leBytes 1 prologue.heapFlags ++
      (Bytes.leBytes 1 prologue.reserved' ++ (Bytes.leBytes 8 prologue.valid ++
        (Bytes.leBytes 8 tables.sorted ++
          (((Table.all.filter fun table => table.isIn prologue.valid).flatMap fun table =>
            Bytes.leBytes 4 (tables.count table)) ++ (prologue.extra ++
              Table.all.flatMap fun table =>
                (tables.rows table).flatMap
                  (storedRow (tables.widths prologue.heapFlags) table)))))))))

/-- The tables can stand behind a header with certain flags and a certain mask. -/
structure StandBehind (tables : Tables) (heapFlags valid : Nat) : Prop where
  /-- Every table with rows is in the mask. -/
  present : ∀ table, tables.rows table ≠ [] → table.isIn valid = true
  pointers : ∀ table, table.isPointer = true → tables.rows table = []
  counts : ∀ table, tables.count table < 2 ^ 32
  rows : ∀ table, ∀ columns ∈ tables.rows table, RowStands (tables.widths heapFlags) table columns

/-- The tables can stand in a stream with a certain prologue. -/
structure Suits (tables : Tables) (prologue : Prologue) : Prop where
  reserved : prologue.reserved < 2 ^ 32
  reserved' : prologue.reserved' < 2 ^ 8
  heapFlags : prologue.heapFlags < 2 ^ 8
  extra : prologue.heapFlags.testBit Widths.extraBit = false → prologue.extra = []
  /-- Only known tables are present. -/
  known : prologue.valid ≤ knownMask
  header : tables.HeaderFits
  content : tables.StandBehind prologue.heapFlags prologue.valid

theorem map_getD_all {α : Type} {list : List α} (default : α)
    (h : list.length = Table.all.length) :
    (Table.all.map fun table => list.getD table.number default) = list := by
  have hnumbers : Table.all.map Table.number = List.range Table.all.length := by
    decide
  calc
    (Table.all.map fun table => list.getD table.number default) =
        (Table.all.map Table.number).map fun n => list.getD n default := by
      rw [List.map_map]
      rfl
    _ = (List.range list.length).map fun n => list.getD n default := by
      rw [hnumbers, h]
    _ = list := by
      apply List.ext_getElem
      · simp
      · intro n hn hn'
        simp [hn']

/-- Reads what stands behind the header of a stream. -/
def contentReader (major minor sorted heapFlags valid : Nat) : Reader Tables := do
  let counts ← readCounts valid Table.all
  if heapFlags.testBit Widths.extraBit then
    let _ ← Reader.bytes 4
  let widths : Widths := ⟨fun table => counts.getD table.number 0, heapFlags⟩
  let rows ← readRows widths Table.all
  return ⟨major, minor, sorted, Vector.ofFn fun n => rows.getD n []⟩

variable {major minor sorted heapFlags valid : Nat} {data rest : Bytes}

/-- An extra word is passed over if it is announced. -/
theorem extraWord_eq_ok {next : Reader Tables}
    (h : (if heapFlags.testBit Widths.extraBit then do
      let _ ← Reader.bytes 4
      next else next) data = .ok tables rest) :
    ∃ extra mid, data = extra ++ mid ∧
      (heapFlags.testBit Widths.extraBit = false → extra = []) ∧ next mid = .ok tables rest := by
  split at h
  · rename_i hbit
    obtain ⟨extra, mid, hextra, hnext⟩ := Reader.bind_eq_ok.mp h
    obtain ⟨hdata, -⟩ := Reader.bytes_eq_ok.mp hextra
    exact ⟨extra, mid, hdata, fun hclear => absurd hbit (Bool.eq_false_iff.mp hclear), hnext⟩
  · exact ⟨[], data, rfl, fun _ => rfl, h⟩

/-- The tables have the versions and the mask of sorted tables that they were given, and the row
counts and the rows were stored behind the header. -/
theorem contentReader_eq_ok
    (h : contentReader major minor sorted heapFlags valid data = .ok tables rest) :
    (tables.majorVersion = major ∧ tables.minorVersion = minor ∧ tables.sorted = sorted) ∧
      tables.StandBehind heapFlags valid ∧
        ∃ extra, (heapFlags.testBit Widths.extraBit = false → extra = []) ∧
          data = ((Table.all.filter fun table => table.isIn valid).flatMap fun table =>
            Bytes.leBytes 4 (tables.count table)) ++ (extra ++ ((Table.all.flatMap fun table =>
              (tables.rows table).flatMap
              (storedRow (tables.widths heapFlags) table)) ++ rest)) := by
  obtain ⟨counts, mid, hcounts, h⟩ := Reader.bind_eq_ok.mp h
  obtain ⟨extra, mid', hextra, hplain, h⟩ := extraWord_eq_ok h
  obtain ⟨lists, behind, hlists, h⟩ := Reader.bind_eq_ok.mp h
  obtain ⟨htables, rfl⟩ := Reader.pure_eq_ok.mp h
  have hrowsOf : ∀ table, tables.rows table = lists.getD table.number [] := by
    intro table
    simp [← htables, rows]
  obtain ⟨hlength, hlists⟩ := readRows_eq_ok hlists
  have hmap : Table.all.map tables.rows = lists := by
    rw [funext hrowsOf]
    exact map_getD_all [] hlength
  obtain ⟨hrows, hstands⟩ := hlists tables.rows hmap
  -- As many rows were read as were announced, so the widths are those of the tables that were
  -- found.
  have hcountOf : tables.count = fun table => counts.getD table.number 0 := by
    funext table
    exact (hstands table table.mem_all).1
  obtain ⟨hlength', hcounts⟩ := readCounts_eq_ok hcounts
  have hmap' : Table.all.map tables.count = counts := by
    rw [hcountOf]
    exact map_getD_all 0 hlength'
  obtain ⟨hstored, hpresent⟩ := hcounts tables.count hmap'
  rw [← hcountOf] at hrows hstands
  have hin : ∀ table, tables.rows table ≠ [] → table.isIn valid = true := by
    intro table hne
    apply (hpresent table table.mem_all).2.1
    exact fun hzero => hne (List.length_eq_zero_iff.mp hzero)
  refine ⟨?_, ?_, extra, hplain, ?_⟩
  · simp [← htables]
  · exact {
      present := hin
      pointers := by
        intro table hpointer
        by_contra hne
        have hplain := (hpresent table table.mem_all).2.2 (hin table hne)
        rw [hpointer] at hplain
        cases hplain
      counts := fun table => (hpresent table table.mem_all).1
      rows := fun table => (hstands table table.mem_all).2 }
  · rw [hstored, hextra, hrows]
    rfl

/-- A stream that can be read has the tables in it behind some prologue. -/
theorem reader_eq_ok (h : reader data = .ok tables rest) :
    ∃ prologue, tables.Suits prologue ∧ data = tables.layout prologue ++ rest := by
  simp only [reader, Reader.byte, Reader.le_bind_eq_ok] at h
  obtain ⟨reserved, _, rfl, hreserved, major, _, rfl, hmajor, minor, _, rfl, hminor,
    heapFlags, _, rfl, hheapFlags, reserved', _, rfl, hreserved', valid, _, rfl, hvalid,
    sorted, content, rfl, hsorted, h⟩ := h
  split at h
  · exact (Reader.throw_ne_ok.mp h).elim
  rename_i hknown
  obtain ⟨⟨rfl, rfl, rfl⟩, hcontent, extra, hplain, hdata⟩ :=
    contentReader_eq_ok (h : contentReader major minor sorted heapFlags valid content = _)
  refine ⟨⟨reserved, reserved', heapFlags, valid, extra⟩, ?_, ?_⟩
  · exact {
      reserved := hreserved
      reserved' := hreserved'
      heapFlags := hheapFlags
      extra := hplain
      known := Nat.le_of_not_lt hknown
      header := ⟨hmajor, hminor, hsorted⟩
      content := hcontent }
  · rw [hdata]
    simp only [layout, List.append_assoc]

/-! ## The flags and the masks -/

theorem testBit_storedFlags_of_ne (heapFlags : Nat) {bit : Nat} (h : bit < Widths.extraBit) :
    (storedFlags heapFlags).testBit bit = heapFlags.testBit bit := by
  have hsplit : storedFlags heapFlags =
      2 ^ Widths.extraBit * (heapFlags / 2 ^ (Widths.extraBit + 1) * 2) +
        heapFlags % 2 ^ Widths.extraBit := by
    unfold storedFlags Widths.extraBit
    omega
  rw [hsplit, Nat.testBit_two_pow_mul_add _ (Nat.mod_lt _ (by decide)), if_pos h,
    Nat.testBit_mod_two_pow, decide_eq_true h, Bool.true_and]

/-- The flag for an extra word makes no column wide. -/
theorem isWide_storedFlags (tables : Tables) (heapFlags : Nat) :
    (tables.widths (storedFlags heapFlags)).isWide = (tables.widths heapFlags).isWide := by
  funext kind
  cases kind with
  | string => exact testBit_storedFlags_of_ne heapFlags (by decide)
  | guid => exact testBit_storedFlags_of_ne heapFlags (by decide)
  | blob => exact testBit_storedFlags_of_ne heapFlags (by decide)
  | _ => rfl

theorem storedFlags_of_testBit {heapFlags : Nat}
    (h : heapFlags.testBit Widths.extraBit = false) : storedFlags heapFlags = heapFlags := by
  rw [Nat.testBit_eq_decide_div_mod_eq, decide_eq_false_iff_not] at h
  unfold storedFlags
  unfold Widths.extraBit at h ⊢
  omega

/-- If every present table has rows, the mask is the one that is stored. -/
theorem valid_eq {prologue : Prologue} (h : tables.Suits prologue)
    (hrows : ∀ table : Table, table.isIn prologue.valid = true → tables.rows table ≠ []) :
    prologue.valid = tables.valid := by
  apply Nat.eq_of_testBit_eq
  intro n
  by_cases hn : n < 45
  · have hnumber : (Table.ofFin ⟨n, hn⟩).number = n := number_ofFin _
    have hin := isIn_valid tables (.ofFin ⟨n, hn⟩)
    rw [Table.isIn, hnumber] at hin
    rw [hin, Bool.eq_iff_iff, Bool.not_eq_true', List.isEmpty_eq_false_iff]
    constructor
    · intro hbit
      apply hrows
      rw [Table.isIn, hnumber]
      exact hbit
    · intro hne
      have hbit := h.content.present _ hne
      rwa [Table.isIn, hnumber] at hbit
  · have hpow : 2 ^ 45 ≤ 2 ^ n := Nat.pow_le_pow_right (by decide) (by omega)
    have hknown : prologue.valid < 2 ^ 45 := Nat.lt_of_le_of_lt h.known (by decide)
    rw [Nat.testBit_lt_two_pow (Nat.lt_of_lt_of_le hknown hpow),
      Nat.testBit_lt_two_pow (Nat.lt_of_lt_of_le tables.valid_lt hpow)]

/-- The numbers of the prologue stand at fixed positions. -/
theorem field_layout {prologue : Prologue} (h : tables.Suits prologue) (rest : Bytes) :
    Bytes.field (tables.layout prologue ++ rest) 0 4 = prologue.reserved ∧
      Bytes.field (tables.layout prologue ++ rest) 6 1 = prologue.heapFlags ∧
      Bytes.field (tables.layout prologue ++ rest) 7 1 = prologue.reserved' ∧
      Bytes.field (tables.layout prologue ++ rest) 8 8 = prologue.valid := by
  have hvalid : prologue.valid < 256 ^ 8 := Nat.lt_of_le_of_lt h.known (by decide)
  unfold layout
  simp only [List.append_assoc]
  refine ⟨Bytes.field_of_drop rfl h.reserved, Bytes.field_of_drop rfl h.heapFlags,
    Bytes.field_of_drop rfl h.reserved', Bytes.field_of_drop rfl hvalid⟩

/-- Without any liberties, the tables stand in the stream as they are stored. -/
theorem layout_eq_stored {prologue : Prologue} (hreserved : prologue.reserved = 0)
    (hreserved' : prologue.reserved' = 1) (hvalid : prologue.valid = tables.valid)
    (hextra : prologue.extra = []) :
    tables.layout prologue = tables.stored prologue.heapFlags := by
  have hpresent : (fun table : Table => table.isIn tables.valid) =
      fun table => !(tables.rows table).isEmpty :=
    funext (isIn_valid tables)
  unfold layout stored encodeHeader
  rw [hreserved, hreserved', hvalid, hextra, hpresent]
  simp only [List.append_assoc, List.nil_append]
  rfl

/-! ## Storing what was read -/

/-- The stream takes none of the liberties that a stream from elsewhere may take. -/
structure Canonical (tables : Tables) (data : Bytes) : Prop where
  reserved : Bytes.field data 0 4 = 0
  reserved' : Bytes.field data 7 1 = 1
  noExtraWord : (Bytes.field data 6 1).testBit Widths.extraBit = false
  noEmptyTable : ∀ table : Table, table.isIn (Bytes.field data 8 8) = true → tables.rows table ≠ []
  /-- Behind the last row there are only zeros, up to the next multiple of four. -/
  ending : ∃ count, reader data = .ok tables (Bytes.zeros count) ∧
    data.length ≤ Bytes.ceil4 (data.length - count)

theorem pad4_append_zeros {data : Bytes} {count : Nat}
    (h : data.length + count ≤ Bytes.ceil4 data.length) :
    (data ++ Bytes.zeros count).pad4 = data.pad4 := by
  have hceil : Bytes.ceil4 (data.length + count) = Bytes.ceil4 data.length := by
    unfold Bytes.ceil4 at h ⊢
    omega
  have hzeros : Bytes.zeros count ++
      Bytes.zeros (Bytes.ceil4 data.length - (data.length + count)) =
        Bytes.zeros (Bytes.ceil4 data.length - data.length) := by
    unfold Bytes.zeros
    rw [List.replicate_append_replicate]
    congr 1
    omega
  rw [Bytes.pad4, Bytes.pad4, List.length_append, Bytes.length_zeros, hceil, List.append_assoc,
    hzeros]

/-- The tables of any stream that can be read can be stored with its flags and are read back.  A
stream that takes no liberties is stored as it was, padded to four bytes. -/
theorem write_of_read {data : Bytes} (h : read data = .ok tables) :
    ∃ stored, tables.write (Bytes.field data 6 1) = .ok stored ∧ read stored = .ok tables ∧
      (tables.Canonical data → stored = data.pad4) := by
  obtain ⟨rest, hreader⟩ : ∃ rest, reader data = .ok tables rest := by
    unfold read Reader.parse at h
    split at h
    · rename_i found rest hfound
      exact ⟨rest, Except.ok.inj h ▸ hfound⟩
    · cases h
  obtain ⟨prologue, hsuits, hdata⟩ := reader_eq_ok hreader
  obtain ⟨hreserved, hflags, hreserved', hvalid⟩ := field_layout hsuits rest
  rw [← hdata] at hreserved hflags hreserved' hvalid
  have hfits : ∀ table, ∀ columns ∈ tables.rows table,
      RowFits (tables.widths (storedFlags prologue.heapFlags)) table columns := by
    intro table columns hmem
    unfold RowFits
    rw [isWide_storedFlags]
    exact (hsuits.content.rows table columns hmem).2
  have hwrite : tables.write prologue.heapFlags =
      .ok (tables.stored (storedFlags prologue.heapFlags)).pad4 :=
    write_eq_ok.mpr ⟨hfits, rfl⟩
  rw [hflags]
  refine ⟨_, hwrite, ?_, ?_⟩
  · exact read_of_write hsuits.heapFlags hsuits.header hsuits.content.pointers
      hsuits.content.counts
      (fun table columns hmem => (hsuits.content.rows table columns hmem).1) hwrite
  · intro hcanonical
    obtain ⟨count, hending, hlength⟩ := hcanonical.ending
    obtain ⟨-, rfl⟩ := EStateM.Result.ok.inj (hreader.symm.trans hending)
    have hclear := hcanonical.noExtraWord
    rw [hflags] at hclear
    have hlayout : tables.layout prologue = tables.stored prologue.heapFlags := by
      apply layout_eq_stored
      · rw [← hreserved, hcanonical.reserved]
      · rw [← hreserved', hcanonical.reserved']
      · exact valid_eq hsuits (hvalid ▸ hcanonical.noEmptyTable)
      · exact hsuits.extra hclear
    rw [hlayout] at hdata
    rw [storedFlags_of_testBit hclear, hdata, pad4_append_zeros]
    rw [hdata, List.length_append, Bytes.length_zeros, Nat.add_sub_cancel] at hlength
    exact hlength

/-- A single module. -/
def withModule : Tables :=
  empty.setRows .module [[0, 1, 1, 0, 0]]

/-- The module as it is stored, but for the padding. -/
def moduleStream : Bytes :=
  [0, 0, 0, 0, 2, 0, 0, 1] ++ Bytes.leBytes 8 1 ++ Bytes.leBytes 8 defaultSorted ++
    Bytes.leBytes 4 1 ++ [0, 0, 1, 0, 1, 0, 0, 0, 0, 0]

/-- The module with a wide name, an empty table, an extra word and a byte behind the row. -/
def foreignStream : Bytes :=
  [7, 0, 0, 0, 2, 0, 0x41, 0] ++ Bytes.leBytes 8 3 ++ Bytes.leBytes 8 defaultSorted ++
    Bytes.leBytes 4 1 ++ Bytes.leBytes 4 0 ++ [1, 2, 3, 4] ++
      [0, 0, 1, 0, 0, 0, 1, 0, 0, 0, 0, 0] ++ [9]

/-- The first stream is stored as it was, and the second one without its empty table, its extra word
and its last byte. -/
theorem write_of_read_withModule :
    read moduleStream = .ok withModule ∧ withModule.write 0 = .ok moduleStream.pad4 ∧
      read foreignStream = .ok withModule ∧ ∃ stored, withModule.write 0x41 = .ok stored ∧
        read stored = .ok withModule ∧ stored.length < foreignStream.length := by
  have hreader : reader moduleStream = .ok withModule [] := by
    rfl
  have hmodule : read moduleStream = .ok withModule := by
    rfl
  have hforeign : read foreignStream = .ok withModule := by
    rfl
  have hcanonical : withModule.Canonical moduleStream := by
    refine ⟨by decide, by decide, by decide, ?_, 0, hreader, by decide⟩
    intro table
    cases table <;> decide
  obtain ⟨stored, hwrite, -, hsame⟩ := write_of_read hmodule
  obtain ⟨stored', hwrite', hread', -⟩ := write_of_read hforeign
  have hstored' : stored' = (withModule.stored 1).pad4 := (write_eq_ok.mp hwrite').2
  refine ⟨hmodule, ?_, hforeign, stored', hwrite', hread', ?_⟩
  · rw [← hsame hcanonical]
    exact hwrite
  · rw [hstored']
    decide

end NativeExports.Tables
