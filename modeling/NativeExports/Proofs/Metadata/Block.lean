import NativeExports.Proofs.Metadata.Root
import NativeExports.Proofs.Metadata.TablesStream

/-!
# The metadata block read back

The streams of a metadata block stand behind its root, one after the other, each padded to four
bytes. The main statement, `build_reads_back`, says that everything that went into a block is found
in it again through its root.
-/

namespace NativeExports

theorem Bytes.pad4_pad4 (data : Bytes) : data.pad4.pad4 = data.pad4 := by
  have hceil : ceil4 data.pad4.length = data.pad4.length := by
    rw [length_pad4]
    unfold ceil4
    omega
  rw [pad4, hceil, Nat.sub_self]
  exact List.append_nil _

/-- The bytes of a stream of the metadata `data`. -/
def StreamHeader.bytesIn (header : StreamHeader) (data : Bytes) : Bytes :=
  (data.drop header.offset).take header.size

namespace Metadata

/-! ## The directory -/

theorem directory_listed (front : Bytes) (streams : List (String × Bytes)) :
    List.Forall₂ (fun header stream => header.name = stream.1 ∧
        header.bytesIn (front ++ streams.flatMap fun stream => stream.2.pad4) = stream.2.pad4)
      (directory front.length streams) streams := by
  induction streams generalizing front with
  | nil => exact .nil
  | cons stream streams ih =>
      obtain ⟨name, content⟩ := stream
      have hrest := ih (front ++ content.pad4)
      rw [List.length_append, Bytes.length_pad4] at hrest
      rw [List.flatMap_cons, ← List.append_assoc]
      refine .cons ⟨rfl, ?_⟩ hrest
      rw [StreamHeader.bytesIn, List.append_assoc, List.drop_left,
        List.take_left' (Bytes.length_pad4 content)]

theorem directory_placed {offset : Nat} {streams : List (String × Bytes)} {header : StreamHeader}
    (hmem : header ∈ directory offset streams) (haligned : offset % 4 = 0) :
    header.offset % 4 = 0 ∧ offset ≤ header.offset ∧
      header.offset + header.size ≤
        offset + (streams.flatMap fun stream => stream.2.pad4).length := by
  induction streams generalizing offset with
  | nil => cases hmem
  | cons stream streams ih =>
      obtain ⟨name, content⟩ := stream
      have hpadded := Bytes.le_ceil4 content.length
      rw [List.flatMap_cons, List.length_append, Bytes.length_pad4]
      rcases List.mem_cons.mp hmem with rfl | hmem
      · exact ⟨haligned, Nat.le_refl _, by dsimp only; omega⟩
      · obtain ⟨hmod, hle, hend⟩ := ih hmem (by omega)
        dsimp only at hle hend ⊢
        exact ⟨hmod, by omega, by omega⟩

theorem directory_apart {offset : Nat} {streams : List (String × Bytes)}
    (haligned : offset % 4 = 0) :
    (directory offset streams).Pairwise fun first second =>
      first.offset + first.size ≤ second.offset := by
  induction streams generalizing offset with
  | nil => exact .nil
  | cons stream streams ih =>
      obtain ⟨name, content⟩ := stream
      have hpadded := Bytes.le_ceil4 content.length
      have hnext : (offset + Bytes.ceil4 content.length) % 4 = 0 := by omega
      exact .cons (fun header hmem => (directory_placed hmem hnext).2.1) (ih hnext)

theorem map_name_directory (offset : Nat) (streams : List (String × Bytes)) :
    (directory offset streams).map StreamHeader.name = streams.map Prod.fst := by
  induction streams generalizing offset with
  | nil => rfl
  | cons stream streams ih => exact congrArg (stream.1 :: ·) (ih _)

theorem headerSize_aligned (version : String) (names : List String) :
    Root.headerSize version names % 4 = 0 := by
  have hnames : (names.map fun name => 8 + StreamHeader.paddedNameSize name).sum % 4 = 0 := by
    induction names with
    | nil => rfl
    | cons name names ih =>
        have hpadded := Bytes.le_ceil4 (Utf8.size name + 1)
        rw [List.map_cons, List.sum_cons, StreamHeader.paddedNameSize]
        omega
  have hversion := Bytes.le_ceil4 (Utf8.size version + 1)
  unfold Root.headerSize Root.paddedVersionSize
  omega

/-! ## The block -/

/-- The heaps under the names of their streams. -/
def named (heaps : Heaps) : List (String × Bytes) :=
  [("#Strings", heaps.strings), ("#US", heaps.userStrings), ("#GUID", heaps.guids),
    ("#Blob", heaps.blobs)]

/-- The names of the streams of a block with the given heaps, in order. -/
def streamNames (heaps : Heaps) : List String :=
  ["#~", "#Strings"] ++ (if heaps.userStrings = [] then [] else ["#US"]) ++ ["#GUID", "#Blob"]

/-- The root describes the block `data` with the given contents. -/
structure ReadsBack (version : String) (flags : Nat) (tables : Tables) (heaps : Heaps)
    (data : Bytes)
    (root : Root) : Prop where
  sameVersion : root.version = version
  sameFlags : root.flags = flags
  /-- The directory lists the tables and the heaps; user strings are listed if there are any. -/
  names : root.streams.map StreamHeader.name = streamNames heaps
  /-- The block begins with the bytes of the root. -/
  front : Root.write version flags root.streams <+: data
  /-- Every stream is aligned and lies behind the root. -/
  placed : ∀ header ∈ root.streams, header.offset % 4 = 0 ∧
    (Root.write version flags root.streams).length ≤ header.offset ∧
      header.offset + header.size ≤ data.length
  /-- Streams do not overlap. -/
  apart : root.streams.Pairwise fun first second => first.offset + first.size ≤ second.offset
  /-- The stream of the tables holds the tables. -/
  tables : ∀ header ∈ root.streams, header.name = "#~" →
    Tables.read (header.bytesIn data) = .ok tables
  /-- The stream of a heap holds its bytes and at most three zeros. -/
  contents : ∀ header ∈ root.streams, ∀ content, (header.name, content) ∈ named heaps →
    ∃ count ≤ 3, header.bytesIn data = content ++ Bytes.zeros count

theorem build_eq_ok {version : String} {flags : Nat} {tables : Tables} {heaps : Heaps}
    {data : Bytes} (h : build version flags tables heaps = .ok data) :
    ∃ tablesStream, tables.write heaps.flags = .ok tablesStream ∧
      data = Root.write version flags
          (directory (Root.headerSize version ((heaps.streams tablesStream).map Prod.fst))
            (heaps.streams tablesStream)) ++
        (heaps.streams tablesStream).flatMap fun stream => stream.2.pad4 := by
  obtain ⟨tablesStream, hwrite, h⟩ := Outcome.bind_eq_ok.mp h
  exact ⟨tablesStream, hwrite, (Outcome.pure_eq_ok.mp h).symm⟩

theorem map_fst_streams (heaps : Heaps) (tablesStream : Bytes) :
    (heaps.streams tablesStream).map Prod.fst = streamNames heaps := by
  unfold Heaps.streams streamNames
  by_cases h : heaps.userStrings = [] <;> simp [h]

theorem mem_streams {heaps : Heaps} {tablesStream content : Bytes} {name : String}
    (h : (name, content) ∈ heaps.streams tablesStream) :
    (name = "#~" → content = tablesStream) ∧
      ∀ content', (name, content') ∈ named heaps → content' = content := by
  have hmem : (name, content) ∈ ("#~", tablesStream) :: named heaps := by
    unfold Heaps.streams at h
    unfold named
    split at h <;> grind
  simp only [named, List.mem_cons, Prod.mk.injEq, List.not_mem_nil, or_false] at hmem ⊢
  rcases hmem with ⟨rfl, rfl⟩ | ⟨rfl, rfl⟩ | ⟨rfl, rfl⟩ | ⟨rfl, rfl⟩ | ⟨rfl, rfl⟩ <;> simp

/-- The directory of a block leads to every heap, padded with zeros. -/
theorem exists_directory_of_build {version : String} {flags : Nat} {tables : Tables} {heaps : Heaps}
    {data : Bytes} (h : build version flags tables heaps = .ok data) :
    ∃ streams : List StreamHeader, Root.write version flags streams <+: data ∧
      streams.map StreamHeader.name = streamNames heaps ∧
        ∀ header ∈ streams, ∀ content, (header.name, content) ∈ named heaps →
          header.bytesIn data = content.pad4 := by
  obtain ⟨tablesStream, -, hdata⟩ := build_eq_ok h
  rw [map_fst_streams] at hdata
  generalize hstreams : directory (Root.headerSize version (streamNames heaps))
    (heaps.streams tablesStream) = streams at hdata
  have hnames : streams.map StreamHeader.name = streamNames heaps := by
    rw [← hstreams, map_name_directory, map_fst_streams]
  have hlisted := directory_listed (Root.write version flags streams) (heaps.streams tablesStream)
  rw [Root.length_write, hnames, hstreams, ← hdata] at hlisted
  refine ⟨streams, hdata ▸ List.prefix_append _ _, hnames, ?_⟩
  intro header hmem content hnamed
  obtain ⟨⟨name, stored⟩, hstored, hname, hbytes⟩ := Outcome.exists_of_forall₂_left hlisted hmem
  have hnamed' : (name, content) ∈ named heaps := by
    simpa [hname] using hnamed
  obtain rfl := (mem_streams hstored).2 content hnamed'
  exact hbytes

theorem short_streamNames {heaps : Heaps} {name : String} (h : name ∈ streamNames heaps) :
    0 ∉ Utf8.encode name ∧ Utf8.size name < StreamHeader.maxNameSize := by
  have hshort : ∀ name ∈ ["#~", "#Strings", "#US", "#GUID", "#Blob"],
      0 ∉ Utf8.encode name ∧ Utf8.size name < StreamHeader.maxNameSize := by
    decide
  apply hshort
  unfold streamNames at h
  split at h <;> grind

theorem rowWidth_pos (widths : Widths) (table : Table) : 0 < widths.rowWidth table := by
  obtain ⟨kind, kinds, hcolumns⟩ : ∃ kind kinds, table.columns = kind :: kinds := by
    cases table <;> exact ⟨_, _, rfl⟩
  have hwidth : 0 < widths.columnWidth kind := by
    unfold Widths.columnWidth
    split <;> decide
  rw [Widths.rowWidth, Widths.columnSizes, hcolumns, List.map_cons, List.sum_cons]
  omega

/-- Every row takes at least one byte. -/
theorem count_le_of_write {tables : Tables} {heapFlags : Nat} {data : Bytes}
    (harity : ∀ table, ∀ columns ∈ tables.rows table, columns.length = table.columns.length)
    (h : tables.write heapFlags = .ok data) (table : Table) : tables.count table ≤ data.length := by
  obtain ⟨-, rfl⟩ := Tables.write_eq_ok.mp h
  generalize Tables.storedFlags heapFlags = flags
  have hrows : tables.count table ≤
      ((tables.rows table).flatMap (Tables.storedRow (tables.widths flags) table)).length := by
    rw [List.length_flatMap, List.map_congr_left fun columns hmem =>
      Tables.length_storedRow (harity table columns hmem), List.map_const', List.sum_replicate_nat]
    exact Nat.le_mul_of_pos_right _ (rowWidth_pos _ table)
  have hall : ((tables.rows table).flatMap (Tables.storedRow (tables.widths flags) table)).length ≤
      (Table.all.flatMap fun table =>
        (tables.rows table).flatMap (Tables.storedRow (tables.widths flags) table)).length := by
    obtain ⟨before, behind, hall⟩ := List.append_of_mem table.mem_all
    rw [hall, List.flatMap_append, List.flatMap_cons, List.length_append, List.length_append]
    omega
  have hpadded := Bytes.le_ceil4 (tables.stored flags).length
  rw [Bytes.length_pad4]
  rw [Tables.stored, List.length_append] at hpadded ⊢
  omega

/-- Everything that went into a block is found in it again. -/
theorem build_reads_back {version : String} {flags : Nat} {tables : Tables} {heaps : Heaps}
    {data : Bytes} (hversion : '\x00' ∉ version.toList) (hflags : flags < 2 ^ 16)
    (hheader : tables.HeaderFits)
    (harity : ∀ table, ∀ columns ∈ tables.rows table, columns.length = table.columns.length)
    (hpointer : ∀ table, table.isPointer = true → tables.rows table = [])
    (hsize : data.length < 2 ^ 32) (h : build version flags tables heaps = .ok data) :
    ∃ root, Root.read data = .ok root ∧ ReadsBack version flags tables heaps data root := by
  obtain ⟨tablesStream, hwrite, hdata⟩ := build_eq_ok h
  rw [map_fst_streams] at hdata
  generalize hstreams : directory (Root.headerSize version (streamNames heaps))
    (heaps.streams tablesStream) = streams at hdata
  have haligned := headerSize_aligned version (streamNames heaps)
  have hnames : streams.map StreamHeader.name = streamNames heaps := by
    rw [← hstreams, map_name_directory, map_fst_streams]
  have hfront : (Root.write version flags streams).length =
      Root.headerSize version (streamNames heaps) := by
    rw [Root.length_write, hnames]
  have hplaced : ∀ header ∈ streams, header.offset % 4 = 0 ∧
      (Root.write version flags streams).length ≤ header.offset ∧
        header.offset + header.size ≤ data.length := by
    intro header hmem
    rw [hfront, hdata, List.length_append, hfront]
    exact directory_placed (hstreams ▸ hmem) haligned
  have hlisted : List.Forall₂ (fun header stream => header.name = stream.1 ∧
      header.bytesIn data = stream.2.pad4) streams (heaps.streams tablesStream) := by
    have hlisted := directory_listed (Root.write version flags streams) (heaps.streams tablesStream)
    rwa [hfront, hstreams, ← hdata] at hlisted
  have hstorable : ∀ header ∈ streams, header.Storable := by
    intro header hmem
    obtain ⟨-, -, hend⟩ := hplaced header hmem
    obtain ⟨hnul, hshort⟩ := short_streamNames (hnames ▸ List.mem_map_of_mem hmem)
    exact ⟨by omega, by omega, hnul, hshort⟩
  have hwithin : ∀ header ∈ streams, Root.Within data.length header := by
    intro header hmem
    obtain ⟨-, -, hend⟩ := hplaced header hmem
    exact ⟨hend, by omega⟩
  have hcount : 1 ≤ streams.length ∧ streams.length < 2 ^ 16 := by
    have hlength := congrArg List.length hnames
    rw [List.length_map, streamNames] at hlength
    split at hlength <;> simp at hlength <;> omega
  have htables : tablesStream.length ≤ data.length := by
    have hpadded := Bytes.le_ceil4 tablesStream.length
    rw [hdata, List.length_append, Heaps.streams]
    simp only [List.cons_append, List.flatMap_cons, List.length_append, Bytes.length_pad4]
    omega
  have hread : Root.read data = .ok ⟨Root.magic, 1, 1, 0, Root.paddedVersionSize version, version,
      flags, streams⟩ := by
    have hversionSize : Root.paddedVersionSize version ≤ data.length := by
      rw [hdata, List.length_append, hfront, Root.headerSize]
      omega
    rw [hdata] at hwithin ⊢
    exact Root.read_write hversion hflags (by omega) hcount.1 hcount.2 hstorable hwithin
  refine ⟨_, hread, rfl, rfl, hnames, hdata ▸ List.prefix_append _ _, hplaced,
    hstreams ▸ directory_apart haligned, ?_, ?_⟩
  · intro header hmem hname
    obtain ⟨⟨name, content⟩, hcontent, rfl, hbytes⟩ :=
      Outcome.exists_of_forall₂_left hlisted hmem
    obtain rfl := (mem_streams hcontent).1 hname
    obtain ⟨-, hpad⟩ := Tables.write_eq_ok.mp hwrite
    rw [hbytes, hpad, Bytes.pad4_pad4, ← hpad]
    refine Tables.read_of_write ?_ hheader hpointer (fun table => ?_) harity hwrite
    · exact Nat.lt_of_lt_of_le (Tables.flags_lt heaps) (by decide)
    · have := count_le_of_write harity hwrite table
      omega
  · intro header hmem content' hnamed
    obtain ⟨⟨name, content⟩, hcontent, rfl, hbytes⟩ :=
      Outcome.exists_of_forall₂_left hlisted hmem
    obtain rfl := (mem_streams hcontent).2 content' hnamed
    rw [hbytes]
    exact Bytes.pad4_eq content'

/-- A module with two types, a method and an attribute attached to it. -/
def smallTables : Tables :=
  ((((Tables.empty.setRows .module [[0, 1, 1, 0, 0]]).setRows .typeDef
    [[0, 1, 0, 0, 1, 1], [1, 3, 0, 4, 1, 1]]).setRows .methodDef
      [[0x2050, 0, 0x16, 5, 1, 1]]).setRows .memberRef [[16, 7, 4]]).setRows .customAttribute
        [[32, 11, 0]]

/-- The heaps of these tables. There are no user strings. -/
def smallHeaps : Heaps :=
  ⟨[0, 65, 0, 66, 0, 67, 0, 68, 0], [], List.replicate 16 7, [0, 2, 6, 8, 1, 0]⟩

theorem build_reads_back_small :
    ∃ data, build "v4.0.30319" 5 smallTables smallHeaps = .ok data ∧ data.length = 240 ∧
      ∃ root, Root.read data = .ok root ∧
        ReadsBack "v4.0.30319" 5 smallTables smallHeaps data root := by
  have hlength : (build "v4.0.30319" 5 smallTables smallHeaps).toOption.map List.length =
      some 240 := by
    decide +kernel
  cases hbuild : build "v4.0.30319" 5 smallTables smallHeaps with
  | error e =>
      rw [hbuild] at hlength
      cases hlength
  | ok data =>
      rw [hbuild] at hlength
      have hdata : data.length = 240 := Option.some.inj hlength
      refine ⟨data, rfl, hdata,
        build_reads_back (by decide) (by decide) ⟨by decide, by decide, by decide⟩
        (by decide) (by decide) (by omega) hbuild⟩

end Metadata

end NativeExports
