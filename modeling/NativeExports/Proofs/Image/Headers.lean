import NativeExports.Image.Parsing
import NativeExports.Proofs.Outcome
import NativeExports.Proofs.Windows

/-!
# Images as their headers are stored

A faithful parser reports the header fields of a file as they are stored.  So an image that was read
is the one that its bytes store, and two images can be compared field by field.
-/

namespace NativeExports.Image

open Bytes (SameOn)

/-- The entry of the section table at `start`, as its fields are stored. -/
def SectionHeader.stored (data : Bytes) (start : Nat) : SectionHeader :=
  ⟨(data.drop start).take 8, Bytes.field data (start + 8) 4, Bytes.field data (start + 12) 4,
    Bytes.field data (start + 16) 4, Bytes.field data (start + 20) 4,
    Bytes.field data (start + 36) 4⟩

/-- The optional header as its fields are stored. -/
def OptionalHeader.stored (data : Bytes) (start : Nat) : OptionalHeader :=
  let is64 := Bytes.field data start 2 == magic64
  let base := optionalHeaderBase is64
  let word (offset : Nat) : Nat := Bytes.field data (start + offset) 4
  { is64
    sectionAlignment := word sectionAlignmentOffset
    fileAlignment := word fileAlignmentOffset
    headersSize := word headersSizeOffset
    directories := (List.range (word (base - 4))).map fun n =>
      (word (base + n * 8), word (base + n * 8 + 4)) }

/-- The headers of a file as their fields are stored, whether or not they make sense. -/
def Headers.stored (data : Bytes) : Headers :=
  let peOffset := Bytes.field data peOffsetOffset 4
  let optionalSize := Bytes.field data (peOffset + 20) 2
  { peOffset
    machine := Bytes.field data (peOffset + 4) 2
    characteristics := Bytes.field data (peOffset + 22) 2
    optionalSize
    optional :=
      if optionalSize = 0 then none else some (OptionalHeader.stored data (peOffset + 24))
    sections := (List.range (Bytes.field data (peOffset + 6) 2)).map fun n =>
      SectionHeader.stored data (peOffset + 24 + optionalSize + n * ImageSection.headerSize) }

/-- What the program relies on in a parser: header fields are reported as stored, and headers that
begin inside the oldest part, which locates them, are refused. -/
structure Parser.Faithful [Parser] : Prop where
  stored : ∀ data headers, Parser.parse data = some headers → headers = Headers.stored data
  behindStub : ∀ data headers, Parser.parse data = some headers → stubSize ≤ headers.peOffset

/-! ## The linked parser -/

theorem eq_field_of_le? {data : Bytes} {start width n : Nat} (h : data.le? width start = some n) :
    n = Bytes.field data start width := by
  obtain ⟨found, hfound, rfl⟩ := Option.map_eq_some_iff.mp h
  unfold Bytes.slice? at hfound
  split at hfound
  · exact congrArg Bytes.leValue (Option.some.inj hfound).symm
  · cases hfound

theorem of_guard {p : Prop} [Decidable p] {u : Unit}
    (h : (guard p : Option Unit) = some u) : p := by
  unfold guard at h
  split at h
  · assumption
  · cases h

theorem field_take_drop {data : Bytes} {offset size start width : Nat} (h : start + width ≤ size) :
    Bytes.field ((data.drop offset).take size) start width =
      Bytes.field data (offset + start) width := by
  rw [← Bytes.field_drop]
  unfold Bytes.field
  rw [List.drop_take, List.take_take, Nat.min_eq_left (by omega)]

theorem SectionHeader.parse_eq_stored (data : Bytes) (start : Nat) :
    parse data start = stored data start := by
  unfold parse stored ImageSection.headerSize
  dsimp only
  rw [List.take_take, field_take_drop (by decide), field_take_drop (by decide),
    field_take_drop (by decide), field_take_drop (by decide), field_take_drop (by decide)]
  rfl

theorem OptionalHeader.eq_stored_of_parse {data : Bytes} {start : Nat} {header : OptionalHeader}
    (h : parse data start = some header) : header = stored data start := by
  obtain ⟨magic, hmagic, h⟩ := Option.bind_eq_some_iff.mp h
  obtain ⟨-, -, h⟩ := Option.bind_eq_some_iff.mp h
  obtain ⟨count, hcount, h⟩ := Option.bind_eq_some_iff.mp h
  obtain ⟨-, -, h⟩ := Option.bind_eq_some_iff.mp h
  obtain rfl := Option.some.inj h
  obtain rfl := eq_field_of_le? hmagic
  have hbase : ∀ is64, 4 ≤ optionalHeaderBase is64 := by decide
  rw [Nat.add_sub_assoc (hbase _)] at hcount
  obtain rfl := eq_field_of_le? hcount
  rfl

theorem Headers.eq_stored_of_parse {data : Bytes} {headers : Headers}
    (h : parse data = some headers) :
    headers = stored data ∧ stubSize ≤ headers.peOffset := by
  obtain ⟨-, -, h⟩ := Option.bind_eq_some_iff.mp h
  obtain ⟨peOffset, hpe, h⟩ := Option.bind_eq_some_iff.mp h
  obtain ⟨_, hstub, h⟩ := Option.bind_eq_some_iff.mp h
  obtain ⟨-, -, h⟩ := Option.bind_eq_some_iff.mp h
  obtain ⟨optional, hoptional, h⟩ := Option.bind_eq_some_iff.mp h
  obtain ⟨sections, hsections, h⟩ := Option.bind_eq_some_iff.mp h
  obtain ⟨-, -, h⟩ := Option.bind_eq_some_iff.mp h
  obtain ⟨-, -, hsections⟩ := Option.bind_eq_some_iff.mp hsections
  obtain ⟨-, -, hsections⟩ := Option.bind_eq_some_iff.mp hsections
  obtain rfl := Option.some.inj hsections
  obtain rfl := Option.some.inj h
  obtain rfl := eq_field_of_le? hpe
  refine ⟨?_, (of_guard hstub).1⟩
  have hoptional : optional = (stored data).optional := by
    rw [field_take_drop (by decide), OptionalHeader.parseSized] at hoptional
    unfold stored
    dsimp only
    split at hoptional
    · rename_i hzero
      rw [if_pos hzero]
      exact (Option.some.inj hoptional).symm
    · rename_i hsize
      obtain ⟨header, hheader, rfl⟩ := Option.map_eq_some_iff.mp hoptional
      rw [if_neg hsize, OptionalHeader.eq_stored_of_parse hheader]
  rw [hoptional]
  unfold stored
  simp only [field_take_drop (show 4 + 2 ≤ 24 by decide), SectionHeader.parse_eq_stored,
    field_take_drop (show 6 + 2 ≤ 24 by decide), field_take_drop (show 20 + 2 ≤ 24 by decide),
    field_take_drop (show 22 + 2 ≤ 24 by decide)]

theorem linkedParser_faithful : @Parser.Faithful linkedParser where
  stored _ _ h := (Headers.eq_stored_of_parse h).1
  behindStub _ _ h := (Headers.eq_stored_of_parse h).2

/-! ## Images -/

/-- The section whose entry stands at `start`. -/
def storedSection (data : Bytes) (start : Nat) : ImageSection :=
  ofSectionHeader (SectionHeader.stored data start)

/-- The image whose headers are what some bytes store, whether or not they make sense. -/
def stored (data : Bytes) : Image :=
  let peOffset := Bytes.field data peOffsetOffset 4
  let optional := OptionalHeader.stored data (peOffset + 24)
  let sectionTableOffset := peOffset + 24 + Bytes.field data (peOffset + 20) 2
  { data
    machine := Bytes.field data (peOffset + 4) 2
    characteristics := Bytes.field data (peOffset + 22) 2
    is64 := optional.is64
    peOffset
    sectionTableOffset
    fileAlignment := optional.fileAlignment
    sectionAlignment := optional.sectionAlignment
    headersSize := optional.headersSize
    sections := (List.range (Bytes.field data (peOffset + 6) 2)).map fun n =>
      storedSection data (sectionTableOffset + n * ImageSection.headerSize)
    cli := (optional.located? cliDirectory).getD (0, 0)
    debug := optional.located? debugDirectory }

/-- A section, field by field. -/
theorem storedSection_eq (data : Bytes) (start : Nat) :
    storedSection data start = ⟨sectionName ((data.drop start).take 8),
      Bytes.field data (start + 8) 4, Bytes.field data (start + 12) 4,
      Bytes.field data (start + 16) 4, Bytes.field data (start + 20) 4,
      Bytes.field data (start + 36) 4⟩ :=
  rfl

/-- The header values of an image are those that its bytes store. -/
structure AsStored (image : Image) : Prop where
  stored : image = Image.stored image.data
  /-- The headers are behind the field that locates them. -/
  behindStub : stubSize ≤ image.peOffset

theorem AsStored.sections_eq {image : Image} (h : image.AsStored) :
    image.sections = (List.range (Bytes.field image.data (image.peOffset + 6) 2)).map fun n =>
      storedSection image.data (image.sectionTableOffset + n * ImageSection.headerSize) := by
  conv_lhs => rw [h.stored]
  rw [h.stored]
  rfl

theorem AsStored.length_sections {image : Image} (h : image.AsStored) :
    image.sections.length = Bytes.field image.data (image.peOffset + 6) 2 := by
  have hlength := congrArg List.length h.sections_eq
  rwa [List.length_map, List.length_range] at hlength

theorem AsStored.storedSection_eq {image : Image} (h : image.AsStored) {n : Nat} {s : ImageSection}
    (hn : image.sections[n]? = some s) :
    storedSection image.data (image.sectionTableOffset + n * ImageSection.headerSize) = s := by
  have hlt := (List.getElem?_eq_some_iff.mp hn).1
  rw [h.sections_eq, List.getElem?_map, List.getElem?_range (h.length_sections ▸ hlt)] at hn
  exact Option.some.inj hn

theorem eq_stored_of_ofHeaders {data : Bytes} {image : Image}
    (h : ofHeaders data (Headers.stored data) = .ok image) : image = stored data := by
  unfold ofHeaders at h
  split at h
  · cases h
  · rename_i optional hoptional
    have hheader : optional =
        OptionalHeader.stored data (Bytes.field data peOffsetOffset 4 + 24) := by
      unfold Headers.stored at hoptional
      dsimp only at hoptional
      split at hoptional
      · cases hoptional
      · exact (Option.some.inj hoptional).symm
    subst hheader
    split at h
    · cases h
    · rename_i cli hcli
      obtain rfl := Except.ok.inj h
      unfold stored Headers.stored
      dsimp only
      rw [hcli, List.map_map]
      rfl

/-- An image that was read has the header values that are stored. -/
theorem asStored_of_read [Parser] (hparser : Parser.Faithful) {data : Bytes} {image : Image}
    (h : read data = .ok image) : image.data = data ∧ image.AsStored := by
  unfold read at h
  split at h
  · cases h
  · split at h
    · cases h
    · rename_i headers hparse
      have hstub := hparser.behindStub _ _ hparse
      obtain rfl := hparser.stored _ _ hparse
      obtain rfl := eq_stored_of_ofHeaders h
      exact ⟨rfl, rfl, hstub⟩

/-! ## Images with other sections -/

theorem optionalHeaderBase_cases (is64 : Bool) :
    optionalHeaderBase is64 = 96 ∨ optionalHeaderBase is64 = 112 := by
  cases is64
  · exact .inl rfl
  · exact .inr rfl

theorem OptionalHeader.getElem?_stored (data : Bytes) (start index : Nat) :
    let header := stored data start
    let entry := start + optionalHeaderBase header.is64 + index * 8
    header.directories[index]? =
      if index < Bytes.field data (start + (optionalHeaderBase header.is64 - 4)) 4 then
        some (Bytes.field data entry 4, Bytes.field data (entry + 4) 4)
      else none := by
  dsimp only [stored]
  rw [List.getElem?_map]
  split
  · rename_i hindex
    rw [List.getElem?_range hindex, Option.map_some]
    simp only [Nat.add_assoc]
  · rename_i hindex
    rw [List.getElem?_eq_none (by rw [List.length_range]; omega), Option.map_none]

/-- A data directory depends on the form of the optional header, the number of the directories and
its own entry only. -/
theorem OptionalHeader.located?_stored {data other : Bytes} {start index base : Nat}
    (hbase : base = optionalHeaderBase (stored data start).is64)
    (hmagic : SameOn data other start (start + 2))
    (hcount : SameOn data other (start + (base - 4)) (start + (base - 4) + 4))
    (hentry : SameOn data other (start + base + index * 8) (start + base + index * 8 + 8)) :
    (stored other start).located? index = (stored data start).located? index := by
  have hform : (stored other start).is64 = (stored data start).is64 := by
    unfold stored
    rw [Bytes.field_eq_of_sameOn hmagic]
  subst hbase
  unfold located?
  rw [getElem?_stored, getElem?_stored, hform, Bytes.field_eq_of_sameOn hcount,
    Bytes.field_eq_of_sameOn (hentry.mono (Nat.le_refl _) (by omega)),
    Bytes.field_eq_of_sameOn (hentry.mono (by omega) (by omega))]

/-- Images whose headers agree except for the sections and the size of the headers. -/
theorem stored_eq_of_sameOn {image : Image} (h : image.AsStored) {data : Bytes}
    (hfront : SameOn image.data data 0 (image.peOffset + 6))
    (hfile : SameOn image.data data (image.peOffset + 8) (image.optionalHeaderOffset + 2))
    (hunits : SameOn image.data data (image.optionalHeaderOffset + 32)
      (image.optionalHeaderOffset + 40))
    (hcount : SameOn image.data data (image.directoryOffset 0 - 4) (image.directoryOffset 0))
    (hdirectories : SameOn image.data data (image.directoryOffset debugDirectory)
      (image.directoryOffset (cliDirectory + 1))) :
    stored data = { image with
      data
      headersSize :=
        Bytes.field data (image.optionalHeaderOffset + OptionalHeader.headersSizeOffset) 4
      sections := (List.range (Bytes.field data (image.peOffset + 6) 2)).map fun n =>
        storedSection data (image.sectionTableOffset + n * ImageSection.headerSize) } := by
  obtain ⟨hstored, hstub⟩ := h
  generalize image.data = old at *
  subst hstored
  have hbase := optionalHeaderBase_cases (stored old).is64
  unfold stubSize at hstub
  unfold directoryOffset debugDirectory cliDirectory at *
  unfold optionalHeaderOffset at *
  have hposition : Bytes.field data peOffsetOffset 4 = (stored old).peOffset :=
    Bytes.field_eq_of_sameOn (hfront.mono (Nat.zero_le _) (by unfold peOffsetOffset; omega))
  have hmagic : SameOn old data ((stored old).peOffset + 24) ((stored old).peOffset + 24 + 2) :=
    hfile.mono (by omega) (Nat.le_refl _)
  have hlocated : ∀ index, 6 ≤ index → index ≤ 14 →
      (OptionalHeader.stored data ((stored old).peOffset + 24)).located? index =
        (OptionalHeader.stored old ((stored old).peOffset + 24)).located? index := by
    intro index hlo hhi
    exact OptionalHeader.located?_stored (show optionalHeaderBase (stored old).is64 = _ from rfl)
      hmagic (hcount.mono (by omega) (by omega)) (hdirectories.mono (by omega) (by omega))
  have hform : (OptionalHeader.stored data ((stored old).peOffset + 24)).is64 = (stored old).is64 :=
    congrArg (· == OptionalHeader.magic64) (Bytes.field_eq_of_sameOn hmagic)
  have hword : ∀ offset, 32 ≤ offset → offset ≤ 36 →
      Bytes.field data ((stored old).peOffset + 24 + offset) 4 =
        Bytes.field old ((stored old).peOffset + 24 + offset) 4 := fun offset hlo hhi =>
    Bytes.field_eq_of_sameOn (hunits.mono (by omega) (by omega))
  have hheader : ∀ offset, 20 ≤ offset → offset ≤ 22 →
      Bytes.field data ((stored old).peOffset + offset) 2 =
        Bytes.field old ((stored old).peOffset + offset) 2 := fun offset hlo hhi =>
    Bytes.field_eq_of_sameOn (hfile.mono (by omega) (by omega))
  have hmachine : Bytes.field data ((stored old).peOffset + 4) 2 = (stored old).machine :=
    Bytes.field_eq_of_sameOn (hfront.mono (Nat.zero_le _) (Nat.le_refl _))
  have htable : (stored old).peOffset + 24 + Bytes.field data ((stored old).peOffset + 20) 2 =
      (stored old).sectionTableOffset :=
    congrArg ((stored old).peOffset + 24 + ·) (hheader 20 (by decide) (by decide))
  conv_lhs => unfold stored
  dsimp only
  rw [hposition, htable, Image.mk.injEq]
  exact ⟨rfl, hmachine, hheader 22 (by decide) (by decide), hform, rfl, rfl,
    hword 36 (by decide) (by decide), hword 32 (by decide) (by decide), rfl, rfl,
    congrArg (·.getD (0, 0)) (hlocated 14 (by decide) (by decide)),
      hlocated 6 (by decide) (by decide)⟩

/-! ## Small libraries -/

/-- The headers of a 32-bit library with one section of `size` bytes, which is rounded up to
`rawSize` bytes in the file.  They fill the first unit of the file, so there is no room for another
section. -/
def smallHeaders (size rawSize : Nat) : Bytes :=
  [0x4D, 0x5A] ++ Bytes.zeros 58 ++ Bytes.leBytes 4 0xE8 ++ Bytes.zeros 168 ++
    -- The signature and the file header.
    [0x50, 0x45, 0, 0] ++ Bytes.leBytes 2 0x14C ++ Bytes.leBytes 2 1 ++ Bytes.zeros 12 ++
    Bytes.leBytes 2 216 ++ Bytes.leBytes 2 0x2102 ++
    -- The optional header, with the debug directory and the CLI header among 15 directories.
    Bytes.leBytes 2 0x10B ++ Bytes.zeros 30 ++ Bytes.leBytes 4 0x2000 ++ Bytes.leBytes 4 0x200 ++
    Bytes.zeros 20 ++ Bytes.leBytes 4 0x200 ++ Bytes.zeros 28 ++ Bytes.leBytes 4 15 ++
    Bytes.zeros 48 ++ Bytes.leBytes 4 0x2048 ++ Bytes.leBytes 4 28 ++ Bytes.zeros 56 ++
    Bytes.leBytes 4 0x2000 ++ Bytes.leBytes 4 72 ++
    -- The section table.
    Utf8.encode ".text" ++ Bytes.zeros 3 ++ Bytes.leBytes 4 size ++ Bytes.leBytes 4 0x2000 ++
    Bytes.leBytes 4 rawSize ++ Bytes.leBytes 4 0x200 ++ Bytes.zeros 12 ++ Bytes.leBytes 4 0x60000020

/-- The content of the section: the CLI header, the debug directory with one entry and its data, and
the metadata. -/
def smallContent (metadata : Bytes) : Bytes :=
  Bytes.leBytes 4 72 ++ Bytes.zeros 4 ++ Bytes.leBytes 4 0x2068 ++
    Bytes.leBytes 4 metadata.length ++
    Bytes.leBytes 4 3 ++ Bytes.zeros 52 ++
    Bytes.zeros 16 ++ Bytes.leBytes 4 4 ++ Bytes.leBytes 4 0x2064 ++ Bytes.leBytes 4 0x264 ++
    [1, 2, 3, 4] ++ metadata

/-- A 32-bit library with some metadata. -/
def smallLibrary (metadata : Bytes) : Bytes :=
  let content := smallContent metadata
  let rawSize := roundUp content.length 0x200
  smallHeaders content.length rawSize ++ content ++ Bytes.zeros (rawSize - content.length)

end NativeExports.Image
