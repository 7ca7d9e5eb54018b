import NativeExports.Proofs.Image.Addresses
import NativeExports.Proofs.Writing.Filling

/-!
# Where the updates are

The updates of a file that is written are of three kinds: those of the headers, which end in front
of what the sections hold, the new section, and those of a few parts of the old sections.  The parts
are the CLI header, the old metadata and the debug directory.
-/

namespace NativeExports

namespace Image

/-- Some section holds a range of addresses. -/
def Holds (image : Image) (range : Nat × Nat) : Prop :=
  ∃ s ∈ image.sections, s.Holds range.1 range.2

/-- Two ranges of addresses have no byte of the file in common. -/
def Apart (image : Image) (range range' : Nat × Nat) : Prop :=
  ∀ start start', image.offsetOf range.1 = .ok start → image.offsetOf range'.1 = .ok start' →
    start + range.2 ≤ start' ∨ start' + range'.2 ≤ start

/-- The bytes of the file from `start` up to `stop` belong to a section. -/
def InSection (image : Image) (start stop : Nat) : Prop :=
  ∃ s ∈ image.sections, s.rawSize ≠ 0 ∧ s.rawPointer ≤ start ∧ stop ≤ s.fileEnd

instance (image : Image) (range : Nat × Nat) : Decidable (image.Holds range) :=
  inferInstanceAs (Decidable (∃ s ∈ image.sections, s.Holds range.1 range.2))

instance (image : Image) (start stop : Nat) : Decidable (image.InSection start stop) :=
  inferInstanceAs (Decidable (∃ s ∈ image.sections, _ ∧ _ ∧ _))

instance (image : Image) (range range' : Nat × Nat) : Decidable (image.Apart range range') :=
  match h : image.offsetOf range.1, h' : image.offsetOf range'.1 with
  | .ok start, .ok start' =>
    decidable_of_iff (start + range.2 ≤ start' ∨ start' + range'.2 ≤ start)
      ⟨fun hapart _ _ hstart hstart' => Except.ok.inj (h.symm.trans hstart) ▸
        Except.ok.inj (h'.symm.trans hstart') ▸ hapart, fun hapart => hapart _ _ h h'⟩
  | .error _, _ => isTrue fun _ _ hstart => nomatch h.symm.trans hstart
  | .ok _, .error _ => isTrue fun _ _ _ hstart' => nomatch h'.symm.trans hstart'

variable {image : Image}

theorem InSection.mono {start stop start' stop' : Nat} (h : image.InSection start stop)
    (hstart : start ≤ start') (hstop : stop' ≤ stop) : image.InSection start' stop' := by
  obtain ⟨s, hmem, hraw, hlo, hhi⟩ := h
  exact ⟨s, hmem, hraw, Nat.le_trans hlo hstart, Nat.le_trans hstop hhi⟩

theorem Regular.inSection (h : image.Regular) {range : Nat × Nat} (hholds : image.Holds range)
    (hsize : 0 < range.2) : ∃ start, image.offsetOf range.1 = .ok start ∧
      image.InSection start (start + range.2) := by
  obtain ⟨s, hmem, hholds⟩ := hholds
  obtain ⟨hend, -⟩ := h.within hmem hholds hsize
  obtain ⟨-, hraw⟩ := contains_of_holds hholds hsize
  exact ⟨_, h.offsetOf_of_holds hmem hholds hsize, s, hmem, by omega, Nat.le_add_right _ _, hend⟩

/-- A part of a range that a section holds. -/
theorem Regular.offsetOf_add (h : image.Regular) {rva size start offset count : Nat}
    (hholds : image.Holds (rva, size)) (hstart : image.offsetOf rva = .ok start)
    (hend : offset + count ≤ size) (hcount : 0 < count) :
    image.Holds (rva + offset, count) ∧ image.offsetOf (rva + offset) = .ok (start + offset) := by
  obtain ⟨s, hmem, hholds⟩ := hholds
  obtain rfl := Except.ok.inj
    (hstart.symm.trans (h.offsetOf_of_holds hmem hholds (by dsimp only; omega)))
  obtain ⟨hlo, hhi⟩ := hholds
  dsimp only at hlo hhi
  have hpart : s.Holds (rva + offset) count := ⟨by omega, by omega⟩
  refine ⟨⟨s, hmem, hpart⟩, (h.offsetOf_of_holds hmem hpart hcount).trans (congrArg _ ?_)⟩
  omega

end Image

namespace Placement

variable {placement : Placement} {image : Image} {size start stop : Nat}

/-- What belongs to a section moves, and stays in front of the new section. -/
theorem Fits.of_inSection (h : placement.Fits image size) (hin : image.InSection start stop) :
    placement.move start = start + placement.rawShift ∧ placement.rawStart ≤ start ∧
      stop + placement.rawShift ≤ placement.rawPointer := by
  obtain ⟨s, hmem, hraw, hlo, hhi⟩ := hin
  have hstart := Nat.le_trans (h.rawStart s hmem hraw) hlo
  exact ⟨move_of_le hstart, hstart,
    Nat.le_trans (Nat.add_le_add_right hhi _) (h.behindContent s hmem)⟩

end Placement

namespace Assembly

/-- The parts of the old sections in which something is updated: the CLI header, the old metadata
and the debug directory, each with its size. -/
def parts (assembly : Assembly) : List (Nat × Nat) :=
  (assembly.image.cli.1, CliHeader.size) ::
    (assembly.cli.metadataRva, assembly.cli.metadataSize) :: assembly.image.debug.toList

/-- The parts lie inside what the sections hold, and they do not overlap. -/
structure PartsInSections (assembly : Assembly) : Prop where
  held : ∀ part ∈ assembly.parts, assembly.image.Holds part
  apart : assembly.parts.Pairwise assembly.image.Apart

instance (assembly : Assembly) : Decidable assembly.PartsInSections :=
  decidable_of_iff (_ ∧ _) ⟨fun ⟨h, h'⟩ => ⟨h, h'⟩, fun ⟨h, h'⟩ => ⟨h, h'⟩⟩

/-- The bytes of the old file that are not kept: in the CLI header, where it locates the metadata
and names the entry point, all of the old metadata, and in the debug directory the positions of
data. -/
inductive Changes (assembly : Assembly) (position : Nat) : Prop
  | metadataLocation {header : Nat}
      (hheader : assembly.image.offsetOf assembly.image.cli.1 = .ok header)
      (hstart : header + CliHeader.metadataRvaOffset ≤ position)
      (hstop : position < header + CliHeader.metadataSizeOffset + 4)
  | entryPoint {header : Nat} (hheader : assembly.image.offsetOf assembly.image.cli.1 = .ok header)
      (hstart : header + CliHeader.entryPointOffset ≤ position)
      (hstop : position < header + CliHeader.entryPointOffset + 4)
  | oldMetadata {start : Nat} (hold : assembly.image.offsetOf assembly.cli.metadataRva = .ok start)
      (hstart : start ≤ position) (hstop : position < start + assembly.cli.metadataSize)
  | debugPointer {field : Nat} (hfield : field ∈ debugFields assembly.image)
      (hstart : field ≤ position) (hstop : position < field + 4)

/-! ## The three kinds -/

/-- The updates of single fields of the headers, in ascending order. -/
def fieldUpdates (image : Image) (placement : Placement) (found : Found) : List (Nat × Bytes) :=
  let countOffset := image.peOffset + sectionCountOffset
  [(countOffset, Bytes.leBytes 2 (Bytes.field image.data countOffset 2 + 1)),
    (image.optionalHeaderOffset + initializedSizeOffset,
      Bytes.leBytes 4 (found.initialized + placement.rawSize)),
    (image.optionalHeaderOffset + imageSizeOffset, Bytes.leBytes 4 found.imageSize),
    (image.optionalHeaderOffset + headersSizeOffset, Bytes.leBytes 4 placement.headersSize),
    (image.optionalHeaderOffset + checksumOffset, Bytes.leBytes 4 found.checksum),
    (image.directoryOffset Image.certificateDirectory, Bytes.zeros 8)]

/-- The updates of the headers. -/
def headerUpdates (image : Image) (placement : Placement) (found : Found) : List (Nat × Bytes) :=
  fieldUpdates image placement found ++
    (image.sectionTableOffset + image.sections.length * ImageSection.headerSize,
      placement.header newSectionName) ::
    (if placement.rawShift = 0 then []
      else (sectionEntries image).flatMap (sectionPatches placement))

/-- The update of an entry of the debug directory, at its position in the old file. -/
def debugUpdate (image : Image) (placement : Placement) (field : Nat) : List (Nat × Bytes) :=
  let pointer := Bytes.field image.data field 4
  if pointer = 0 then [] else [(field, Bytes.leBytes 4 (placement.move pointer))]

/-- The updates of the debug directory. -/
def debugUpdates (image : Image) (placement : Placement) : List (Nat × Bytes) :=
  if placement.rawShift = 0 then [] else (debugFields image).flatMap (debugUpdate image placement)

/-- The updates of the parts, at their positions in the old file. -/
def partUpdates (assembly : Assembly) (plan : WritePlan) (found : Found) : List (Nat × Bytes) :=
  (found.oldMetadata, Bytes.zeros assembly.cli.metadataSize) ::
    debugUpdates assembly.image plan.placement ++ cliPatches assembly plan found.cliHeader

variable {assembly : Assembly} {image : Image} {placement : Placement} {plan : WritePlan}
  {found : Found} {update : Nat × Bytes}

/-- An update of a part, at its position in the new file. -/
def moveUpdate (placement : Placement) (update : Nat × Bytes) : Nat × Bytes :=
  (placement.move update.1, update.2)

theorem mem_debugUpdates :
    update ∈ debugUpdates image placement ↔ placement.rawShift ≠ 0 ∧ ∃ field ∈ debugFields image,
      Bytes.field image.data field 4 ≠ 0 ∧
        update = (field, Bytes.leBytes 4 (placement.move (Bytes.field image.data field 4))) := by
  have hone : ∀ field, update ∈ debugUpdate image placement field ↔
      Bytes.field image.data field 4 ≠ 0 ∧
        update = (field, Bytes.leBytes 4 (placement.move (Bytes.field image.data field 4))) := by
    intro field
    unfold debugUpdate
    dsimp only
    split
    · rename_i hpointer
      exact iff_of_false List.not_mem_nil fun h => h.1 hpointer
    · rename_i hpointer
      exact List.mem_singleton.trans (and_iff_right hpointer).symm
  unfold debugUpdates
  split
  · rename_i hshift
    exact iff_of_false List.not_mem_nil fun h => h.1 hshift
  · rename_i hshift
    simp only [List.mem_flatMap, hone]
    exact (and_iff_right hshift).symm

theorem movePatches_eq (image : Image) (placement : Placement) : movePatches image placement =
    (if placement.rawShift = 0 then []
      else (sectionEntries image).flatMap (sectionPatches placement)) ++
    (debugUpdates image placement).map (moveUpdate placement) := by
  have hone : ∀ field, debugPatches image placement field =
      (debugUpdate image placement field).map (moveUpdate placement) := by
    intro field
    unfold debugPatches debugUpdate
    dsimp only
    split <;> rfl
  unfold movePatches debugUpdates
  split
  · rfl
  · rw [List.map_flatMap, show debugPatches image placement = _ from funext hone]

theorem cliPatches_move {header : Nat} (h : plan.placement.rawStart ≤ header) :
    cliPatches assembly plan (plan.placement.move header) =
      (cliPatches assembly plan header).map (moveUpdate plan.placement) := by
  have hmove : ∀ offset, plan.placement.move (header + offset) =
      plan.placement.move header + offset := fun offset => by
    rw [Placement.move_of_le h, Placement.move_of_le (Nat.le_add_right_of_le h),
      Nat.add_right_comm]
  unfold cliPatches
  simp only [List.map_cons, List.map_nil, moveUpdate, hmove]

theorem mem_updates (h : plan.placement.rawStart ≤ found.cliHeader) :
    update ∈ updates assembly plan found ↔
      update ∈ headerUpdates assembly.image plan.placement found ∨
      update = (plan.placement.rawPointer, plan.content) ∨
      ∃ part ∈ partUpdates assembly plan found, update = moveUpdate plan.placement part := by
  unfold updates headerUpdates fieldUpdates entryPatches partUpdates
  dsimp only
  rw [cliPatches_move h]
  simp only [movePatches_eq, List.mem_append, List.mem_cons, List.mem_map, List.not_mem_nil,
    or_false, or_and_right, exists_or, exists_eq_left, moveUpdate, eq_comm (b := update)]
  refine iff_of_eq ?_
  ac_rfl

/-! ## Updates of the headers -/

theorem length_header (placement : Placement) (name : String) :
    (placement.header name).length = ImageSection.headerSize := by
  have hname : ((Utf8.encode name).take 8).length ≤ 8 := List.length_take_le _ _
  have hsize : ImageSection.headerSize = 40 := rfl
  simp only [Placement.header, List.length_append, Bytes.length_zeros, Bytes.length_leBytes]
  omega

theorem mem_headerUpdates : update ∈ headerUpdates image placement found ↔
    update ∈ fieldUpdates image placement found ∨
      update = (image.sectionTableOffset + image.sections.length * ImageSection.headerSize,
        placement.header newSectionName) ∨
      ∃ n s, image.sections[n]? = some s ∧ placement.rawShift ≠ 0 ∧
        ¬(s.rawSize = 0 ∨ s.rawPointer = 0) ∧
        update = (image.sectionTableOffset + n * ImageSection.headerSize + rawPointerOffset,
          Bytes.leBytes 4 (placement.move s.rawPointer)) := by
  unfold headerUpdates
  rw [List.mem_append, List.mem_cons]
  refine or_congr_right (or_congr_right ?_)
  by_cases hshift : placement.rawShift = 0
  · rw [if_pos hshift]
    refine iff_of_false List.not_mem_nil ?_
    rintro ⟨_, _, -, hmoves, -⟩
    exact hmoves hshift
  · rw [if_neg hshift, List.mem_flatMap]
    constructor
    · rintro ⟨entry, hentry, hupdate⟩
      obtain ⟨⟨s, n⟩, hmem, rfl⟩ := List.mem_map.mp hentry
      unfold sectionPatches at hupdate
      by_cases hstays : s.rawSize = 0 ∨ s.rawPointer = 0
      · rw [if_pos hstays] at hupdate
        cases hupdate
      · rw [if_neg hstays] at hupdate
        exact ⟨n, s, List.mem_zipIdx_iff_getElem?.mp hmem, hshift, hstays,
          List.mem_singleton.mp hupdate⟩
    · rintro ⟨n, s, hn, -, hmoves, rfl⟩
      refine ⟨_, List.mem_map.mpr ⟨(s, n), List.mem_zipIdx_iff_getElem?.mpr hn, rfl⟩, ?_⟩
      unfold sectionPatches
      rw [if_neg hmoves]
      exact List.mem_singleton_self _

theorem fieldUpdates_within (h : image.HeadersInOrder)
    (hmem : update ∈ fieldUpdates image placement found) :
    update.1 + update.2.length ≤ image.sectionTableOffset := by
  have hdirectories := h.directories
  have hbase := Image.optionalHeaderBase_cases image.is64
  unfold Image.directoryOffset Image.optionalHeaderOffset Image.cliDirectory at hdirectories
  simp only [fieldUpdates, List.mem_cons, List.not_mem_nil, or_false] at hmem
  rcases hmem with rfl | rfl | rfl | rfl | rfl | rfl
  all_goals
    simp only [Bytes.length_leBytes, Bytes.length_zeros, Image.directoryOffset,
      Image.optionalHeaderOffset, sectionCountOffset, initializedSizeOffset, imageSizeOffset,
      headersSizeOffset, checksumOffset, Image.certificateDirectory]
    omega

theorem fieldUpdates_ascending (image : Image) (placement : Placement) (found : Found) :
    (fieldUpdates image placement found).Pairwise fun update other =>
      update.1 + update.2.length ≤ other.1 := by
  have hbase := Image.optionalHeaderBase_cases image.is64
  simp only [fieldUpdates, List.pairwise_cons, List.forall_mem_cons, List.not_mem_nil,
    Bytes.length_leBytes, Bytes.length_zeros, Image.directoryOffset, Image.optionalHeaderOffset,
    sectionCountOffset, initializedSizeOffset, imageSizeOffset, headersSizeOffset, checksumOffset,
    Image.certificateDirectory, List.Pairwise.nil, false_implies, implies_true, and_true]
  omega

/-- The updates of the headers end where the section table ends. -/
theorem headerUpdates_within (h : image.HeadersInOrder)
    (hmem : update ∈ headerUpdates image placement found) :
    update.1 + update.2.length ≤ Placement.tableEnd image := by
  unfold Placement.tableEnd
  rcases mem_headerUpdates.mp hmem with hfield | rfl | ⟨n, s, hn, -, -, rfl⟩
  · exact Nat.le_add_right_of_le (fieldUpdates_within h hfield)
  · rw [length_header, Nat.add_mul, Nat.one_mul]
    exact Nat.le_of_eq (Nat.add_assoc ..)
  · obtain ⟨hlt, -⟩ := List.getElem?_eq_some_iff.mp hn
    rw [Bytes.length_leBytes]
    unfold ImageSection.headerSize rawPointerOffset
    omega

theorem eq_or_apart_of_ascending {updates : List (Nat × Bytes)} {other : Nat × Bytes}
    (h : updates.Pairwise fun update other => update.1 + update.2.length ≤ other.1)
    (hupdate : update ∈ updates) (hother : other ∈ updates) :
    other = update ∨ update.1 + update.2.length ≤ other.1 ∨
      other.1 + other.2.length ≤ update.1 := by
  induction h with
  | nil => cases hupdate
  | cons hfirst _ ih =>
      rcases List.mem_cons.mp hupdate with rfl | hlater <;>
        rcases List.mem_cons.mp hother with rfl | hlater'
      · exact .inl rfl
      · exact .inr (.inl (hfirst _ hlater'))
      · exact .inr (.inr (hfirst _ hlater))
      · exact ih hlater hlater'

/-- Different updates of the headers do not overlap. -/
theorem headerUpdates_apart (h : image.HeadersInOrder) {other : Nat × Bytes}
    (hupdate : update ∈ headerUpdates image placement found)
    (hother : other ∈ headerUpdates image placement found) :
    other = update ∨ update.1 + update.2.length ≤ other.1 ∨
      other.1 + other.2.length ≤ update.1 := by
  have hfields := fun {update} => @fieldUpdates_within image placement found update h
  rcases mem_headerUpdates.mp hupdate with hfield | rfl | ⟨n, s, hn, -, -, rfl⟩ <;>
    rcases mem_headerUpdates.mp hother with hfield' | rfl | ⟨n', s', hn', -, -, rfl⟩
  · exact eq_or_apart_of_ascending (fieldUpdates_ascending image placement found) hfield hfield'
  · exact .inr (.inl (Nat.le_add_right_of_le (hfields hfield)))
  · exact .inr (.inl (Nat.le_trans (hfields hfield) (by dsimp only; omega)))
  · exact .inr (.inr (Nat.le_add_right_of_le (hfields hfield')))
  · exact .inl rfl
  · have hlt := (List.getElem?_eq_some_iff.mp hn').1
    rw [Bytes.length_leBytes]
    exact .inr (.inr (by unfold ImageSection.headerSize rawPointerOffset; dsimp only; omega))
  · exact .inr (.inr (Nat.le_trans (hfields hfield') (by dsimp only; omega)))
  · have hlt := (List.getElem?_eq_some_iff.mp hn).1
    rw [Bytes.length_leBytes]
    exact .inr (.inl (by unfold ImageSection.headerSize rawPointerOffset; dsimp only; omega))
  · by_cases hsame : n' = n
    · obtain rfl := hsame
      obtain rfl := Option.some.inj (hn.symm.trans hn')
      exact .inl rfl
    · rw [Bytes.length_leBytes, Bytes.length_leBytes]
      exact .inr (by unfold ImageSection.headerSize; dsimp only; omega)

/-! ## Updates of the parts -/

theorem mem_debugFields {field : Nat} : field ∈ debugFields image ↔
    ∃ rva size entries n, image.debug = some (rva, size) ∧ image.offsetOf rva = .ok entries ∧
      n < size / debugEntrySize ∧ field = entries + n * debugEntrySize + debugPointerOffset := by
  unfold debugFields
  cases hdebug : image.debug with
  | none =>
      refine iff_of_false List.not_mem_nil ?_
      rintro ⟨_, _, _, _, h, -⟩
      cases h
  | some located =>
      cases hentries : image.offsetOf located.1 with
      | error e =>
          dsimp only
          rw [hentries]
          refine iff_of_false List.not_mem_nil ?_
          rintro ⟨_, _, _, _, h, h', -⟩
          obtain rfl := Option.some.inj h
          cases hentries.symm.trans h'
      | ok entries =>
          dsimp only
          rw [hentries]
          dsimp only
          rw [List.mem_map]
          constructor
          · rintro ⟨n, hn, rfl⟩
            exact ⟨_, _, entries, n, rfl, hentries, List.mem_range.mp hn, rfl⟩
          · rintro ⟨rva, size, entries', n, h, h', hn, rfl⟩
            obtain rfl := Option.some.inj h
            obtain rfl := Except.ok.inj (hentries.symm.trans h')
            exact ⟨n, List.mem_range.mpr hn, rfl⟩

/-- The parts of an assembly are where the updates are made, and the new section is placed behind
the old ones. -/
structure Found.Fits (found : Found) (assembly : Assembly) (plan : WritePlan) : Prop where
  regular : assembly.image.Regular
  order : assembly.image.HeadersInOrder
  parts : assembly.PartsInSections
  /-- No part is empty. -/
  positive : ∀ part ∈ assembly.parts, 0 < part.2
  placement : plan.placement.Fits assembly.image plan.content.length
  oldMetadata : assembly.image.offsetOf assembly.cli.metadataRva = .ok found.oldMetadata
  cliHeader : assembly.image.offsetOf assembly.image.cli.1 = .ok found.cliHeader

namespace Found.Fits

theorem inSection (h : found.Fits assembly plan) {part : Nat × Nat} (hpart : part ∈ assembly.parts)
    {start : Nat} (hstart : assembly.image.offsetOf part.1 = .ok start) :
    assembly.image.InSection start (start + part.2) := by
  obtain ⟨found, hfound, hin⟩ :=
    h.regular.inSection (h.parts.held part hpart) (h.positive part hpart)
  obtain rfl := Except.ok.inj (hstart.symm.trans hfound)
  exact hin

theorem cliHeader_inSection (h : found.Fits assembly plan) :
    assembly.image.InSection found.cliHeader (found.cliHeader + CliHeader.size) :=
  h.inSection (.head _) h.cliHeader

theorem oldMetadata_inSection (h : found.Fits assembly plan) :
    assembly.image.InSection found.oldMetadata (found.oldMetadata + assembly.cli.metadataSize) :=
  h.inSection (.tail _ (.head _)) h.oldMetadata

/-- The CLI header and the old metadata stand apart. -/
theorem oldMetadata_apart (h : found.Fits assembly plan) :
    found.cliHeader + CliHeader.size ≤ found.oldMetadata ∨
      found.oldMetadata + assembly.cli.metadataSize ≤ found.cliHeader :=
  (List.pairwise_cons.mp h.parts.apart).1 _ (.head _) _ _ h.cliHeader h.oldMetadata

/-- A position in the debug directory stands apart from the other parts. -/
theorem debugField (h : found.Fits assembly plan) {field : Nat}
    (hfield : field ∈ debugFields assembly.image) :
    assembly.image.InSection field (field + 4) ∧
      (found.cliHeader + CliHeader.size ≤ field ∨ field + 4 ≤ found.cliHeader) ∧
      (found.oldMetadata + assembly.cli.metadataSize ≤ field ∨ field + 4 ≤ found.oldMetadata) := by
  obtain ⟨rva, size, entries, n, hdebug, hentries, hn, rfl⟩ := mem_debugFields.mp hfield
  have hpart : (rva, size) ∈ assembly.image.debug.toList := Option.mem_toList.mpr hdebug
  have hend : entries + n * debugEntrySize + debugPointerOffset + 4 ≤ entries + size := by
    have hlt := (Nat.lt_div_iff_mul_lt (by decide)).mp hn
    unfold debugEntrySize debugPointerOffset at *
    omega
  have hcli := (List.pairwise_cons.mp h.parts.apart).1 _ (.tail _ hpart) _ _ h.cliHeader hentries
  have hold := (List.pairwise_cons.mp (List.pairwise_cons.mp h.parts.apart).2).1 _ hpart _ _
    h.oldMetadata hentries
  refine ⟨(h.inSection (.tail _ (.tail _ hpart)) hentries).mono (by omega) hend, ?_, ?_⟩
  · dsimp only at hcli
    omega
  · dsimp only at hold
    omega

end Found.Fits

/-- Different positions in the debug directory do not overlap. -/
theorem debugFields_apart {field field' : Nat} (h : field ∈ debugFields image)
    (h' : field' ∈ debugFields image) :
    field' = field ∨ field + 4 ≤ field' ∨ field' + 4 ≤ field := by
  obtain ⟨rva, size, entries, n, hdebug, hentries, -, rfl⟩ := mem_debugFields.mp h
  obtain ⟨rva', size', entries', n', hdebug', hentries', -, rfl⟩ := mem_debugFields.mp h'
  obtain ⟨rfl, rfl⟩ := Prod.mk.inj (Option.some.inj (hdebug.symm.trans hdebug'))
  obtain rfl := Except.ok.inj (hentries.symm.trans hentries')
  unfold debugEntrySize
  omega

theorem mem_partUpdates : update ∈ partUpdates assembly plan found ↔
    update = (found.oldMetadata, Bytes.zeros assembly.cli.metadataSize) ∨
      update ∈ debugUpdates assembly.image plan.placement ∨
      update ∈ cliPatches assembly plan found.cliHeader := by
  unfold partUpdates
  rw [List.mem_append, List.mem_cons, or_assoc]

theorem mem_cliPatches {header : Nat} : update ∈ cliPatches assembly plan header ↔
    update = (header + CliHeader.metadataRvaOffset,
      Bytes.leBytes 4 (plan.placement.virtualAddress + plan.metadataOffset)) ∨
    update = (header + CliHeader.metadataSizeOffset, Bytes.leBytes 4 plan.metadataSize) ∨
    update = (header + CliHeader.entryPointOffset, Bytes.leBytes 4 assembly.entryPoint.value) := by
  simp only [cliPatches, List.mem_cons, List.not_mem_nil, or_false]

/-- An update of the CLI header stays inside it. -/
theorem cliPatches_within {header : Nat} (h : update ∈ cliPatches assembly plan header) :
    header ≤ update.1 ∧ update.1 + update.2.length ≤ header + CliHeader.size := by
  rcases mem_cliPatches.mp h with rfl | rfl | rfl
  all_goals
    simp only [Bytes.length_leBytes, CliHeader.size, CliHeader.metadataRvaOffset,
      CliHeader.metadataSizeOffset, CliHeader.entryPointOffset]
    omega

theorem cliPatches_apart {header : Nat} {other : Nat × Bytes}
    (h : update ∈ cliPatches assembly plan header) (h' : other ∈ cliPatches assembly plan header) :
    other = update ∨ update.1 + update.2.length ≤ other.1 ∨
      other.1 + other.2.length ≤ update.1 := by
  rcases mem_cliPatches.mp h with rfl | rfl | rfl <;>
    rcases mem_cliPatches.mp h' with rfl | rfl | rfl
  -- On the diagonal the updates are the same; the others are told apart by their positions.
  all_goals first
    | exact .inl rfl
    | simp only [Bytes.length_leBytes, CliHeader.metadataRvaOffset, CliHeader.metadataSizeOffset,
        CliHeader.entryPointOffset]
      omega

namespace Found.Fits

/-- An update of a part is one of bytes that are not kept. -/
theorem changes (h : found.Fits assembly plan)
    (hupdate : update ∈ partUpdates assembly plan found) :
    assembly.image.InSection update.1 (update.1 + update.2.length) ∧
      ∀ position, update.1 ≤ position → position < update.1 + update.2.length →
        assembly.Changes position := by
  rcases mem_partUpdates.mp hupdate with rfl | hdebug | hcli
  · rw [Bytes.length_zeros]
    exact ⟨h.oldMetadata_inSection, fun _ => .oldMetadata h.oldMetadata⟩
  · obtain ⟨-, field, hfield, -, rfl⟩ := mem_debugUpdates.mp hdebug
    rw [Bytes.length_leBytes]
    exact ⟨(h.debugField hfield).1, fun _ => .debugPointer hfield⟩
  · obtain ⟨hlo, hhi⟩ := cliPatches_within hcli
    refine ⟨h.cliHeader_inSection.mono hlo hhi, fun position hstart hstop => ?_⟩
    rcases mem_cliPatches.mp hcli with rfl | rfl | rfl <;> rw [Bytes.length_leBytes] at hstop
    · exact .metadataLocation h.cliHeader hstart (Nat.lt_of_lt_of_le hstop
        (Nat.add_le_add_right (Nat.add_le_add_left (by decide) _) _))
    · exact .metadataLocation h.cliHeader
        (Nat.le_trans (Nat.add_le_add_left (by decide) _) hstart) hstop
    · exact .entryPoint h.cliHeader hstart hstop

/-- Where an update of the debug directory is. -/
theorem debugUpdate (h : found.Fits assembly plan)
    (hupdate : update ∈ debugUpdates assembly.image plan.placement) :
    update.2.length = 4 ∧
      (found.cliHeader + CliHeader.size ≤ update.1 ∨ update.1 + 4 ≤ found.cliHeader) ∧
      (found.oldMetadata + assembly.cli.metadataSize ≤ update.1 ∨
        update.1 + 4 ≤ found.oldMetadata) := by
  obtain ⟨-, field, hfield, -, rfl⟩ := mem_debugUpdates.mp hupdate
  exact ⟨Bytes.length_leBytes _ _, (h.debugField hfield).2⟩

/-- Different updates of parts do not overlap. -/
theorem updates_apart (h : found.Fits assembly plan) {other : Nat × Bytes}
    (hupdate : update ∈ partUpdates assembly plan found)
    (hother : other ∈ partUpdates assembly plan found) :
    other = update ∨ update.1 + update.2.length ≤ other.1 ∨
      other.1 + other.2.length ≤ update.1 := by
  have hold := h.oldMetadata_apart
  rcases mem_partUpdates.mp hupdate with rfl | hdebug | hcli <;>
    rcases mem_partUpdates.mp hother with rfl | hdebug' | hcli'
  · exact .inl rfl
  · have hother := h.debugUpdate hdebug'
    rw [Bytes.length_zeros]
    omega
  · have hother := cliPatches_within hcli'
    rw [Bytes.length_zeros]
    omega
  · have hupdate := h.debugUpdate hdebug
    rw [Bytes.length_zeros]
    omega
  · obtain ⟨-, field, hfield, -, rfl⟩ := mem_debugUpdates.mp hdebug
    obtain ⟨-, field', hfield', -, rfl⟩ := mem_debugUpdates.mp hdebug'
    rcases debugFields_apart hfield hfield' with rfl | hapart
    · exact .inl rfl
    · rw [Bytes.length_leBytes, Bytes.length_leBytes]
      exact .inr hapart
  · have hupdate := h.debugUpdate hdebug
    have hother := cliPatches_within hcli'
    omega
  · have hupdate := cliPatches_within hcli
    rw [Bytes.length_zeros]
    omega
  · have hupdate := cliPatches_within hcli
    have hother := h.debugUpdate hdebug'
    omega
  · exact cliPatches_apart hcli hcli'

end Found.Fits

end Assembly

end NativeExports
