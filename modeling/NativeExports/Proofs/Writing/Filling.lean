import NativeExports.Assembly.Writing
import NativeExports.Proofs.Writing.Patches

/-!
# Filling the output

Filling the output is a series of patches: two copies of the old file, and then the updates.  This
module lists them.
-/

namespace NativeExports.Assembly

open Output (Patched)

variable {assembly : Assembly} {image : Image} {placement : Placement} {before after : Output}

/-! ## The patches -/

/-- The old file: what is in front of the content of the sections, and the rest. -/
def copyPatches (image : Image) (placement : Placement) : List (Nat × Bytes) :=
  let headers := min placement.rawStart (copiedSize image)
  [(0, image.data.take headers),
    (placement.move headers, (image.data.take (copiedSize image)).drop headers)]

/-- Where the content of a section went. -/
def sectionPatches (placement : Placement) (entry : Nat × ImageSection) : List (Nat × Bytes) :=
  if entry.2.rawSize = 0 ∨ entry.2.rawPointer = 0 then []
  else [(entry.1 + rawPointerOffset, Bytes.leBytes 4 (placement.move entry.2.rawPointer))]

/-- Where the entries of the debug directory hold the positions of their data. -/
def debugFields (image : Image) : List Nat :=
  match image.debug with
  | none => []
  | some (rva, size) =>
    match image.offsetOf rva with
    | .error _ => []
    | .ok entries => (List.range (size / debugEntrySize)).map fun n =>
        entries + n * debugEntrySize + debugPointerOffset

/-- Where the data of an entry of the debug directory went. -/
def debugPatches (image : Image) (placement : Placement) (field : Nat) : List (Nat × Bytes) :=
  let pointer := Bytes.field image.data field 4
  if pointer = 0 then [] else [(placement.move field, Bytes.leBytes 4 (placement.move pointer))]

/-- Where all the content went, if it moved. -/
def movePatches (image : Image) (placement : Placement) : List (Nat × Bytes) :=
  if placement.rawShift = 0 then []
  else (sectionEntries image).flatMap (sectionPatches placement) ++
    (debugFields image).flatMap (debugPatches image placement)

/-- The new section in the headers. -/
def entryPatches (image : Image) (placement : Placement) (initialized imageSize : Nat) :
    List (Nat × Bytes) :=
  let countOffset := image.peOffset + sectionCountOffset
  [(image.sectionTableOffset + image.sections.length * ImageSection.headerSize,
      placement.header newSectionName),
    (countOffset, Bytes.leBytes 2 (Bytes.field image.data countOffset 2 + 1)),
    (image.optionalHeaderOffset + initializedSizeOffset,
      Bytes.leBytes 4 (initialized + placement.rawSize)),
    (image.optionalHeaderOffset + imageSizeOffset, Bytes.leBytes 4 imageSize)]

/-- The CLI header at `header`. -/
def cliPatches (assembly : Assembly) (plan : WritePlan) (header : Nat) : List (Nat × Bytes) :=
  [(header + CliHeader.metadataRvaOffset,
      Bytes.leBytes 4 (plan.placement.virtualAddress + plan.metadataOffset)),
    (header + CliHeader.metadataSizeOffset, Bytes.leBytes 4 plan.metadataSize),
    (header + CliHeader.entryPointOffset, Bytes.leBytes 4 assembly.entryPoint.value)]

/-- The numbers that the updates depend on. -/
structure Found where
  /-- Where the old metadata stands. -/
  oldMetadata : Nat
  /-- Where the CLI header stands. -/
  cliHeader : Nat
  /-- The old size of the initialized data. -/
  initialized : Nat
  /-- The new size of the loaded image. -/
  imageSize : Nat
  /-- The checksum. -/
  checksum : Nat

/-- What is updated in the copy of the old file. -/
def updates (assembly : Assembly) (plan : WritePlan) (found : Found) : List (Nat × Bytes) :=
  let image := assembly.image
  let placement := plan.placement
  [(placement.move found.oldMetadata, Bytes.zeros assembly.cli.metadataSize),
    (placement.rawPointer, plan.content),
    (image.optionalHeaderOffset + headersSizeOffset, Bytes.leBytes 4 placement.headersSize)] ++
  movePatches image placement ++
  entryPatches image placement found.initialized found.imageSize ++
  [(image.directoryOffset Image.certificateDirectory, Bytes.zeros 8)] ++
  cliPatches assembly plan (placement.move found.cliHeader) ++
  [(image.optionalHeaderOffset + checksumOffset, Bytes.leBytes 4 found.checksum)]

/-! ## Each part of filling -/

theorem patched_of_copyOld (h : copyOld image placement before = .ok after) :
    Patched (copyPatches image placement) before after := by
  obtain ⟨middle, hfirst, hsecond⟩ := Outcome.bind_eq_ok.mp h
  exact (Output.patched_of_write hfirst).trans (Output.patched_of_write hsecond)

theorem relocated_eq_ok {offset moved : Nat} (h : relocated placement offset = .ok moved) :
    moved = placement.move offset ∧ placement.move offset < 2 ^ 32 := by
  unfold relocated at h
  split at h
  · rename_i hlt
    exact ⟨(Except.ok.inj h).symm, hlt⟩
  · cases h

theorem oldWord_eq_ok {offset value : Nat} (h : oldWord image offset = .ok value) :
    value = Bytes.field image.data offset 4 ∧ offset + 4 ≤ image.data.length := by
  unfold oldWord Bytes.le? Bytes.slice? at h
  split at h
  · rename_i found hfound
    split at hfound
    · rename_i hfit
      obtain rfl := Except.ok.inj h
      exact ⟨(Option.some.inj hfound).symm, hfit⟩
    · cases hfound
  · cases h

/-- What has to fit into 32 bits if the content moves. -/
structure MovesFit (image : Image) (placement : Placement) : Prop where
  sections : ∀ s ∈ image.sections, s.rawSize ≠ 0 → s.rawPointer ≠ 0 →
    placement.move s.rawPointer < 2 ^ 32
  debug : ∀ field ∈ debugFields image, Bytes.field image.data field 4 ≠ 0 →
    placement.move (Bytes.field image.data field 4) < 2 ^ 32

theorem patched_of_moveSection {entry : Nat × ImageSection}
    (h : moveSection placement before entry = .ok after) :
    Patched (sectionPatches placement entry) before after ∧
      (entry.2.rawSize ≠ 0 → entry.2.rawPointer ≠ 0 →
        placement.move entry.2.rawPointer < 2 ^ 32) := by
  unfold moveSection at h
  unfold sectionPatches
  dsimp only at h
  split at h
  · rename_i hnone
    obtain rfl := Except.ok.inj h
    rw [if_pos hnone]
    exact ⟨.refl _, fun hsize hpointer => absurd hnone (not_or.mpr ⟨hsize, hpointer⟩)⟩
  · rename_i hsome
    rw [if_neg hsome]
    obtain ⟨moved, hmoved, h⟩ := Outcome.bind_eq_ok.mp h
    obtain ⟨rfl, hlt⟩ := relocated_eq_ok hmoved
    exact ⟨Output.patched_of_write h, fun _ _ => hlt⟩

theorem patched_of_moveDebugEntry {field : Nat}
    (h : moveDebugEntry image placement before field = .ok after) :
    Patched (debugPatches image placement field) before after ∧
      (Bytes.field image.data field 4 ≠ 0 →
        placement.move (Bytes.field image.data field 4) < 2 ^ 32) := by
  unfold moveDebugEntry at h
  unfold debugPatches
  obtain ⟨pointer, hpointer, h⟩ := Outcome.bind_eq_ok.mp h
  obtain ⟨rfl, -⟩ := oldWord_eq_ok hpointer
  dsimp only at h ⊢
  split at h
  · rename_i hzero
    obtain rfl := Except.ok.inj h
    rw [if_pos hzero]
    exact ⟨.refl _, fun hne => absurd hzero hne⟩
  · rename_i hne
    rw [if_neg hne]
    obtain ⟨moved, hmoved, h⟩ := Outcome.bind_eq_ok.mp h
    obtain ⟨rfl, hlt⟩ := relocated_eq_ok hmoved
    exact ⟨Output.patched_of_write h, fun _ => hlt⟩

theorem snd_mem_sectionEntries {s : ImageSection} (h : s ∈ image.sections) :
    ∃ entry ∈ sectionEntries image, entry.2 = s := by
  obtain ⟨n, hn⟩ := List.getElem?_of_mem h
  exact ⟨_, List.mem_map.mpr ⟨(s, n), List.mem_zipIdx_iff_getElem?.mpr hn, rfl⟩, rfl⟩

theorem patched_of_moveOld (h : moveOld image placement before = .ok after) :
    Patched ((image.optionalHeaderOffset + headersSizeOffset,
        Bytes.leBytes 4 placement.headersSize) :: movePatches image placement) before after ∧
      (placement.rawShift ≠ 0 → MovesFit image placement) := by
  unfold moveOld at h
  obtain ⟨sized, hsized, h⟩ := Outcome.bind_eq_ok.mp h
  have hfirst := Output.patched_of_write hsized
  unfold movePatches
  split at h
  · rename_i hzero
    obtain rfl := Except.ok.inj h
    rw [if_pos hzero]
    exact ⟨hfirst, absurd hzero⟩
  · rename_i hshift
    rw [if_neg hshift]
    obtain ⟨sections, hsections, h⟩ := Outcome.bind_eq_ok.mp h
    obtain ⟨hmoved, hfits⟩ := Output.patched_of_foldlM hsections fun _ _ _ => patched_of_moveSection
    obtain ⟨hdebug, hdebugFits⟩ :
        Patched ((debugFields image).flatMap (debugPatches image placement)) sections after ∧
        ∀ field ∈ debugFields image, Bytes.field image.data field 4 ≠ 0 →
          placement.move (Bytes.field image.data field 4) < 2 ^ 32 := by
      unfold debugFields
      cases hdebug : image.debug with
      | none =>
          rw [hdebug] at h
          obtain rfl := Except.ok.inj h
          exact ⟨.refl _, nofun⟩
      | some located =>
          rw [hdebug] at h
          obtain ⟨entries, hentries, h⟩ := Outcome.bind_eq_ok.mp h
          dsimp only
          rw [hentries]
          exact Output.patched_of_foldlM h fun _ _ _ => patched_of_moveDebugEntry
    refine ⟨hfirst.trans (hmoved.trans hdebug), fun _ => ⟨fun s hmem => ?_, hdebugFits⟩⟩
    obtain ⟨entry, hentry, rfl⟩ := snd_mem_sectionEntries hmem
    exact hfits entry hentry

theorem patched_of_addSectionEntry (h : addSectionEntry image placement before = .ok after) :
    ∃ initialized imageSize,
      Patched (entryPatches image placement initialized imageSize) before after ∧
      imageSize = roundUp (placement.virtualAddress + placement.virtualSize)
        (max image.sectionAlignment 1) ∧ imageSize < 2 ^ 32 := by
  unfold addSectionEntry at h
  obtain ⟨first, hfirst, h⟩ := Outcome.bind_eq_ok.mp h
  obtain ⟨second, hsecond, h⟩ := Outcome.bind_eq_ok.mp h
  obtain ⟨initialized, -, h⟩ := Outcome.bind_eq_ok.mp h
  obtain ⟨third, hthird, h⟩ := Outcome.bind_eq_ok.mp h
  dsimp only at h
  split at h
  · cases h
  · rename_i hlt
    exact ⟨initialized, _, ((Output.patched_of_write hfirst).trans
      (Output.patched_of_write hsecond)).trans ((Output.patched_of_write hthird).trans
        (Output.patched_of_write h)), rfl, Nat.lt_of_not_le hlt⟩

theorem patched_of_updateCli {plan : WritePlan} (h : updateCli assembly plan before = .ok after) :
    ∃ header, assembly.image.offsetOf assembly.image.cli.1 = .ok header ∧
      Patched (cliPatches assembly plan (plan.placement.move header)) before after := by
  unfold updateCli at h
  obtain ⟨header, hheader, h⟩ := Outcome.bind_eq_ok.mp h
  obtain ⟨first, hfirst, h⟩ := Outcome.bind_eq_ok.mp h
  obtain ⟨second, hsecond, h⟩ := Outcome.bind_eq_ok.mp h
  exact ⟨header, hheader, ((Output.patched_of_write hfirst).trans
    (Output.patched_of_write hsecond)).trans (Output.patched_of_write h)⟩

/-- Filling the output copies the old file and updates it. -/
theorem fill_eq_ok {plan : WritePlan} (h : assembly.fill plan before = .ok after) :
    ∃ found : Found, assembly.image.offsetOf assembly.cli.metadataRva = .ok found.oldMetadata ∧
      assembly.image.offsetOf assembly.image.cli.1 = .ok found.cliHeader ∧
      Patched (copyPatches assembly.image plan.placement ++ assembly.updates plan found)
        before after ∧
      (plan.placement.rawShift ≠ 0 → MovesFit assembly.image plan.placement) ∧
      roundUp (plan.placement.virtualAddress + plan.placement.virtualSize)
        (max assembly.image.sectionAlignment 1) < 2 ^ 32 := by
  unfold fill at h
  obtain ⟨copied, hcopied, h⟩ := Outcome.bind_eq_ok.mp h
  obtain ⟨oldMetadata, holdMetadata, h⟩ := Outcome.bind_eq_ok.mp h
  obtain ⟨wiped, hwiped, h⟩ := Outcome.bind_eq_ok.mp h
  obtain ⟨grown, hgrown, h⟩ := Outcome.bind_eq_ok.mp h
  obtain ⟨moved, hmoved, h⟩ := Outcome.bind_eq_ok.mp h
  obtain ⟨listed, hlisted, h⟩ := Outcome.bind_eq_ok.mp h
  obtain ⟨cleared, hcleared, h⟩ := Outcome.bind_eq_ok.mp h
  obtain ⟨pointed, hpointed, h⟩ := Outcome.bind_eq_ok.mp h
  obtain ⟨hmoves, hfit⟩ := patched_of_moveOld hmoved
  obtain ⟨initialized, imageSize, hentry, himage, hlt⟩ := patched_of_addSectionEntry hlisted
  obtain ⟨header, hheader, hcli⟩ := patched_of_updateCli hpointed
  refine ⟨⟨oldMetadata, header, initialized, imageSize, Checksum.compute pointed.content
      (assembly.image.optionalHeaderOffset + checksumOffset)⟩, holdMetadata, hheader,
    (patched_of_copyOld hcopied).trans ?_, hfit, himage ▸ hlt⟩
  have hfront :=
    ((Output.patched_of_zero hwiped).trans (Output.patched_of_write hgrown)).trans hmoves
  exact (((hfront.trans hentry).trans (Output.patched_of_zero hcleared)).trans hcli).trans
    (Output.patched_of_write h)

end NativeExports.Assembly
