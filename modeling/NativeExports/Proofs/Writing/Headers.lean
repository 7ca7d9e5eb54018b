import NativeExports.Proofs.Metadata.Root
import NativeExports.Proofs.Writing.Filled

/-!
# The headers of a file that was written

The headers of the new file are those of the old one with another section, and with the content of
the old sections where it moved.
-/

namespace NativeExports

open Bytes (SameOn PatchesApart field)

/-- The entry of the new section is read as it was stored. -/
theorem Placement.storedSection_header {placement : Placement} {data rest : Bytes} {name : String}
    {start : Nat} (h : data.drop start = placement.header name ++ rest)
    (hname : Image.sectionName ((Utf8.encode name).take 8 ++
      Bytes.zeros (8 - ((Utf8.encode name).take 8).length)) = name)
    (haddress : placement.virtualAddress < 2 ^ 32) (hsize : placement.virtualSize < 2 ^ 32)
    (hpointer : placement.rawPointer < 2 ^ 32) (hraw : placement.rawSize < 2 ^ 32) :
    Image.storedSection data start = placement.newSection name := by
  unfold header at h
  dsimp only at h
  rw [List.append_assoc, List.append_assoc, List.append_assoc, List.append_assoc, List.append_assoc,
    List.append_assoc, List.append_assoc, ← List.append_assoc] at h
  have hlength : ((Utf8.encode name).take 8 ++
      Bytes.zeros (8 - ((Utf8.encode name).take 8).length)).length = 8 := by
    have htake : ((Utf8.encode name).take 8).length ≤ 8 := List.length_take_le _ _
    rw [List.length_append, Bytes.length_zeros]
    omega
  have h8 := Bytes.drop_of_drop (start + 8) h (by rw [hlength])
  have h12 := Bytes.drop_of_drop (start + 12) h8 (by rw [Bytes.length_leBytes])
  have h16 := Bytes.drop_of_drop (start + 16) h12 (by rw [Bytes.length_leBytes])
  have h20 := Bytes.drop_of_drop (start + 20) h16 (by rw [Bytes.length_leBytes])
  have h24 := Bytes.drop_of_drop (start + 24) h20 (by rw [Bytes.length_leBytes])
  have h36 := Bytes.drop_of_drop (start + 36) h24 (by rw [Bytes.length_zeros])
  rw [Image.storedSection_eq, h, List.take_left' hlength, hname, Bytes.field_of_drop h8 hsize,
    Bytes.field_of_drop h12 haddress, Bytes.field_of_drop h16 hraw,
    Bytes.field_of_drop h20 hpointer, Bytes.field_of_drop h36 (by decide)]
  rfl

namespace Assembly.Filled

variable {assembly : Assembly} {plan : WritePlan} {found : Found} {content : Bytes}
  {start stop : Nat}

/-- In front of the section table only some fields change. -/
theorem sameOn_front (h : Filled assembly plan found content)
    (hstop : stop ≤ assembly.image.sectionTableOffset)
    (hapart : PatchesApart (fieldUpdates assembly.image plan.placement found) start stop) :
    SameOn assembly.image.data content start stop := by
  refine h.sameOn_header (Nat.le_add_right_of_le hstop) fun update hupdate => ?_
  rcases mem_headerUpdates.mp hupdate with hfield | rfl | ⟨n, s, -, -, -, rfl⟩
  · exact hapart update hfield
  · exact .inl (Nat.le_add_right_of_le hstop)
  · exact .inl (Nat.le_add_right_of_le (Nat.le_add_right_of_le hstop))

/-- The parts of the headers between the fields that change. -/
theorem sameOn_gaps (h : Filled assembly plan found content) :
    let image := assembly.image
    let header := image.optionalHeaderOffset
    SameOn image.data content 0 (image.peOffset + 6) ∧
      SameOn image.data content (image.peOffset + 8) (header + 8) ∧
      SameOn image.data content (header + 12) (header + 56) ∧
      SameOn image.data content (header + 68) (image.directoryOffset 4) ∧
      SameOn image.data content (image.directoryOffset 5) image.sectionTableOffset := by
  have hdirectories := h.fits.order.directories
  have hbase := Image.optionalHeaderBase_cases assembly.image.is64
  unfold Image.directoryOffset Image.cliDirectory at hdirectories
  refine ⟨?_, ?_, ?_, ?_, ?_⟩
  all_goals
    apply h.sameOn_front
    · simp only [Image.directoryOffset, Image.optionalHeaderOffset] at hdirectories ⊢
      omega
    · simp only [PatchesApart, fieldUpdates, List.forall_mem_cons, List.not_mem_nil,
        Bytes.length_leBytes, Bytes.length_zeros, Image.directoryOffset, Image.optionalHeaderOffset,
        sectionCountOffset, initializedSizeOffset, imageSizeOffset, headersSizeOffset,
        checksumOffset, Image.certificateDirectory, false_implies, implies_true, and_true]
      omega

/-! ## The section table -/

/-- In an entry of the section table only the position of the content changes. -/
theorem sameOn_entry (h : Filled assembly plan found content) {n : Nat} {s : ImageSection}
    (hn : assembly.image.sections[n]? = some s)
    (hstart : assembly.image.sectionTableOffset + n * ImageSection.headerSize ≤ start)
    (hstop : stop ≤ assembly.image.sectionTableOffset + (n + 1) * ImageSection.headerSize)
    (hpointer : plan.placement.rawShift ≠ 0 → ¬(s.rawSize = 0 ∨ s.rawPointer = 0) →
      let pointer :=
        assembly.image.sectionTableOffset + n * ImageSection.headerSize + rawPointerOffset
      stop ≤ pointer ∨ pointer + 4 ≤ start) :
    SameOn assembly.image.data content start stop := by
  have hlt := (List.getElem?_eq_some_iff.mp hn).1
  unfold ImageSection.headerSize at *
  refine h.sameOn_header (by unfold ImageSection.headerSize; omega) fun update hupdate => ?_
  rcases mem_headerUpdates.mp hupdate with hfield | rfl | ⟨n', s', hn', hshift, hmoves, rfl⟩
  · have hend := fieldUpdates_within h.fits.order hfield
    omega
  · unfold ImageSection.headerSize
    dsimp only
    omega
  · rw [Bytes.length_leBytes]
    unfold ImageSection.headerSize
    by_cases hsame : n' = n
    · obtain rfl := hsame
      obtain rfl := Option.some.inj (hn.symm.trans hn')
      exact hpointer hshift hmoves
    · unfold rawPointerOffset
      dsimp only
      omega

theorem storedSection_old (h : Filled assembly plan found content) {n : Nat} {s : ImageSection}
    (hn : assembly.image.sections[n]? = some s)
    (hs : Image.storedSection assembly.image.data
      (assembly.image.sectionTableOffset + n * ImageSection.headerSize) = s) :
    Image.storedSection content (assembly.image.sectionTableOffset + n * ImageSection.headerSize) =
      plan.placement.moved s := by
  have hmem := List.mem_of_getElem? hn
  generalize hheader : assembly.image.sectionTableOffset + n * ImageSection.headerSize = header at *
  have hfront : SameOn assembly.image.data content header (header + 20) := by
    refine h.sameOn_entry hn (Nat.le_of_eq hheader) ?_ fun _ _ => ?_
    · unfold ImageSection.headerSize at *
      omega
    · exact .inl (by rw [hheader]; exact Nat.le_refl _)
  have hback : SameOn assembly.image.data content (header + 24) (header + 40) := by
    refine h.sameOn_entry hn (by omega) ?_ fun _ _ => ?_
    · unfold ImageSection.headerSize at *
      omega
    · exact .inr (by rw [hheader]; exact Nat.le_refl _)
  have hold : field assembly.image.data (header + 20) 4 = s.rawPointer := by
    rw [← hs, Image.storedSection_eq]
  have hpointer : field content (header + 20) 4 = (plan.placement.moved s).rawPointer := by
    by_cases hmoves : plan.placement.rawShift ≠ 0 ∧ ¬(s.rawSize = 0 ∨ s.rawPointer = 0)
    · obtain ⟨hshift, hmoves⟩ := hmoves
      obtain ⟨hraw, hne⟩ := not_or.mp hmoves
      rw [Placement.moved, if_neg hmoves]
      exact h.field_header (mem_headerUpdates.mpr (.inr (.inr ⟨n, s, hn, hshift, hmoves, by
        rw [hheader]; rfl⟩))) ((h.moves hshift).sections s hmem hraw hne)
    · have hsame : SameOn assembly.image.data content (header + 20) (header + 20 + 4) := by
        refine h.sameOn_entry hn (by omega) ?_ fun hshift hnot => absurd ⟨hshift, hnot⟩ hmoves
        unfold ImageSection.headerSize at *
        omega
      rw [Bytes.field_eq_of_sameOn hsame, hold, Placement.moved_eq hmoves]
  obtain ⟨haddress, hsize, hraw⟩ := Placement.moved_fields plan.placement s
  rw [Image.storedSection_eq] at hs ⊢
  subst hs
  rw [Bytes.take_drop_eq_of_sameOn (hfront.mono (Nat.le_refl _) (by omega)),
    Bytes.field_eq_of_sameOn (hfront.mono (by omega) (by omega)),
    Bytes.field_eq_of_sameOn (hfront.mono (by omega) (by omega)),
    Bytes.field_eq_of_sameOn (hfront.mono (by omega) (by omega)), hpointer,
    Bytes.field_eq_of_sameOn (hback.mono (by omega) (by omega))]
  unfold Placement.moved
  split <;> rfl

theorem storedSection_new (h : Filled assembly plan found content) :
    Image.storedSection content (assembly.image.sectionTableOffset +
        assembly.image.sections.length * ImageSection.headerSize) =
      plan.placement.newSection newSectionName := by
  have hentry := h.take_drop_header (mem_headerUpdates.mpr (.inr (.inl rfl)))
  obtain ⟨haddress, hsize, hpointer, hraw, -⟩ := h.fits.placement.small
  refine Placement.storedSection_header (hentry ▸ (List.take_append_drop _ _).symm) ?_
    haddress hsize hpointer hraw
  decide +kernel

/-- The number of sections takes two bytes, so it can be one too many. -/
theorem stored_count (h : Filled assembly plan found content) (hstored : assembly.image.AsStored) :
    field content (assembly.image.peOffset + 6) 2 =
      (assembly.image.sections.length + 1) % 256 ^ 2 := by
  rw [hstored.length_sections]
  exact h.field_header_mod (mem_headerUpdates.mpr (.inl (.head _)))

/-- The section table of the new file. -/
theorem stored_sections (h : Filled assembly plan found content) (hstored : assembly.image.AsStored)
    (hroom : assembly.image.sections.length + 1 < 256 ^ 2) :
    (List.range (field content (assembly.image.peOffset + 6) 2)).map (fun n =>
        Image.storedSection content
          (assembly.image.sectionTableOffset + n * ImageSection.headerSize)) =
      assembly.image.sections.map plan.placement.moved ++
        [plan.placement.newSection newSectionName] := by
  rw [h.stored_count hstored, Nat.mod_eq_of_lt hroom, List.range_succ, List.map_append,
    List.map_singleton, h.storedSection_new]
  congr 1
  refine List.ext_getElem? fun n => ?_
  rw [List.getElem?_map, List.getElem?_map]
  by_cases hn : n < assembly.image.sections.length
  · have hs := List.getElem?_eq_getElem hn
    rw [List.getElem?_range hn, hs]
    exact congrArg some (h.storedSection_old hs (hstored.storedSection_eq hs))
  · rw [List.getElem?_eq_none (by rw [List.length_range]; omega), List.getElem?_eq_none (by omega)]
    rfl

/-! ## The whole image -/

/-- The new file stores the old image, with the sections that are listed now. -/
theorem stored_eq (h : Filled assembly plan found content) (hstored : assembly.image.AsStored) :
    Image.stored content = { assembly.image with
      data := content
      headersSize := plan.placement.headersSize
      sections := (List.range (field content (assembly.image.peOffset + 6) 2)).map fun n =>
        Image.storedSection content
          (assembly.image.sectionTableOffset + n * ImageSection.headerSize) } := by
  obtain ⟨hfront, hfile, hunits, hcount, hdirectories⟩ := h.sameOn_gaps
  have hsize : field content (assembly.image.optionalHeaderOffset +
      Image.OptionalHeader.headersSizeOffset) 4 = plan.placement.headersSize :=
    h.field_header (mem_headerUpdates.mpr (.inl (.tail _ (.tail _ (.tail _ (.head _))))))
      h.fits.placement.small.2.2.2.2
  have htable := h.fits.order.directories
  have hbase := Image.optionalHeaderBase_cases assembly.image.is64
  unfold Image.directoryOffset Image.cliDirectory at htable
  unfold Image.directoryOffset at hcount hdirectories
  rw [Image.stored_eq_of_sameOn hstored hfront (hfile.mono (Nat.le_refl _) (by omega))
    (hunits.mono (by omega) (by omega)), hsize]
  · unfold Image.directoryOffset
    exact hcount.mono (by omega) (by omega)
  · unfold Image.directoryOffset Image.debugDirectory Image.cliDirectory
    exact hdirectories.mono (by omega) (by omega)

/-- The new file stores the old image with the new section. -/
theorem stored_eq_extend (h : Filled assembly plan found content)
    (hstored : assembly.image.AsStored) (hroom : assembly.image.sections.length + 1 < 256 ^ 2) :
    Image.stored content = plan.placement.extend assembly.image newSectionName content := by
  rw [h.stored_eq hstored, h.stored_sections hstored hroom]
  rfl

/-- If the number of sections is one too many, then the new file seems to have none, and its CLI
header cannot be found. -/
theorem room_of_offsetOf (h : Filled assembly plan found content)
    (hstored : assembly.image.AsStored) {start : Nat}
    (hfound : (Image.stored content).offsetOf (Image.stored content).cli.1 = .ok start) :
    assembly.image.sections.length + 1 < 256 ^ 2 := by
  have hlt : assembly.image.sections.length < 256 ^ 2 := by
    rw [hstored.length_sections]
    exact Bytes.field_lt _ _ _
  refine Nat.lt_of_le_of_ne hlt fun hfull => ?_
  rw [h.stored_eq hstored, h.stored_count hstored, hfull, Nat.mod_self, List.range_zero,
    List.map_nil] at hfound
  obtain ⟨s, hmem, haddress, -⟩ := h.fits.parts.held _ (.head _)
  have hheaders := h.fits.placement.addresses h.fits.regular.addresses s hmem
  unfold Image.offsetOf at hfound
  rw [if_neg (Nat.not_lt.mpr (Nat.le_trans hheaders haddress))] at hfound
  cases hfound

end Assembly.Filled

end NativeExports
