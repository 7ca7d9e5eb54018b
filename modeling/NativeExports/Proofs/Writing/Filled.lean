import NativeExports.Proofs.Writing.Updates

/-!
# What a file holds that was written

Because the updates do not overlap, each of them is what its part of the file holds in the end, and
all other bytes of the old sections are there unchanged, where they moved.
-/

namespace NativeExports.Assembly

open Bytes (SameOn PatchesApart PatchesFit)

/-- A file that was filled as planned. -/
structure Filled (assembly : Assembly) (plan : WritePlan) (found : Found)
    (content : Bytes) : Prop where
  fits : found.Fits assembly plan
  moves : plan.placement.rawShift ≠ 0 → MovesFit assembly.image plan.placement
  /-- The whole image can be addressed. -/
  addresses : plan.placement.virtualAddress + plan.content.length < 2 ^ 32
  content : content = (Bytes.zeros plan.placement.newSize).patched
    (copyPatches assembly.image plan.placement ++ updates assembly plan found)
  inside : PatchesFit (copyPatches assembly.image plan.placement ++ updates assembly plan found)
    plan.placement.newSize

/-- The part of a new file that was copied from the old one, with zeros elsewhere. -/
def copied (image : Image) (placement : Placement) : Bytes :=
  (Bytes.zeros placement.newSize).patched (copyPatches image placement)

variable {assembly : Assembly} {image : Image} {placement : Placement} {plan : WritePlan}
  {found : Found} {content : Bytes} {start stop : Nat}

/-- What is copied is at its new position. -/
theorem getElem?_copied (hinside : PatchesFit (copyPatches image placement) placement.newSize)
    {position : Nat} (hposition : position < copiedSize image) :
    (copied image placement)[placement.move position]? = image.data[position]? := by
  have hsize : copiedSize image ≤ image.data.length := Nat.min_le_right _ _
  generalize hheaders : min placement.rawStart (copiedSize image) = headers at *
  have hfront : (image.data.take headers).length = headers := List.length_take_of_le (by omega)
  have hrest : ((image.data.take (copiedSize image)).drop headers).length =
      copiedSize image - headers := by
    rw [List.length_drop, List.length_take_of_le hsize]
  have hpatches : copyPatches image placement = [(0, image.data.take headers),
      (placement.move headers, (image.data.take (copiedSize image)).drop headers)] := by
    rw [← hheaders, copyPatches]
  rw [hpatches] at hinside
  have hfirst := hinside _ (.head _)
  have hsecond := hinside _ (.tail _ (.head _))
  have hmove : placement.move headers ≥ headers := by
    unfold Placement.move
    split <;> omega
  unfold copied Bytes.patched
  rw [hpatches]
  dsimp only [List.foldl_cons, List.foldl_nil] at hfirst hsecond ⊢
  rw [Bytes.getElem?_overwrite (by rwa [Bytes.length_overwrite (by rwa [Bytes.length_zeros]),
      Bytes.length_zeros]), Bytes.getElem?_overwrite (by rwa [Bytes.length_zeros]), hfront, hrest]
  by_cases hlow : position < placement.rawStart
  · have hstays : placement.move position = position := if_neg (Nat.not_le.mpr hlow)
    rw [hstays, if_neg (by omega), if_pos (by omega), Nat.sub_zero,
      List.getElem?_take_of_lt (by omega)]
  · have hhigh := Nat.le_of_not_lt hlow
    obtain rfl : placement.rawStart = headers := by omega
    rw [Placement.move_of_le hhigh, Placement.move_of_le (Nat.le_refl _), if_pos (by omega),
      List.getElem?_drop, List.getElem?_take_of_lt (by omega)]
    congr 1
    omega

namespace Filled

theorem eq_patched (h : Filled assembly plan found content) :
    content = (copied assembly.image plan.placement).patched (updates assembly plan found) := by
  rw [h.content, copied, Bytes.patched, Bytes.patched, Bytes.patched, List.foldl_append]

theorem copyPatches_inside (h : Filled assembly plan found content) :
    PatchesFit (copyPatches assembly.image plan.placement) plan.placement.newSize :=
  fun patch hmem => h.inside patch (List.mem_append_left _ hmem)

theorem length_copied (h : Filled assembly plan found content) :
    (copied assembly.image plan.placement).length = plan.placement.newSize :=
  (Bytes.length_patched (by rw [Bytes.length_zeros]; exact h.copyPatches_inside)).trans
    (Bytes.length_zeros _)

theorem updates_inside (h : Filled assembly plan found content) :
    PatchesFit (updates assembly plan found) (copied assembly.image plan.placement).length := by
  rw [h.length_copied]
  exact fun patch hmem => h.inside patch (List.mem_append_right _ hmem)

theorem length_eq (h : Filled assembly plan found content) :
    content.length = plan.placement.newSize := by
  rw [h.eq_patched, Bytes.length_patched h.updates_inside, h.length_copied]

theorem mem_updates (h : Filled assembly plan found content) {update : Nat × Bytes} :
    update ∈ updates assembly plan found ↔
      update ∈ headerUpdates assembly.image plan.placement found ∨
      update = (plan.placement.rawPointer, plan.content) ∨
      ∃ part ∈ partUpdates assembly plan found,
        update = (part.1 + plan.placement.rawShift, part.2) := by
  rw [Assembly.mem_updates (h.fits.placement.of_inSection h.fits.cliHeader_inSection).2.1]
  refine or_congr_right (or_congr_right (exists_congr fun part => and_congr_right fun hpart => ?_))
  rw [moveUpdate, (h.fits.placement.of_inSection (h.fits.changes hpart).1).1]

/-- The headers end in front of everything else. -/
theorem header_end (h : Filled assembly plan found content) {update : Nat × Bytes}
    (hupdate : update ∈ headerUpdates assembly.image plan.placement found) :
    update.1 + update.2.length ≤ plan.placement.rawStart + plan.placement.rawShift ∧
      update.1 + update.2.length ≤ plan.placement.rawPointer := by
  have hend := headerUpdates_within h.fits.order hupdate
  exact ⟨Nat.le_trans hend h.fits.placement.headers,
    Nat.le_trans hend (Nat.le_trans h.fits.placement.table h.fits.placement.behindHeaders)⟩

/-! ## What is kept -/

theorem lt_copiedSize (hregular : image.Regular) {position : Nat}
    (hin : image.InSection position (position + 1)) : position < copiedSize image := by
  obtain ⟨s, hmem, hraw, -, hend⟩ := hin
  have hlargest : s.fileEnd ≤ Placement.largest (image.sections.map (·.fileEnd)) :=
    Placement.le_largest (List.mem_map_of_mem hmem)
  have hdata := (hregular.content s hmem hraw).2
  unfold copiedSize
  omega

/-- The bytes of the old sections move, and those that no update covers are kept. -/
theorem getElem?_moved (h : Filled assembly plan found content) {position : Nat}
    (hin : assembly.image.InSection position (position + 1))
    (houtside : ∀ part ∈ partUpdates assembly plan found,
      position < part.1 ∨ part.1 + part.2.length ≤ position) :
    content[position + plan.placement.rawShift]? = assembly.image.data[position]? := by
  obtain ⟨hmove, hstart, hend⟩ := h.fits.placement.of_inSection hin
  have hapart : PatchesApart (updates assembly plan found) (position + plan.placement.rawShift)
      (position + plan.placement.rawShift + 1) := by
    intro update hmem
    rcases h.mem_updates.mp hmem with hheader | rfl | ⟨part, hpart, rfl⟩
    · exact .inr (Nat.le_trans (h.header_end hheader).1 (Nat.add_le_add_right hstart _))
    · exact .inl (by dsimp only; omega)
    · have hpart := houtside part hpart
      dsimp only
      omega
  rw [h.eq_patched,
    Bytes.sameOn_patched h.updates_inside hapart _ (Nat.le_refl _) (Nat.lt_succ_self _), ← hmove]
  exact getElem?_copied h.copyPatches_inside (lt_copiedSize h.fits.regular hin)

/-- What the assembly does not change is kept. -/
theorem kept (h : Filled assembly plan found content) {position : Nat}
    (hin : assembly.image.InSection position (position + 1)) (hkept : ¬assembly.Changes position) :
    content[position + plan.placement.rawShift]? = assembly.image.data[position]? := by
  refine h.getElem?_moved hin fun part hpart => ?_
  rcases Nat.lt_or_ge position part.1 with hlow | hlo
  · exact .inl hlow
  · refine .inr (Nat.le_of_not_lt fun hhi => hkept ?_)
    exact (h.fits.changes hpart).2 position hlo hhi

/-- The old section table ends in front of what the sections hold. -/
theorem table_end (h : Filled assembly plan found content) :
    assembly.image.sectionTableOffset +
        assembly.image.sections.length * ImageSection.headerSize ≤ plan.placement.rawStart ∧
      plan.placement.rawStart ≤ copiedSize assembly.image := by
  obtain ⟨s, hmem, hraw, -, -⟩ := h.fits.cliHeader_inSection
  obtain ⟨s, hmem, hraw, hstart⟩ := h.fits.placement.first ⟨s, hmem, hraw⟩
  refine ⟨hstart ▸ h.fits.order.table s hmem hraw, ?_⟩
  have hin : assembly.image.InSection s.rawPointer (s.rawPointer + 1) :=
    ⟨s, hmem, hraw, Nat.le_refl _, Nat.add_le_add_left (Nat.pos_of_ne_zero hraw) _⟩
  exact hstart ▸ Nat.le_of_lt (lt_copiedSize h.fits.regular hin)

/-- The headers stay, except for what is updated in them. -/
theorem sameOn_header (h : Filled assembly plan found content)
    (hstop : stop ≤ assembly.image.sectionTableOffset +
      assembly.image.sections.length * ImageSection.headerSize)
    (hapart : PatchesApart (headerUpdates assembly.image plan.placement found) start stop) :
    SameOn assembly.image.data content start stop := by
  obtain ⟨htable, hcopied⟩ := h.table_end
  intro position hlo hhi
  have hstays : plan.placement.move position = position := if_neg (by omega)
  have hcopy := getElem?_copied h.copyPatches_inside
    (show position < copiedSize assembly.image by omega)
  rw [hstays] at hcopy
  rw [h.eq_patched, ← hcopy]
  refine Bytes.sameOn_patched h.updates_inside (fun update hmem => ?_) position hlo hhi
  rcases h.mem_updates.mp hmem with hheader | rfl | ⟨part, hpart, rfl⟩
  · exact hapart update hheader
  · obtain ⟨-, hstart, hend⟩ := h.fits.placement.of_inSection h.fits.cliHeader_inSection
    exact .inl (by dsimp only; omega)
  · obtain ⟨-, hstart, -⟩ := h.fits.placement.of_inSection (h.fits.changes hpart).1
    exact .inl (by dsimp only; omega)

/-! ## What is updated -/

theorem take_drop_of_mem (h : Filled assembly plan found content) {update : Nat × Bytes}
    (hmem : update ∈ updates assembly plan found)
    (hothers : ∀ other ∈ updates assembly plan found, other = update ∨
      update.1 + update.2.length ≤ other.1 ∨ other.1 + other.2.length ≤ update.1) :
    (content.drop update.1).take update.2.length = update.2 := by
  rw [h.eq_patched]
  exact Bytes.take_drop_patched h.updates_inside hmem hothers

/-- A part holds its update, where it moved. -/
theorem take_drop_part (h : Filled assembly plan found content) {part : Nat × Bytes}
    (hpart : part ∈ partUpdates assembly plan found) :
    (content.drop (part.1 + plan.placement.rawShift)).take part.2.length = part.2 := by
  obtain ⟨-, hstart, hend⟩ := h.fits.placement.of_inSection (h.fits.changes hpart).1
  have hmem : (part.1 + plan.placement.rawShift, part.2) ∈ updates assembly plan found :=
    h.mem_updates.mpr (.inr (.inr ⟨part, hpart, rfl⟩))
  refine h.take_drop_of_mem hmem fun other hother => ?_
  rcases h.mem_updates.mp hother with hheader | rfl | ⟨next, hnext, rfl⟩
  · exact .inr (.inr (Nat.le_trans (h.header_end hheader).1 (Nat.add_le_add_right hstart _)))
  · exact .inr (.inl (by dsimp only; omega))
  · rcases h.fits.updates_apart hpart hnext with rfl | hapart
    · exact .inl rfl
    · exact .inr (by dsimp only; omega)

/-- A number in a part is the one that was stored there. -/
theorem field_part (h : Filled assembly plan found content) {offset value : Nat}
    (hpart : (offset, Bytes.leBytes 4 value) ∈ partUpdates assembly plan found)
    (hvalue : value < 2 ^ 32) :
    Bytes.field content (offset + plan.placement.rawShift) 4 = value := by
  have hread := h.take_drop_part hpart
  rw [Bytes.length_leBytes] at hread
  rw [Bytes.field, hread, Bytes.leValue_leBytes, Nat.mod_eq_of_lt hvalue]

/-- The new section holds the new content. -/
theorem take_drop_content (h : Filled assembly plan found content) {offset count : Nat}
    (hcount : offset + count ≤ plan.content.length) :
    (content.drop (plan.placement.rawPointer + offset)).take count =
      (plan.content.drop offset).take count := by
  have hwhole : (content.drop plan.placement.rawPointer).take plan.content.length =
      plan.content := by
    have hmem : (plan.placement.rawPointer, plan.content) ∈ updates assembly plan found :=
      h.mem_updates.mpr (.inr (.inl rfl))
    refine h.take_drop_of_mem hmem fun other hother => ?_
    rcases h.mem_updates.mp hother with hheader | rfl | ⟨part, hpart, rfl⟩
    · exact .inr (.inr (h.header_end hheader).2)
    · exact .inl rfl
    · obtain ⟨-, -, hend⟩ := h.fits.placement.of_inSection (h.fits.changes hpart).1
      exact .inr (.inr (by dsimp only; omega))
  rw [← List.drop_drop]
  conv_rhs => rw [← hwhole, List.drop_take, List.take_take, Nat.min_eq_left (by omega)]

/-- The headers hold their updates. -/
theorem take_drop_header (h : Filled assembly plan found content) {update : Nat × Bytes}
    (hupdate : update ∈ headerUpdates assembly.image plan.placement found) :
    (content.drop update.1).take update.2.length = update.2 := by
  obtain ⟨hfront, hbehind⟩ := h.header_end hupdate
  refine h.take_drop_of_mem (h.mem_updates.mpr (.inl hupdate)) fun other hother => ?_
  rcases h.mem_updates.mp hother with hheader | rfl | ⟨part, hpart, rfl⟩
  · exact headerUpdates_apart h.fits.order hupdate hheader
  · exact .inr (.inl hbehind)
  · obtain ⟨-, hstart, -⟩ := h.fits.placement.of_inSection (h.fits.changes hpart).1
    exact .inr (.inl (by dsimp only; omega))

/-- A number in the headers is the one that was stored there, as far as it fits. -/
theorem field_header_mod (h : Filled assembly plan found content) {offset width value : Nat}
    (hupdate :
      (offset, Bytes.leBytes width value) ∈ headerUpdates assembly.image plan.placement found) :
    Bytes.field content offset width = value % 256 ^ width := by
  have hread := h.take_drop_header hupdate
  rw [Bytes.length_leBytes] at hread
  rw [Bytes.field, hread, Bytes.leValue_leBytes]

theorem field_header (h : Filled assembly plan found content) {offset width value : Nat}
    (hupdate : (offset, Bytes.leBytes width value) ∈
      headerUpdates assembly.image plan.placement found)
    (hvalue : value < 256 ^ width) : Bytes.field content offset width = value := by
  rw [h.field_header_mod hupdate, Nat.mod_eq_of_lt hvalue]

end Filled

end NativeExports.Assembly
