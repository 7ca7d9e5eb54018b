import Mathlib.Order.Monotone.Basic
import NativeExports.Proofs.Image.Placement

/-!
# Room for another section

The main statement, `clear_of_behind`, says that a section placed behind the others collides with
nothing: its entry ends inside the headers, the headers end in front of what the old sections hold,
that ends in front of the new content, and all addresses of the new section are behind the old ones.
Only the sections that hold something in the file take part in the positions of the file.
-/

namespace NativeExports

/-- Units are powers of two.  The sections stand behind the headers, in the loaded image as well as
in the file if they hold anything there. -/
structure Image.BehindHeaders (image : Image) : Prop where
  fileUnit : isPowerOfTwo image.fileAlignment = true
  addressUnit : isPowerOfTwo image.sectionAlignment = true
  sections : image.sections ≠ []
  addresses : ∀ s ∈ image.sections, image.headersSize ≤ s.virtualAddress
  content : ∀ s ∈ image.sections, s.rawSize ≠ 0 → image.headersSize ≤ s.rawPointer

namespace Placement

variable {image : Image} {size : Nat} {placement : Placement}

/-- A section of `size` bytes has a place of its own, and so has its entry in the section table. -/
structure Clear (image : Image) (size : Nat) (placement : Placement) : Prop where
  /-- The entry of the new section ends inside the headers. -/
  entry : tableEnd image ≤ placement.headersSize
  /-- The headers end in front of what the old sections hold, once that has moved. -/
  gap : placement.headersSize ≤ placement.rawStart + placement.rawShift
  /-- The headers end in front of every old section in the loaded image, whether they grew or
  not. -/
  addresses : ∀ s ∈ image.sections, placement.headersSize ≤ s.virtualAddress
  shiftUnit : image.fileAlignment ∣ placement.rawShift
  pointerUnit : image.fileAlignment ∣ placement.rawPointer
  /-- No two positions of the old file are moved to the same one, and their order is kept. -/
  increasing : StrictMono placement.move
  /-- What an old section holds moves in one piece, to between the headers and the new section. -/
  content : ∀ s ∈ image.sections, s.rawSize ≠ 0 →
    (∀ i, placement.move (s.rawPointer + i) = placement.move s.rawPointer + i) ∧
      placement.headersSize ≤ placement.move s.rawPointer ∧
        placement.move s.rawPointer + s.rawSize ≤ placement.rawPointer
  addressUnit : image.sectionAlignment ∣ placement.virtualAddress
  behindSections : ∀ s ∈ image.sections, s.memoryEnd ≤ placement.virtualAddress
  behindHeaders : image.headersSize ≤ placement.virtualAddress ∧
    placement.headersSize ≤ placement.virtualAddress
  size : size ≤ placement.rawSize
  /-- Every number fits into its field of the headers. -/
  words : ∀ n ∈ [placement.virtualAddress, placement.virtualSize, placement.rawPointer,
    placement.rawSize, placement.headersSize, placement.rawStart, placement.rawShift], n < 2 ^ 32

/-! ## Positions in the file -/

theorem move_strictMono (placement : Placement) : StrictMono placement.move := by
  intro offset other hlt
  unfold move
  split <;> split <;> omega

/-- What does not begin in front of the content moves in one piece. -/
theorem move_add {offset : Nat} (h : placement.rawStart ≤ offset) (i : Nat) :
    placement.move (offset + i) = placement.move offset + i := by
  have hbehind : placement.rawStart ≤ offset + i := Nat.le_add_right_of_le h
  simp only [move, h, hbehind, if_true]
  omega

theorem move_of_content {offset : Nat} (h : placement.rawStart ≤ offset) :
    placement.move offset = offset + placement.rawShift := by
  simp only [move, h, if_true]

/-- Without any content the headers end where the new content may begin. -/
theorem headersSize_le_contentStart (h : image.BehindHeaders) :
    image.headersSize ≤ contentStart image := by
  by_cases hsome : ∃ s ∈ image.sections, s.rawSize ≠ 0
  · obtain ⟨s, hmem, hraw⟩ := hsome
    obtain ⟨-, first, hfirst, hcontent, hstart⟩ := rawStart_le_of_content hmem hraw
    rw [hstart]
    exact h.content first hfirst hcontent
  · have hnone : image.sections.filter (fun s => s.rawSize != 0) = [] := by
      simpa using hsome
    simp [contentStart, hnone, least?]

/-- The headers end in front of the content, and the content moves by whole units of the file. -/
theorem growth_gap (h : image.BehindHeaders) {headers shift : Nat}
    (hgrowth : growth image = .ok (headers, shift)) :
    headers ≤ contentStart image + shift ∧ image.fileAlignment ∣ shift := by
  obtain ⟨-, rfl, rfl⟩ | ⟨-, -, hshift⟩ := growth_cases h.fileUnit hgrowth
  · exact ⟨headersSize_le_contentStart h, Nat.dvd_zero _⟩
  · have hmoved : headers - contentStart image ≤ shift := hshift ▸ le_roundUp h.fileUnit
    exact ⟨by omega, hshift ▸ dvd_roundUp h.fileUnit _⟩

/-! ## The new section -/

/-- A section placed behind the others collides with nothing, and where it goes in the loaded image
does not depend on its size. -/
theorem clear_of_behind (himage : image.BehindHeaders) (h : behind image size = .ok placement) :
    placement.Clear image size ∧ ∀ other placement', behind image other = .ok placement' →
      placement'.virtualAddress = placement.virtualAddress := by
  have hfits : placement.Fits image size := fits_of_behind himage.fileUnit himage.addressUnit h
  obtain ⟨hgrowth, hvirtual, -, hpointer, -, hstart, hstartWord, hshiftWord, -⟩ := behind_eq_ok h
  rw [max_one_of_isPowerOfTwo himage.addressUnit] at hvirtual
  rw [max_one_of_isPowerOfTwo himage.fileUnit] at hpointer
  obtain ⟨hgap, hunit⟩ := growth_gap himage hgrowth
  rw [← hstart] at hgap
  have haddresses : ∀ s ∈ image.sections, placement.headersSize ≤ s.virtualAddress :=
    hfits.addresses himage.addresses
  have hbehind : ∀ s ∈ image.sections, s.virtualAddress ≤ placement.virtualAddress := by
    intro s hmem
    exact Nat.le_trans (Nat.le_add_right _ _) (hfits.behindSections s hmem)
  obtain ⟨first, hfirst⟩ := List.exists_mem_of_ne_nil _ himage.sections
  refine ⟨?_, fun other placement' h' => virtualAddress_eq h' h⟩
  exact {
    entry := hfits.table
    gap := hgap
    addresses := haddresses
    shiftUnit := hunit
    pointerUnit := hpointer ▸ dvd_roundUp himage.fileUnit _
    increasing := move_strictMono placement
    content := by
      intro s hmem hraw
      have hcontent : placement.rawStart ≤ s.rawPointer := hfits.rawStart s hmem hraw
      have hend : s.rawPointer + s.rawSize + placement.rawShift ≤ placement.rawPointer :=
        hfits.behindContent s hmem
      refine ⟨move_add hcontent, ?_, ?_⟩
      · rw [move_of_content hcontent]
        omega
      · rw [move_of_content hcontent]
        omega
    addressUnit := hvirtual ▸ dvd_roundUp himage.addressUnit _
    behindSections := hfits.behindSections
    behindHeaders := ⟨Nat.le_trans (himage.addresses first hfirst) (hbehind first hfirst),
      Nat.le_trans (haddresses first hfirst) (hbehind first hfirst)⟩
    size := hfits.rawSize
    words := by
      obtain ⟨haddress, hsize, hraw, hrawSize, hheaders⟩ := hfits.small
      simp [haddress, hsize, hraw, hrawSize, hheaders, hstartWord, hshiftWord] }

/-- An image whose headers are full.  The last section holds nothing in the file. -/
def fullHeaders : Image :=
  { data := [], machine := 0x14C, characteristics := 0x2102, is64 := false, peOffset := 0x80
    sectionTableOffset := 0x178, fileAlignment := 0x200, sectionAlignment := 0x2000
    headersSize := 0x200
    sections := [⟨".text", 0x25C, 0x2000, 0x400, 0x200, 0x60000020⟩,
      ⟨".rsrc", 0x80, 0x4000, 0x200, 0x600, 0x40000040⟩, ⟨".bss", 0x3000, 0x6000, 0, 0, 0xC0000080⟩]
    cli := (0x2008, 0x48), debug := none }

/-- The headers grow by a unit of the file, so everything behind them moves by one. -/
theorem clear_fullHeaders :
    behind fullHeaders 0x321 = .ok ⟨0xA000, 0x321, 0xA00, 0x400, 0x400, 0x200, 0x200⟩ ∧
      Clear fullHeaders 0x321 ⟨0xA000, 0x321, 0xA00, 0x400, 0x400, 0x200, 0x200⟩ := by
  have hbehind : behind fullHeaders 0x321 =
      .ok ⟨0xA000, 0x321, 0xA00, 0x400, 0x400, 0x200, 0x200⟩ := by decide +kernel
  have himage : fullHeaders.BehindHeaders := by
    constructor <;> decide
  exact ⟨hbehind, (clear_of_behind himage hbehind).1⟩

end Placement

end NativeExports
