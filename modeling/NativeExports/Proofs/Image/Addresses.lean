import NativeExports.Proofs.Image.Headers
import NativeExports.Proofs.Image.Placement

/-!
# Addresses in regular images

In a regular image every address belongs to one section at most, so that what an address leads to
does not depend on the other sections.  With another section behind the old ones, addresses in the
old ones lead to the content that moved, and addresses in the new one to the new content.
-/

namespace NativeExports

/-- A range of addresses lies inside what the section holds in the file. -/
def ImageSection.Holds (s : ImageSection) (rva size : Nat) : Prop :=
  s.virtualAddress ≤ rva ∧ rva + size ≤ s.virtualAddress + s.rawSize

instance (s : ImageSection) (rva size : Nat) : Decidable (s.Holds rva size) :=
  inferInstanceAs (Decidable (_ ∧ _))

theorem ImageSection.contains_iff {s : ImageSection} {rva : Nat} :
    s.contains rva = true ↔ s.virtualAddress ≤ rva ∧ rva < s.memoryEnd := by
  unfold contains
  rw [Bool.and_eq_true, decide_eq_true_iff, decide_eq_true_iff]

/-- No address belongs to both of two sections. -/
theorem ImageSection.apart_iff (s s' : ImageSection) :
    (∀ rva, s.contains rva = true → s'.contains rva = false) ↔
      min s.memoryEnd s'.memoryEnd ≤ max s.virtualAddress s'.virtualAddress := by
  simp only [← Bool.not_eq_true, contains_iff]
  constructor
  · intro h
    have hlargest := h (max s.virtualAddress s'.virtualAddress)
    omega
  · intro h rva hin hin'
    omega

namespace Image

/-- Units are powers of two, sections are apart and behind the headers, and what they hold lies
inside the file. -/
structure Regular (image : Image) : Prop where
  fileUnit : isPowerOfTwo image.fileAlignment = true
  addressUnit : isPowerOfTwo image.sectionAlignment = true
  sections : image.sections ≠ []
  apart : image.sections.Pairwise fun s s' => ∀ rva, s.contains rva = true → s'.contains rva = false
  addresses : ∀ s ∈ image.sections, image.headersSize ≤ s.virtualAddress
  content : ∀ s ∈ image.sections, s.rawSize ≠ 0 →
    image.headersSize ≤ s.rawPointer ∧ s.fileEnd ≤ image.data.length

/-- The headers stand in their order, and in front of what the sections hold. -/
structure HeadersInOrder (image : Image) : Prop where
  directories : image.directoryOffset (cliDirectory + 1) ≤ image.sectionTableOffset
  table : ∀ s ∈ image.sections, s.rawSize ≠ 0 →
    image.sectionTableOffset + image.sections.length * ImageSection.headerSize ≤ s.rawPointer

instance (image : Image) : Decidable image.Regular :=
  decidable_of_iff (isPowerOfTwo image.fileAlignment = true ∧
      isPowerOfTwo image.sectionAlignment = true ∧ image.sections ≠ [] ∧
      image.sections.Pairwise (fun s s' =>
        min s.memoryEnd s'.memoryEnd ≤ max s.virtualAddress s'.virtualAddress) ∧
      (∀ s ∈ image.sections, image.headersSize ≤ s.virtualAddress) ∧
      ∀ s ∈ image.sections, s.rawSize ≠ 0 →
        image.headersSize ≤ s.rawPointer ∧ s.fileEnd ≤ image.data.length) <| by
    simp only [← ImageSection.apart_iff]
    exact ⟨fun ⟨h₁, h₂, h₃, h₄, h₅, h₆⟩ => ⟨h₁, h₂, h₃, h₄, h₅, h₆⟩,
      fun ⟨h₁, h₂, h₃, h₄, h₅, h₆⟩ => ⟨h₁, h₂, h₃, h₄, h₅, h₆⟩⟩

instance (image : Image) : Decidable image.HeadersInOrder :=
  decidable_of_iff (_ ∧ _) ⟨fun ⟨h, h'⟩ => ⟨h, h'⟩, fun ⟨h, h'⟩ => ⟨h, h'⟩⟩

variable {image : Image} {s : ImageSection} {rva size : Nat}

theorem contains_of_holds (h : s.Holds rva size) (hsize : 0 < size) :
    s.contains rva = true ∧ rva - s.virtualAddress < s.rawSize := by
  obtain ⟨hlo, hhi⟩ := h
  refine ⟨ImageSection.contains_iff.mpr ⟨hlo, ?_⟩, by omega⟩
  have hmax : s.rawSize ≤ max s.virtualSize s.rawSize := Nat.le_max_right _ _
  unfold ImageSection.memoryEnd
  omega

/-- The section that holds an address is the one that is found. -/
theorem find?_of_contains {sections : List ImageSection}
    (hapart : sections.Pairwise fun s s' => ∀ rva, s.contains rva = true → s'.contains rva = false)
    (hmem : s ∈ sections) (h : s.contains rva = true) :
    sections.find? (·.contains rva) = some s := by
  induction sections with
  | nil => cases hmem
  | cons first rest ih =>
      obtain ⟨hfirst, hrest⟩ := List.pairwise_cons.mp hapart
      rcases List.mem_cons.mp hmem with rfl | hmem
      · exact List.find?_cons_of_pos h
      · have hnot : ¬first.contains rva = true := fun hin => by
          rw [hfirst s hmem rva hin] at h
          cases h
        exact (List.find?_cons_of_neg (p := fun s : ImageSection => s.contains rva) hnot).trans
          (ih hrest hmem)

theorem Regular.offsetOf_of_holds (h : image.Regular) (hmem : s ∈ image.sections)
    (hholds : s.Holds rva size) (hsize : 0 < size) :
    image.offsetOf rva = .ok (s.rawPointer + (rva - s.virtualAddress)) := by
  obtain ⟨hcontains, hraw⟩ := contains_of_holds hholds hsize
  have hheaders := h.addresses s hmem
  have hlo := hholds.1
  unfold offsetOf
  rw [if_neg (by omega), find?_of_contains h.apart hmem hcontains]
  exact if_pos hraw

/-- What a section holds stands in the file. -/
theorem Regular.within (h : image.Regular) (hmem : s ∈ image.sections) (hholds : s.Holds rva size)
    (hsize : 0 < size) :
    s.rawPointer + (rva - s.virtualAddress) + size ≤ s.fileEnd ∧ s.fileEnd ≤ image.data.length := by
  obtain ⟨-, hraw⟩ := contains_of_holds hholds hsize
  obtain ⟨hlo, hhi⟩ := hholds
  have hcontent := h.content s hmem (by omega)
  unfold ImageSection.fileEnd at *
  omega

theorem HeadersInOrder.rawPointer_pos (h : image.HeadersInOrder) (hmem : s ∈ image.sections)
    (hraw : s.rawSize ≠ 0) : 0 < s.rawPointer := by
  have htable := h.table s hmem hraw
  have hdirectories := h.directories
  unfold directoryOffset optionalHeaderOffset at hdirectories
  omega

end Image

/-! ## With another section -/

namespace Placement

/-- A section of the old file, with its content where it went. -/
def moved (placement : Placement) (s : ImageSection) : ImageSection :=
  if s.rawSize = 0 ∨ s.rawPointer = 0 then s
  else { s with rawPointer := placement.move s.rawPointer }

/-- The new section. -/
def newSection (placement : Placement) (name : String) : ImageSection :=
  ⟨name, placement.virtualSize, placement.virtualAddress, placement.rawSize, placement.rawPointer,
    characteristics⟩

/-- The image with the new section. -/
def extend (placement : Placement) (image : Image) (name : String) (data : Bytes) : Image :=
  { image with
    data
    headersSize := placement.headersSize
    sections := image.sections.map placement.moved ++ [placement.newSection name] }

variable {placement : Placement} {image : Image} {s : ImageSection} {rva size : Nat}

theorem moved_fields (placement : Placement) (s : ImageSection) :
    (placement.moved s).virtualAddress = s.virtualAddress ∧
      (placement.moved s).virtualSize = s.virtualSize ∧
      (placement.moved s).rawSize = s.rawSize := by
  unfold moved
  split
  · exact ⟨rfl, rfl, rfl⟩
  · exact ⟨rfl, rfl, rfl⟩

theorem moved_eq (h : ¬(placement.rawShift ≠ 0 ∧ ¬(s.rawSize = 0 ∨ s.rawPointer = 0))) :
    placement.moved s = s := by
  unfold moved
  split
  · rfl
  · rename_i hmoves
    have hshift : placement.rawShift = 0 := not_not.mp fun hshift => h ⟨hshift, hmoves⟩
    have hstays : placement.move s.rawPointer = s.rawPointer := by
      unfold move
      rw [hshift, Nat.add_zero, ite_self]
    rw [hstays]

theorem contains_moved (placement : Placement) (s : ImageSection) (rva : Nat) :
    (placement.moved s).contains rva = s.contains rva := by
  obtain ⟨haddress, hsize, hraw⟩ := moved_fields placement s
  unfold ImageSection.contains ImageSection.memoryEnd
  rw [haddress, hsize, hraw]

theorem find?_moved (placement : Placement) (sections : List ImageSection) (rva : Nat) :
    (sections.map placement.moved).find? (·.contains rva) =
      (sections.find? (·.contains rva)).map placement.moved := by
  rw [List.find?_map]
  congr 2
  exact funext fun s => contains_moved placement s rva

theorem move_of_le {offset : Nat} (h : placement.rawStart ≤ offset) :
    placement.move offset = offset + placement.rawShift :=
  if_pos h

/-- An address in an old section leads to its content where that went. -/
theorem Fits.offsetOf_old (h : placement.Fits image size) (hregular : image.Regular)
    (horder : image.HeadersInOrder) (hmem : s ∈ image.sections) {count : Nat}
    (hholds : s.Holds rva count) (hcount : 0 < count) (name : String) (data : Bytes) :
    (placement.extend image name data).offsetOf rva =
      .ok (s.rawPointer + (rva - s.virtualAddress) + placement.rawShift) := by
  obtain ⟨hcontains, hraw⟩ := Image.contains_of_holds hholds hcount
  have hheaders := h.addresses hregular.addresses s hmem
  have hlo := hholds.1
  have hne : s.rawSize ≠ 0 := by omega
  have hpointer := horder.rawPointer_pos hmem hne
  have hfind : (image.sections.map placement.moved ++ [placement.newSection name]).find?
      (·.contains rva) = some (placement.moved s) := by
    rw [List.find?_append, find?_moved, Image.find?_of_contains hregular.apart hmem hcontains]
    rfl
  have hpointer' : (placement.moved s).rawPointer = s.rawPointer + placement.rawShift := by
    unfold moved
    rw [if_neg (by omega)]
    exact move_of_le (h.rawStart s hmem hne)
  obtain ⟨haddress, -, hsize⟩ := moved_fields placement s
  unfold Image.offsetOf extend
  dsimp only
  rw [if_neg (by omega), hfind]
  dsimp only
  rw [haddress, hsize, if_pos hraw, hpointer', Nat.add_right_comm]

/-- An address in the new section leads to the new content. -/
theorem Fits.offsetOf_new (h : placement.Fits image size) (hregular : image.Regular) {offset : Nat}
    (hoffset : offset < size) (name : String) (data : Bytes) :
    (placement.extend image name data).offsetOf (placement.virtualAddress + offset) =
      .ok (placement.rawPointer + offset) := by
  have hsize := h.rawSize
  obtain ⟨s, hmem⟩ := List.exists_mem_of_ne_nil _ hregular.sections
  have hheaders := h.addresses hregular.addresses s hmem
  have hbehind := h.behindSections s hmem
  have hnone : (image.sections.map placement.moved).find?
      (·.contains (placement.virtualAddress + offset)) = none := by
    rw [find?_moved, Option.map_eq_none_iff, List.find?_eq_none]
    intro other hother hcontains
    have hend := h.behindSections other hother
    have hlt := (ImageSection.contains_iff.mp hcontains).2
    omega
  have hcontains :
      (placement.newSection name).contains (placement.virtualAddress + offset) = true := by
    refine ImageSection.contains_iff.mpr ⟨Nat.le_add_right _ _, ?_⟩
    have hmax : placement.rawSize ≤ max placement.virtualSize placement.rawSize :=
      Nat.le_max_right _ _
    change placement.virtualAddress + offset <
      placement.virtualAddress + max placement.virtualSize placement.rawSize
    omega
  have hfind : (image.sections.map placement.moved ++ [placement.newSection name]).find?
      (·.contains (placement.virtualAddress + offset)) = some (placement.newSection name) := by
    rw [List.find?_append, hnone, Option.none_or, List.find?_singleton, hcontains]
    rfl
  have hle : s.virtualAddress ≤ s.memoryEnd := Nat.le_add_right _ _
  have hin :
      placement.virtualAddress + offset - (placement.newSection name).virtualAddress = offset :=
    Nat.add_sub_cancel_left _ _
  unfold Image.offsetOf extend
  dsimp only
  rw [if_neg (by omega), hfind]
  dsimp only
  rw [hin]
  exact if_pos (Nat.lt_of_lt_of_le hoffset hsize)

end Placement

end NativeExports
