import NativeExports.Image.Placement
import NativeExports.Proofs.Outcome

/-!
# Where a new section goes

A new section is placed behind everything else, in the file as well as in the loaded image, and the
section table with its entry ends in front of the content of the old sections, once that has moved.
-/

namespace NativeExports

theorem exists_eq_two_pow {n : Nat} (h : isPowerOfTwo n = true) : ∃ k, n = 2 ^ k := by
  obtain ⟨hne, hand⟩ := Bool.and_eq_true_iff.mp h
  exact (Nat.and_sub_one_eq_zero_iff_isPowerOfTwo (bne_iff_ne.mp hne)).mp (eq_of_beq hand)

/-- Rounding up to a multiple of a power of two does not go down. -/
theorem le_roundUp {value unit : Nat} (h : isPowerOfTwo unit = true) :
    value ≤ roundUp value unit := by
  obtain ⟨k, rfl⟩ := exists_eq_two_pow h
  rw [roundUp_two_pow]
  have hpos := Nat.two_pow_pos k
  have hdiv := Nat.div_add_mod (value + 2 ^ k - 1) (2 ^ k)
  have hmod := Nat.mod_lt (value + 2 ^ k - 1) hpos
  rw [Nat.mul_comm] at hdiv
  omega

theorem dvd_roundUp {unit : Nat} (h : isPowerOfTwo unit = true) (value : Nat) :
    unit ∣ roundUp value unit := by
  obtain ⟨k, rfl⟩ := exists_eq_two_pow h
  rw [roundUp_two_pow]
  exact Nat.dvd_mul_left _ _

theorem max_one_of_isPowerOfTwo {unit : Nat} (h : isPowerOfTwo unit = true) :
    max unit 1 = unit := by
  obtain ⟨k, rfl⟩ := exists_eq_two_pow h
  exact Nat.max_eq_left (Nat.two_pow_pos k)

namespace Placement

theorem foldl_min_le (numbers : List Nat) (first : Nat) :
    numbers.foldl min first ≤ first ∧ (∀ n ∈ numbers, numbers.foldl min first ≤ n) ∧
      (numbers.foldl min first = first ∨ numbers.foldl min first ∈ numbers) := by
  induction numbers generalizing first with
  | nil => exact ⟨Nat.le_refl _, nofun, .inl rfl⟩
  | cons n rest ih =>
      obtain ⟨hfirst, hrest, hmem⟩ := ih (min first n)
      refine ⟨Nat.le_trans hfirst (Nat.min_le_left _ _), List.forall_mem_cons.mpr
        ⟨Nat.le_trans hfirst (Nat.min_le_right _ _), hrest⟩, ?_⟩
      rw [List.foldl_cons]
      rcases hmem with heq | hin
      · rw [heq]
        rcases Nat.le_total first n with hle | hle
        · exact .inl (Nat.min_eq_left hle)
        · exact .inr (List.mem_cons.mpr (.inl (Nat.min_eq_right hle)))
      · exact .inr (.tail _ hin)

/-- The least of some numbers is one of them. -/
theorem least?_eq_some {numbers : List Nat} {n : Nat} (h : n ∈ numbers) :
    ∃ m ∈ numbers, least? numbers = some m ∧ ∀ k ∈ numbers, m ≤ k := by
  cases numbers with
  | nil => cases h
  | cons first rest =>
      obtain ⟨hfirst, hrest, hmem⟩ := foldl_min_le rest first
      refine ⟨rest.foldl min first, ?_, rfl, List.forall_mem_cons.mpr ⟨hfirst, hrest⟩⟩
      exact List.mem_cons.mpr hmem

theorem le_largest {numbers : List Nat} {n : Nat} (h : n ∈ numbers) : n ≤ largest numbers := by
  suffices hfold : ∀ (numbers : List Nat) (first : Nat),
      first ≤ numbers.foldl max first ∧ ∀ n ∈ numbers, n ≤ numbers.foldl max first from
    (hfold numbers 0).2 n h
  intro numbers
  induction numbers with
  | nil => exact fun _ => ⟨Nat.le_refl _, nofun⟩
  | cons n rest ih =>
      intro first
      obtain ⟨hfirst, hrest⟩ := ih (max first n)
      exact ⟨Nat.le_trans (Nat.le_max_left _ _) hfirst, List.forall_mem_cons.mpr
        ⟨Nat.le_trans (Nat.le_max_right _ _) hfirst, hrest⟩⟩

/-- A section of `size` bytes is placed behind everything else. -/
structure Fits (image : Image) (size : Nat) (placement : Placement) : Prop where
  table : tableEnd image ≤ placement.headersSize
  /-- The headers end in front of what the old sections hold in the file. -/
  headers : tableEnd image ≤ placement.rawStart + placement.rawShift
  addresses : (∀ s ∈ image.sections, image.headersSize ≤ s.virtualAddress) →
    ∀ s ∈ image.sections, placement.headersSize ≤ s.virtualAddress
  rawStart : ∀ s ∈ image.sections, s.rawSize ≠ 0 → placement.rawStart ≤ s.rawPointer
  first : (∃ s ∈ image.sections, s.rawSize ≠ 0) →
    ∃ s ∈ image.sections, s.rawSize ≠ 0 ∧ placement.rawStart = s.rawPointer
  behindContent : ∀ s ∈ image.sections, s.fileEnd + placement.rawShift ≤ placement.rawPointer
  behindHeaders : placement.headersSize ≤ placement.rawPointer
  behindSections : ∀ s ∈ image.sections, s.memoryEnd ≤ placement.virtualAddress
  virtualSize : placement.virtualSize = size
  rawSize : size ≤ placement.rawSize
  small : placement.virtualAddress < 2 ^ 32 ∧ placement.virtualSize < 2 ^ 32 ∧
    placement.rawPointer < 2 ^ 32 ∧ placement.rawSize < 2 ^ 32 ∧ placement.headersSize < 2 ^ 32

theorem fit_eq_ok {value found : Nat} (h : fit value = .ok found) :
    value = found ∧ found < 2 ^ 32 := by
  unfold fit at h
  split at h
  · rename_i hlt
    obtain rfl := Except.ok.inj h
    exact ⟨rfl, hlt⟩
  · cases h

variable {image : Image} {size : Nat} {placement : Placement}

theorem rawStart_le_of_content {s : ImageSection} (hmem : s ∈ image.sections)
    (hraw : s.rawSize ≠ 0) :
    contentStart image ≤ s.rawPointer ∧
      ∃ s ∈ image.sections, s.rawSize ≠ 0 ∧ contentStart image = s.rawPointer := by
  have hin : ∀ {s : ImageSection}, s ∈ image.sections → s.rawSize ≠ 0 →
      s.rawPointer ∈ (image.sections.filter (·.rawSize != 0)).map (·.rawPointer) := fun hmem hraw =>
    List.mem_map_of_mem (List.mem_filter.mpr ⟨hmem, bne_iff_ne.mpr hraw⟩)
  obtain ⟨m, hm, hleast, hle⟩ := least?_eq_some (hin hmem hraw)
  unfold contentStart
  rw [hleast]
  obtain ⟨t, ht, rfl⟩ := List.mem_map.mp hm
  obtain ⟨htmem, htraw⟩ := List.mem_filter.mp ht
  exact ⟨hle _ (hin hmem hraw), t, htmem, bne_iff_ne.mp htraw, rfl⟩

theorem firstAddress_le {s : ImageSection} (h : s ∈ image.sections) :
    firstAddress image ≤ s.virtualAddress := by
  obtain ⟨m, -, hleast, hle⟩ := least?_eq_some
    (List.mem_map_of_mem (f := fun s : ImageSection => s.virtualAddress) h)
  unfold firstAddress
  rw [hleast]
  exact hle _ (List.mem_map_of_mem h)

/-- The headers either have room for another entry of the section table, or they are made larger and
the content of the sections moves out of their way. -/
theorem growth_cases (hunit : isPowerOfTwo image.fileAlignment = true) {headers shift : Nat}
    (h : growth image = .ok (headers, shift)) :
    (tableEnd image ≤ min image.headersSize (contentStart image) ∧
        headers = image.headersSize ∧ shift = 0) ∨
      (headers = roundUp (tableEnd image) image.fileAlignment ∧ headers ≤ firstAddress image ∧
        shift = roundUp (headers - contentStart image) image.fileAlignment) := by
  unfold growth at h
  dsimp only at h
  rw [max_one_of_isPowerOfTwo hunit] at h
  split at h
  · rename_i hroom
    obtain ⟨rfl, rfl⟩ := Prod.mk.inj (Except.ok.inj h)
    exact .inl ⟨hroom, rfl, rfl⟩
  · split at h
    · cases h
    · rename_i hfirst
      obtain ⟨rfl, rfl⟩ := Prod.mk.inj (Except.ok.inj h)
      exact .inr ⟨rfl, Nat.le_of_not_lt hfirst, rfl⟩

theorem growth_eq_ok (hunit : isPowerOfTwo image.fileAlignment = true) {headers shift : Nat}
    (h : growth image = .ok (headers, shift)) :
    tableEnd image ≤ headers ∧ tableEnd image ≤ contentStart image + shift ∧
      ((∀ s ∈ image.sections, image.headersSize ≤ s.virtualAddress) →
        ∀ s ∈ image.sections, headers ≤ s.virtualAddress) := by
  obtain ⟨hroom, rfl, rfl⟩ | ⟨hheaders, hfirst, hshift⟩ := growth_cases hunit h
  · exact ⟨by omega, by omega, id⟩
  · have htable : tableEnd image ≤ headers := hheaders ▸ le_roundUp hunit
    have hmoved : headers - contentStart image ≤ shift := hshift ▸ le_roundUp hunit
    exact ⟨htable, by omega, fun _ s hmem => Nat.le_trans hfirst (firstAddress_le hmem)⟩

theorem behind_eq_ok (h : behind image size = .ok placement) :
    growth image = .ok (placement.headersSize, placement.rawShift) ∧
      placement.virtualAddress = roundUp (largest (image.sections.map (·.memoryEnd)))
        (max image.sectionAlignment 1) ∧
      placement.virtualSize = size ∧
      placement.rawPointer = roundUp (max (largest (image.sections.map (·.fileEnd)) +
        placement.rawShift) placement.headersSize) (max image.fileAlignment 1) ∧
      placement.rawSize = roundUp size (max image.fileAlignment 1) ∧
      placement.rawStart = contentStart image ∧
      placement.rawStart < 2 ^ 32 ∧ placement.rawShift < 2 ^ 32 ∧
      placement.virtualAddress < 2 ^ 32 ∧ placement.virtualSize < 2 ^ 32 ∧
        placement.rawPointer < 2 ^ 32 ∧ placement.rawSize < 2 ^ 32 ∧
          placement.headersSize < 2 ^ 32 := by
  obtain ⟨⟨headers, shift⟩, hgrowth, h⟩ := Outcome.bind_eq_ok.mp h
  obtain ⟨virtualAddress, hvirtual, h⟩ := Outcome.bind_eq_ok.mp h
  obtain ⟨virtualSize, hsize, h⟩ := Outcome.bind_eq_ok.mp h
  obtain ⟨rawPointer, hpointer, h⟩ := Outcome.bind_eq_ok.mp h
  obtain ⟨rawSize, hraw, h⟩ := Outcome.bind_eq_ok.mp h
  obtain ⟨headersSize, hheaders, h⟩ := Outcome.bind_eq_ok.mp h
  obtain ⟨rawStart, hstart, h⟩ := Outcome.bind_eq_ok.mp h
  obtain ⟨rawShift, hshift, h⟩ := Outcome.bind_eq_ok.mp h
  obtain rfl := Except.ok.inj h
  obtain ⟨rfl, hvirtual⟩ := fit_eq_ok hvirtual
  obtain ⟨rfl, hsize⟩ := fit_eq_ok hsize
  obtain ⟨rfl, hpointer⟩ := fit_eq_ok hpointer
  obtain ⟨rfl, hraw⟩ := fit_eq_ok hraw
  obtain ⟨rfl, hheaders⟩ := fit_eq_ok hheaders
  obtain ⟨rfl, hstart⟩ := fit_eq_ok hstart
  obtain ⟨rfl, hshift⟩ := fit_eq_ok hshift
  exact ⟨hgrowth, rfl, rfl, rfl, rfl, rfl, hstart, hshift, hvirtual, hsize, hpointer,
    hraw, hheaders⟩

/-- Where a section goes in the loaded image does not depend on its size. -/
theorem virtualAddress_eq {size' : Nat} {placement' : Placement}
    (h : behind image size = .ok placement)
    (h' : behind image size' = .ok placement') :
    placement.virtualAddress = placement'.virtualAddress :=
  (behind_eq_ok h).2.1.trans (behind_eq_ok h').2.1.symm

theorem fits_of_behind (hfile : isPowerOfTwo image.fileAlignment = true)
    (haddress : isPowerOfTwo image.sectionAlignment = true)
    (h : behind image size = .ok placement) : placement.Fits image size := by
  obtain ⟨hgrowth, hvirtual, hsize, hpointer, hraw, hstart, -, -, hsmall⟩ := behind_eq_ok h
  obtain ⟨htable, hfront, haddresses⟩ := growth_eq_ok hfile hgrowth
  rw [max_one_of_isPowerOfTwo hfile] at hpointer hraw
  rw [max_one_of_isPowerOfTwo haddress] at hvirtual
  have hbehind : max (largest (image.sections.map (·.fileEnd)) + placement.rawShift)
      placement.headersSize ≤ placement.rawPointer := hpointer ▸ le_roundUp hfile
  exact {
    table := htable
    headers := hstart ▸ hfront
    addresses := haddresses
    rawStart := fun s hmem hraw => hstart ▸ (rawStart_le_of_content hmem hraw).1
    first := fun ⟨s, hmem, hraw⟩ => hstart ▸ (rawStart_le_of_content hmem hraw).2
    behindContent := fun s hmem =>
      Nat.le_trans (Nat.add_le_add_right (le_largest (List.mem_map_of_mem hmem)) _)
        (Nat.le_trans (Nat.le_max_left _ _) hbehind)
    behindHeaders := Nat.le_trans (Nat.le_max_right _ _) hbehind
    behindSections := fun s hmem =>
      Nat.le_trans (le_largest (List.mem_map_of_mem hmem)) (hvirtual ▸ le_roundUp haddress)
    virtualSize := hsize
    rawSize := hraw ▸ le_roundUp hfile
    small := hsmall }

end Placement

end NativeExports
