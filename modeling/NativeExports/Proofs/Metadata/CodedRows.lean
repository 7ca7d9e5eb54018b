import NativeExports.Proofs.Metadata.StoredColumns

/-!
# Coded indices as names of rows

A coded index and the row that it names determine each other, as long as the row number fits above
the tag.  Columns of two bytes are chosen for a kind only if all rows fit that exist.
-/

namespace NativeExports.CodedKind

variable {kind : CodedKind} {table : Table} {row value : Nat}

/-- What names a row is the stored form of that row. -/
theorem encode_of_decode (hvalue : value < 2 ^ 32) (h : kind.decode value = .ok (table, row)) :
    kind.encode table row = .ok value := by
  unfold decode at h
  split at h
  · rename_i found htable
    obtain ⟨rfl, rfl⟩ := Prod.mk.inj (Except.ok.inj h)
    have hshifted : value / 2 ^ kind.tagWidth * 2 ^ kind.tagWidth < 2 ^ 32 :=
      Nat.lt_of_le_of_lt (Nat.div_mul_le_self ..) hvalue
    rw [encode, tag?_of_table? htable, Nat.mod_eq_of_lt hshifted]
    exact congrArg Except.ok (Nat.div_add_mod' ..)
  · cases h

theorem encode_lt (h : kind.encode table row = .ok value) : value < 2 ^ 32 := by
  unfold encode at h
  split at h
  · rename_i tag htag
    obtain rfl := Except.ok.inj h
    rw [kind.shifted_mod]
    calc row % 2 ^ (32 - kind.tagWidth) * 2 ^ kind.tagWidth + tag
        < (row % 2 ^ (32 - kind.tagWidth) + 1) * 2 ^ kind.tagWidth := by
          rw [Nat.succ_mul]
          exact Nat.add_lt_add_left (tag_lt htag) _
      _ ≤ 2 ^ (32 - kind.tagWidth) * 2 ^ kind.tagWidth :=
          Nat.mul_le_mul_right _ (Nat.mod_lt _ (Nat.two_pow_pos _))
      _ = 2 ^ 32 := kind.room_mul
  · cases h

/-- A row is found again exactly if its number fits above the tag. -/
theorem decode_encode_iff (h : kind.encode table row = .ok value) :
    kind.decode value = .ok (table, row) ↔ row < 2 ^ (32 - kind.tagWidth) := by
  rw [decode_encode h, ← Nat.mod_eq_iff_lt (Nat.ne_of_gt (Nat.two_pow_pos _))]
  simp

/-- A row that exists fits into two bytes, if columns of its kind have two. -/
theorem encode_lt_of_narrow {widths : Widths} (hnarrow : widths.isWideCoded kind = false)
    (hrow : row ≤ widths.count table) (h : kind.encode table row = .ok value) : value < 2 ^ 16 := by
  have hbits : widths.codedBits kind ≤ 16 := by
    simpa [Widths.isWideCoded] using hnarrow
  exact Nat.lt_of_lt_of_le
    (Tables.lt_of_decode (decode_encode h) (Nat.le_trans (Nat.mod_le ..) hrow))
    (Nat.pow_le_pow_right (by decide) hbits)

/-- A kind can store the rows of its tables and of no others, and what it stores names the row if
the row number fits above the tag, and otherwise does not.  A stored number that names a row is what
is stored for it, so no two numbers name the same row.  If two bytes are enough for the column
widths, they are for every row of the tables. -/
theorem coded_index_names_row (kind : CodedKind) :
    (∀ table row,
      ((∃ value, kind.encode table row = .ok value) ↔ kind.contains table = true) ∧
      (kind.contains table = true ↔ table ∈ kind.tables) ∧
      ∀ value, kind.encode table row = .ok value → value < 2 ^ 32 ∧
        (kind.decode value = .ok (table, row) ↔ row < 2 ^ (32 - kind.tagWidth))) ∧
    (∀ value table row, value < 2 ^ 32 → kind.decode value = .ok (table, row) →
      kind.encode table row = .ok value) ∧
    ∀ widths : Widths, widths.isWideCoded kind = false → ∀ table ∈ kind.tables,
      ∀ row ≤ widths.count table, ∃ value, kind.encode table row = .ok value ∧ value < 2 ^ 16 := by
  refine ⟨fun table row => ⟨⟨?_, fun h => exists_encode h row⟩, contains_iff_mem_tables,
    fun value h => ⟨encode_lt h, decode_encode_iff h⟩⟩,
    fun value table row hvalue h => encode_of_decode hvalue h, ?_⟩
  · rintro ⟨value, h⟩
    exact contains_of_decode (decode_encode h)
  · intro widths hnarrow table htable row hrow
    obtain ⟨value, hvalue⟩ := exists_encode (contains_iff_mem_tables.mpr htable) row
    exact ⟨value, hvalue, encode_lt_of_narrow hnarrow hrow hvalue⟩

/-- Two bytes hold the constructors of attributes if both of their tables have 8191 rows.  Row
2 ^ 29 does not fit above the three bits of the tag. -/
theorem coded_index_names_row_constructors :
    (⟨fun _ => 0x1FFF, 0⟩ : Widths).isWideCoded customAttributeType = false ∧
      (∃ value, customAttributeType.encode .memberRef 0x1FFF = .ok value ∧ value < 2 ^ 16) ∧
      customAttributeType.encode .methodDef 0x1FFF = .ok 0xFFFA ∧
      ∃ value, customAttributeType.encode .methodDef (2 ^ 29) = .ok value ∧
        customAttributeType.decode value ≠ .ok (.methodDef, 2 ^ 29) := by
  obtain ⟨hstored, hnamed, hnarrow⟩ := coded_index_names_row customAttributeType
  have hwidths : (⟨fun _ => 0x1FFF, 0⟩ : Widths).isWideCoded customAttributeType = false := by
    decide +kernel
  obtain ⟨hexists, -, hfits⟩ := hstored .methodDef (2 ^ 29)
  obtain ⟨value, hvalue⟩ := hexists.mpr rfl
  exact ⟨hwidths, hnarrow _ hwidths .memberRef (by decide) 0x1FFF (Nat.le_refl _),
    hnamed 0xFFFA .methodDef 0x1FFF (by decide) rfl, value, hvalue,
    fun h => absurd ((hfits value hvalue).2.mp h) (by decide)⟩

end NativeExports.CodedKind
