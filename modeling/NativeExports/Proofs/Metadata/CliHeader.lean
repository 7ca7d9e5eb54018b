import NativeExports.Metadata.CliHeader
import NativeExports.Proofs.Readers
import NativeExports.Proofs.Windows

/-!
# The CLI header as it is stored

The fields of the CLI header stand at fixed positions.  Reading it checks its size and that it
locates metadata; what is read is just what is stored.
-/

namespace NativeExports

namespace CliHeader

open Bytes (field)

/-- The header whose fields some bytes store, whether or not they make sense. -/
def stored (data : Bytes) : CliHeader where
  cb := field data 0 4
  majorRuntime := field data 4 2
  minorRuntime := field data 6 2
  metadataRva := field data 8 4
  metadataSize := field data 12 4
  flags := field data 16 4
  entryPoint := field data 20 4
  resources := (field data 24 4, field data 28 4)
  strongName := (field data 32 4, field data 36 4)
  vtableFixups := (field data 48 4, field data 52 4)

theorem directory_bind {α : Type} {data : Bytes} (next : Nat × Nat → Reader α)
    (h : 8 ≤ data.length) :
    (directory >>= next) data = next (field data 0 4, field data 4 4) (data.drop 8) := by
  unfold directory
  rw [bind_assoc, Reader.le_bind _ (by omega), bind_assoc, Reader.le_bind _ (by simp; omega),
    pure_bind, Bytes.field_drop, List.drop_drop]

/-- Reading a header is reading its fields and checking three of them. -/
theorem reader_eq {data : Bytes} (h : size ≤ data.length) :
    reader data =
      if field data 0 4 ≠ size then
        .error (.malformed (.cliHeaderSize (field data 0 4))) (data.drop 4)
      else if field data 8 4 = 0 ∨ field data 12 4 = 0 then
        .error (.malformed .metadataLocation) (data.drop 16)
      else .ok (stored data) (data.drop 56) := by
  have hlong : ∀ count, count ≤ 64 → 8 ≤ (data.drop count).length := fun count hcount => by
    have hsize : size = 72 := rfl
    rw [List.length_drop]
    omega
  unfold reader
  rw [Reader.le_bind _ (Nat.le_trans (by decide) h)]
  dsimp only
  split
  · rfl
  rw [Reader.le_bind _ (Nat.le_trans (by decide) (hlong 4 (by decide))), List.drop_drop,
    Reader.le_bind _ (Nat.le_trans (by decide) (hlong 6 (by decide))), List.drop_drop,
    directory_bind _ (hlong 8 (by decide)), List.drop_drop]
  simp only [Bytes.field_drop]
  split
  · rfl
  rw [Reader.le_bind _ (Nat.le_trans (by decide) (hlong 16 (by decide))), List.drop_drop,
    Reader.le_bind _ (Nat.le_trans (by decide) (hlong 20 (by decide))), List.drop_drop,
    directory_bind _ (hlong 24 (by decide)), List.drop_drop,
    directory_bind _ (hlong 32 (by decide)), List.drop_drop,
    directory_bind _ (hlong 40 (by decide)), List.drop_drop,
    directory_bind _ (hlong 48 (by decide)), List.drop_drop]
  simp only [Bytes.field_drop]
  rfl

theorem read_eq_ok {data : Bytes} {header : CliHeader} :
    read data = .ok header ↔ size ≤ data.length ∧ header = stored data ∧ header.cb = size ∧
      header.metadataRva ≠ 0 ∧ header.metadataSize ≠ 0 := by
  unfold read Reader.parse
  split
  · rename_i hshort
    exact iff_of_false (by rintro ⟨⟩) fun h => absurd h.1 (Nat.not_le.mpr hshort)
  rename_i hlong
  have hlong := Nat.le_of_not_lt hlong
  rw [reader_eq hlong]
  by_cases hcb : field data 0 4 = size
  · rw [if_neg (not_not_intro hcb)]
    by_cases hlocation : field data 8 4 = 0 ∨ field data 12 4 = 0
    · rw [if_pos hlocation]
      refine iff_of_false (by rintro ⟨⟩) ?_
      rintro ⟨-, rfl, -, hrva, hsize⟩
      exact hlocation.elim hrva hsize
    · obtain ⟨hrva, hsize⟩ := not_or.mp hlocation
      rw [if_neg hlocation]
      constructor
      · intro h
        obtain rfl := Except.ok.inj h
        exact ⟨hlong, rfl, hcb, hrva, hsize⟩
      · rintro ⟨-, rfl, -⟩
        rfl
  · rw [if_pos hcb]
    refine iff_of_false (by rintro ⟨⟩) ?_
    rintro ⟨-, rfl, h, -⟩
    exact hcb h

end CliHeader

end NativeExports
