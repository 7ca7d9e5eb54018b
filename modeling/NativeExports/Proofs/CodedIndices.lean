import Mathlib.Data.List.Nodup
import NativeExports.Metadata.CodedIndex
import NativeExports.Metadata.Column
import NativeExports.Metadata.Token

/-!
# Reading coded indices back

A coded index that was stored names its row again, as far as the row number fits above the tag.  The
tag takes at most five bits, so the rows that tokens can tell apart fit.
-/

namespace NativeExports.CodedKind

theorem tagWidth_le (kind : CodedKind) : kind.tagWidth ≤ 5 := by
  cases kind <;> decide

/-- The listed tables are those that have a tag, although the list of attribute constructors has
entries whose tags are not in use. -/
theorem contains_iff_mem_tables {kind : CodedKind} {table : Table} :
    kind.contains table = true ↔ table ∈ kind.tables := by
  have hfind : ∀ tables : List Table,
      (tables.findIdx? (· == table)).isSome = true ↔ table ∈ tables := by
    intro tables
    rw [List.findIdx?_isSome, List.any_eq_true]
    simp
  cases kind with
  | customAttributeType => cases table <;> decide
  | _ => exact hfind _

/-- A tag is the only one of its table, since no list of tables has one twice, and of the tags of
attribute constructors that share a table one is in use. -/
theorem tag?_of_table? {kind : CodedKind} {tag : Nat} {table : Table}
    (h : kind.table? tag = some table) : kind.tag? table = some tag := by
  have hfind : ∀ tables : List Table, tables.Nodup → tables[tag]? = some table →
      tables.findIdx? (· == table) = some tag := by
    intro tables hnodup hget
    obtain ⟨hlt, hget⟩ := List.getElem?_eq_some_iff.mp hget
    refine List.findIdx?_eq_some_iff_getElem.mpr ⟨hlt, by simpa using hget, fun n hn hsame => ?_⟩
    have heq : tables[n] = tables[tag] := by rw [hget]; simpa using hsame
    exact absurd (hnodup.getElem_inj_iff.mp heq) (Nat.ne_of_lt hn)
  cases kind with
  | customAttributeType =>
      unfold table? at h
      split at h
      · obtain rfl := Option.some.inj h
        rfl
      · obtain rfl := Option.some.inj h
        rfl
      · cases h
      · contradiction
  | _ => exact hfind _ (by decide) h

/-- A table that a tag selects has a tag. -/
theorem contains_of_table? {kind : CodedKind} {tag : Nat} {table : Table}
    (h : kind.table? tag = some table) : kind.contains table = true := by
  rw [contains, tag?_of_table? h]
  rfl

theorem contains_of_decode {kind : CodedKind} {value row : Nat} {table : Table}
    (h : kind.decode value = .ok (table, row)) : kind.contains table = true := by
  unfold decode at h
  split at h
  · rename_i found htable
    obtain ⟨rfl, -⟩ := Prod.mk.inj (Except.ok.inj h)
    exact contains_of_table? htable
  · cases h

theorem row_of_decode {kind : CodedKind} {value row : Nat} {table : Table}
    (h : kind.decode value = .ok (table, row)) : value / 2 ^ kind.tagWidth = row := by
  unfold decode at h
  split at h
  · exact (Prod.mk.inj (Except.ok.inj h)).2
  · cases h

theorem mem_tables_of_decode {kind : CodedKind} {value row : Nat} {table : Table}
    (h : kind.decode value = .ok (table, row)) : table ∈ kind.tables :=
  contains_iff_mem_tables.mp (contains_of_decode h)

theorem exists_encode {kind : CodedKind} {table : Table} (h : kind.contains table = true)
    (row : Nat) : ∃ value, kind.encode table row = .ok value := by
  obtain ⟨tag, htag⟩ := Option.isSome_iff_exists.mp h
  exact ⟨_, by rw [encode, htag]⟩

/-- The room of a coded index is that of the tag and of the row above it. -/
theorem room_mul (kind : CodedKind) : 2 ^ (32 - kind.tagWidth) * 2 ^ kind.tagWidth = 2 ^ 32 := by
  have := kind.tagWidth_le
  rw [← Nat.pow_add]
  congr 1
  omega

/-- What a row number loses above the tag are its high bits. -/
theorem shifted_mod (kind : CodedKind) (row : Nat) : row * 2 ^ kind.tagWidth % 2 ^ 32 =
    row % 2 ^ (32 - kind.tagWidth) * 2 ^ kind.tagWidth := by
  rw [← kind.room_mul, Nat.mul_mod_mul_right]

/-- A row that is stored is found again. -/
theorem decode_encode {kind : CodedKind} {table : Table} {row value : Nat}
    (h : kind.encode table row = .ok value) :
    kind.decode value = .ok (table, row % 2 ^ (32 - kind.tagWidth)) := by
  unfold encode at h
  split at h
  · rename_i tag htag
    obtain rfl := Except.ok.inj h
    have hlt := tag_lt htag
    have htagPart : (row % 2 ^ (32 - kind.tagWidth) * 2 ^ kind.tagWidth + tag) %
        2 ^ kind.tagWidth = tag := by
      rw [Nat.add_comm, Nat.add_mul_mod_self_right, Nat.mod_eq_of_lt hlt]
    have hrowPart : (row % 2 ^ (32 - kind.tagWidth) * 2 ^ kind.tagWidth + tag) /
        2 ^ kind.tagWidth = row % 2 ^ (32 - kind.tagWidth) := by
      rw [Nat.add_comm, Nat.add_mul_div_right _ _ (Nat.two_pow_pos _), Nat.div_eq_of_lt hlt,
        Nat.zero_add]
    rw [decode, kind.shifted_mod, htagPart, table?_of_tag? htag, hrowPart]
  · cases h

/-- A row number that a token can hold fits above every tag. -/
theorem mod_eq_of_lt_rowLimit (kind : CodedKind) {row : Nat} (h : row < Token.rowLimit) :
    row % 2 ^ (32 - kind.tagWidth) = row := by
  refine Nat.mod_eq_of_lt (Nat.lt_of_lt_of_le h (Nat.pow_le_pow_right (by decide) ?_))
  have := kind.tagWidth_le
  omega

end NativeExports.CodedKind
