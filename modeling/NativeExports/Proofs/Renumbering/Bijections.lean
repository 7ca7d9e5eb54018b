import NativeExports.Proofs.Editing.Runs
import NativeExports.Proofs.Renumbering.Total

/-!
# Renumberings as bijections

Taking rows out and putting rows in leave the other rows in their order, without gaps but for the
new rows.  A new order of the rows gives each of them its position there.  Taking the rows out again
that were put in gives every row its old number and every run its old start.
-/

namespace NativeExports.Renumbering

/-- The rows that are not gone keep their order and take all numbers but those of the fresh rows.
Row 0 stays, and rows behind the end stay behind the end. -/
structure KeepsOrder (renumbering : Renumbering) (gone fresh : Nat → Prop) : Prop where
  zero : renumbering.newRow 0 = some 0
  none_iff : ∀ row, renumbering.newRow row = none ↔
    1 ≤ row ∧ row ≤ renumbering.oldCount ∧ gone row
  increasing : ∀ row row' new new', row < row' → renumbering.newRow row = some new →
    renumbering.newRow row' = some new' → new < new'
  image : ∀ new, (∃ row, 1 ≤ row ∧ row ≤ renumbering.oldCount ∧ renumbering.newRow row = some new) ↔
    1 ≤ new ∧ new ≤ renumbering.newCount ∧ ¬fresh new
  behind : ∀ row, renumbering.oldCount < row →
    ∃ new, renumbering.newRow row = some new ∧ renumbering.newCount < new

variable {table source : Table} {oldCount position count row value : Nat} {removed order : List Nat}
  {owner : Option (Table × Nat)}

/-- Outside the table nothing has to be shown: row 0 and the rows behind the end are renumbered
alike by all edits. -/
theorem Lawful.keepsOrder {renumbering : Renumbering} {gone fresh : Nat → Prop}
    (h : renumbering.Lawful)
    (hgone : ∀ row, 1 ≤ row → row ≤ renumbering.oldCount →
      (renumbering.newRow row = none ↔ gone row))
    (hincreasing : ∀ row row' new new', 1 ≤ row → row < row' → row' ≤ renumbering.oldCount →
      renumbering.newRow row = some new → renumbering.newRow row' = some new' → new < new')
    (hfresh : ∀ new, renumbering.isInserted new = true ↔ fresh new) :
    renumbering.KeepsOrder gone fresh where
  zero := newRow_zero renumbering
  none_iff := by
    intro row
    rcases Nat.eq_zero_or_pos row with rfl | hlo
    · simp
    · rcases Nat.lt_or_ge renumbering.oldCount row with hlt | hhi
      · rw [newRow_of_lt hlt]
        simp [Nat.not_le.mpr hlt]
      · rw [hgone row hlo hhi]
        simp [Nat.succ_le_of_lt hlo, hhi]
  increasing := by
    intro row row' new new' hlt hnew hnew'
    rcases h.newRow_cases hnew with ⟨rfl, rfl⟩ | ⟨hlo, hhi, hlo', hhi'⟩ | ⟨hbehind, rfl⟩ <;>
      rcases h.newRow_cases hnew' with ⟨rfl, rfl⟩ | ⟨hlo₂, hhi₂, hlo₂', hhi₂'⟩ | ⟨hbehind₂, rfl⟩
    case inr.inl.inr.inl => exact hincreasing row row' new new' hlo hlt hhi₂ hnew hnew'
    all_goals omega
  image := by
    intro new
    constructor
    · rintro ⟨row, hlo, hhi, hnew⟩
      obtain ⟨hlo', hhi', hold⟩ := h.range row new hlo hhi hnew
      exact ⟨hlo', hhi', fun hf => absurd ((hfresh new).mpr hf) (Bool.eq_false_iff.mp hold)⟩
    · rintro ⟨hlo, hhi, hold⟩
      exact (h.origin new hlo hhi).resolve_left fun hin => hold ((hfresh new).mp hin)
  behind := fun row hlt => ⟨_, newRow_of_lt hlt, by omega⟩

/-! ## Taking rows out -/

theorem keepsOrder_removal (table : Table) (oldCount : Nat) (removed : List Nat) :
    (removal table oldCount removed).KeepsOrder (· ∈ removed) fun _ => False := by
  refine (lawful_removal table oldCount removed).keepsOrder ?_ ?_ fun new => by
    simp [isInserted, removal]
  · intro row hlo hhi
    change row ≤ oldCount at hhi
    rw [newRow_removal hlo hhi]
    by_cases hgone : row ∈ removed <;> simp [hgone]
  · intro row row' new new' hlo hlt hhi hnew hnew'
    change row' ≤ oldCount at hhi
    rw [newRow_removal hlo (by omega)] at hnew
    rw [newRow_removal (by omega) hhi] at hnew'
    split at hnew
    · cases hnew
    split at hnew'
    · cases hnew'
    rename_i hstays _
    rw [← Option.some.inj hnew, ← Option.some.inj hnew']
    have hcount := count_take_keeps removed hlo (show row ≤ oldCount by omega)
    rw [if_neg (by simpa using hstays)] at hcount
    have hmono : ((keeps oldCount removed).take row).count true ≤
        ((keeps oldCount removed).take (row' - 1)).count true := count_take_le (by omega)
    omega

/-- A run that starts further behind the end than any may moves with the end. -/
theorem newStart_removal_of_lt (h : oldCount + 1 < value) :
    (removal table oldCount removed).newStart source row value =
      value - oldCount + (removal table oldCount removed).newCount := by
  have hbelow : (keptBelow #[] 0 (keeps oldCount removed))[value - 1]? = none := by
    rw [getElem?_keptBelow]
    simp
    omega
  unfold keeps at hbelow
  unfold newStart removal
  dsimp only
  rw [hbelow]

/-! ## Putting rows in -/

theorem keepsOrder_insertion (h : 1 ≤ position ∧ position ≤ oldCount + 1) :
    (insertion table oldCount position count owner).KeepsOrder (fun _ => False)
      fun new => position ≤ new ∧ new < position + count := by
  refine (lawful_insertion table oldCount position count owner (.inr h)).keepsOrder ?_ ?_
    (isInserted_insertion table oldCount position count owner)
  · intro row hlo hhi
    change row ≤ oldCount at hhi
    rw [newRow_insertion _ _ _ _ _ hlo hhi]
    simp
  · intro row row' new new' hlo hlt hhi hnew hnew'
    change row' ≤ oldCount at hhi
    rw [newRow_insertion _ _ _ _ _ hlo (by omega)] at hnew
    rw [newRow_insertion _ _ _ _ _ (by omega) hhi] at hnew'
    rw [← Option.some.inj hnew, ← Option.some.inj hnew']
    split <;> split <;> omega

/-- A run that starts where rows are put in starts in front of them or behind them. -/
theorem newStart_insertion_cases (table source : Table) (oldCount position count row value : Nat)
    (owner : Option (Table × Nat)) :
    let start := (insertion table oldCount position count owner).newStart source row value
    (value ≤ position ∧ start = value) ∨ (position ≤ value ∧ start = value + count) := by
  unfold newStart insertion
  dsimp only
  split
  · exact .inl ⟨by omega, rfl⟩
  · split
    · exact .inr ⟨by omega, rfl⟩
    · split
      · split
        · exact .inl ⟨by omega, rfl⟩
        · exact .inr ⟨by omega, rfl⟩
      · exact .inr ⟨by omega, rfl⟩

/-! ## Taking rows out again -/

/-- Of the first rows of a table, those stay that were not put in. -/
theorem count_take_keeps_range' (hposition : 1 ≤ position) {n : Nat} (h : n ≤ oldCount + count) :
    ((keeps (oldCount + count) (List.range' position count)).take n).count true =
      n - min count (n - (position - 1)) := by
  induction n with
  | zero => simp
  | succ n ih =>
      rw [count_take_keeps _ (Nat.le_add_left 1 n) h, Nat.add_sub_cancel, ih (by omega)]
      by_cases hput : n + 1 ∈ List.range' position count
      · rw [if_pos hput]
        rw [List.mem_range'_1] at hput
        omega
      · rw [if_neg hput]
        rw [List.mem_range'_1] at hput
        omega

theorem newCount_removal_range' (hposition : 1 ≤ position ∧ position ≤ oldCount + 1) :
    (removal table (oldCount + count) (List.range' position count)).newCount = oldCount := by
  change (keeps (oldCount + count) (List.range' position count)).count true = oldCount
  have hall := count_take_keeps_range' hposition.1 (Nat.le_refl (oldCount + count))
  rw [List.take_of_length_le (Nat.le_of_eq (length_keeps _ _))] at hall
  omega

/-- Every row has its old number again. -/
theorem newRow_removal_insertion (hposition : 1 ≤ position ∧ position ≤ oldCount + 1) (row : Nat) :
    ((insertion table oldCount position count owner).newRow row).bind
      (removal table (oldCount + count) (List.range' position count)).newRow = some row := by
  rcases Nat.eq_zero_or_pos row with rfl | hlo
  · simp
  rcases Nat.lt_or_ge oldCount row with hlt | hhi
  · have hbehind : (insertion table oldCount position count owner).newRow row =
        some (row - oldCount + (oldCount + count)) := newRow_of_lt hlt
    have hagain : oldCount + count < row - oldCount + (oldCount + count) := by omega
    rw [hbehind, Option.bind_some, newRow_of_lt hagain, newCount_removal_range' hposition]
    change some (row - oldCount + (oldCount + count) - (oldCount + count) + oldCount) = some row
    congr 1
    omega
  · rw [newRow_insertion _ _ _ _ _ hlo hhi, Option.bind_some,
      newRow_removal (by split <;> omega) (by split <;> omega),
      count_take_keeps_range' hposition.1 (by split <;> omega), if_neg]
    · congr 1
      split <;> omega
    · rw [List.contains_iff_mem, List.mem_range'_1]
      split <;> omega

/-- Every run has its old start again, whoever owns it and whoever the rows were put in for. -/
theorem newStart_removal_insertion (hposition : 1 ≤ position ∧ position ≤ oldCount + 1)
    (hvalue : 1 ≤ value) (source' : Table) (row' : Nat) :
    (removal table (oldCount + count) (List.range' position count)).newStart source' row'
      ((insertion table oldCount position count owner).newStart source row value) = value := by
  rcases newStart_insertion_cases table source oldCount position count row value owner with
    ⟨hle, hstart⟩ | ⟨hle, hstart⟩
  · rw [hstart, newStart_removal (by omega), count_take_keeps_range' hposition.1 (by omega)]
    omega
  · rw [hstart]
    rcases Nat.lt_or_ge (oldCount + 1) value with hlt | hhi
    · rw [newStart_removal_of_lt (by omega), newCount_removal_range' hposition]
      omega
    · rw [newStart_removal (by omega), count_take_keeps_range' hposition.1 (by omega)]
      omega

/-! ## Reordering rows -/

/-- Any order of all rows is accepted, and no other list. -/
theorem exists_permutation_iff : (∃ renumbering, permutation table order = .ok renumbering) ↔
    order.Perm (List.range' 1 order.length) := by
  refine ⟨?_, exists_permutation table⟩
  rintro ⟨renumbering, h⟩
  obtain ⟨numbers, -, hperm, -⟩ := permutation_eq_ok h
  exact hperm

/-! ## All edits -/

/-- Taking rows out, putting rows in and reordering number the rows that stay through, and taking
the rows out again that were put in undoes it, both for rows and for where runs start. -/
theorem edits_renumber_bijectively (table : Table) (oldCount : Nat) :
    (∀ removed, (removal table oldCount removed).KeepsOrder (· ∈ removed) fun _ => False) ∧
    (∀ position count owner, 1 ≤ position → position ≤ oldCount + 1 →
      (insertion table oldCount position count owner).newCount = oldCount + count ∧
      (insertion table oldCount position count owner).KeepsOrder (fun _ => False)
        (fun new => position ≤ new ∧ new < position + count) ∧
      (∀ row, ((insertion table oldCount position count owner).newRow row).bind
        (removal table (oldCount + count) (List.range' position count)).newRow = some row) ∧
      ∀ source row source' row' value, 1 ≤ value →
        (removal table (oldCount + count) (List.range' position count)).newStart source' row'
          ((insertion table oldCount position count owner).newStart source row value) = value) ∧
    ∀ order, ((∃ renumbering, permutation table order = .ok renumbering) ↔
        order.Perm (List.range' 1 order.length)) ∧
      ∀ renumbering, permutation table order = .ok renumbering → ∀ (k : Nat) old,
        order[k]? = some old → renumbering.newRow old = some (k + 1) := by
  refine ⟨keepsOrder_removal table oldCount, fun position count owner hlo hhi => ?_,
    fun order => ?_⟩
  · exact ⟨rfl, keepsOrder_insertion ⟨hlo, hhi⟩, newRow_removal_insertion ⟨hlo, hhi⟩,
      fun source row source' row' value hvalue =>
        newStart_removal_insertion ⟨hlo, hhi⟩ hvalue source' row'⟩
  · exact ⟨exists_permutation_iff, fun renumbering h k old hold => newRow_permutation h hold⟩

/-- Two methods are put in for the second of three types and taken out again.  The third type, which
had its methods at the same place, has them there again. -/
theorem edits_renumber_bijectively_undone :
    (1 ≤ 3 ∧ 3 ≤ 4 + 1) ∧
      (insertion .methodDef 4 3 2 (some (.typeDef, 2))).newStart .typeDef 3 3 = 5 ∧
      (removal .methodDef (4 + 2) (List.range' 3 2)).newStart .typeDef 3 5 = 3 ∧
      ∃ renumbering, permutation .methodDef [3, 1, 2] = .ok renumbering ∧
        renumbering.newRow 3 = some 1 := by
  obtain ⟨-, hput, horder⟩ := edits_renumber_bijectively .methodDef 4
  obtain ⟨-, -, -, hstarts⟩ := hput 3 2 (some (.typeDef, 2)) (by decide) (by decide)
  obtain ⟨renumbering, hrenumbering⟩ := (horder [3, 1, 2]).1.mpr (by decide)
  exact ⟨by decide, rfl, hstarts .typeDef 3 .typeDef 3 3 (by decide), renumbering, hrenumbering,
    (horder [3, 1, 2]).2 renumbering hrenumbering 0 3 rfl⟩

end NativeExports.Renumbering
