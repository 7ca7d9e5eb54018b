import Mathlib.Data.List.Perm.Subperm
import NativeExports.Renumbering

/-!
# Row numbers under renumbering

A renumbering is described twice: `arrange` makes the new rows from the old ones, and `newRow` tells
where an old row went.  The two descriptions agree for each of the three edits.  What later proofs
use of a renumbering is collected in `Lawful`: rows that stay keep to the table, each new row comes
from a single old row or was put in, and the row at a new number is the old one.
-/

namespace NativeExports.Renumbering

/-- The renumberings that edits make.  Rows are put in at one of the rows or behind the last one. -/
inductive Made : Renumbering → Prop
  | removal (table : Table) (oldCount : Nat) (removed : List Nat) :
      Made (removal table oldCount removed)
  | insertion (table : Table) (oldCount position count : Nat) (owner : Option (Table × Nat))
      (h : count = 0 ∨ 1 ≤ position ∧ position ≤ oldCount + 1) :
      Made (insertion table oldCount position count owner)
  | permutation {table : Table} {order : List Nat} {renumbering : Renumbering}
      (h : permutation table order = .ok renumbering) : Made renumbering

/-- What `newRow` and `arrange` have to do with each other. -/
structure Lawful (renumbering : Renumbering) : Prop where
  /-- Rows that stay are rows of the edited table, and none of those put in. -/
  range : ∀ row new, 1 ≤ row → row ≤ renumbering.oldCount → renumbering.newRow row = some new →
    1 ≤ new ∧ new ≤ renumbering.newCount ∧ renumbering.isInserted new = false
  /-- The edited table has the announced number of rows. -/
  length : ∀ {α : Type} (rows inserted : List α), rows.length = renumbering.oldCount →
    inserted.length = renumbering.suppliedCount →
    (renumbering.arrange rows inserted).length = renumbering.newCount
  /-- A row that stays stands at its new number. -/
  survivor : ∀ {α : Type} (rows inserted : List α) row new, rows.length = renumbering.oldCount →
    inserted.length = renumbering.suppliedCount → 1 ≤ row → row ≤ renumbering.oldCount →
    renumbering.newRow row = some new →
    (renumbering.arrange rows inserted)[new - 1]? = rows[row - 1]?
  /-- Every row of the edited table was put in or was there before. -/
  origin : ∀ new, 1 ≤ new → new ≤ renumbering.newCount → renumbering.isInserted new = true ∨
    ∃ row, 1 ≤ row ∧ row ≤ renumbering.oldCount ∧ renumbering.newRow row = some new

@[simp]
theorem newRow_zero (renumbering : Renumbering) : renumbering.newRow 0 = some 0 := by
  simp [newRow]

/-- A row behind the end of the table moves with the end. -/
theorem newRow_of_lt {renumbering : Renumbering} {row : Nat} (h : renumbering.oldCount < row) :
    renumbering.newRow row = some (row - renumbering.oldCount + renumbering.newCount) := by
  rw [newRow, if_neg (by omega), if_pos h]

/-! ## Taking rows out -/

theorem getElem?_keptBelow (seen : Array Nat) (count : Nat) (kept : List Bool) (n : Nat) :
    (keptBelow seen count kept)[n]? =
      if n < seen.size then seen[n]?
      else if n ≤ seen.size + kept.length then some (count + (kept.take (n - seen.size)).count true)
      else none := by
  induction kept generalizing seen count with
  | nil =>
      rw [keptBelow, Array.getElem?_push]
      split
      · rename_i heq
        simp [heq]
      · split
        · rfl
        · rw [if_neg (by simp; omega), Array.getElem?_eq_none (by omega)]
  | cons first rest ih =>
      rw [keptBelow, ih, Array.size_push, Array.getElem?_push]
      by_cases hlt : n < seen.size
      · rw [if_pos (by omega), if_neg (by omega), if_pos hlt]
      · by_cases heq : n = seen.size
        · simp [heq]
        · rw [if_neg (by omega), if_neg hlt, List.length_cons]
          by_cases hle : n ≤ seen.size + (rest.length + 1)
          · obtain ⟨k, rfl⟩ : ∃ k, n = seen.size + 1 + k := ⟨n - seen.size - 1, by omega⟩
            rw [if_pos (by omega), if_pos hle,
              show seen.size + 1 + k - (seen.size + 1) = k by omega,
              show seen.size + 1 + k - seen.size = k + 1 by omega, List.take_succ_cons]
            cases first with
            | true =>
                simp
                omega
            | false => simp
          · rw [if_neg (by omega), if_neg hle]

/-- Taking entries out keeps an entry that stays, behind those in front of it that stay. -/
theorem getElem?_keep {α : Type} (kept : List Bool) (rows : List α) (n : Nat)
    (hlength : rows.length = kept.length) (h : kept[n]? = some true) :
    (((kept.zip rows).filter (·.1)).map (·.2))[(kept.take n).count true]? = rows[n]? := by
  induction kept generalizing rows n with
  | nil => simp at h
  | cons first kept ih =>
      obtain ⟨row, rows, rfl⟩ := List.exists_cons_of_length_eq_add_one hlength
      have hlength' : rows.length = kept.length := by simpa using hlength
      cases n with
      | zero =>
          obtain rfl : first = true := by simpa using h
          simp
      | succ n =>
          have hrest := ih rows n hlength' (by simpa using h)
          cases first with
          | true => simpa using hrest
          | false => simpa using hrest

theorem length_keep {α : Type} (kept : List Bool) (rows : List α)
    (hlength : rows.length = kept.length) :
    (((kept.zip rows).filter (·.1)).map (·.2)).length = kept.count true := by
  induction kept generalizing rows with
  | nil => simp
  | cons first kept ih =>
      obtain ⟨row, rows, rfl⟩ := List.exists_cons_of_length_eq_add_one hlength
      have hrest := ih rows (by simpa using hlength)
      cases first with
      | true => simpa using hrest
      | false => simpa using hrest

/-- Every count of entries that stay is reached in front of an entry that stays. -/
theorem exists_kept {kept : List Bool} {n : Nat} (h : n < kept.count true) :
    ∃ k, kept[k]? = some true ∧ (kept.take k).count true = n := by
  induction kept generalizing n with
  | nil => simp at h
  | cons first rest ih =>
      cases first with
      | true =>
          cases n with
          | zero => exact ⟨0, rfl, rfl⟩
          | succ n =>
              obtain ⟨k, hget, hcount⟩ := ih (n := n) (by simpa using h)
              exact ⟨k + 1, by simpa using hget, by simpa using hcount⟩
      | false =>
          obtain ⟨k, hget, hcount⟩ := ih (n := n) (by simpa using h)
          exact ⟨k + 1, by simpa using hget, by simpa using hcount⟩

/-- Which of the rows stay. -/
def keeps (oldCount : Nat) (removed : List Nat) : List Bool :=
  (List.range oldCount).map fun n => !removed.contains (n + 1)

@[simp]
theorem length_keeps (oldCount : Nat) (removed : List Nat) :
    (keeps oldCount removed).length = oldCount := by
  simp [keeps]

theorem getElem?_keeps {oldCount n : Nat} {removed : List Nat} (h : n < oldCount) :
    (keeps oldCount removed)[n]? = some (!removed.contains (n + 1)) := by
  simp [keeps, h]

/-- The rows that stay are counted one by one. -/
theorem count_take_keeps {oldCount row : Nat} (removed : List Nat) (hlo : 1 ≤ row)
    (hhi : row ≤ oldCount) : ((keeps oldCount removed).take row).count true =
      ((keeps oldCount removed).take (row - 1)).count true + if row ∈ removed then 0 else 1 := by
  have htake : (keeps oldCount removed).take (row - 1 + 1) = _ := List.take_add_one
  rw [getElem?_keeps (by omega), Nat.sub_add_cancel hlo] at htake
  rw [htake, List.count_append]
  by_cases hgone : row ∈ removed <;> simp [hgone]

/-- A row stays unless it is taken out, and then follows the rows in front of it that stay. -/
theorem newRow_removal {table : Table} {oldCount row : Nat} {removed : List Nat}
    (hlo : 1 ≤ row) (hhi : row ≤ oldCount) :
    (removal table oldCount removed).newRow row =
      if removed.contains row then none
      else some (((keeps oldCount removed).take (row - 1)).count true + 1) := by
  have hkept : (keeps oldCount removed)[row - 1]? = some (!removed.contains row) := by
    rw [getElem?_keeps (by omega), Nat.sub_add_cancel hlo]
  have hbelow : (keptBelow #[] 0 (keeps oldCount removed))[row - 1]? =
      some (((keeps oldCount removed).take (row - 1)).count true) := by
    rw [getElem?_keptBelow]
    simp
    omega
  have hcount : ¬(removal table oldCount removed).oldCount < row := Nat.not_lt.mpr hhi
  rw [newRow, if_neg (by omega), if_neg hcount]
  change (if (keeps oldCount removed).toArray.getD (row - 1) false then
    some ((keptBelow #[] 0 (keeps oldCount removed)).getD (row - 1) 0 + 1) else none) = _
  rw [Array.getD_eq_getD_getElem?, Array.getD_eq_getD_getElem?, hbelow, List.getElem?_toArray,
    hkept]
  cases removed.contains row <;> rfl

theorem lawful_removal (table : Table) (oldCount : Nat) (removed : List Nat) :
    (removal table oldCount removed).Lawful where
  range := by
    intro row new hlo hhi h
    change row ≤ oldCount at hhi
    rw [newRow_removal hlo hhi] at h
    split at h
    · cases h
    · rename_i hstays
      obtain rfl := Option.some.inj h
      refine ⟨Nat.succ_pos _, ?_, rfl⟩
      have hcount := count_take_keeps removed hlo hhi
      rw [if_neg (by simpa using hstays)] at hcount
      rw [← hcount]
      exact (List.take_sublist row _).count_le true
  length := fun rows inserted hrows _ =>
    length_keep (keeps oldCount removed) rows (hrows.trans (length_keeps _ _).symm)
  survivor := by
    intro α rows inserted row new hrows _ hlo hhi h
    change row ≤ oldCount at hhi
    rw [newRow_removal hlo hhi] at h
    split at h
    · cases h
    · rename_i hstays
      obtain rfl := Option.some.inj h
      refine getElem?_keep (keeps oldCount removed) rows (row - 1)
        (hrows.trans (length_keeps _ _).symm) ?_
      rw [getElem?_keeps (by omega), Nat.sub_add_cancel hlo]
      simpa using hstays
  origin := by
    intro new hlo hhi
    have hlt : new - 1 < (keeps oldCount removed).count true :=
      Nat.lt_of_lt_of_le (Nat.sub_one_lt_of_lt hlo) hhi
    obtain ⟨k, hget, hcount⟩ := exists_kept hlt
    have hle : k + 1 ≤ oldCount :=
      Nat.succ_le_of_lt (by simpa using (List.getElem?_eq_some_iff.mp hget).1)
    refine .inr ⟨k + 1, by omega, hle, ?_⟩
    rw [getElem?_keeps hle] at hget
    rw [newRow_removal (by omega) hle, Nat.add_sub_cancel, hcount, Nat.sub_add_cancel hlo,
      if_neg (by simpa using hget)]

/-! ## Putting rows in -/

/-- Rows keep their numbers in front of the rows put in, and make room for them behind. -/
theorem newRow_insertion (table : Table) (oldCount position count : Nat)
    (owner : Option (Table × Nat)) {row : Nat} (hlo : 1 ≤ row) (hhi : row ≤ oldCount) :
    (insertion table oldCount position count owner).newRow row =
      some (if row < position then row else row + count) := by
  have hcount : ¬(insertion table oldCount position count owner).oldCount < row :=
    Nat.not_lt.mpr hhi
  rw [newRow, if_neg (by omega), if_neg hcount]
  rfl

theorem isInserted_of_suppliedCount_eq_zero {renumbering : Renumbering}
    (h : renumbering.suppliedCount = 0) (row : Nat) : renumbering.isInserted row = false := by
  unfold suppliedCount at h
  unfold isInserted
  split at h
  · rename_i position count owner hedit
    rw [h]
    simp
  · rfl

theorem isInserted_insertion (table : Table) (oldCount position count : Nat)
    (owner : Option (Table × Nat)) (row : Nat) :
    (insertion table oldCount position count owner).isInserted row = true ↔
      position ≤ row ∧ row < position + count := by
  simp [isInserted, insertion]

/-- The rows put in stand at their position. -/
theorem getElem?_arrange_insertion {α : Type} {table : Table} {oldCount position count : Nat}
    {owner : Option (Table × Nat)} {rows inserted : List α} {n : Nat}
    (hposition : 1 ≤ position ∧ position ≤ oldCount + 1) (hrows : rows.length = oldCount)
    (hn : n < inserted.length) :
    ((insertion table oldCount position count owner).arrange rows inserted)[position + n - 1]? =
      inserted[n]? := by
  change (rows.take (position - 1) ++ inserted ++ rows.drop (position - 1))[position + n - 1]? = _
  have htake : (rows.take (position - 1)).length = position - 1 := by
    rw [List.length_take]
    omega
  rw [List.append_assoc, List.getElem?_append_right (by omega), htake,
    List.getElem?_append_left (by omega)]
  congr 1
  omega

theorem lawful_insertion (table : Table) (oldCount position count : Nat)
    (owner : Option (Table × Nat)) (h : count = 0 ∨ 1 ≤ position ∧ position ≤ oldCount + 1) :
    (insertion table oldCount position count owner).Lawful where
  range := by
    intro row new hlo hhi hnew
    change row ≤ oldCount at hhi
    rw [newRow_insertion table oldCount position count owner hlo hhi] at hnew
    have hnot := isInserted_insertion table oldCount position count owner new
    obtain rfl := Option.some.inj hnew
    refine ⟨by split <;> omega, ?_, ?_⟩
    · change _ ≤ oldCount + count
      split <;> omega
    · rw [Bool.eq_false_iff, Ne, hnot]
      split <;> omega
  length := by
    intro α rows inserted hrows hinserted
    change (rows.take (position - 1) ++ inserted ++ rows.drop (position - 1)).length =
      oldCount + count
    change rows.length = oldCount at hrows
    change inserted.length = count at hinserted
    simp only [List.length_append, List.length_take, List.length_drop]
    omega
  survivor := by
    intro α rows inserted row new hrows hinserted hlo hhi hnew
    change row ≤ oldCount at hhi
    rw [newRow_insertion table oldCount position count owner hlo hhi] at hnew
    obtain rfl := Option.some.inj hnew
    change (rows.take (position - 1) ++ inserted ++ rows.drop (position - 1))[_]? = _
    change rows.length = oldCount at hrows
    change inserted.length = count at hinserted
    by_cases hlt : row < position
    · rw [if_pos hlt, List.append_assoc, List.getElem?_append_left (by simp; omega),
        List.getElem?_take_of_lt (by omega)]
    · rw [if_neg hlt, List.getElem?_append_right (by simp; omega), List.getElem?_drop]
      congr 1
      simp only [List.length_append, List.length_take]
      omega
  origin := by
    intro new hlo hhi
    change new ≤ oldCount + count at hhi
    by_cases hin : position ≤ new ∧ new < position + count
    · exact .inl ((isInserted_insertion table oldCount position count owner new).mpr hin)
    · by_cases hlt : new < position
      · refine .inr ⟨new, hlo, by change new ≤ oldCount; omega, ?_⟩
        rw [newRow_insertion _ _ _ _ _ hlo (by omega), if_pos hlt]
      · refine .inr ⟨new - count, by omega, by change new - count ≤ oldCount; omega, ?_⟩
        rw [newRow_insertion _ _ _ _ _ (by omega) (by omega), if_neg (by omega)]
        congr 1
        omega

/-! ## Reordering rows -/

/-- Noting the new numbers of a list of rows succeeds only if they are different rows of the table,
and then notes their positions. -/
theorem assign_eq_some {numbers result : Array Nat} {number : Nat} {order : List Nat}
    (hnumber : 0 < number) (h : assign numbers number order = some result) :
    result.size = numbers.size ∧ order.Nodup ∧
      (∀ old ∈ order, 1 ≤ old ∧ old ≤ numbers.size ∧ numbers[old - 1]? = some 0) ∧
      (∀ k old, order[k]? = some old → result[old - 1]? = some (number + k)) ∧
      (∀ p, p + 1 ∉ order → result[p]? = numbers[p]?) := by
  induction order generalizing numbers number with
  | nil =>
      obtain rfl := Option.some.inj h
      exact ⟨rfl, .nil, nofun, by simp, fun _ _ => rfl⟩
  | cons first rest ih =>
      rw [assign] at h
      split at h
      swap
      · cases h
      rename_i hfirst
      obtain ⟨hne, hzero⟩ := hfirst
      have hbound : first - 1 < numbers.size := by
        have := (Array.getElem?_eq_some_iff.mp hzero).1
        exact this
      obtain ⟨hsize, hnodup, hrange, hnumbers, hothers⟩ := ih (Nat.succ_pos number) h
      rw [Array.size_setIfInBounds] at hsize
      have hfresh : first ∉ rest := by
        intro hmem
        have hset := (hrange first hmem).2.2
        rw [Array.getElem?_setIfInBounds_self_of_lt hbound] at hset
        have := Option.some.inj hset
        omega
      refine ⟨hsize, List.nodup_cons.mpr ⟨hfresh, hnodup⟩, ?_, ?_, ?_⟩
      · intro old hmem
        rcases List.mem_cons.mp hmem with rfl | hmem
        · exact ⟨by omega, by omega, hzero⟩
        · obtain ⟨hlo, hhi, hset⟩ := hrange old hmem
          rw [Array.size_setIfInBounds] at hhi
          have hdiff : first - 1 ≠ old - 1 := by
            intro heq
            have : first = old := by omega
            exact hfresh (this ▸ hmem)
          rw [Array.getElem?_setIfInBounds_ne hdiff] at hset
          exact ⟨hlo, hhi, hset⟩
      · intro k old hold
        cases k with
        | zero =>
            obtain rfl : first = old := by simpa using hold
            rw [hothers (first - 1) (by rwa [Nat.sub_add_cancel (by omega)]),
              Array.getElem?_setIfInBounds_self_of_lt hbound, Nat.add_zero]
        | succ k =>
            rw [hnumbers k old (by simpa using hold)]
            congr 1
            omega
      · intro p hp
        rw [List.mem_cons, not_or] at hp
        rw [hothers p hp.2, Array.getElem?_setIfInBounds_ne (by omega)]

/-- The new numbers of a reordered table: every row of the table occurs in the order, and its number
is its position there. -/
theorem permutation_eq_ok {table : Table} {order : List Nat} {renumbering : Renumbering}
    (h : permutation table order = .ok renumbering) :
    ∃ numbers, renumbering = ⟨table, order.length, order.length, .permutation order numbers⟩ ∧
      order.Perm (List.range' 1 order.length) ∧
      ∀ k old, order[k]? = some old → numbers[old - 1]? = some (1 + k) := by
  unfold permutation at h
  split at h
  · rename_i numbers hassign
    obtain ⟨-, hnodup, hrange, hnumbers, -⟩ := assign_eq_some Nat.one_pos hassign
    refine ⟨numbers, (Except.ok.inj h).symm, ?_, hnumbers⟩
    refine (List.subperm_of_subset hnodup fun old hmem => ?_).perm_of_length_le (by simp)
    obtain ⟨hlo, hhi, -⟩ := hrange old hmem
    rw [Array.size_replicate] at hhi
    exact List.mem_range'_1.mpr ⟨hlo, by omega⟩
  · cases h

/-- A row is renumbered to its position in the order. -/
theorem newRow_permutation {table : Table} {order : List Nat} {renumbering : Renumbering}
    (h : permutation table order = .ok renumbering) {k old : Nat} (hold : order[k]? = some old) :
    renumbering.newRow old = some (k + 1) := by
  obtain ⟨numbers, rfl, hperm, hnumbers⟩ := permutation_eq_ok h
  have hrange := List.mem_range'_1.mp (hperm.mem_iff.mp (List.mem_of_getElem? hold))
  rw [newRow, if_neg (by omega)]
  dsimp only
  rw [if_neg (by omega), hnumbers k old hold, Nat.add_comm]

/-- Filtering with a function that is defined on every entry drops none. -/
theorem filterMap_total {α β : Type} {f : α → Option β} {entries : List α}
    (h : ∀ entry ∈ entries, (f entry).isSome) :
    (entries.filterMap f).length = entries.length ∧
      ∀ k : Nat, (entries.filterMap f)[k]? = entries[k]?.bind f := by
  induction entries with
  | nil => simp
  | cons first rest ih =>
      obtain ⟨hlength, hget⟩ := ih fun entry hmem => h entry (.tail _ hmem)
      obtain ⟨value, hvalue⟩ := Option.isSome_iff_exists.mp (h first (.head _))
      rw [List.filterMap_cons_some hvalue]
      refine ⟨by simp [hlength], fun k => ?_⟩
      cases k with
      | zero => simp [hvalue]
      | succ k => simpa using hget k

theorem lawful_permutation {table : Table} {order : List Nat} {renumbering : Renumbering}
    (h : permutation table order = .ok renumbering) : renumbering.Lawful := by
  obtain ⟨numbers, rfl, hperm, -⟩ := permutation_eq_ok h
  have hmem : ∀ row, 1 ≤ row → row ≤ order.length → ∃ k, order[k]? = some row := fun row hlo hhi =>
    List.mem_iff_getElem?.mp (hperm.mem_iff.mpr (List.mem_range'_1.mpr ⟨hlo, by omega⟩))
  have hexists : ∀ old ∈ order, 1 ≤ old ∧ old ≤ order.length := fun old hold => by
    have := List.mem_range'_1.mp (hperm.mem_iff.mp hold)
    omega
  have harrange : ∀ {α : Type} (rows inserted : List α), rows.length = order.length →
      (arrange ⟨table, order.length, order.length, .permutation order numbers⟩ rows
        inserted).length = order.length ∧
      ∀ k : Nat, (arrange ⟨table, order.length, order.length, .permutation order numbers⟩ rows
        inserted)[k]? = order[k]?.bind fun old => rows[old - 1]? := by
    intro α rows inserted hrows
    simp only [arrange, List.getElem?_toArray]
    refine filterMap_total fun old hold => ?_
    have := hexists old hold
    rw [List.getElem?_eq_getElem (by omega)]
    rfl
  refine ⟨?_, fun rows inserted hrows _ => (harrange rows inserted hrows).1, ?_, ?_⟩
  · intro row new hlo hhi hnew
    obtain ⟨k, hk⟩ := hmem row hlo hhi
    obtain rfl := Option.some.inj ((newRow_permutation h hk).symm.trans hnew)
    exact ⟨Nat.succ_pos k, (List.getElem?_eq_some_iff.mp hk).1, rfl⟩
  · intro α rows inserted row new hrows _ hlo hhi hnew
    obtain ⟨k, hk⟩ := hmem row hlo hhi
    obtain rfl := Option.some.inj ((newRow_permutation h hk).symm.trans hnew)
    rw [(harrange rows inserted hrows).2, Nat.add_sub_cancel, hk]
    rfl
  · intro new hlo hhi
    change new ≤ order.length at hhi
    obtain ⟨row, hrow⟩ : ∃ row, order[new - 1]? = some row :=
      ⟨_, List.getElem?_eq_getElem (by omega)⟩
    obtain ⟨hlo', hhi'⟩ := hexists row (List.mem_of_getElem? hrow)
    exact .inr ⟨row, hlo', hhi', by rw [newRow_permutation h hrow, Nat.sub_add_cancel hlo]⟩

/-! ## All edits -/

theorem Made.lawful {renumbering : Renumbering} (h : Made renumbering) : renumbering.Lawful := by
  cases h with
  | removal table oldCount removed => exact lawful_removal table oldCount removed
  | insertion table oldCount position count owner h =>
      exact lawful_insertion table oldCount position count owner h
  | permutation h => exact lawful_permutation h

/-- The rows put in stand at their position. -/
theorem Made.inserted {renumbering : Renumbering} (h : Made renumbering) {position count : Nat}
    {owner : Option (Table × Nat)} (hedit : renumbering.edit = .insertion position count owner)
    {α : Type} {rows inserted : List α} (hrows : rows.length = renumbering.oldCount)
    (hinserted : inserted.length = renumbering.suppliedCount) {n : Nat}
    (hn : n < inserted.length) :
    1 ≤ position ∧ renumbering.isInserted (position + n) = true ∧
      (renumbering.arrange rows inserted)[position + n - 1]? = inserted[n]? := by
  cases h with
  | removal table oldCount removed => cases hedit
  | insertion table oldCount position' count' owner' h =>
      obtain ⟨rfl, rfl, rfl⟩ := RowEdit.insertion.inj hedit
      have hcount : inserted.length = count' := hinserted
      have hposition : 1 ≤ position' ∧ position' ≤ oldCount + 1 := by omega
      refine ⟨hposition.1, ?_, getElem?_arrange_insertion hposition hrows hn⟩
      rw [isInserted_insertion]
      omega
  | permutation h =>
      obtain ⟨numbers, rfl, -⟩ := permutation_eq_ok h
      cases hedit

/-- A row is no row, a row of the table or a row behind its end, and remains so. -/
theorem Lawful.newRow_cases {renumbering : Renumbering} (h : renumbering.Lawful) {row new : Nat}
    (hrow : renumbering.newRow row = some new) :
    (row = 0 ∧ new = 0) ∨
      (1 ≤ row ∧ row ≤ renumbering.oldCount ∧ 1 ≤ new ∧ new ≤ renumbering.newCount) ∨
      (renumbering.oldCount < row ∧ new = row - renumbering.oldCount + renumbering.newCount) := by
  rcases Nat.eq_zero_or_pos row with rfl | hlo
  · rw [newRow_zero] at hrow
    exact .inl ⟨rfl, (Option.some.inj hrow).symm⟩
  · rcases Nat.lt_or_ge renumbering.oldCount row with hlt | hhi
    · rw [newRow_of_lt hlt] at hrow
      exact .inr (.inr ⟨hlt, (Option.some.inj hrow).symm⟩)
    · obtain ⟨hlo', hhi', -⟩ := h.range row new hlo hhi hrow
      exact .inr (.inl ⟨hlo, hhi, hlo', hhi'⟩)

/-- Rows that are different stay different. -/
theorem Lawful.injective {renumbering : Renumbering} (h : renumbering.Lawful) {row row' new : Nat}
    (hrow : renumbering.newRow row = some new) (hrow' : renumbering.newRow row' = some new) :
    row = row' := by
  rcases h.newRow_cases hrow with ⟨_, _⟩ | ⟨hlo, hhi, _, _⟩ | ⟨_, _⟩ <;>
    rcases h.newRow_cases hrow' with ⟨_, _⟩ | ⟨hlo', hhi', _, _⟩ | ⟨_, _⟩ <;> try omega
  -- Both rows are found at the same place when the row numbers themselves are arranged.
  have hnumbers : (List.range' 1 renumbering.oldCount).length = renumbering.oldCount :=
    List.length_range'
  have hblank : (List.replicate renumbering.suppliedCount 0).length = renumbering.suppliedCount :=
    List.length_replicate
  have hfirst := h.survivor _ _ row new hnumbers hblank hlo hhi hrow
  have hsecond := h.survivor _ _ row' new hnumbers hblank hlo' hhi' hrow'
  rw [hfirst, List.getElem?_range' (by omega), List.getElem?_range' (by omega)] at hsecond
  have := Option.some.inj hsecond
  omega

end NativeExports.Renumbering
