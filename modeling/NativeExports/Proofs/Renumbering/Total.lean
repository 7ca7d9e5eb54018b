import NativeExports.Proofs.Renumbering.Failure

/-!
# Renumberings that take no rows out

If every row stays, there is nothing that could refer to a row that is gone.  So rows can always be
put in, and tables can always be reordered.
-/

namespace NativeExports

namespace Renumbering

theorem exists_newRow_insertion (table : Table) (oldCount position count : Nat)
    (owner : Option (Table × Nat)) (row : Nat) :
    ∃ new, (insertion table oldCount position count owner).newRow row = some new := by
  rcases Nat.eq_zero_or_pos row with rfl | hlo
  · exact ⟨0, newRow_zero _⟩
  · rcases Nat.lt_or_ge oldCount row with hlt | hhi
    · exact ⟨_, newRow_of_lt hlt⟩
    · exact ⟨_, newRow_insertion table oldCount position count owner hlo hhi⟩

theorem exists_newRow_permutation {table : Table} {order : List Nat} {renumbering : Renumbering}
    (h : permutation table order = .ok renumbering) (row : Nat) :
    ∃ new, renumbering.newRow row = some new := by
  obtain ⟨numbers, rfl, hperm, -⟩ := permutation_eq_ok h
  rcases Nat.eq_zero_or_pos row with rfl | hlo
  · exact ⟨0, newRow_zero _⟩
  · rcases Nat.lt_or_ge order.length row with hlt | hhi
    · exact ⟨_, newRow_of_lt hlt⟩
    · have hmem : row ∈ order := hperm.mem_iff.mpr (List.mem_range'_1.mpr ⟨hlo, by omega⟩)
      obtain ⟨k, hk⟩ := List.mem_iff_getElem?.mp hmem
      exact ⟨k + 1, newRow_permutation h hk⟩

/-- The new numbers of different rows can be noted. -/
theorem exists_assign {numbers : Array Nat} (number : Nat) {order : List Nat} (hnodup : order.Nodup)
    (hrange : ∀ old ∈ order, 1 ≤ old ∧ numbers[old - 1]? = some 0) :
    ∃ result, assign numbers number order = some result := by
  induction order generalizing numbers number with
  | nil => exact ⟨numbers, rfl⟩
  | cons first rest ih =>
      obtain ⟨hfresh, hnodup⟩ := List.nodup_cons.mp hnodup
      obtain ⟨hlo, hzero⟩ := hrange first (.head _)
      rw [assign, if_pos ⟨by omega, hzero⟩]
      refine ih (number + 1) hnodup fun old hmem => ?_
      obtain ⟨hlo', hzero'⟩ := hrange old (.tail _ hmem)
      have hdiff : first - 1 ≠ old - 1 := fun heq => by
        have : first = old := by omega
        exact hfresh (this ▸ hmem)
      rw [Array.getElem?_setIfInBounds_ne hdiff]
      exact ⟨hlo', hzero'⟩

theorem exists_permutation (table : Table) {order : List Nat}
    (h : order.Perm (List.range' 1 order.length)) :
    ∃ renumbering, permutation table order = .ok renumbering := by
  obtain ⟨numbers, hnumbers⟩ : ∃ numbers,
      assign (Array.replicate order.length 0) 1 order = some numbers := by
    refine exists_assign 1 (h.nodup_iff.mpr List.nodup_range') fun old hmem => ?_
    have hrange := List.mem_range'_1.mp (h.mem_iff.mp hmem)
    refine ⟨hrange.1, ?_⟩
    rw [Array.getElem?_replicate, if_pos (by omega)]
  exact ⟨_, by rw [permutation, hnumbers]⟩

end Renumbering

namespace Assembly

variable {renumbering : Renumbering} {before : Assembly}

/-- An assembly in which the rows of a table can be renumbered: columns refer to existing rows, and
if code can name rows of the table, then the bodies can be read and do not overlap. -/
structure Renumberable (assembly : Assembly) (table : Table) : Prop where
  inRange : ∀ source, ∀ columns ∈ assembly.tables.rows source, ∀ (c : Nat) kind value,
    source.columns[c]? = some kind → columns[c]? = some value → assembly.tables.InRange kind value
  ascending : Ascending assembly.addedBodies
  bodies : table.isCodeTarget = true → assembly.BodiesFit
  added : table.isCodeTarget = true → ∀ entry ∈ assembly.addedBodies, ∃ body instructions,
    MethodBody.read entry.2 = .ok body ∧ Code.decode (body.code entry.2) = .ok instructions

theorem WellFormed.renumberable (h : before.WellFormed) (table : Table) :
    before.Renumberable table where
  inRange := h.inRange
  ascending := h.ascending
  bodies := fun _ => h.bodies
  added := fun _ entry hmem =>
    have ⟨body, instructions, hread, hdecode, _⟩ := h.added entry hmem
    ⟨body, instructions, hread, hdecode⟩

theorem namesKept_of_total {kind : Error → Prop} (h : before.Renumberable renumbering.table)
    (hplain : renumbering.table.isSignatureTarget = false)
    (htotal : ∀ row, ∃ new, renumbering.newRow row = some new) :
    NamesKept kind renumbering before := by
  have hreference : ∀ source row, Outcome.FailsOnly kind (renumbering.newReference source row) :=
    fun source row => by
      obtain ⟨new, hnew⟩ := htotal row
      exact .of_eq_ok (Renumbering.exists_newReference hnew)
  have htoken : ∀ token, Outcome.FailsOnly kind (renumbering.newToken token) := fun token =>
    Renumbering.failsOnly_newToken fun _ => htotal token.row
  refine ⟨?_, htoken _, fun _ entry _ => hreference _ entry.1, ?_, ?_, ?_⟩
  · intro table row row' columns hrow _ c column value hkind hvalue
    exact Renumbering.failsOnly_newColumn table row'
      (h.inRange table columns (Tables.mem_rows.mpr ⟨row, hrow⟩) c column value hkind hvalue)
      fun old _ _ _ _ => hreference table old
  · intro _ row row' columns rva offset body instructions _ _ _ _ _ token _
    exact htoken token
  · intro hcode entry hmem
    obtain ⟨body, instructions, hread, hdecode⟩ := h.added hcode entry hmem
    exact ⟨body, instructions, hread, hdecode, fun token _ => htoken token⟩
  · intro htarget
    rw [hplain] at htarget
    cases htarget

/-- A renumbering that takes no rows out succeeds, if signatures cannot name rows of the table. -/
theorem exists_renumber_of_total {inserted : List Row} (hmade : renumbering.Made)
    (h : before.Renumberable renumbering.table)
    (hplain : renumbering.table.isSignatureTarget = false)
    (htotal : ∀ row, ∃ new, renumbering.newRow row = some new)
    (hcount : before.tables.count renumbering.table = renumbering.oldCount)
    (hlength : inserted.length = renumbering.suppliedCount)
    (hinserted : renumbering.table = .methodDef →
      ∀ columns ∈ inserted, columns.getD MethodDef.rvaColumn 0 = 0) :
    ∃ after, before.renumber renumbering inserted = .ok after := by
  refine Outcome.exists_of_failsOnly (failsOnly_renumber hmade hcount hlength ?_ hinserted
    h.ascending h.bodies (namesKept_of_total h hplain htotal))
  intro htarget
  rw [hplain] at htarget
  cases htarget

end Assembly

end NativeExports
