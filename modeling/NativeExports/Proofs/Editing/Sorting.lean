import NativeExports.Assembly.Sorting
import NativeExports.Proofs.Editing.Renumbered
import NativeExports.Proofs.Renumbering.Total

/-!
# Sorting keeps assemblies consistent

The order that sorting a table asks for is always one of its rows, and no table that is sorted owns
runs, is in runs or can be named by signatures.  So every table can be sorted, which reorders rows
and nothing more.
-/

namespace NativeExports

/-- Signatures cannot name rows of a table that is sorted. -/
theorem Table.isSignatureTarget_of_orderKey : ∀ table : Table, table.orderKey? ≠ none →
    table.isSignatureTarget = false := by
  decide

namespace Assembly

/-- Sorting by a key reorders the rows. -/
theorem perm_keyOrder (key : List Nat) (rows : List Row) :
    (keyOrder key rows).Perm (List.range' 1 rows.length) := by
  have hlengths : (List.range' 1 rows.length).length ≤ (rows.map (keyOf key)).length :=
    Nat.le_of_eq (by rw [List.length_range', List.length_map])
  have hsorted := (List.mergeSort_perm ((rows.map (keyOf key)).zip (List.range' 1 rows.length))
    fun a b => keyLe a.1 b.1).map Prod.snd
  rw [List.map_snd_zip hlengths] at hsorted
  exact hsorted

/-- The assembly with a table in another order. -/
def reordered (assembly : Assembly) (renumbering : Renumbering) : Except Error Assembly :=
  if renumbering.isIdentity then .ok assembly else assembly.renumber renumbering

theorem outcome_sortTable (assembly : Assembly) {table : Table} {key : List Nat}
    (hkey : table.orderKey? = some key) :
    (assembly.sortTable table).outcome = (do
      let renumbering ← Renumbering.permutation table (keyOrder key (assembly.tables.rows table))
      let sorted ← assembly.reordered renumbering
      return { sorted with tables := markSorted sorted.tables table }) := by
  unfold sortTable
  rw [hkey]
  simp only [Logged.outcome_bind, Logged.outcome_monadLift]
  refine congrArg (Renumbering.permutation table _ >>= ·) (funext fun renumbering => ?_)
  unfold reordered
  by_cases hidentity : renumbering.isIdentity = true
  · simp only [if_pos hidentity]
    rfl
  · simp only [if_neg hidentity, Logged.outcome_bind]
    rfl

/-- Noting that a table is sorted changes no row. -/
theorem Consistent.markSorted {assembly : Assembly} (h : assembly.Consistent) (table : Table) :
    ({ assembly with tables := markSorted assembly.tables table } : Assembly).Consistent where
  arity := h.arity
  inRange := h.inRange
  counts := h.counts
  bodies := ⟨h.bodies.found, h.bodies.apart⟩
  bodyTokens := h.bodyTokens
  added := h.added
  ascending := h.ascending
  rows := fun other columns hmem =>
    have hfits := h.rows other columns hmem
    ⟨hfits.arity, hfits.inRange, hfits.resolves, hfits.signature⟩
  apart := h.apart
  runs := ⟨h.runs.within, h.runs.ascending⟩
  names := h.names
  keys := h.keys
  leads := h.leads

/-- A table can be reordered. -/
theorem exists_reorder {assembly : Assembly} (h : assembly.Consistent) {table : Table}
    (hkey : table.orderKey? ≠ none) {order : List Nat} {renumbering : Renumbering}
    (hpermutation : Renumbering.permutation table order = .ok renumbering)
    (hlength : order.length = assembly.tables.count table) :
    ∃ after, assembly.renumber renumbering = .ok after ∧ after.Refines assembly := by
  have hmade : renumbering.Made := .permutation hpermutation
  have hkeeps := Renumbering.keepsRuns_permutation hkey hpermutation
  have htotal := Renumbering.exists_newRow_permutation hpermutation
  obtain ⟨numbers, rfl, -⟩ := Renumbering.permutation_eq_ok hpermutation
  have hplain := table.isSignatureTarget_of_orderKey hkey
  obtain ⟨after, hafter⟩ : ∃ after,
      assembly.renumber ⟨table, _, _, .permutation order numbers⟩ [] = .ok after :=
    exists_renumber_of_total hmade (h.renumberable _) hplain htotal hlength.symm rfl nofun
  have hnone : ∀ position count owner,
      RowEdit.permutation order numbers ≠ .insertion position count owner := nofun
  refine ⟨after, hafter, ?_, ?_, fun token hnames =>
    .inl ((outerNames_of_renumber hmade h.toWellFormed hafter).mp hnames)⟩
  · exact consistent_of_renumber hmade hkeeps h (insertable_nil assembly hnone)
      (hlength ▸ h.counts table) hafter
  · obtain ⟨hstrings, hliterals, hguids⟩ := heaps_of_renumber hafter
    obtain ⟨hblobs, -⟩ := signatures_of_renumber hmade hplain hafter
    refine ⟨fun other => ?_, hstrings ▸ List.prefix_refl _, hblobs ▸ List.prefix_refl _, hguids,
      hliterals⟩
    rw [(movedTo_of_renumber hmade hafter).counts]
    split
    · rename_i heq
      rw [heq]
      exact Nat.le_of_eq hlength.symm
    · exact Nat.le_refl _

theorem exists_sortTable {assembly : Assembly} (h : assembly.Consistent) (table : Table) :
    ∃ after, (assembly.sortTable table).outcome = .ok after ∧ after.Refines assembly := by
  cases hkey : table.orderKey? with
  | none =>
      refine ⟨assembly, ?_, .refl h⟩
      unfold sortTable
      rw [hkey]
      rfl
  | some key =>
      have hperm := perm_keyOrder key (assembly.tables.rows table)
      have hlength := hperm.length_eq
      rw [List.length_range'] at hlength
      obtain ⟨renumbering, hpermutation⟩ :=
        Renumbering.exists_permutation table (hlength.symm ▸ hperm)
      obtain ⟨sorted, hsorted, hrefines⟩ : ∃ sorted,
          assembly.reordered renumbering = .ok sorted ∧ sorted.Refines assembly := by
        unfold reordered
        split
        · exact ⟨assembly, rfl, .refl h⟩
        · exact exists_reorder h (by rw [hkey]; nofun) hpermutation hlength
      refine ⟨{ sorted with tables := markSorted sorted.tables table }, ?_, ?_⟩
      · rw [outcome_sortTable assembly hkey, hpermutation, Outcome.ok_bind, hsorted]
        rfl
      · exact ⟨hrefines.consistent.markSorted table, ⟨hrefines.covers.counts,
          hrefines.covers.strings, hrefines.covers.blobs, hrefines.covers.guids,
          hrefines.covers.literals⟩, hrefines.outer⟩

/-- All tables can be sorted. -/
theorem exists_sortAll {assembly : Assembly} (h : assembly.Consistent) :
    ∃ after, assembly.sortAll.outcome = .ok after ∧ after.Refines assembly := by
  unfold sortAll
  rw [Logged.outcome_foldlM]
  refine Outcome.exists_foldlM
    (motive := fun _ (reached : Assembly) => reached.Refines assembly) ?_ (.refl h)
  intro table rest reached hreached
  obtain ⟨after, hafter, hrefines⟩ := exists_sortTable hreached.consistent table
  exact ⟨after, hafter, hreached.trans hrefines⟩

end Assembly

end NativeExports
