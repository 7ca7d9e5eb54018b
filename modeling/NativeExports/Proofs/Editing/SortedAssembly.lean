import NativeExports.Proofs.Editing.SortedTables

/-!
# Sorting an assembly

Every table with a key can be sorted, and no other part of the assembly hinders it: no code and no
signature names rows of such tables.  After the last table all of them are in order, and sorting a
second time finds nothing to do.
-/

namespace NativeExports

namespace Assembly

variable {before after : Assembly} {table : Table} {key : List Nat} {renumbering : Renumbering}

/-- A column moves with the rows of the table. -/
theorem columnMoved_of_newColumn {tables : Tables} {order : List Nat}
    (hpermutation : Renumbering.permutation table order = .ok renumbering)
    (hlength : order.length = tables.count table) (hkey : table.orderKey? ≠ none) {source : Table}
    {row value value' c : Nat} {kind : ColumnKind} (hkind : source.columns[c]? = some kind)
    (hin : tables.InRange kind value)
    (h : renumbering.newColumn source row kind value = .ok value') :
    Tables.ColumnMoved [table] (tables.reorder table order) kind value value' := by
  have htable : renumbering.table = table := by
    obtain ⟨numbers, rfl, -⟩ := Renumbering.permutation_eq_ok hpermutation
    rfl
  have hmoves : ∀ {row row'}, row ≤ tables.count table → renumbering.newReference source row =
      .ok row' → StandsAt (tables.reorder table order table) row row' := by
    intro row row' hle hnew
    rw [tables.reorder_self]
    exact Renumbering.standsAt_of_newRow hpermutation (hlength ▸ hle) (newReference_eq_ok.mp hnew)
  have hstays : ∀ {target row}, target ≠ table → row ≤ tables.count target →
      StandsAt (tables.reorder table order target) row row := by
    intro target row hne hle
    rw [tables.reorder_of_ne _ hne]
    exact standsAt_range' hle
  cases kind with
  | index target =>
      simp only [Renumbering.newColumn, htable] at h
      split at h
      · rename_i htarget
        subst htarget
        exact hmoves hin h
      · rename_i htarget
        obtain rfl := Except.ok.inj h
        exact hstays htarget hin
  | list target =>
      have hne : target ≠ table := fun heq =>
        table.not_list_of_orderKey hkey source (heq ▸ List.mem_of_getElem? hkind)
      simp only [Renumbering.newColumn, htable, if_neg hne] at h
      exact (Except.ok.inj h).symm
  | coded coded =>
      obtain ⟨target, named, hdecode, hle⟩ := hin
      simp only [Renumbering.newColumn, htable, hdecode, Outcome.ok_bind] at h
      by_cases hmoved : target = table ∧ named ≠ 0
      · obtain ⟨rfl, hne⟩ := hmoved
        rw [if_pos (CodedKind.contains_of_decode hdecode), if_pos ⟨rfl, hne⟩] at h
        obtain ⟨named', hnamed, hencode⟩ := Outcome.bind_eq_ok.mp h
        exact ⟨_, named, named', hdecode, hmoves hle hnamed, .inr ⟨.head _, hencode⟩⟩
      · obtain rfl : value = value' := by
          rw [if_neg hmoved] at h
          split at h <;> exact Except.ok.inj h
        refine ⟨target, named, named, hdecode, ?_, .inl ⟨rfl, rfl⟩⟩
        by_cases htarget : target = table
        · exact .inl ⟨not_not.mp fun hne => hmoved ⟨htarget, hne⟩,
            not_not.mp fun hne => hmoved ⟨htarget, hne⟩⟩
        · exact hstays htarget hle
  | _ => exact (Except.ok.inj h).symm

theorem moved_of_renumber {order : List Nat} (hwf : before.tables.WellFormed)
    (hpermutation : Renumbering.permutation table order = .ok renumbering)
    (hlength : order.length = before.tables.count table) (hkey : table.orderKey? ≠ none)
    (h : before.renumber renumbering = .ok after) :
    Tables.Moved [table] (before.tables.reorder table order) before.tables after.tables := by
  have hmade : renumbering.Made := .permutation hpermutation
  have hmoved := movedTo_of_renumber hmade h
  obtain ⟨numbers, hrenumbering, hperm, -⟩ := Renumbering.permutation_eq_ok hpermutation
  have htable : renumbering.table = table := by rw [hrenumbering]
  have hplain : renumbering.table.isSignatureTarget = false := by
    rw [htable]
    exact table.isSignatureTarget_of_orderKey hkey
  obtain ⟨-, hsignatures⟩ := signatures_of_renumber hmade hplain h
  constructor
  · intro other
    by_cases hother : other = table
    · subst hother
      rwa [Tables.reorder_self, ← hlength]
    · rw [Tables.reorder_of_ne _ _ hother]
  · intro other
    rw [hmoved.counts, htable]
    split
    · rename_i hother
      subst hother
      rw [← hlength, hrenumbering]
    · rfl
  · intro other row row' columns hrow hstands
    have hplace : renumbering.place other row = some row' := by
      by_cases hother : other = table
      · subst hother
        rw [Tables.reorder_self] at hstands
        rw [← htable, renumbering.place_self]
        exact Renumbering.newRow_of_standsAt hpermutation hstands
      · rw [Tables.reorder_of_ne _ _ hother] at hstands
        rw [renumbering.place_of_ne (htable ▸ hother), eq_of_standsAt_range' hstands]
    obtain ⟨columns', hrow', hlength', hcolumns⟩ := hmoved.rows other row row' columns hrow hplace
    refine ⟨columns', hrow', hlength', fun c kind value hkind hvalue => ?_⟩
    by_cases hc : Tables.IsSignatureColumn other c
    · refine ⟨value, ?_, ?_⟩
      · rw [hsignatures other row row' columns columns' hrow hplace hrow' c hc, hvalue]
      · obtain ⟨site, hsite, rfl, rfl⟩ := hc
        obtain rfl := Option.some.inj (hkind.symm.trans (Tables.kind_of_signatureColumn site hsite))
        rfl
    · obtain ⟨value', hvalue', hnew⟩ := hcolumns c kind value hkind hvalue hc
      have hin :=
        hwf.inRange other columns (Tables.mem_rows.mpr ⟨row, hrow⟩) c kind value hkind hvalue
      exact ⟨value', hvalue', columnMoved_of_newColumn hpermutation hlength hkey hkind hin hnew⟩

theorem sorted_of_newTables {arranged renewed : Tables}
    (h : renumbering.newTables arranged = .ok renewed) : renewed.sorted = arranged.sorted := by
  have hfold : Table.all.foldlM renumbering.renewTable arranged = .ok renewed := h
  refine Outcome.foldlM_preserves (motive := fun tables => tables.sorted = arranged.sorted)
    (fun source _ tables tables' hsorted hstep => ?_) rfl hfold
  unfold Renumbering.renewTable at hstep
  split at hstep
  · obtain ⟨rows, -, hstep⟩ := Outcome.bind_eq_ok.mp hstep
    rwa [← Outcome.pure_eq_ok.mp hstep]
  · rwa [← Except.ok.inj hstep]

/-- A table with a key can be put in another order, which changes nothing but the tables and the
entry point. -/
theorem exists_renumber_permutation {order : List Nat} (hwf : before.tables.WellFormed)
    (hpermutation : Renumbering.permutation table order = .ok renumbering)
    (hlength : order.length = before.tables.count table) (hkey : table.orderKey? ≠ none) :
    ∃ tables entryPoint, before.renumber renumbering =
        .ok (before.withTables tables entryPoint before.addedBodies) ∧
      tables.sorted = before.tables.sorted := by
  have hmade : renumbering.Made := .permutation hpermutation
  have htotal := Renumbering.exists_newRow_permutation hpermutation
  obtain ⟨numbers, hrenumbering, -⟩ := Renumbering.permutation_eq_ok hpermutation
  have htable : renumbering.table = table := by rw [hrenumbering]
  have hcode : renumbering.table.isCodeTarget = false :=
    htable ▸ table.isCodeTarget_of_orderKey hkey
  have hplain : renumbering.table.isSignatureTarget = false :=
    htable ▸ table.isSignatureTarget_of_orderKey hkey
  have hmethod : renumbering.table ≠ .methodDef := by
    rintro heq
    rw [heq] at hcode
    cases hcode
  have hkept : NamesKept (fun _ => False) renumbering before := by
    refine ⟨?_, Renumbering.failsOnly_newToken fun _ => htotal _, fun heq => absurd heq hmethod, ?_,
      ?_, ?_⟩
    · intro source row row' columns hrow _ c column value hkind hvalue
      refine Renumbering.failsOnly_newColumn source row'
        (hwf.inRange source columns
          (Tables.mem_rows.mpr ⟨row, hrow⟩) c column value hkind hvalue) ?_
      intro old _ _ _ _
      obtain ⟨new, hnew⟩ := htotal old
      exact .of_eq_ok (Renumbering.exists_newReference hnew)
    · intro htarget
      rw [hcode] at htarget
      cases htarget
    · intro htarget
      rw [hcode] at htarget
      cases htarget
    · intro htarget
      rw [hplain] at htarget
      cases htarget
  have hcount : before.tables.count renumbering.table = renumbering.oldCount := by
    rw [hrenumbering]
    exact hlength.symm
  have hnone : ([] : List Row).length = renumbering.suppliedCount := by rw [hrenumbering]; rfl
  obtain ⟨arranged, harranged⟩ :=
    Outcome.exists_of_failsOnly (failsOnly_rearrange hcount hnone)
  obtain ⟨renewed, hrenewed⟩ :=
    Outcome.exists_of_failsOnly (failsOnly_newTables_of_namesKept hmade hkept harranged)
  obtain ⟨entryPoint, hentry⟩ :=
    Outcome.exists_of_failsOnly (failsOnly_newEntryPoint hkept.entryPoint)
  refine ⟨renewed, entryPoint, ?_, ?_⟩
  · rw [renumber_eq, harranged, Outcome.ok_bind, hrenewed, Outcome.ok_bind, hentry, Outcome.ok_bind,
      rekeyed, if_neg hmethod, Outcome.ok_bind, patched, if_neg (by simp [hcode]), Outcome.ok_bind,
      resigned, if_neg (by simp [hplain])]
  · rw [sorted_of_newTables hrenewed]
    obtain ⟨-, -, rfl⟩ := rearrange_eq_ok harranged
    rfl

/-! ### One table after the other -/

/-- Two assemblies differ in their tables and the entry point only. -/
def SameButTables (before after : Assembly) : Prop :=
  ∃ tables entryPoint, after = before.withTables tables entryPoint before.addedBodies

theorem SameButTables.refl (assembly : Assembly) : assembly.SameButTables assembly :=
  ⟨assembly.tables, assembly.entryPoint, rfl⟩

theorem SameButTables.trans {middle : Assembly} (h : before.SameButTables middle)
    (h' : middle.SameButTables after) : before.SameButTables after := by
  obtain ⟨tables, entryPoint, rfl⟩ := h
  obtain ⟨tables', entryPoint', rfl⟩ := h'
  exact ⟨tables', entryPoint', rfl⟩

/-- A table with a key can be sorted. -/
theorem exists_sortTable_of_key (hwf : before.tables.WellFormed)
    (hkey : table.orderKey? = some key) :
    ∃ after, (before.sortTable table).outcome = .ok after ∧ before.SameButTables after ∧
      after.tables.sorted = before.tables.sorted ||| table.bit ∧
      Tables.Moved [table] (before.tables.reorder table (keyOrder key (before.tables.rows table)))
        before.tables after.tables := by
  have hperm := perm_keyOrder key (before.tables.rows table)
  have hlength := hperm.length_eq
  rw [List.length_range'] at hlength
  obtain ⟨renumbering, hpermutation⟩ :=
    Renumbering.exists_permutation table (hlength.symm ▸ hperm)
  have hne : table.orderKey? ≠ none := by rw [hkey]; nofun
  obtain ⟨sorted, hsorted, hsame, hmask, hmoved⟩ : ∃ sorted,
      before.reordered renumbering = .ok sorted ∧ before.SameButTables sorted ∧
        sorted.tables.sorted = before.tables.sorted ∧
        Tables.Moved [table]
          (before.tables.reorder table (keyOrder key (before.tables.rows table)))
          before.tables sorted.tables := by
    unfold reordered
    split
    · rename_i hidentity
      refine ⟨before, rfl, .refl before, rfl, ?_⟩
      rw [(Renumbering.isIdentity_permutation hpermutation).mp hidentity, hlength]
      have hsame : before.tables.reorder table (List.range' 1 (before.tables.count table)) =
          fun other => List.range' 1 (before.tables.count other) := Function.update_eq_self table _
      exact hsame ▸ Tables.Moved.refl [table] hwf
    · obtain ⟨tables, entryPoint, hrenumber, hmask⟩ :=
        exists_renumber_permutation hwf hpermutation hlength hne
      exact ⟨_, hrenumber, ⟨tables, entryPoint, rfl⟩, hmask,
        moved_of_renumber hwf hpermutation hlength hne hrenumber⟩
  refine ⟨{ sorted with tables := markSorted sorted.tables table }, ?_, ?_, ?_, ?_⟩
  · rw [outcome_sortTable before hkey, hpermutation, Outcome.ok_bind, hsorted]
    rfl
  · obtain ⟨tables, entryPoint, rfl⟩ := hsame
    exact ⟨markSorted tables table, entryPoint, rfl⟩
  · rw [← hmask]
    rfl
  · exact ⟨hmoved.perm, hmoved.counts, hmoved.rows⟩

/-- How far sorting has come when the tables in `done` are sorted and marked as such. -/
def SortedUpTo (done : List Table) (before after : Assembly) : Prop :=
  (∃ order, Tables.Reached done order before.tables after.tables) ∧ before.SameButTables after ∧
    ∀ table ∈ done, table.orderKey? ≠ none → after.tables.sorted ||| table.bit = after.tables.sorted

/-- The next table is sorted. -/
theorem SortedUpTo.exists_step {done rest : List Table} (hwf : before.tables.WellFormed)
    (hdone : sortingOrder = done ++ table :: rest) (h : SortedUpTo done before after) :
    ∃ next, (after.sortTable table).outcome = .ok next ∧
      SortedUpTo (done ++ [table]) before next := by
  obtain ⟨⟨order, hreached⟩, hsame, hmarks⟩ := h
  have hnodup : sortingOrder.Nodup := by decide +kernel
  have hapart := pairwise_sortingOrder
  rw [hdone] at hnodup hapart
  have hfresh : table ∉ done := fun hmem =>
    (List.nodup_append.mp hnodup).2.2 table hmem table (.head _) rfl
  rcases hkey : table.orderKey? with - | key
  · refine ⟨after, ?_, ⟨order, hreached.skip hkey hfresh⟩, hsame, fun other hmem hother => ?_⟩
    · unfold sortTable
      rw [hkey]
      rfl
    · rcases List.mem_append.mp hmem with hmem | hmem
      · exact hmarks other hmem hother
      · exact absurd (List.mem_singleton.mp hmem ▸ hkey) hother
  · obtain ⟨next, hnext, hsame', hmask, hmoved⟩ :=
      exists_sortTable_of_key (hreached.wellFormed hwf) hkey
    refine ⟨next, hnext, ⟨_, hreached.step hkey hmoved hfresh fun other hmem => ?_⟩,
      hsame.trans hsame', fun other hmem hother => ?_⟩
    · exact (List.pairwise_append.mp hapart).2.2 other hmem table (.head _) (by rw [hkey]; nofun)
    · rw [hmask]
      rcases List.mem_append.mp hmem with hmem | hmem
      · rw [Nat.or_assoc, Nat.or_comm table.bit, ← Nat.or_assoc, hmarks other hmem hother]
      · rw [List.mem_singleton.mp hmem, Nat.or_assoc, Nat.or_self]

end Assembly

end NativeExports
