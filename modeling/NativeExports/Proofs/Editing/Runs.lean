import NativeExports.Proofs.Renumbering.Rows

/-!
# Runs of rows under renumbering

The rows of some tables own runs of rows of another table.  A row stores where its run begins, and
the run ends where that of the next row begins; so ownership makes sense only as long as the stored
numbers do not decrease down the table and none of them is beyond the end of the other table.  This
is kept when rows are taken out or reordered, and when rows are put in whose runs begin where those
of their neighbours allow it.
-/

namespace NativeExports

/-- Where runs begin does not decrease down a table, and is at a row or right behind the last
one. -/
structure Tables.RunsOrdered (tables : Tables) : Prop where
  within : ∀ table (c : Nat) target row value, table.columns[c]? = some (.list target) →
    tables.value table row c = .ok value → 1 ≤ value ∧ value ≤ tables.count target + 1
  ascending : ∀ table (c : Nat) target row row' value value',
    table.columns[c]? = some (.list target) → row ≤ row' → tables.value table row c = .ok value →
      tables.value table row' c = .ok value' → value ≤ value'

/-- Runs that all begin at the first row are in order. -/
theorem Tables.RunsOrdered.of_ones {tables : Tables} (h : ∀ table, ∀ columns ∈ tables.rows table,
    ∀ entry ∈ table.columns.zip columns, ∀ target, entry.1 = .list target → entry.2 = 1) :
    tables.RunsOrdered := by
  have hone : ∀ {table : Table} {c row value : Nat} {target},
      table.columns[c]? = some (.list target) → tables.value table row c = .ok value →
        value = 1 := by
    intro table c row value target hkind hvalue
    obtain ⟨columns, hrow, hget⟩ := Tables.value_eq_ok.mp hvalue
    exact h table columns (Tables.mem_rows.mpr ⟨row, hrow⟩) (.list target, value)
      (List.mem_of_getElem? (List.getElem?_zip_eq_some.mpr ⟨hkind, hget⟩)) target rfl
  constructor
  · intro table c target row value hkind hvalue
    rw [hone hkind hvalue]
    exact ⟨Nat.le_refl _, Nat.succ_pos _⟩
  · intro table c target row row' value value' hkind _ hvalue hvalue'
    exact Nat.le_of_eq ((hone hkind hvalue).trans (hone hkind hvalue').symm)

theorem Table.not_list_self : ∀ table : Table, ColumnKind.list table ∉ table.columns := by
  decide

/-- A table that is sorted is not in runs. -/
theorem Table.not_list_of_orderKey : ∀ table : Table, table.orderKey? ≠ none →
    ∀ source : Table, ColumnKind.list table ∉ source.columns := by
  decide

/-- The rows of a table that is sorted own no runs. -/
theorem Table.not_owns_of_orderKey : ∀ table : Table, table.orderKey? ≠ none →
    ∀ target : Table, ColumnKind.list target ∉ table.columns := by
  decide

namespace Renumbering

/-- Runs stay in order: rows that own runs keep their order, and where runs begin does so, too. -/
structure KeepsRuns (renumbering : Renumbering) : Prop where
  rows : ∀ target, ColumnKind.list target ∈ renumbering.table.columns → ∀ row row' new new',
    row ≤ row' → row' ≤ renumbering.oldCount → renumbering.newRow row = some new →
      renumbering.newRow row' = some new' → new ≤ new'
  starts : ∀ source, ColumnKind.list renumbering.table ∈ source.columns →
    ∀ owner owner' value value', owner ≤ owner' → 1 ≤ value → value ≤ value' →
      value' ≤ renumbering.oldCount + 1 →
        1 ≤ renumbering.newStart source owner value ∧
        renumbering.newStart source owner value ≤ renumbering.newStart source owner' value' ∧
        renumbering.newStart source owner' value' ≤ renumbering.newCount + 1

theorem count_take_le {kept : List Bool} {m n : Nat} (h : m ≤ n) :
    (kept.take m).count true ≤ (kept.take n).count true :=
  ((List.take_prefix_take_left h).sublist).count_le true

/-- A run begins behind the rows in front of it that stay. -/
theorem newStart_removal {table source : Table} {oldCount owner value : Nat} {removed : List Nat}
    (hhi : value ≤ oldCount + 1) :
    (removal table oldCount removed).newStart source owner value =
      ((keeps oldCount removed).take (value - 1)).count true + 1 := by
  have hbelow : (keptBelow #[] 0 (keeps oldCount removed))[value - 1]? =
      some (((keeps oldCount removed).take (value - 1)).count true) := by
    rw [getElem?_keptBelow]
    simp
    omega
  unfold keeps at hbelow ⊢
  unfold newStart removal
  dsimp only
  rw [hbelow]

theorem keepsRuns_removal (table : Table) (oldCount : Nat) (removed : List Nat) :
    (removal table oldCount removed).KeepsRuns where
  rows := by
    intro target _ row row' new new' hle hhi hnew hnew'
    change row' ≤ oldCount at hhi
    rcases Nat.eq_zero_or_pos row with rfl | hlo
    · rw [newRow_zero] at hnew
      rw [← Option.some.inj hnew]
      exact Nat.zero_le _
    rw [newRow_removal hlo (Nat.le_trans hle hhi)] at hnew
    rw [newRow_removal (Nat.le_trans hlo hle) hhi] at hnew'
    split at hnew
    · cases hnew
    split at hnew'
    · cases hnew'
    rw [← Option.some.inj hnew, ← Option.some.inj hnew']
    exact Nat.succ_le_succ (count_take_le (Nat.sub_le_sub_right hle 1))
  starts := by
    intro source _ owner owner' value value' _ _ hle hhi
    change value' ≤ oldCount + 1 at hhi
    rw [newStart_removal (Nat.le_trans hle hhi), newStart_removal hhi]
    refine ⟨Nat.succ_pos _, Nat.succ_le_succ (count_take_le (Nat.sub_le_sub_right hle 1)), ?_⟩
    change _ ≤ (keeps oldCount removed).count true + 1
    exact Nat.succ_le_succ ((List.take_sublist _ _).count_le true)

theorem keepsRuns_insertion (table : Table) (oldCount position count : Nat)
    (owner : Option (Table × Nat)) :
    (insertion table oldCount position count owner).KeepsRuns where
  rows := by
    intro target _ row row' new new' hle hhi hnew hnew'
    change row' ≤ oldCount at hhi
    rcases Nat.eq_zero_or_pos row with rfl | hlo
    · rw [newRow_zero] at hnew
      rw [← Option.some.inj hnew]
      exact Nat.zero_le _
    rw [newRow_insertion _ _ _ _ _ hlo (Nat.le_trans hle hhi)] at hnew
    rw [newRow_insertion _ _ _ _ _ (Nat.le_trans hlo hle) hhi] at hnew'
    rw [← Option.some.inj hnew, ← Option.some.inj hnew']
    split <;> split <;> omega
  starts := by
    intro source _ first second value value' hfirst hlo hle hhi
    change value' ≤ oldCount + 1 at hhi
    simp only [newStart, insertion]
    -- Where a run begins depends on its owner only at the position where rows are put in.
    cases owner with
    | none =>
        dsimp only
        refine ⟨?_, ?_, ?_⟩ <;> (repeat' split) <;> omega
    | some receiver =>
        by_cases hsource : receiver.1 = source
        · simp only [hsource, true_and]
          refine ⟨?_, ?_, ?_⟩ <;> (repeat' split) <;> omega
        · simp only [hsource, false_and, if_false]
          refine ⟨?_, ?_, ?_⟩ <;> (repeat' split) <;> omega

theorem keepsRuns_permutation {table : Table} {order : List Nat} {renumbering : Renumbering}
    (hkey : table.orderKey? ≠ none) (h : permutation table order = .ok renumbering) :
    renumbering.KeepsRuns := by
  obtain ⟨numbers, rfl, -⟩ := permutation_eq_ok h
  exact ⟨fun target hin => absurd hin (table.not_owns_of_orderKey hkey target),
    fun source hin => absurd hin (table.not_list_of_orderKey hkey source)⟩

/-- The runs of the rows that are put in all begin at one place between those of their
neighbours. -/
def RunsFit (renumbering : Renumbering) (inserted : List Row) (tables : Tables) : Prop :=
  ∀ position count owner, renumbering.edit = .insertion position count owner →
    ∀ (c : Nat) target, renumbering.table.columns[c]? = some (.list target) →
      ∃ start, 1 ≤ start ∧ start ≤ tables.count target + 1 ∧
        (∀ columns ∈ inserted, ∀ value, columns[c]? = some value → value = start) ∧
        ∀ row value, tables.value renumbering.table row c = .ok value →
          (row < position → value ≤ start) ∧ (position ≤ row → start ≤ value)

theorem newRow_of_edit {renumbering : Renumbering} {position count row : Nat}
    {owner : Option (Table × Nat)} (hedit : renumbering.edit = .insertion position count owner)
    (hlo : 1 ≤ row) (hhi : row ≤ renumbering.oldCount) :
    renumbering.newRow row = some (if row < position then row else row + count) := by
  rw [newRow, if_neg (by omega), if_neg (by omega), hedit]

theorem isInserted_eq_true {renumbering : Renumbering} {row : Nat}
    (h : renumbering.isInserted row = true) : ∃ position count owner,
      renumbering.edit = .insertion position count owner ∧ position ≤ row ∧
        row < position + count := by
  unfold isInserted at h
  split at h
  · rename_i position count owner hedit
    simp only [Bool.and_eq_true, decide_eq_true_eq] at h
    exact ⟨position, count, owner, hedit, h.1, h.2⟩
  · cases h

end Renumbering

namespace Assembly

section

variable {renumbering : Renumbering} {inserted : List Row} {before after : Tables}

theorem not_isSignatureColumn_of_list {table : Table} {c : Nat} {target : Table}
    (h : table.columns[c]? = some (.list target)) : ¬Tables.IsSignatureColumn table c := by
  rintro ⟨site, hsite, rfl, rfl⟩
  rw [Tables.kind_of_signatureColumn site hsite] at h
  cases h

/-- Where a run begins after a renumbering. -/
theorem list_of_movedTo (hmoved : before.MovedTo renumbering inserted after) {table : Table}
    {c : Nat} {target : Table} {row' value' : Nat} (hkind : table.columns[c]? = some (.list target))
    (h : after.value table row' c = .ok value') :
    (table = renumbering.table ∧ renumbering.isInserted row' = true ∧
      ∃ columns ∈ inserted, columns[c]? = some value') ∨
    ∃ row value, renumbering.place table row = some row' ∧ before.value table row c = .ok value ∧
      value' =
        if target = renumbering.table then renumbering.newStart table row' value else value := by
  obtain ⟨columns', hrow', hvalue'⟩ := Tables.value_eq_ok.mp h
  have hc := not_isSignatureColumn_of_list hkind
  rcases hmoved.origin table row' columns' hrow' with ⟨rfl, hin⟩ | ⟨row, columns, hrow, hplace⟩
  · obtain ⟨columns, hmem, columns'', hget, hsame⟩ := hmoved.of_isInserted hin
    obtain rfl := Option.some.inj (hrow'.symm.trans hget)
    exact .inl ⟨rfl, hin, columns, hmem, (hsame.2 c hc).symm.trans hvalue'⟩
  · obtain ⟨columns'', hget, hlength, hfollows⟩ := hmoved.rows table row row' columns hrow hplace
    obtain rfl := Option.some.inj (hrow'.symm.trans hget)
    have hlt : c < columns.length := hlength ▸ (List.getElem?_eq_some_iff.mp hvalue').1
    have hvalue := List.getElem?_eq_getElem hlt
    obtain ⟨value'', hget', hnew⟩ := hfollows c _ _ hkind hvalue hc
    obtain rfl := Option.some.inj (hvalue'.symm.trans hget')
    exact .inr ⟨row, columns[c], hplace, Tables.value_eq_ok.mpr ⟨columns, hrow, hvalue⟩,
      (Except.ok.inj hnew).symm⟩

/-- Rows that own runs are in the order of the rows that they come from. -/
theorem le_of_place (hlawful : renumbering.Lawful) (hkeeps : renumbering.KeepsRuns)
    (hcount : before.count renumbering.table = renumbering.oldCount) {table target : Table}
    (hlist : ColumnKind.list target ∈ table.columns) {first second first' second' : Nat}
    (hfirst : renumbering.place table first = some first')
    (hsecond : renumbering.place table second = some second')
    (hrow : first ≤ before.count table) (hle : first' ≤ second') : first ≤ second := by
  by_cases htable : table = renumbering.table
  · subst htable
    rw [renumbering.place_self] at hfirst hsecond
    by_contra hgt
    have hback := hkeeps.rows target hlist second first second' first' (by omega) (hcount ▸ hrow)
      hsecond hfirst
    obtain rfl : first' = second' := Nat.le_antisymm hle hback
    exact hgt (Nat.le_of_eq (hlawful.injective hfirst hsecond))
  · rw [Renumbering.place_of_ne htable] at hfirst hsecond
    rw [Option.some.inj hfirst, Option.some.inj hsecond]
    exact hle

/-- A table that rows are put in is not the one that its own runs are in. -/
theorem ne_of_list {c : Nat} {target : Table}
    (hkind : renumbering.table.columns[c]? = some (.list target)) : target ≠ renumbering.table := by
  rintro rfl
  exact Table.not_list_self _ (List.mem_of_getElem? hkind)

/-- The run of a row that is put in begins between those of the rows around it. -/
theorem insertedStart_between (hfit : renumbering.RunsFit inserted before)
    (hmoved : before.MovedTo renumbering inserted after) {c row' value' : Nat} {target : Table}
    (hkind : renumbering.table.columns[c]? = some (.list target))
    (hin : renumbering.isInserted row' = true)
    (hsupplied : ∃ columns ∈ inserted, columns[c]? = some value') :
    1 ≤ value' ∧ value' ≤ after.count target + 1 ∧
      ∀ row value new, before.value renumbering.table row c = .ok value →
        renumbering.newRow row = some new →
          (new ≤ row' → value ≤ value') ∧ (row' ≤ new → value' ≤ value) := by
  obtain ⟨columns, hmem, hvalue⟩ := hsupplied
  obtain ⟨position, count, owner, hedit, hlo, hhi⟩ := Renumbering.isInserted_eq_true hin
  obtain ⟨start, hstart, hend, hsame, hbetween⟩ := hfit position count owner hedit c target hkind
  obtain rfl := hsame columns hmem value' hvalue
  refine ⟨hstart, ?_, fun row value new hrow hnew => ?_⟩
  · rw [hmoved.counts, if_neg (ne_of_list hkind)]
    exact hend
  · obtain ⟨hlo', hhi'⟩ := Tables.bounds_of_value hrow
    rw [Renumbering.newRow_of_edit hedit hlo' (hmoved.fits.1 ▸ hhi')] at hnew
    obtain rfl := Option.some.inj hnew
    obtain ⟨hbelow, habove⟩ := hbetween row value hrow
    constructor
    · intro hle
      apply hbelow
      split at hle <;> omega
    · intro hle
      apply habove
      split at hle <;> omega

/-- The runs of rows that are put in all begin at one place. -/
theorem insertedStart_unique (hfit : renumbering.RunsFit inserted before)
    {c row' first second : Nat}
    {target : Table} (hkind : renumbering.table.columns[c]? = some (.list target))
    (hin : renumbering.isInserted row' = true)
    (hfirst : ∃ columns ∈ inserted, columns[c]? = some first)
    (hsecond : ∃ columns ∈ inserted, columns[c]? = some second) : first = second := by
  obtain ⟨position, count, owner, hedit, -⟩ := Renumbering.isInserted_eq_true hin
  obtain ⟨start, -, -, hsame, -⟩ := hfit position count owner hedit c target hkind
  obtain ⟨columns, hmem, hget⟩ := hfirst
  obtain ⟨columns', hmem', hget'⟩ := hsecond
  exact (hsame columns hmem _ hget).trans (hsame columns' hmem' _ hget').symm

/-- Runs go on to begin at rows of their table or right behind the last one. -/
theorem startWithin_of_movedTo (hkeeps : renumbering.KeepsRuns) (hruns : before.RunsOrdered)
    (hfit : renumbering.RunsFit inserted before)
    (hmoved : before.MovedTo renumbering inserted after)
    {table target : Table} {c row' value' : Nat} (hkind : table.columns[c]? = some (.list target))
    (h : after.value table row' c = .ok value') : 1 ≤ value' ∧ value' ≤ after.count target + 1 := by
  rcases list_of_movedTo hmoved hkind h with
    ⟨rfl, hin, hcolumns⟩ | ⟨row, value, hplace, hvalue, rfl⟩
  · obtain ⟨hlo, hhi, -⟩ := insertedStart_between hfit hmoved hkind hin hcolumns
    exact ⟨hlo, hhi⟩
  · obtain ⟨hlo, hhi⟩ := hruns.within table c target row value hkind hvalue
    rw [hmoved.counts]
    split
    · rename_i htarget
      subst htarget
      obtain ⟨hlo', -, hhi'⟩ := hkeeps.starts table (List.mem_of_getElem? hkind) row' row' value
        value (Nat.le_refl _) hlo (Nat.le_refl _) (hmoved.fits.1 ▸ hhi)
      exact ⟨hlo', hhi'⟩
    · exact ⟨hlo, hhi⟩

/-- Where runs begin goes on not to decrease down a table. -/
theorem startAscending_of_movedTo (hlawful : renumbering.Lawful) (hkeeps : renumbering.KeepsRuns)
    (hruns : before.RunsOrdered) (hfit : renumbering.RunsFit inserted before)
    (hmoved : before.MovedTo renumbering inserted after) {table target : Table}
    {c first second value' other' : Nat} (hkind : table.columns[c]? = some (.list target))
    (hle : first ≤ second) (h : after.value table first c = .ok value')
    (h' : after.value table second c = .ok other') : value' ≤ other' := by
  have hcount := hmoved.fits.1
  -- Each of the two rows is put in or was there before.
  rcases list_of_movedTo hmoved hkind h with
    ⟨rfl, hin, hcolumns⟩ | ⟨row, value, hplace, hvalue, rfl⟩ <;>
  rcases list_of_movedTo hmoved hkind h' with
    ⟨htable, hin', hcolumns'⟩ | ⟨row', other, hplace', hother', rfl⟩
  · exact Nat.le_of_eq (insertedStart_unique hfit hkind hin hcolumns hcolumns')
  · rw [if_neg (ne_of_list hkind)]
    rw [renumbering.place_self] at hplace'
    obtain ⟨-, -, hbetween⟩ := insertedStart_between hfit hmoved hkind hin hcolumns
    exact (hbetween row' other second hother' hplace').2 hle
  · subst htable
    rw [if_neg (ne_of_list hkind)]
    rw [renumbering.place_self] at hplace
    obtain ⟨-, -, hbetween⟩ := insertedStart_between hfit hmoved hkind hin' hcolumns'
    exact (hbetween row value first hvalue hplace).1 hle
  · have hrows := le_of_place hlawful hkeeps hcount (List.mem_of_getElem? hkind) hplace hplace'
      (Tables.bounds_of_value hvalue).2 hle
    have hvalues := hruns.ascending table c target row row' value other hkind hrows hvalue hother'
    split
    · rename_i htarget
      subst htarget
      exact (hkeeps.starts table (List.mem_of_getElem? hkind) first second value other hle
        (hruns.within table c _ row value hkind hvalue).1 hvalues
        (hcount ▸ (hruns.within table c _ row' other hkind hother').2)).2.1
    · exact hvalues

/-- Runs that are in order stay in order. -/
theorem runsOrdered_of_movedTo (hlawful : renumbering.Lawful) (hkeeps : renumbering.KeepsRuns)
    (hruns : before.RunsOrdered) (hfit : renumbering.RunsFit inserted before)
    (hmoved : before.MovedTo renumbering inserted after) : after.RunsOrdered where
  within _ _ _ _ _ hkind h := startWithin_of_movedTo hkeeps hruns hfit hmoved hkind h
  ascending _ _ _ _ _ _ _ hkind hle h h' :=
    startAscending_of_movedTo hlawful hkeeps hruns hfit hmoved hkind hle h h'

end

end Assembly

end NativeExports
