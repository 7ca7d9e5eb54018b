import NativeExports.Proofs.Renumbering.Lookups
import NativeExports.Proofs.Renumbering.Members
import NativeExports.Proofs.Renumbering.Preservation
import NativeExports.Proofs.Renumbering.Total

/-!
# Rows that make room

When rows are put in, the rows behind them move by as many places, and nothing else happens to the
tables: every column goes on to mean what it meant, and every row goes on to own the rows that it
owned.  This is said here in terms of the row numbers themselves, so that several insertions, one
after the other, can be put together.
-/

namespace NativeExports

namespace Renumbering

/-- Where a row of any table stands once `count` rows of one table are put in at a position. -/
def shift (table : Table) (position count : Nat) (target : Table) (row : Nat) : Nat :=
  if target = table ∧ position ≤ row then row + count else row

theorem shift_zero (table : Table) (position : Nat) :
    shift table position 0 = fun _ row => row := by
  funext target row
  exact ite_self row

theorem newRow_insertion_eq_shift {table : Table} {oldCount position count : Nat}
    {owner : Option (Table × Nat)} (hposition : 1 ≤ position ∧ position ≤ oldCount + 1)
    (row : Nat) :
    (insertion table oldCount position count owner).newRow row =
      some (shift table position count table row) := by
  unfold shift
  rcases Nat.eq_zero_or_pos row with rfl | hlo
  · rw [newRow_zero, if_neg (by omega)]
  · rcases Nat.lt_or_ge oldCount row with hlt | hhi
    · have hnew : row - oldCount + (oldCount + count) = row + count := by omega
      rw [if_pos ⟨rfl, by omega⟩, ← hnew]
      exact newRow_of_lt hlt
    · rw [newRow_insertion _ _ _ _ _ hlo hhi]
      by_cases hlt : row < position
      · rw [if_pos hlt, if_neg (by omega)]
      · rw [if_neg hlt, if_pos ⟨rfl, by omega⟩]

theorem place_insertion {table : Table} {oldCount position count : Nat}
    {owner : Option (Table × Nat)} (hposition : 1 ≤ position ∧ position ≤ oldCount + 1)
    (target : Table) (row : Nat) :
    (insertion table oldCount position count owner).place target row =
      some (shift table position count target row) := by
  by_cases htable : target = table
  · subst htable
    exact (place_self _ row).trans (newRow_insertion_eq_shift hposition row)
  · rw [shift, if_neg fun h => htable h.1]
    exact place_of_ne htable row

end Renumbering

/-- Two values of a column mean the same, the one before and the other after rows of the edited
tables moved.  Where the runs of rows of these tables begin is another matter. -/
def ColumnKind.Follows (kind : ColumnKind) (edited : List Table) (moved : Table → Nat → Nat)
    (old new : Nat) : Prop :=
  match kind with
  | .index target => new = moved target old
  | .coded tagged =>
    ∃ target row, tagged.decode old = .ok (target, row) ∧
      tagged.decode new = .ok (target, moved target row)
  | .list target => target ∉ edited → new = old
  | _ => new = old

theorem ColumnKind.Follows.trans {kind : ColumnKind} {edited edited' : List Table}
    {moved moved' : Table → Nat → Nat} {first second third : Nat}
    (h : kind.Follows edited moved first second) (h' : kind.Follows edited' moved' second third) :
    kind.Follows (edited ++ edited')
      (fun table row => moved' table (moved table row)) first third := by
  cases kind with
  | index target =>
      obtain rfl : second = moved target first := h
      exact h'
  | coded coded =>
      obtain ⟨target, row, hfirst, hsecond⟩ := h
      obtain ⟨target', row', hsecond', hthird⟩ := h'
      obtain ⟨rfl, rfl⟩ := Prod.mk.inj (Except.ok.inj (hsecond.symm.trans hsecond'))
      exact ⟨target, row, hfirst, hthird⟩
  | list target =>
      intro hout
      rw [List.mem_append, not_or] at hout
      exact (h' hout.2).trans (h hout.1)
  | _ => exact Eq.trans h' h

namespace Tables

/-- Every row that there was stands where it moved, and its columns mean what they meant. -/
def Follow (before : Tables) (edited : List Table) (moved : Table → Nat → Nat) (after : Tables) :
    Prop :=
  ∀ table (c : Nat) kind row old, table.columns[c]? = some kind →
    before.value table row c = .ok old →
      ∃ new, after.value table (moved table row) c = .ok new ∧ kind.Follows edited moved old new

theorem Follow.trans {before middle after : Tables} {edited edited' : List Table}
    {moved moved' : Table → Nat → Nat} (h : before.Follow edited moved middle)
    (h' : middle.Follow edited' moved' after) :
    before.Follow (edited ++ edited') (fun table row => moved' table (moved table row)) after := by
  intro table c kind row first hkind hfirst
  obtain ⟨second, hsecond, hfollows⟩ := h table c kind row first hkind hfirst
  obtain ⟨third, hthird, hfollows'⟩ := h' table c kind _ second hkind hsecond
  exact ⟨third, hthird, hfollows.trans hfollows'⟩

/-- When rows are put in at the end of a run, its owner gets them, and every row goes on owning
those that it owned, where they stand now. -/
theorem members_shift_of_insertion {before after : Tables} {source target : Table}
    {owner other c start position count : Nat} (h : before.StartsFit source c target)
    (hrun : before.runOf source owner c target = .ok (start, position))
    (hfollow : before.StartsFollow
      (Renumbering.insertion target (before.count target) position count
      (some (source, owner))) source c after)
    (hlo : 1 ≤ other) (hhi : other ≤ before.count source) :
    ∃ members, before.members source other c target = .ok members ∧
      after.members source other c target =
        .ok (members.map (Renumbering.shift target position count target) ++
          if other = owner then List.range' position count else []) := by
  obtain ⟨first, last, hother, -, -, hfirst, hle, hlast⟩ := h.exists_runOf hlo hhi
  have hbounds : ∀ row ∈ List.range' first (last - first), 1 ≤ row ∧ row ≤ before.count target := by
    intro row hmem
    have := List.mem_range'_1.mp hmem
    omega
  have hold := members_of_runOf hother
  obtain ⟨members, images, hmembers, himages, hafter⟩ := members_of_insertion h hrun hfollow hlo hhi
  obtain rfl := Except.ok.inj (hold.symm.trans hmembers)
  rw [Renumbering.mapM_newRow_insertion hbounds] at himages
  obtain rfl := Option.some.inj himages
  refine ⟨_, hold, hafter.trans (congrArg Except.ok ?_)⟩
  have hmap : (List.range' first (last - first)).map
      (fun row => if row < position then row else row + count) =
        (List.range' first (last - first)).map
        (Renumbering.shift target position count target) := by
    refine List.map_congr_left fun row _ => ?_
    unfold Renumbering.shift
    by_cases hlt : row < position
    · rw [if_pos hlt, if_neg (by omega)]
    · rw [if_neg hlt, if_pos ⟨rfl, by omega⟩]
  rw [hmap]
  split
  · rfl
  · exact (List.append_nil _).symm

/-- Tables whose rows have the columns of their table, refer to existing rows, and own runs of rows
that are in order. -/
structure Sound (tables : Tables) : Prop where
  arity : ∀ table, ∀ columns ∈ tables.rows table, columns.length = table.columns.length
  inRange : ∀ table, ∀ columns ∈ tables.rows table, ∀ (c : Nat) kind value,
    table.columns[c]? = some kind → columns[c]? = some value → tables.InRange kind value
  runs : tables.RunsOrdered

namespace Sound

variable {tables : Tables} {table target : Table} {row c : Nat} {kind : ColumnKind}

theorem exists_value (h : tables.Sound) (hrow : 1 ≤ row ∧ row ≤ tables.count table)
    (hkind : table.columns[c]? = some kind) : ∃ value, tables.value table row c = .ok value := by
  obtain ⟨columns, hcolumns⟩ := exists_row?.mpr hrow
  have hlt : c < columns.length := by
    rw [h.arity table columns (mem_rows.mpr ⟨row, hcolumns⟩)]
    exact (List.getElem?_eq_some_iff.mp hkind).1
  exact ⟨columns[c], value_eq_ok.mpr ⟨columns, hcolumns, List.getElem?_eq_getElem hlt⟩⟩

theorem startsFit (h : tables.Sound) (hkind : table.columns[c]? = some (.list target)) :
    tables.StartsFit table c target where
  present := fun _ hlo hhi => h.exists_value ⟨hlo, hhi⟩ hkind
  within := fun row start => h.runs.within table c target row start hkind
  ascending := fun row row' start start' =>
    h.runs.ascending table c target row row' start start' hkind

/-- If no row moves, all columns mean what they meant. -/
theorem follow_self (h : tables.Sound) (edited : List Table) :
    tables.Follow edited (fun _ row => row) tables := by
  intro table c kind row old hkind hvalue
  refine ⟨old, hvalue, ?_⟩
  obtain ⟨columns, hrow, hget⟩ := value_eq_ok.mp hvalue
  have hin := h.inRange table columns (mem_rows.mpr ⟨row, hrow⟩) c kind old hkind hget
  cases kind with
  | coded coded =>
      obtain ⟨target, named, hdecode, -⟩ := hin
      exact ⟨target, named, hdecode, hdecode⟩
  | list target => exact fun _ => rfl
  | _ => rfl

end Sound

end Tables

namespace Assembly

variable {before after : Assembly} {table : Table} {position count : Nat}
  {owner : Option (Table × Nat)} {inserted : List Row}

/-- Putting rows in leaves the other rows as they were, up to where rows stand. -/
theorem follow_of_insertion (hposition : 1 ≤ position ∧ position ≤ before.tables.count table + 1)
    (hplain : table.isSignatureTarget = false) (hsound : before.tables.Sound)
    (hcounts : ∀ source, before.tables.count source < Token.rowLimit)
    (hroom : before.tables.count table + count < Token.rowLimit)
    (h : before.renumber (.insertion table (before.tables.count table) position count owner)
      inserted = .ok after) :
    before.tables.Follow [table] (Renumbering.shift table position count) after.tables := by
  intro source c kind row old hkind hvalue
  obtain ⟨columns, hrow, hget⟩ := Tables.value_eq_ok.mp hvalue
  have hmade :
      (Renumbering.insertion table (before.tables.count table) position count owner).Made :=
    .insertion _ _ _ _ _ (.inr hposition)
  have hmoved := movedTo_of_renumber hmade h
  have hplace : ∀ target row,
      (Renumbering.insertion table (before.tables.count table) position count
      owner).place target row = some (Renumbering.shift table position count target row) :=
    Renumbering.place_insertion hposition
  have hstands := hplace source row
  have hold := hsound.inRange source columns (Tables.mem_rows.mpr ⟨row, hrow⟩)
  obtain ⟨columns', hrow', -, hcolumns⟩ :=
    sameColumns_of_movedTo hmoved hrow hstands hold hcounts
  by_cases hsignature : Tables.IsSignatureColumn source c
  · have hsame := (signatures_of_renumber hmade hplain h).2 source row _ columns columns' hrow
      hstands hrow' c hsignature
    obtain ⟨site, hsite, rfl, rfl⟩ := hsignature
    rw [Tables.kind_of_signatureColumn site hsite] at hkind
    rw [← Option.some.inj hkind]
    exact ⟨old, Tables.value_eq_ok.mpr ⟨columns', hrow', hsame.trans hget⟩, rfl⟩
  · obtain ⟨new, hnew, hsame⟩ := hcolumns c kind old hkind hget hsignature
    refine ⟨new, Tables.value_eq_ok.mpr ⟨columns', hrow', hnew⟩, ?_⟩
    have hin := hold c kind old hkind hget
    cases kind with
    | index target => exact (Option.some.inj ((hplace target old).symm.trans hsame)).symm
    | coded coded =>
        have hcounts' : ∀ source, after.tables.count source < Token.rowLimit := fun source => by
          rw [hmoved.counts]
          split
          · exact hroom
          · exact hcounts source
        obtain ⟨target, oldRow, newRow, hdecode, hdecode', hrowPlace, -⟩ :=
          decode_of_sameColumn hmade.lawful hmoved hcounts' hin hsame
        obtain rfl := Option.some.inj ((hplace target oldRow).symm.trans hrowPlace)
        exact ⟨target, oldRow, hdecode, hdecode'⟩
    | list target => exact fun hout => hsame fun heq => hout (List.mem_singleton.mpr heq)
    | _ => exact hsame

/-- Tables stay sound when rows are put in that own their runs between those of their neighbours and
refer to existing rows. -/
theorem sound_of_insertion (hposition : 1 ≤ position ∧ position ≤ before.tables.count table + 1)
    (hsound : before.tables.Sound) (hcounts : ∀ source, before.tables.count source < Token.rowLimit)
    (hrows : RowsFit table inserted after.tables)
    (hfit : (Renumbering.insertion table (before.tables.count table) position count owner).RunsFit
      inserted before.tables)
    (h : before.renumber (.insertion table (before.tables.count table) position count owner)
      inserted = .ok after) : after.tables.Sound := by
  have hmade :
      (Renumbering.insertion table (before.tables.count table) position count owner).Made :=
    .insertion _ _ _ _ _ (.inr hposition)
  have hmoved := movedTo_of_renumber hmade h
  refine ⟨fun source columns' hmem => ?_, fun source columns' hmem c kind value' => ?_, ?_⟩
  · obtain ⟨row', hrow'⟩ := Tables.mem_rows.mp hmem
    rcases hmoved.origin source row' columns' hrow' with ⟨rfl, hin⟩ | ⟨row, columns, hrow, hplace⟩
    · obtain ⟨columns, hmem, columns'', hget, hsame⟩ := hmoved.of_isInserted hin
      obtain rfl := Option.some.inj (hrow'.symm.trans hget)
      exact hsame.1.trans (hrows columns hmem).1
    · obtain ⟨columns'', hget, hfollows⟩ := hmoved.rows source row row' columns hrow hplace
      obtain rfl := Option.some.inj (hrow'.symm.trans hget)
      exact hfollows.1.trans (hsound.arity source columns (Tables.mem_rows.mpr ⟨row, hrow⟩))
  · exact inRange_of_movedTo hmade.lawful hmoved hsound.inRange hcounts hrows hmem
  · exact runsOrdered_of_movedTo hmade.lawful
      (Renumbering.keepsRuns_insertion _ _ _ _ _) hsound.runs
      hfit hmoved

/-- Rows can be put in, unless signatures can name rows of the table. -/
theorem exists_insertion_of_renumberable (h : before.Renumberable table)
    (hplain : table.isSignatureTarget = false)
    (hposition : 1 ≤ position ∧ position ≤ before.tables.count table + 1)
    (hlength : inserted.length = count)
    (haddress : table = .methodDef →
      ∀ columns ∈ inserted, columns.getD MethodDef.rvaColumn 0 = 0) :
    ∃ after, before.renumber (.insertion table (before.tables.count table) position count owner)
      inserted = .ok after :=
  exists_renumber_of_total (.insertion _ _ _ _ _ (.inr hposition)) h hplain
    (Renumbering.exists_newRow_insertion _ _ _ _ _) rfl hlength haddress

end Assembly

end NativeExports
