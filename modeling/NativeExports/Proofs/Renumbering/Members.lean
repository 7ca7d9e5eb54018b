import NativeExports.Proofs.Editing.Runs

/-!
# Who owns which rows

A row owns the rows of its run, and a run is stored only through where it begins.  When rows of the
other table are taken out or put in, the beginnings of all runs are renewed one by one, and yet
every row goes on owning just the rows that it owned, under their new numbers; rows that are put in
at the end of a run belong to the row that is named as their owner, also if the runs of other rows
begin at the same place.
-/

namespace NativeExports

namespace Tables

/-- The rows of `target` that a row owns through a list column, in order. -/
def members (tables : Tables) (table : Table) (row column : Nat) (target : Table) :
    Except Error (List Nat) := do
  let (start, stop) ← tables.runOf table row column target
  return List.range' start (stop - start)

/-- Every row of a table tells where its run of rows of another table begins: at one of them or
right behind the last one, and not in front of where the runs of the rows above it begin. -/
structure StartsFit (tables : Tables) (table : Table) (column : Nat) (target : Table) : Prop where
  present : ∀ row, 1 ≤ row → row ≤ tables.count table →
    ∃ start, tables.value table row column = .ok start
  within : ∀ row start, tables.value table row column = .ok start →
    1 ≤ start ∧ start ≤ tables.count target + 1
  ascending : ∀ row row' start start', row ≤ row' → tables.value table row column = .ok start →
    tables.value table row' column = .ok start' → start ≤ start'

/-- Where the runs of one column begin is renewed, and the other table has its new number of
rows. -/
structure StartsFollow (before : Tables) (renumbering : Renumbering) (table : Table) (column : Nat)
    (after : Tables) : Prop where
  owners : after.count table = before.count table
  count : after.count renumbering.table = renumbering.newCount
  starts : ∀ row, 1 ≤ row → row ≤ before.count table → ∀ start,
    before.value table row column = .ok start →
      after.value table row column = .ok (renumbering.newStart table row start)

variable {tables before after : Tables} {table source target : Table} {row c start stop : Nat}

/-- A run that ends where the next one begins. -/
theorem runOf_of_bounds (hvalue : tables.value table row c = .ok start)
    (hnext : if row < tables.count table then tables.value table (row + 1) c = .ok stop
      else stop = tables.count target + 1)
    (hle : start ≤ stop) (hend : stop ≤ tables.count target + 1) :
    tables.runOf table row c target = .ok (start, stop) := by
  unfold runOf
  rw [hvalue, Outcome.ok_bind]
  by_cases hlt : row < tables.count table
  · rw [if_pos hlt] at hnext ⊢
    rw [hnext]
    change Except.ok (min start _, max (min start _) (min stop _)) = Except.ok (start, stop)
    rw [Nat.min_eq_left hend, Nat.min_eq_left (Nat.le_trans hle hend), Nat.max_eq_right hle]
  · rw [if_neg hlt] at hnext ⊢
    subst hnext
    change Except.ok (min start _, max (min start _) _) = Except.ok (start, _)
    rw [Nat.min_eq_left hle, Nat.max_eq_right hle]

theorem members_of_runOf (h : tables.runOf table row c target = .ok (start, stop)) :
    tables.members table row c target = .ok (List.range' start (stop - start)) := by
  rw [members, h]
  rfl

/-- Every row has a run, which ends where the next one begins. -/
theorem StartsFit.exists_runOf (h : tables.StartsFit table c target) (hlo : 1 ≤ row)
    (hhi : row ≤ tables.count table) :
    ∃ start stop, tables.runOf table row c target = .ok (start, stop) ∧
      tables.value table row c = .ok start ∧
      (if row < tables.count table then tables.value table (row + 1) c = .ok stop
        else stop = tables.count target + 1) ∧
      1 ≤ start ∧ start ≤ stop ∧ stop ≤ tables.count target + 1 := by
  obtain ⟨start, hvalue⟩ := h.present row hlo hhi
  obtain ⟨hstart, hend⟩ := h.within row start hvalue
  by_cases hlt : row < tables.count table
  · obtain ⟨stop, hnext⟩ := h.present (row + 1) (Nat.succ_pos _) hlt
    have hle := h.ascending row (row + 1) start stop (Nat.le_succ _) hvalue hnext
    have hstop := (h.within (row + 1) stop hnext).2
    have hnext' : if row < tables.count table then tables.value table (row + 1) c = .ok stop
        else stop = tables.count target + 1 := by rwa [if_pos hlt]
    exact ⟨start, stop, runOf_of_bounds hvalue hnext' hle hstop, hvalue, hnext', hstart, hle, hstop⟩
  · have hnext : if row < tables.count table then tables.value table (row + 1) c = .ok
        (tables.count target + 1) else tables.count target + 1 = tables.count target + 1 := by
      rw [if_neg hlt]
    exact ⟨start, _, runOf_of_bounds hvalue hnext hend (Nat.le_refl _), hvalue, hnext, hstart, hend,
      Nat.le_refl _⟩

end Tables

namespace Renumbering

variable {table source : Table} {oldCount position count owner start stop : Nat}

/-! ## Taking rows out -/

/-- The rows of a run that stay are the run between where its ends went. -/
theorem filterMap_newRow_removal (table source : Table) (removed : List Nat) (hstart : 1 ≤ start)
    (hle : start ≤ stop) (hstop : stop ≤ oldCount + 1) (owner owner' : Nat) :
    let renumbering := removal table oldCount removed
    (List.range' start (stop - start)).filterMap renumbering.newRow =
        List.range' (renumbering.newStart source owner start)
          (renumbering.newStart source owner' stop - renumbering.newStart source owner start) ∧
      renumbering.newStart source owner start ≤ renumbering.newStart source owner' stop ∧
      renumbering.newStart source owner' stop ≤ renumbering.newCount + 1 := by
  obtain ⟨length, rfl⟩ := Nat.exists_eq_add_of_le hle
  rw [Nat.add_sub_cancel_left]
  dsimp only
  have hcount : (removal table oldCount removed).newCount = (keeps oldCount removed).count true :=
    rfl
  rw [newStart_removal (by omega), newStart_removal hstop, hcount]
  refine ⟨?_, Nat.succ_le_succ (count_take_le (by omega)),
    Nat.succ_le_succ ((List.take_sublist _ _).count_le true)⟩
  -- By induction on the length of the run: its last row is the next one that stays, or is taken
  -- out.
  induction length with
  | zero => simp
  | succ length ih =>
      have hrow : 1 ≤ start + length ∧ start + length ≤ oldCount := by omega
      have hmono : ((keeps oldCount removed).take (start - 1)).count true ≤
          ((keeps oldCount removed).take (start + length - 1)).count true :=
        count_take_le (by omega)
      rw [List.range'_concat, List.filterMap_append, ih (by omega) (by omega), Nat.one_mul,
        List.filterMap_cons, newRow_removal hrow.1 hrow.2,
        show start + (length + 1) - 1 = start + length by omega,
        count_take_keeps removed hrow.1 hrow.2]
      by_cases hgone : start + length ∈ removed
      · simp [hgone]
      · obtain ⟨more, hmore⟩ := Nat.exists_eq_add_of_le hmono
        simp only [hgone, List.filterMap_nil, reduceIte, List.contains_eq_mem, decide_false,
          Bool.false_eq_true]
        rw [hmore, Nat.add_right_comm, Nat.add_sub_cancel_left, Nat.add_assoc _ more 1,
          Nat.add_sub_cancel_left, List.range'_concat, Nat.one_mul]

/-! ## Putting rows in -/

/-- Where a run begins once rows are put in for an owner. -/
theorem newStart_insertion (value : Nat) :
    (insertion table oldCount position count (some (source, owner))).newStart source row value =
      if value < position ∨ value = position ∧ row ≤ owner then value else value + count := by
  unfold newStart insertion
  dsimp only
  by_cases hlt : value < position
  · rw [if_pos hlt, if_pos (.inl hlt)]
  · rw [if_neg hlt]
    by_cases hgt : position < value
    · rw [if_pos hgt, if_neg (by omega)]
    · obtain rfl : value = position := by omega
      rw [if_neg hgt]
      exact if_congr (by simp) rfl rfl

theorem mapM_newRow_insertion {receiver : Option (Table × Nat)} {rows : List Nat}
    (h : ∀ row ∈ rows, 1 ≤ row ∧ row ≤ oldCount) :
    rows.mapM (insertion table oldCount position count receiver).newRow =
      some (rows.map fun row => if row < position then row else row + count) := by
  induction rows with
  | nil => rfl
  | cons row rest ih =>
      obtain ⟨hlo, hhi⟩ := h row (.head _)
      rw [List.mapM_cons, newRow_insertion _ _ _ _ _ hlo hhi,
        ih fun row hmem => h row (.tail _ hmem)]
      rfl

/-- A run in front of where rows are put in stays, and a run behind moves as a whole. -/
theorem mapM_newRow_range' {receiver : Option (Table × Nat)} (hstart : 1 ≤ start)
    (hstop : stop ≤ oldCount + 1) (hapart : stop ≤ position ∨ position ≤ start) :
    (List.range' start (stop - start)).mapM
        (insertion table oldCount position count receiver).newRow =
      some (List.range' (if stop ≤ position then start else start + count) (stop - start)) := by
  rw [mapM_newRow_insertion fun row hmem => by
    have := List.mem_range'_1.mp hmem
    omega]
  by_cases hfront : stop ≤ position
  · rw [if_pos hfront]
    refine congrArg some ((List.map_congr_left fun row hmem => if_pos ?_).trans (List.map_id _))
    have := List.mem_range'_1.mp hmem
    omega
  · rw [if_neg hfront, Nat.add_comm start, ← List.map_add_range']
    refine congrArg some (List.map_congr_left fun row hmem => ?_)
    have := List.mem_range'_1.mp hmem
    rw [if_neg (by omega), Nat.add_comm]

end Renumbering

namespace Tables

open Renumbering

variable {before after : Tables} {source target : Table} {owner c start position count : Nat}

/-- When rows are taken out, every row owns those that it owned and that stay. -/
theorem members_of_removal {removed : List Nat} (h : before.StartsFit source c target)
    (hfollow : before.StartsFollow (removal target (before.count target) removed) source c after)
    (hlo : 1 ≤ owner) (hhi : owner ≤ before.count source) :
    ∃ members, before.members source owner c target = .ok members ∧
      after.members source owner c target =
        .ok (members.filterMap (removal target (before.count target) removed).newRow) := by
  obtain ⟨start, stop, hrun, hvalue, hnext, hstart, hle, hstop⟩ := h.exists_runOf hlo hhi
  obtain ⟨hmembers, hle', hstop'⟩ :=
    filterMap_newRow_removal target source removed hstart hle hstop owner (owner + 1)
  refine ⟨_, members_of_runOf hrun, ?_⟩
  rw [hmembers]
  refine members_of_runOf (runOf_of_bounds (hfollow.starts owner hlo hhi start hvalue) ?_ hle'
    (hfollow.count ▸ hstop'))
  rw [hfollow.owners, show after.count target = _ from hfollow.count]
  split at hnext
  · rename_i hlt
    rw [if_pos hlt]
    exact hfollow.starts _ (Nat.succ_pos _) hlt stop hnext
  · rename_i hlast
    rw [if_neg hlast, hnext, newStart_removal (Nat.le_refl _), Nat.add_sub_cancel,
      List.take_of_length_le (Nat.le_of_eq (length_keeps _ _))]
    rfl

/-- When rows are put in at the end of a run, its owner gets them, and every row goes on owning
those that it owned. -/
theorem members_of_insertion (h : before.StartsFit source c target)
    (hrun : before.runOf source owner c target = .ok (start, position))
    (hfollow : before.StartsFollow
      (insertion target (before.count target) position count (some (source, owner))) source c after)
    {other : Nat} (hlo : 1 ≤ other) (hhi : other ≤ before.count source) :
    ∃ members images, before.members source other c target = .ok members ∧
      members.mapM (insertion target (before.count target) position count
        (some (source, owner))).newRow = some images ∧
      after.members source other c target =
        .ok (if other = owner then images ++ List.range' position count else images) := by
  obtain ⟨_, hstored, -⟩ := Outcome.bind_eq_ok.mp hrun
  obtain ⟨howner, howner'⟩ := bounds_of_value hstored
  obtain ⟨first, last, hfound, hfirst, hlast, -, hle, -⟩ := h.exists_runOf howner howner'
  obtain ⟨rfl, rfl⟩ := Prod.mk.inj (Except.ok.inj (hrun.symm.trans hfound))
  obtain ⟨start', stop', hrun', hvalue, hnext, hstart', hle', hstop'⟩ := h.exists_runOf hlo hhi
  -- Rows above the owner end in front of the new rows, and rows below begin behind them.
  have hcases : other < owner ∧ stop' ≤ position ∨ other = owner ∧ stop' = position ∨
      owner < other ∧ position ≤ start' := by
    rcases Nat.lt_trichotomy other owner with hlt | rfl | hgt
    · rw [if_pos (by omega)] at hnext
      exact .inl ⟨hlt, Nat.le_trans (h.ascending _ _ _ _ hlt hnext hfirst) hle⟩
    · exact .inr (.inl ⟨rfl, (Prod.mk.inj (Except.ok.inj (hrun.symm.trans hrun'))).2.symm⟩)
    · rw [if_pos (by omega)] at hlast
      exact .inr (.inr ⟨hgt, h.ascending _ _ _ _ hgt hlast hvalue⟩)
  have hbegins : after.value source other c =
      .ok (if other ≤ owner then start' else start' + count) := by
    rw [hfollow.starts other hlo hhi start' hvalue, newStart_insertion]
    exact congrArg Except.ok (if_congr (by omega) rfl rfl)
  have hends : if other < after.count source then after.value source (other + 1) c =
        .ok (if other < owner then stop' else stop' + count)
      else (if other < owner then stop' else stop' + count) = after.count target + 1 := by
    rw [hfollow.owners, show after.count target = before.count target + count from hfollow.count]
    split at hnext
    · rename_i hlt
      rw [if_pos hlt, hfollow.starts _ (Nat.succ_pos _) hlt stop' hnext, newStart_insertion]
      exact congrArg Except.ok (if_congr (by omega) rfl rfl)
    · rename_i hend
      rw [if_neg hend, if_neg (by omega), hnext]
      omega
  have hafter := members_of_runOf (runOf_of_bounds hbegins hends
    (by (repeat' split) <;> omega)
    (by
      rw [show after.count target = before.count target + count from hfollow.count]
      split <;> omega))
  refine ⟨_, _, members_of_runOf hrun', mapM_newRow_range' hstart' hstop' (by omega), ?_⟩
  rw [hafter]
  refine congrArg Except.ok ?_
  rcases hcases with ⟨hlt, hfront⟩ | ⟨rfl, rfl⟩ | ⟨hgt, hbehind⟩
  · rw [if_pos (Nat.le_of_lt hlt), if_pos hlt, if_neg (Nat.ne_of_lt hlt), if_pos hfront]
  · rw [if_pos (Nat.le_refl _), if_neg (Nat.lt_irrefl _), if_pos rfl, if_pos (Nat.le_refl _),
      show stop' + count - start' = stop' - start' + count by omega, ← List.range'_append_1]
    congr 2
    omega
  · rw [if_neg (Nat.not_le.mpr hgt), if_neg (Nat.lt_asymm hgt), if_neg (Nat.ne_of_gt hgt)]
    by_cases hempty : stop' ≤ position
    · -- The run is empty, so it does not matter where it is.
      obtain rfl : start' = stop' := by omega
      simp
    · rw [if_neg hempty, Nat.add_sub_add_right]

/-! ## The tables of an assembly -/

/-- Where runs begin follows the renumbering of the tables. -/
theorem startsFollow_of_movedTo {renumbering : Renumbering} {inserted : List Row}
    (hmoved : before.MovedTo renumbering inserted after)
    (hkind : source.columns[c]? = some (.list renumbering.table)) :
    before.StartsFollow renumbering source c after := by
  have hne : source ≠ renumbering.table := by
    rintro rfl
    exact Table.not_list_self _ (List.mem_of_getElem? hkind)
  refine ⟨by rw [hmoved.counts, if_neg hne], by rw [hmoved.counts, if_pos rfl], ?_⟩
  intro row _ _ start hvalue
  obtain ⟨columns, hrow, hget⟩ := value_eq_ok.mp hvalue
  obtain ⟨columns', hrow', -, hfollows⟩ := hmoved.rows source row row columns hrow
    (Renumbering.place_of_ne hne row)
  obtain ⟨start', hget', hnew⟩ := hfollows c _ start hkind hget
    (Assembly.not_isSignatureColumn_of_list hkind)
  obtain rfl : renumbering.newStart source row start = start' := by
    have hlist := Except.ok.inj hnew
    rwa [if_pos rfl] at hlist
  exact value_eq_ok.mpr ⟨columns', hrow', hget'⟩

/-- Runs keep their members when rows are taken out, and when rows are put in at the end of a run.
What a renumbering makes of the tables is of this kind. -/
theorem runs_keep_members (h : before.StartsFit source c target) :
    (∀ renumbering inserted arranged after, renumbering.Made → renumbering.table = target →
      source.columns[c]? = some (.list target) →
      Assembly.rearrange renumbering before inserted = .ok arranged →
      renumbering.newTables arranged = .ok after → before.StartsFollow renumbering source c after) ∧
    (∀ removed after,
      before.StartsFollow (removal target (before.count target) removed) source c after →
      ∀ owner, 1 ≤ owner → owner ≤ before.count source →
        ∃ members, before.members source owner c target = .ok members ∧
          after.members source owner c target =
            .ok (members.filterMap (removal target (before.count target) removed).newRow)) ∧
    ∀ owner start position count after, before.runOf source owner c target = .ok (start, position) →
      before.StartsFollow (insertion target (before.count target) position count
        (some (source, owner))) source c after →
      ∀ other, 1 ≤ other → other ≤ before.count source →
        ∃ members images, before.members source other c target = .ok members ∧
          members.mapM (insertion target (before.count target) position count
            (some (source, owner))).newRow = some images ∧
          after.members source other c target =
            .ok (if other = owner then images ++ List.range' position count else images) := by
  refine ⟨fun renumbering inserted arranged after hmade htable hkind harranged hafter => ?_,
    fun _ _ hfollow _ hlo hhi => members_of_removal h hfollow hlo hhi,
    fun _ _ _ _ _ hrun hfollow _ hlo hhi => members_of_insertion h hrun hfollow hlo hhi⟩
  subst htable
  exact startsFollow_of_movedTo
    (Assembly.movedTo_of_newTables hmade harranged hafter (.refl after)) hkind

/-! ## Types that share a position -/

/-- The beginnings of all runs of a column, one after the other. -/
theorem startsFit_of_starts {tables : Tables} (starts : List Nat)
    (h : (tables.rows source).map (·[c]?) = starts.map some) (hsorted : starts.Pairwise (· ≤ ·))
    (hwithin : ∀ start ∈ starts, 1 ≤ start ∧ start ≤ tables.count target + 1) :
    tables.StartsFit source c target := by
  have hvalue : ∀ row start, tables.value source row c = .ok start ↔
      1 ≤ row ∧ starts[row - 1]? = some start := by
    intro row start
    have hget := congrArg (·[row - 1]?) h
    simp only [List.getElem?_map] at hget
    rw [value_eq_ok]
    constructor
    · rintro ⟨columns, hrow, hcolumn⟩
      obtain ⟨hlo, hcolumns⟩ := row?_eq_some.mp hrow
      rw [hcolumns, Option.map_some, hcolumn] at hget
      exact ⟨hlo, (Option.map_eq_some_iff.mp hget.symm).elim fun _ h => Option.some.inj h.2 ▸ h.1⟩
    · rintro ⟨hlo, hstart⟩
      rw [hstart, Option.map_some, Option.map_eq_some_iff] at hget
      obtain ⟨columns, hcolumns, hcolumn⟩ := hget
      exact ⟨columns, row?_eq_some.mpr ⟨hlo, hcolumns⟩, hcolumn⟩
  have hlength : starts.length = tables.count source := by
    rw [Tables.count, ← List.length_map (fun columns : Row => columns[c]?), h, List.length_map]
  refine ⟨fun row hlo hhi => ?_, fun row start hstart => ?_,
    fun row row' start start' hle hs hs' => ?_⟩
  · exact ⟨_, (hvalue row _).mpr ⟨hlo, List.getElem?_eq_getElem (by omega)⟩⟩
  · exact hwithin start (List.mem_of_getElem? ((hvalue row start).mp hstart).2)
  · obtain ⟨hlo, hget⟩ := (hvalue row start).mp hs
    obtain ⟨-, hget'⟩ := (hvalue row' start').mp hs'
    obtain ⟨hlt, rfl⟩ := List.getElem?_eq_some_iff.mp hget
    obtain ⟨hlt', rfl⟩ := List.getElem?_eq_some_iff.mp hget'
    rcases Nat.lt_or_eq_of_le (Nat.sub_le_sub_right hle 1) with hlt | heq
    · exact List.pairwise_iff_getElem.mp hsorted _ _ _ _ hlt
    · simp only [heq, Nat.le_refl]

/-- Four types and five methods.  The second type has no methods, and its run begins where that of
the third one does. -/
def fourTypes : Tables :=
  (empty.setRows .typeDef ([1, 3, 3, 5].map fun start => [0, 0, 0, 0, 1, start])).setRows .methodDef
    (List.replicate 5 [0, 0, 0, 0, 0, 1])

/-- Methods that are put in for the type without methods go to that type, and not to the one whose
run begins at the same place; and methods that are taken out leave the others with their types. -/
theorem runs_keep_members_fourTypes :
    fourTypes.StartsFit .typeDef TypeDef.methodColumn .methodDef ∧
    (∃ after, fourTypes.StartsFollow (insertion .methodDef 5 3 2 (some (.typeDef, 2))) .typeDef
        TypeDef.methodColumn after ∧
      after.members .typeDef 2 TypeDef.methodColumn .methodDef = .ok [3, 4] ∧
      after.members .typeDef 3 TypeDef.methodColumn .methodDef = .ok [5, 6]) ∧
    ∃ after, fourTypes.StartsFollow (removal .methodDef 5 [1, 4]) .typeDef TypeDef.methodColumn
        after ∧
      after.members .typeDef 1 TypeDef.methodColumn .methodDef = .ok [1] ∧
      after.members .typeDef 3 TypeDef.methodColumn .methodDef = .ok [2] := by
  have hfit : fourTypes.StartsFit .typeDef TypeDef.methodColumn .methodDef :=
    startsFit_of_starts [1, 3, 3, 5] (by decide) (by decide) (by decide)
  obtain ⟨hfollows, hremoval, hinsertion⟩ := runs_keep_members hfit
  have hafter : ∀ renumbering inserted, renumbering.Made → renumbering.table = .methodDef →
      (Assembly.rearrange renumbering fourTypes inserted >>= renumbering.newTables).isOk = true →
        ∃ after, fourTypes.StartsFollow renumbering .typeDef TypeDef.methodColumn after := by
    intro renumbering inserted hmade htable hok
    obtain ⟨after, hrenewed⟩ := Outcome.exists_of_isOk hok
    obtain ⟨arranged, harranged, hrenewed⟩ := Outcome.bind_eq_ok.mp hrenewed
    exact ⟨after, hfollows renumbering inserted arranged after hmade htable rfl harranged hrenewed⟩
  refine ⟨hfit, ?_, ?_⟩
  · obtain ⟨after, hfollow⟩ := hafter (insertion .methodDef 5 3 2 (some (.typeDef, 2)))
      (List.replicate 2 [0, 0, 0, 0, 0, 1])
      (.insertion _ _ _ _ _ (.inr (by decide))) rfl (by decide)
    have hmembers := hinsertion 2 3 3 2 after rfl hfollow
    obtain ⟨_, _, hsecond, himages, hafter⟩ := hmembers 2 (by decide) (by decide)
    obtain rfl := Except.ok.inj hsecond
    obtain rfl := Option.some.inj himages
    obtain ⟨_, _, hthird, himages, hafter'⟩ := hmembers 3 (by decide) (by decide)
    obtain rfl := Except.ok.inj hthird
    obtain rfl := Option.some.inj himages
    exact ⟨after, hfollow, hafter, hafter'⟩
  · obtain ⟨after, hfollow⟩ :=
      hafter (removal .methodDef 5 [1, 4]) [] (.removal _ _ _) rfl (by decide)
    have hmembers := hremoval [1, 4] after hfollow
    obtain ⟨_, hfirst, hafter⟩ := hmembers 1 (by decide) (by decide)
    obtain rfl := Except.ok.inj hfirst
    obtain ⟨_, hthird, hafter'⟩ := hmembers 3 (by decide) (by decide)
    obtain rfl := Except.ok.inj hthird
    exact ⟨after, hfollow, hafter, hafter'⟩

end Tables

end NativeExports
