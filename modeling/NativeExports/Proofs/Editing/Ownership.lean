import NativeExports.Proofs.Building
import NativeExports.Proofs.Renumbering.Insertion

/-!
# Methods in the runs of their types

As long as runs are in order, the run of a row ends where that of the next row begins.  A method
that is put in behind those of a type becomes the last method of that type, and its parameters begin
where those of the method behind it do, so runs stay in order.
-/

namespace NativeExports

namespace Tables

variable {tables : Tables} {table target : Table} {row c start stop : Nat}

/-- The run of a row ends where that of the next row begins, or at the end of the table. -/
theorem RunsOrdered.runOf_eq_ok (h : tables.RunsOrdered)
    (hkind : table.columns[c]? = some (.list target)) :
    tables.runOf table row c target = .ok (start, stop) ↔
      tables.value table row c = .ok start ∧
        if row < tables.count table then tables.value table (row + 1) c = .ok stop
        else stop = tables.count target + 1 := by
  have hwithin := h.within table c target
  have hascending := h.ascending table c target row (row + 1)
  unfold runOf
  constructor
  · intro hrun
    obtain ⟨value, hvalue, hrun⟩ := Outcome.bind_eq_ok.mp hrun
    have hhi := (hwithin row value hkind hvalue).2
    by_cases hlt : row < tables.count table
    · rw [if_pos hlt] at hrun ⊢
      obtain ⟨last, hlast, hrun⟩ := Outcome.bind_eq_ok.mp hrun
      obtain ⟨next, hnext, rfl⟩ := Outcome.map_eq_ok.mp hlast
      obtain ⟨rfl, rfl⟩ := Prod.mk.inj (Except.ok.inj hrun)
      rw [Nat.min_eq_left hhi, Nat.min_eq_left (hwithin (row + 1) next hkind hnext).2,
        Nat.max_eq_right (hascending value next hkind (Nat.le_succ _) hvalue hnext)]
      exact ⟨hvalue, hnext⟩
    · rw [if_neg hlt] at hrun ⊢
      obtain ⟨rfl, rfl⟩ := Prod.mk.inj (Except.ok.inj hrun)
      rw [Nat.min_eq_left hhi, Nat.max_eq_right hhi]
      exact ⟨hvalue, rfl⟩
  · rintro ⟨hvalue, hnext⟩
    have hhi := (hwithin row start hkind hvalue).2
    by_cases hlt : row < tables.count table
    · have hstop := (if_pos hlt).mp hnext
      exact runOf_of_bounds hvalue hnext (hascending start stop hkind (Nat.le_succ _) hvalue hstop)
        (hwithin (row + 1) stop hkind hstop).2
    · have hstop := (if_neg hlt).mp hnext
      exact runOf_of_bounds hvalue hnext (hstop ▸ hhi) (Nat.le_of_eq hstop)

/-- A run is part of its table. -/
theorem RunsOrdered.bounds_of_runOf (h : tables.RunsOrdered)
    (hkind : table.columns[c]? = some (.list target))
    (hrun : tables.runOf table row c target = .ok (start, stop)) :
    1 ≤ start ∧ start ≤ stop ∧ stop ≤ tables.count target + 1 := by
  obtain ⟨hvalue, hnext⟩ := (h.runOf_eq_ok hkind).mp hrun
  obtain ⟨hlo, hhi⟩ := h.within table c target row start hkind hvalue
  split at hnext
  · exact ⟨hlo,
      h.ascending table c target row (row + 1) start stop hkind (Nat.le_succ _) hvalue hnext,
      (h.within table c target (row + 1) stop hkind hnext).2⟩
  · exact ⟨hlo, hnext ▸ hhi, Nat.le_of_eq hnext⟩

/-- Where the parameters of a new method begin is between those of its neighbours. -/
theorem RunsOrdered.firstParam_between (h : tables.RunsOrdered) {position param : Nat}
    (hparam : Assembly.firstParam tables position = .ok param) :
    1 ≤ param ∧ param ≤ tables.count .param + 1 ∧
      ∀ row value, tables.value .methodDef row MethodDef.paramColumn = .ok value →
        (row < position → value ≤ param) ∧ (position ≤ row → param ≤ value) := by
  have hkind : Table.methodDef.columns[MethodDef.paramColumn]? = some (.list .param) := rfl
  unfold Assembly.firstParam at hparam
  split at hparam
  · obtain ⟨hlo, hhi⟩ := h.within _ _ _ _ _ hkind hparam
    refine ⟨hlo, hhi, fun row value hvalue => ⟨fun hlt => ?_, fun hle => ?_⟩⟩
    · exact h.ascending _ _ _ _ _ _ _ hkind (Nat.le_of_lt hlt) hvalue hparam
    · exact h.ascending _ _ _ _ _ _ _ hkind hle hparam hvalue
  · obtain rfl := Except.ok.inj hparam
    refine ⟨Nat.succ_pos _, Nat.le_refl _, fun row value hvalue => ⟨fun _ => ?_, fun hle => ?_⟩⟩
    · exact (h.within _ _ _ _ _ hkind hvalue).2
    · have := (bounds_of_value hvalue).2
      omega

theorem Sound.exists_firstParam (h : tables.Sound) {position : Nat} (hposition : 1 ≤ position) :
    ∃ param, Assembly.firstParam tables position = .ok param := by
  unfold Assembly.firstParam
  split
  · rename_i hlast
    exact h.exists_value ⟨hposition, hlast⟩
      (rfl : Table.methodDef.columns[MethodDef.paramColumn]? = some (.list .param))
  · exact ⟨_, rfl⟩

end Tables

namespace Assembly

variable {before after : Assembly}

/-! ## Additions -/

/-- Runs stay in order when tables become longer whose rows own none. -/
theorem Extended.runsOrdered {grown : List Table} (h : Extended grown before after)
    (hplain : ∀ table ∈ grown, ∀ target, ColumnKind.list target ∉ table.columns)
    (hruns : before.tables.RunsOrdered) : after.tables.RunsOrdered := by
  have hvalue : ∀ {table : Table} {c row value : Nat} {target},
      table.columns[c]? = some (.list target) → after.tables.value table row c = .ok value →
        before.tables.value table row c = .ok value := by
    intro table c row value target hkind hvalue
    obtain ⟨columns, hrow, hget⟩ := Tables.value_eq_ok.mp hvalue
    have hsame := h.same table fun hin => hplain table hin target (List.mem_of_getElem? hkind)
    exact Tables.value_eq_ok.mpr ⟨columns, (Tables.row?_of_rows_eq hsame row).symm.trans hrow, hget⟩
  constructor
  · intro table c target row value hkind hafter
    obtain ⟨hlo, hhi⟩ := hruns.within table c target row value hkind (hvalue hkind hafter)
    exact ⟨hlo, Nat.le_trans hhi (Nat.succ_le_succ (h.count_le target))⟩
  · intro table c target row row' value value' hkind hle hafter hafter'
    exact hruns.ascending table c target row row' value value' hkind hle (hvalue hkind hafter)
      (hvalue hkind hafter')

theorem Extended.runOf {grown : List Table} (h : Extended grown before after)
    {source target : Table}
    (hsource : source ∉ grown) (htarget : target ∉ grown) (row c : Nat) :
    after.tables.runOf source row c target = before.tables.runOf source row c target := by
  have hrows := h.same _ hsource
  have hrows' := h.same _ htarget
  unfold Tables.runOf Tables.value Tables.row Tables.count
  simp only [Tables.row?_of_rows_eq hrows, hrows, hrows']

theorem Extended.methodRun {grown : List Table} (h : Extended grown before after)
    (htype : Table.typeDef ∉ grown) (hmethod : Table.methodDef ∉ grown) (typeDef : Nat) :
    after.methodRun typeDef = before.methodRun typeDef :=
  h.runOf htype hmethod typeDef TypeDef.methodColumn

theorem Extended.firstParam {grown : List Table} (h : Extended grown before after)
    (hmethod : Table.methodDef ∉ grown) (hparam : Table.param ∉ grown) (position : Nat) :
    firstParam after.tables position = firstParam before.tables position := by
  have hmethods := h.same _ hmethod
  have hparams := h.same _ hparam
  unfold Assembly.firstParam Tables.value Tables.row Tables.count
  simp only [Tables.row?_of_rows_eq hmethods, hmethods, hparams]

/-! ## Methods -/

theorem runsFit_method {position param count : Nat} {owner : Option (Table × Nat)}
    {tables : Tables} {inserted : List Row} (hlo : 1 ≤ param)
    (hhi : param ≤ tables.count .param + 1)
    (hbetween : ∀ row value, tables.value .methodDef row MethodDef.paramColumn = .ok value →
      (row < position → value ≤ param) ∧ (position ≤ row → param ≤ value))
    (hinserted : ∀ columns ∈ inserted, columns[MethodDef.paramColumn]? = some param) :
    (Renumbering.insertion .methodDef (tables.count .methodDef) position count owner).RunsFit
      inserted tables := by
  intro position' count' owner' hedit c target hkind
  obtain ⟨rfl, -, -⟩ := RowEdit.insertion.inj hedit
  -- The parameters are the only run of a method.
  have hcolumn : c = MethodDef.paramColumn ∧ target = .param := by
    rcases c with _ | _ | _ | _ | _ | _ | c
    case succ.succ.succ.succ.succ.zero =>
      exact ⟨rfl, (ColumnKind.list.inj (Option.some.inj hkind)).symm⟩
    all_goals cases hkind
  obtain ⟨rfl, rfl⟩ := hcolumn
  exact ⟨param, hlo, hhi, fun columns hmem value hvalue =>
    Option.some.inj (hvalue.symm.trans (hinserted columns hmem)), hbetween⟩

/-- Rows of a table that owns no runs always fit. -/
theorem runsFit_of_plain {renumbering : Renumbering} {inserted : List Row} {tables : Tables}
    (hplain : ∀ target, ColumnKind.list target ∉ renumbering.table.columns) :
    renumbering.RunsFit inserted tables :=
  fun _ _ _ _ _ target hkind => absurd (List.mem_of_getElem? hkind) (hplain target)

/-- Rows that are put in behind those of an owner belong to that owner. -/
theorem runOf_of_insertion {source target : Table} {owner c start position count : Nat}
    {inserted : List Row} (hkind : source.columns[c]? = some (.list target))
    (hruns : before.tables.RunsOrdered) (hruns' : after.tables.RunsOrdered)
    (hmoved : before.tables.MovedTo (.insertion target (before.tables.count target) position count
      (some (source, owner))) inserted after.tables)
    (h : before.tables.runOf source owner c target = .ok (start, position)) :
    after.tables.runOf source owner c target = .ok (start, position + count) := by
  have hfollow := Tables.startsFollow_of_movedTo hmoved hkind
  have hle := (hruns.bounds_of_runOf hkind h).2.1
  obtain ⟨hvalue, hnext⟩ := (hruns.runOf_eq_ok hkind).mp h
  have hmoves : ∀ {row value}, before.tables.value source row c = .ok value →
      after.tables.value source row c =
        .ok ((Renumbering.insertion target (before.tables.count target) position count
          (some (source, owner))).newStart source row value) := by
    intro row value hbefore
    obtain ⟨hlo, hhi⟩ := Tables.bounds_of_value hbefore
    exact hfollow.starts row hlo hhi value hbefore
  refine (hruns'.runOf_eq_ok hkind).mpr ⟨?_, ?_⟩
  · -- The rows of the owner itself begin where they did.
    rw [hmoves hvalue, Renumbering.newStart_insertion, if_pos (by omega)]
  · rw [hfollow.owners]
    split at hnext
    · rename_i hlt
      rw [if_pos hlt, hmoves hnext, Renumbering.newStart_insertion, if_neg (by omega)]
    · rename_i hlast
      rw [if_neg hlast, hnext, Nat.add_right_comm]
      exact congrArg (· + 1) hfollow.count.symm

end Assembly

end NativeExports
