import NativeExports.Proofs.Renumbering.Meaning
import NativeExports.Proofs.Renumbering.Preservation

/-!
# Looking things up after renumbering

The names of a row, the row that a coded index names, and the type that a method belongs to are the
same after renumbering as before, up to the new row numbers.
-/

namespace NativeExports

theorem Renumbering.place_zero_iff {renumbering : Renumbering} (hlawful : renumbering.Lawful)
    {table : Table} {row new : Nat}
    (hrow : table = renumbering.table → row ≤ renumbering.oldCount)
    (h : renumbering.place table row = some new) : new = 0 ↔ row = 0 := by
  by_cases htable : table = renumbering.table
  · have hle := hrow htable
    subst htable
    rw [place_self] at h
    constructor
    · intro hzero
      by_contra hne
      have hrange := hlawful.range row new (Nat.pos_of_ne_zero hne) hle h
      exact absurd hzero (Nat.ne_of_gt hrange.1)
    · rintro rfl
      rw [newRow_zero] at h
      exact (Option.some.inj h).symm
  · rw [place_of_ne htable] at h
    rw [Option.some.inj h]

namespace Assembly

section

variable {renumbering : Renumbering} {inserted : List Row} {before after : Assembly}

theorem value_of_movedTo (hmoved : before.tables.MovedTo renumbering inserted after.tables)
    {table : Table} {row row' c value : Nat} {kind : ColumnKind}
    (hplace : renumbering.place table row = some row') (hkind : table.columns[c]? = some kind)
    (hc : ¬Tables.IsSignatureColumn table c) (h : before.tables.value table row c = .ok value) :
    ∃ value', after.tables.value table row' c = .ok value' ∧
      renumbering.newColumn table row' kind value = .ok value' := by
  obtain ⟨columns, hrow, hvalue⟩ := Tables.value_eq_ok.mp h
  obtain ⟨columns', hrow', -, hcolumns⟩ := hmoved.rows table row row' columns hrow hplace
  obtain ⟨value', hvalue', hnew⟩ := hcolumns c kind value hkind hvalue hc
  exact ⟨value', Tables.value_eq_ok.mpr ⟨columns', hrow', hvalue'⟩, hnew⟩

theorem columnString_of_movedTo (hmoved : before.tables.MovedTo renumbering inserted after.tables)
    (hstrings : after.strings = before.strings) {table : Table} {row row' c : Nat} {name : String}
    (hplace : renumbering.place table row = some row')
    (hkind : table.columns[c]? = some .string) (h : before.columnString table row c = .ok name) :
    after.columnString table row' c = .ok name := by
  obtain ⟨value, hvalue, hname⟩ := Outcome.bind_eq_ok.mp h
  have hc : ¬Tables.IsSignatureColumn table c := by
    rintro ⟨site, hsite, rfl, rfl⟩
    rw [Tables.kind_of_signatureColumn site hsite] at hkind
    cases hkind
  obtain ⟨value', hvalue', hnew⟩ := value_of_movedTo hmoved hplace hkind hc hvalue
  obtain rfl := Except.ok.inj hnew
  unfold columnString
  rw [hvalue', hstrings]
  exact hname

theorem qualifiedName_of_movedTo (hmoved : before.tables.MovedTo renumbering inserted after.tables)
    (hstrings : after.strings = before.strings) {table : Table} {row row' c c' : Nat}
    {name : String × String} (hplace : renumbering.place table row = some row')
    (hspace : table.columns[c]? = some .string) (hown : table.columns[c']? = some .string)
    (h : before.qualifiedName table c c' row = .ok name) :
    after.qualifiedName table c c' row' = .ok name := by
  obtain ⟨space, hspace', h⟩ := Outcome.bind_eq_ok.mp h
  obtain ⟨own, hown', h⟩ := Outcome.bind_eq_ok.mp h
  unfold qualifiedName
  rw [columnString_of_movedTo hmoved hstrings hplace hspace hspace',
    columnString_of_movedTo hmoved hstrings hplace hown hown']
  exact h

theorem nameOfTypeRef_of_movedTo (hmoved : before.tables.MovedTo renumbering inserted after.tables)
    (hstrings : after.strings = before.strings) {row row' : Nat} {name : String × String}
    (hplace : renumbering.place .typeRef row = some row')
    (h : before.nameOfTypeRef row = .ok name) : after.nameOfTypeRef row' = .ok name :=
  qualifiedName_of_movedTo hmoved hstrings hplace rfl rfl h

theorem nameOfTypeDef_of_movedTo (hmoved : before.tables.MovedTo renumbering inserted after.tables)
    (hstrings : after.strings = before.strings) {row row' : Nat} {name : String × String}
    (hplace : renumbering.place .typeDef row = some row')
    (h : before.nameOfTypeDef row = .ok name) : after.nameOfTypeDef row' = .ok name :=
  qualifiedName_of_movedTo hmoved hstrings hplace rfl rfl h

/-- A coded index names the row it named, under its new number. -/
theorem decode_of_sameColumn (hlawful : renumbering.Lawful)
    (hmoved : before.tables.MovedTo renumbering inserted after.tables)
    (hcounts : ∀ table, after.tables.count table < Token.rowLimit) {coded : CodedKind}
    {value value' : Nat} (hin : before.tables.InRange (.coded coded) value)
    (hsame : renumbering.SameColumn (.coded coded) value value') :
    ∃ target old new, coded.decode value = .ok (target, old) ∧
      coded.decode value' = .ok (target, new) ∧ renumbering.place target old = some new ∧
      old ≤ before.tables.count target ∧ (new = 0 ↔ old = 0) := by
  obtain ⟨target, old, hdecode, hle⟩ := hin
  obtain ⟨target', old', new, hdecode', hplace, hnew⟩ := hsame
  obtain ⟨rfl, rfl⟩ := Prod.mk.inj (Except.ok.inj (hdecode.symm.trans hdecode'))
  have hlt : new < Token.rowLimit :=
    Nat.lt_of_le_of_lt (place_le_count hlawful hmoved hle hplace) (hcounts target)
  rw [CodedKind.mod_eq_of_lt_rowLimit coded hlt] at hnew
  refine ⟨target, old, new, hdecode, hnew, hplace, hle, ?_⟩
  apply Renumbering.place_zero_iff hlawful _ hplace
  rintro rfl
  exact hmoved.fits.1 ▸ hle

/-- The methods of a type stay, unless methods or types are renumbered. -/
theorem methodRun_of_movedTo (hmoved : before.tables.MovedTo renumbering inserted after.tables)
    (htype : Table.typeDef ≠ renumbering.table) (hmethod : Table.methodDef ≠ renumbering.table)
    {typeDef : Nat} {run : Nat × Nat} (h : before.methodRun typeDef = .ok run) :
    after.methodRun typeDef = .ok run := by
  have hvalue : ∀ row value, before.tables.value .typeDef row TypeDef.methodColumn = .ok value →
      after.tables.value .typeDef row TypeDef.methodColumn = .ok value := by
    intro row value hbefore
    have hkind : Table.typeDef.columns[TypeDef.methodColumn]? = some (.list .methodDef) := rfl
    obtain ⟨value', hvalue', hnew⟩ :=
      value_of_movedTo hmoved (renumbering.place_of_ne htype row) hkind (by decide) hbefore
    obtain rfl : value = value' := (if_neg hmethod).symm.trans (Except.ok.inj hnew)
    exact hvalue'
  have htypes : after.tables.count .typeDef = before.tables.count .typeDef := by
    rw [hmoved.counts, if_neg htype]
  have hmethods : after.tables.count .methodDef = before.tables.count .methodDef := by
    rw [hmoved.counts, if_neg hmethod]
  obtain ⟨first, hfirst, h⟩ := Outcome.bind_eq_ok.mp h
  unfold methodRun Tables.runOf
  rw [hvalue _ _ hfirst, Outcome.ok_bind, htypes, hmethods]
  by_cases hlast : typeDef < before.tables.count .typeDef
  · rw [if_pos hlast] at h ⊢
    obtain ⟨stop, hstop, h⟩ := Outcome.bind_eq_ok.mp h
    obtain ⟨next, hnext, rfl⟩ := Outcome.map_eq_ok.mp hstop
    rw [hvalue _ _ hnext]
    exact h
  · rw [if_neg hlast] at h ⊢
    exact h

theorem ownerOf_of_movedTo (hmoved : before.tables.MovedTo renumbering inserted after.tables)
    (htype : Table.typeDef ≠ renumbering.table) (hmethod : Table.methodDef ≠ renumbering.table)
    {method owner : Nat} (h : before.ownerOf method = .ok owner) :
    after.ownerOf method = .ok owner := by
  have hamong : ∀ types : List Nat, before.ownerAmong method types = .ok owner →
      after.ownerAmong method types = .ok owner := by
    intro types
    induction types with
    | nil => exact nofun
    | cons typeDef rest ih =>
        intro h
        obtain ⟨⟨start, stop⟩, hrun, h⟩ := Outcome.bind_eq_ok.mp h
        unfold ownerAmong
        rw [methodRun_of_movedTo hmoved htype hmethod hrun, Outcome.ok_bind]
        dsimp only at h ⊢
        split at h
        · rename_i hin
          rw [if_pos hin]
          exact h
        · rename_i hout
          rw [if_neg hout]
          exact ih h
  have htypes : after.tables.count .typeDef = before.tables.count .typeDef := by
    rw [hmoved.counts, if_neg htype]
  unfold ownerOf rowNumbers at h ⊢
  rw [htypes]
  exact hamong _ h

end

/-- The type a method belongs to exists. -/
theorem mem_of_ownerOf {assembly : Assembly} {method owner : Nat}
    (h : assembly.ownerOf method = .ok owner) : owner ∈ assembly.rowNumbers .typeDef := by
  have hamong : ∀ types : List Nat, assembly.ownerAmong method types = .ok owner →
      owner ∈ types := by
    intro types
    induction types with
    | nil => exact nofun
    | cons typeDef rest ih =>
        intro h
        obtain ⟨⟨start, stop⟩, -, h⟩ := Outcome.bind_eq_ok.mp h
        dsimp only at h
        split at h
        · rw [Outcome.pure_eq_ok.mp h]
          exact .head _
        · exact .tail _ (ih h)
  exact hamong _ h

end Assembly

end NativeExports
