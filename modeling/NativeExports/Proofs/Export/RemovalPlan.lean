import Mathlib.Data.List.Nodup
import NativeExports.Export.MarkerRemoval
import NativeExports.Proofs.Export.Markers

/-!
# What is taken out

Before anything is taken out, it is settled what goes: the markers, the rows of the library that are
not reached, and the attributes attached to these rows.  In a well-formed assembly this can always
be settled, and then the removal carries out the plan.
-/

namespace NativeExports.MarkerRemoval

open Assembly

/-! ## The rows of the library -/

/-- A type reference that is resolved in the library in the end. -/
def IsLibraryType (assembly : Assembly) (library row : Nat) : Prop :=
  assembly.resolvingScope row = .ok (some (.assemblyRef, library))

/-- A reference to a member of such a type. -/
def IsLibraryMember (assembly : Assembly) (library row : Nat) : Prop :=
  ∃ parent type, assembly.tables.value .memberRef row MemberRef.parentColumn = .ok parent ∧
    CodedKind.memberRefParent.decode parent = .ok (.typeRef, type) ∧
      IsLibraryType assembly library type

/-- A token of a row of the library. -/
def BelongsTo (assembly : Assembly) (library : Nat) (token : Token) : Prop :=
  (∃ row, IsLibraryType assembly library row ∧ token = Token.ofRow .typeRef row) ∨
    ∃ row, IsLibraryMember assembly library row ∧ token = Token.ofRow .memberRef row

section

variable {assembly : Assembly}

/-- What a type reference is resolved in exists. -/
theorem exists_of_scopeFrom (hwf : assembly.WellFormed) {count row library : Nat}
    (h : scopeFrom assembly.tables count row = .ok (some (.assemblyRef, library))) :
    (∃ columns, assembly.tables.row? .typeRef row = some columns) ∧
      ∃ columns, assembly.tables.row? .assemblyRef library = some columns := by
  induction count generalizing row with
  | zero => cases h
  | succ count ih =>
      obtain ⟨value, hvalue, h⟩ := Outcome.bind_eq_ok.mp h
      obtain ⟨columns, hrow⟩ := Tables.exists_row_of_value hvalue
      refine ⟨⟨columns, hrow⟩, ?_⟩
      obtain ⟨value', target, named, -, hvalue', hdecode, hle⟩ :=
        hwf.exists_decode hrow (c := TypeRef.scopeColumn) rfl
      obtain rfl := Except.ok.inj (hvalue.symm.trans hvalue')
      rw [hdecode, Outcome.ok_bind] at h
      split at h
      · cases h
      · exact (ih h).2
      · rename_i hzero htype
        obtain ⟨rfl, rfl⟩ := Prod.mk.inj (Option.some.inj (Outcome.pure_eq_ok.mp h))
        exact Tables.exists_row?.mpr ⟨Nat.pos_of_ne_zero fun heq => hzero _ (by rw [heq]), hle⟩

theorem exists_of_isLibraryType (hwf : assembly.WellFormed) {library row : Nat}
    (h : IsLibraryType assembly library row) :
    (∃ columns, assembly.tables.row? .typeRef row = some columns) ∧
      ∃ columns, assembly.tables.row? .assemblyRef library = some columns :=
  exists_of_scopeFrom hwf h

theorem exists_of_isLibraryMember {library row : Nat} (h : IsLibraryMember assembly library row) :
    ∃ columns, assembly.tables.row? .memberRef row = some columns := by
  obtain ⟨parent, type, hparent, -⟩ := h
  exact Tables.exists_row_of_value hparent

theorem exists_typesOf (hwf : assembly.WellFormed) (library : Nat) :
    ∃ types, typesOf assembly library = .ok types ∧ types.Nodup ∧
      ∀ row, row ∈ types ↔ IsLibraryType assembly library row := by
  obtain ⟨types, htypes⟩ : ∃ types, typesOf assembly library = .ok types := by
    apply Outcome.exists_filterM
    intro row hmem
    obtain ⟨found, hfound⟩ := exists_resolvingScope hwf (mem_rowNumbers.mp hmem)
    rw [hfound]
    exact ⟨_, rfl⟩
  obtain ⟨hsub, hmem⟩ := Outcome.filterM_eq_ok htypes
  refine ⟨types, htypes, List.Nodup.sublist hsub List.nodup_range', fun row => ?_⟩
  rw [hmem]
  constructor
  · rintro ⟨-, h⟩
    obtain ⟨found, hfound, h⟩ := Outcome.bind_eq_ok.mp h
    have heq : found = some (.assemblyRef, library) := eq_of_beq (Outcome.pure_eq_ok.mp h)
    exact hfound.trans (by rw [heq])
  · intro h
    refine ⟨mem_rowNumbers.mpr (exists_of_isLibraryType hwf h).1, ?_⟩
    rw [h, Outcome.ok_bind, beq_self_eq_true]
    rfl

theorem exists_membersOf (hwf : assembly.WellFormed) {library : Nat} {types : List Nat}
    (htypes : ∀ row, row ∈ types ↔ IsLibraryType assembly library row) :
    ∃ members, membersOf assembly types = .ok members ∧ members.Nodup ∧
      ∀ row, row ∈ members ↔ IsLibraryMember assembly library row := by
  have hparent : ∀ row ∈ assembly.rowNumbers .memberRef, ∃ parent target named,
      assembly.tables.value .memberRef row MemberRef.parentColumn = .ok parent ∧
        CodedKind.memberRefParent.decode parent = .ok (target, named) := by
    intro row hmem
    obtain ⟨columns, hrow⟩ := mem_rowNumbers.mp hmem
    obtain ⟨parent, target, named, -, hvalue, hdecode, -⟩ :=
      hwf.exists_decode hrow (c := MemberRef.parentColumn) rfl
    exact ⟨parent, target, named, hvalue, hdecode⟩
  obtain ⟨members, hmembers⟩ : ∃ members, membersOf assembly types = .ok members := by
    apply Outcome.exists_filterM
    intro row hmem
    obtain ⟨parent, target, named, hvalue, hdecode⟩ := hparent row hmem
    rw [hvalue, Outcome.ok_bind, hdecode, Outcome.ok_bind]
    split
    · exact ⟨_, rfl⟩
    · exact ⟨_, rfl⟩
  obtain ⟨hsub, hmem⟩ := Outcome.filterM_eq_ok hmembers
  refine ⟨members, hmembers, List.Nodup.sublist hsub List.nodup_range', fun row => ?_⟩
  rw [hmem]
  constructor
  · rintro ⟨hin, h⟩
    obtain ⟨parent, target, named, hvalue, hdecode⟩ := hparent row hin
    rw [hvalue, Outcome.ok_bind, hdecode, Outcome.ok_bind] at h
    split at h
    · rename_i type heq
      obtain ⟨rfl, rfl⟩ := Prod.mk.inj heq
      refine ⟨parent, _, hvalue, hdecode, (htypes _).mp ?_⟩
      exact List.contains_iff_mem.mp (Outcome.pure_eq_ok.mp h)
    · cases h
  · rintro ⟨parent, type, hvalue, hdecode, htype⟩
    refine ⟨mem_rowNumbers.mpr (exists_of_isLibraryMember ⟨parent, type, hvalue, hdecode, htype⟩),
      ?_⟩
    rw [hvalue, Outcome.ok_bind, hdecode, Outcome.ok_bind]
    exact congrArg Except.ok (List.contains_iff_mem.mpr ((htypes type).mpr htype))

/-- Different rows that exist have different tokens. -/
theorem nodup_map_ofRow (hwf : assembly.WellFormed) {table : Table} {rows : List Nat}
    (hrows : ∀ row ∈ rows, ∃ columns, assembly.tables.row? table row = some columns)
    (hnodup : rows.Nodup) : (rows.map (Token.ofRow table)).Nodup :=
  hnodup.map_on fun row hrow row' hrow' heq =>
    hwf.row_of_ofRow_eq (hrows row hrow) (hrows row' hrow') heq

/-- All rows of the library are found. -/
theorem exists_rowsOfLibrary (hwf : assembly.WellFormed) (library : Nat) :
    ∃ candidates, rowsOfLibrary assembly library = .ok candidates ∧ candidates.Nodup ∧
      ∀ token, token ∈ candidates ↔ BelongsTo assembly library token := by
  obtain ⟨types, htypes, hnodup, hmem⟩ := exists_typesOf hwf library
  obtain ⟨members, hmembers, hnodup', hmem'⟩ := exists_membersOf hwf hmem
  refine ⟨types.map (Token.ofRow .typeRef) ++ members.map (Token.ofRow .memberRef), ?_, ?_, ?_⟩
  · rw [rowsOfLibrary, htypes, Outcome.ok_bind, hmembers]
    rfl
  · have hrows := fun row hrow => (exists_of_isLibraryType hwf ((hmem row).mp hrow)).1
    have hrows' := fun row hrow => exists_of_isLibraryMember ((hmem' row).mp hrow)
    rw [List.nodup_append]
    refine ⟨nodup_map_ofRow hwf hrows hnodup, nodup_map_ofRow hwf hrows' hnodup', ?_⟩
    intro token htoken token' htoken' heq
    obtain ⟨row, -, rfl⟩ := List.mem_map.mp htoken
    obtain ⟨row', -, rfl⟩ := List.mem_map.mp htoken'
    cases Token.table_of_ofRow_eq heq
  · intro token
    rw [List.mem_append, List.mem_map, List.mem_map]
    refine or_congr (exists_congr fun row => ?_) (exists_congr fun row => ?_)
    · rw [hmem, eq_comm]
    · rw [hmem', eq_comm]

theorem exists_attributesOf (hwf : assembly.WellFormed) (parents : List Token) :
    ∃ rows, assembly.attributesOf parents = .ok rows ∧ rows.Nodup ∧
      ∀ row, row ∈ rows ↔ ∃ parent ∈ parents, assembly.attributeParent row = .ok parent := by
  obtain ⟨rows, hrows⟩ : ∃ rows, assembly.attributesOf parents = .ok rows := by
    apply Outcome.exists_filterM
    intro row hmem
    obtain ⟨columns, hrow⟩ := mem_rowNumbers.mp hmem
    obtain ⟨parent, hparent⟩ := exists_attributeParent hwf hrow
    rw [hparent]
    exact ⟨_, rfl⟩
  obtain ⟨hsub, hmem⟩ := Outcome.filterM_eq_ok hrows
  refine ⟨rows, hrows, List.Nodup.sublist hsub List.nodup_range', fun row => ?_⟩
  rw [hmem]
  constructor
  · rintro ⟨-, h⟩
    obtain ⟨parent, hparent, h⟩ := Outcome.bind_eq_ok.mp h
    exact ⟨parent, List.contains_iff_mem.mp (Outcome.pure_eq_ok.mp h), hparent⟩
  · rintro ⟨parent, hin, hparent⟩
    obtain ⟨stored, hstored, -⟩ := Outcome.bind_eq_ok.mp hparent
    refine ⟨mem_rowNumbers.mpr (Tables.exists_row_of_value hstored), ?_⟩
    rw [hparent, Outcome.ok_bind]
    exact congrArg Except.ok (List.contains_iff_mem.mpr hin)

/-- It can be told which library defines the markers, and that library is referred to. -/
theorem exists_markerLibrary (hwf : assembly.WellFormed) {markers : List Marker}
    (h : ∀ marker ∈ markers, ∃ table n, (table = .typeRef ∨ table = .typeDef) ∧
      marker.type = Token.ofRow table n ∧
        ∃ columns, assembly.tables.row? table n = some columns) :
    ∃ library?, markerLibrary assembly markers = .ok library? ∧ ∀ library, library? = some library →
      ∃ columns, assembly.tables.row? .assemblyRef library = some columns := by
  have hnamed : ∀ library, assembly.assemblyRefNamed? libraryName = some library →
      ∃ columns, assembly.tables.row? .assemblyRef library = some columns :=
    fun library hfound => mem_rowNumbers.mp (List.mem_of_find?_eq_some hfound)
  rcases markers with _ | ⟨marker, markers⟩
  · exact ⟨_, rfl, hnamed⟩
  obtain ⟨table, n, -, htype, hn⟩ := h marker (.head _)
  have hlt : n < Token.rowLimit :=
    Nat.lt_of_le_of_lt (Tables.exists_row?.mp hn).2 (hwf.counts table)
  have hlibrary : ∃ found, libraryOf assembly marker = .ok found ∧ ∀ library, found = some library →
      ∃ columns, assembly.tables.row? .assemblyRef library = some columns := by
    unfold libraryOf
    rw [htype, Token.table?_ofRow, Token.row_ofRow, Nat.mod_eq_of_lt hlt]
    by_cases htable : table = .typeRef
    · subst htable
      rw [if_neg (not_not_intro rfl)]
      obtain ⟨found, hfound⟩ := exists_resolvingScope hwf hn
      rw [hfound, Outcome.ok_bind]
      split
      · rename_i row
        refine ⟨some row, rfl, fun library heq => ?_⟩
        obtain rfl := Option.some.inj heq
        exact (exists_of_isLibraryType hwf hfound).2
      · exact ⟨none, rfl, nofun⟩
    · rw [if_pos fun heq => htable (Option.some.inj heq)]
      exact ⟨none, rfl, nofun⟩
  obtain ⟨found, hfound, hexists⟩ := hlibrary
  unfold markerLibrary
  dsimp only
  rw [hfound, Outcome.ok_bind]
  rcases found with _ | library
  · exact ⟨_, rfl, hnamed⟩
  · exact ⟨some library, rfl, hexists⟩

end

/-! ## Plans -/

/-- What goes and what stays. -/
structure Plan where
  /-- The rows of the markers. -/
  markers : List Nat
  /-- The library that defines them. -/
  library : Option Nat
  /-- The rows of the library. -/
  candidates : List Token
  /-- Those that are reached. -/
  kept : List Token
  /-- The attributes that go. -/
  attributes : List Nat
  /-- The references to members that go. -/
  memberRefs : List Nat
  /-- The references to types that go. -/
  typeRefs : List Nat

namespace Plan

/-- What is reached once the markers are gone. -/
def Reaches (plan : Plan) (assembly : Assembly) (token : Token) : Prop :=
  assembly.Reached plan.candidates (plan.markers.map (Token.ofRow .customAttribute)) token

/-- A plan for an assembly. -/
structure Fits (plan : Plan) (assembly : Assembly) : Prop where
  markers : ∀ row, row ∈ plan.markers ↔ Marker.IsMarker assembly row
  library : ∃ found, Marker.all assembly = .ok found ∧
    markerLibrary assembly found = .ok plan.library
  libraryExists : ∀ library, plan.library = some library →
    ∃ columns, assembly.tables.row? .assemblyRef library = some columns
  candidates : ∀ token, token ∈ plan.candidates ↔
    ∃ library, plan.library = some library ∧ BelongsTo assembly library token
  kept : ∀ token, token ∈ plan.kept ↔ token ∈ plan.candidates ∧ plan.Reaches assembly token
  /-- The type references of the library that are not reached go. -/
  typeRefs : ∀ row, row ∈ plan.typeRefs ↔
    (∃ library, plan.library = some library ∧ IsLibraryType assembly library row) ∧
      ¬plan.Reaches assembly (Token.ofRow .typeRef row)
  /-- The references to members of the library that are not reached go. -/
  memberRefs : ∀ row, row ∈ plan.memberRefs ↔
    (∃ library, plan.library = some library ∧ IsLibraryMember assembly library row) ∧
      ¬plan.Reaches assembly (Token.ofRow .memberRef row)
  /-- The markers go, and the attributes that are attached to a row that goes. -/
  attributes : ∀ row, row ∈ plan.attributes ↔ Marker.IsMarker assembly row ∨
    ∃ parent, assembly.attributeParent row = .ok parent ∧ parent ∈ plan.candidates ∧
      ¬plan.Reaches assembly parent
  distinct : plan.attributes.Nodup ∧ plan.memberRefs.Nodup ∧ plan.typeRefs.Nodup

/-- Takes out the reference to the library if nothing uses it. -/
def removeLibrary (plan : Plan) (assembly : Assembly) : Except Error (Bool × Assembly) :=
  match plan.library with
  | some library => (MarkerRemoval.removeLibrary assembly library).outcome
  | none => .ok (false, assembly)

/-- Takes out what goes. -/
def carryOut (plan : Plan) (assembly : Assembly) : Except Error (RemovalReport × Assembly) := do
  let first ← takeOut assembly .customAttribute plan.attributes
  let second ← takeOut first .memberRef plan.memberRefs
  let third ← takeOut second .typeRef plan.typeRefs
  let (assemblyRef, last) ← plan.removeLibrary third
  return (⟨plan.attributes.length, plan.memberRefs.length, plan.typeRefs.length, assemblyRef,
    plan.kept⟩, last)

end Plan

theorem mem_rowsOf {table : Table} {tokens : List Token} {row : Nat} :
    row ∈ rowsOf table tokens ↔ ∃ token ∈ tokens, token.table? = some table ∧ token.row = row := by
  simp [rowsOf, and_assoc]

theorem outcome_forM_warnKept (assembly : Assembly) (tokens : List Token) :
    (tokens.forM (warnKept assembly)).outcome = .ok () := by
  induction tokens with
  | nil => rfl
  | cons token tokens ih =>
      change (warnKept assembly token >>= fun _ => tokens.forM (warnKept assembly)).outcome = .ok ()
      rw [Logged.outcome_bind]
      exact ih

section

variable {assembly : Assembly}

theorem table_of_belongsTo {library : Nat} {token : Token}
    (h : BelongsTo assembly library token) :
    ∃ table, (table = .typeRef ∨ table = .memberRef) ∧ token.table? = some table ∧
      token = Token.ofRow table token.row := by
  rcases h with ⟨row, -, rfl⟩ | ⟨row, -, rfl⟩
  · exact ⟨.typeRef, .inl rfl, Token.table?_ofRow _ _, (Token.ofRow_row_ofRow _ _).symm⟩
  · exact ⟨.memberRef, .inr rfl, Token.table?_ofRow _ _, (Token.ofRow_row_ofRow _ _).symm⟩

theorem row?_of_belongsTo (hwf : assembly.WellFormed) {library : Nat} {token : Token}
    (h : BelongsTo assembly library token) : ∃ table columns, token.table? = some table ∧
      assembly.tables.row? table token.row = some columns := by
  rcases h with ⟨row, htype, rfl⟩ | ⟨row, hmember, rfl⟩
  · have hexists := (exists_of_isLibraryType hwf htype).1
    obtain ⟨columns, hrow⟩ := hexists
    exact ⟨.typeRef, columns,
      Token.table?_ofRow _ _, by rw [hwf.row_token ⟨columns, hrow⟩]; exact hrow⟩
  · obtain ⟨columns, hrow⟩ := exists_of_isLibraryMember hmember
    exact ⟨.memberRef, columns, Token.table?_ofRow _ _,
      by rw [hwf.row_token ⟨columns, hrow⟩]; exact hrow⟩

theorem nodup_rowsOf {table : Table} {tokens : List Token} (hnodup : tokens.Nodup)
    (htokens : ∀ token ∈ tokens, ∃ library, BelongsTo assembly library token) :
    (rowsOf table tokens).Nodup := by
  apply List.Nodup.map_on _ (hnodup.filter _)
  intro token hmem token' hmem' hrow
  obtain ⟨hin, htable⟩ := List.mem_filter.mp hmem
  obtain ⟨hin', htable'⟩ := List.mem_filter.mp hmem'
  obtain ⟨library, hbelongs⟩ := htokens token hin
  obtain ⟨library', hbelongs'⟩ := htokens token' hin'
  obtain ⟨found, -, hfound, heq⟩ := table_of_belongsTo hbelongs
  obtain ⟨found', -, hfound', heq'⟩ := table_of_belongsTo hbelongs'
  have hsame : found = found' := by
    rw [of_decide_eq_true htable] at hfound
    rw [of_decide_eq_true htable'] at hfound'
    exact (Option.some.inj hfound).symm.trans (Option.some.inj hfound')
  rw [heq, heq', hsame, hrow]

/-- What is taken out of a table of the library are the rows that belong to it and are not
reached. -/
theorem mem_rowsOf_dead (hwf : assembly.WellFormed) {library : Nat} {candidates dead : List Token}
    {reached : Token → Prop} {table : Table} {belongs : Nat → Prop}
    (hcandidates : ∀ row, Token.ofRow table row ∈ candidates ∧
      (∃ columns, assembly.tables.row? table row = some columns) ↔ belongs row)
    (hbelongs : ∀ token ∈ candidates, BelongsTo assembly library token)
    (hdead : ∀ token, token ∈ dead ↔ token ∈ candidates ∧ ¬reached token) (row : Nat) :
    row ∈ rowsOf table dead ↔ belongs row ∧ ¬reached (Token.ofRow table row) := by
  rw [mem_rowsOf]
  constructor
  · rintro ⟨token, hmem, htable, rfl⟩
    obtain ⟨hin, hreached⟩ := (hdead token).mp hmem
    obtain ⟨found, columns, hfound, hrow⟩ := row?_of_belongsTo hwf (hbelongs token hin)
    obtain ⟨found', -, hfound', heq⟩ := table_of_belongsTo (hbelongs token hin)
    obtain rfl := Option.some.inj (hfound.symm.trans htable)
    obtain rfl := Option.some.inj (hfound'.symm.trans htable)
    rw [heq] at hin hreached
    exact ⟨(hcandidates _).mp ⟨hin, columns, hrow⟩, hreached⟩
  · rintro ⟨hin, hreached⟩
    obtain ⟨hmem, hexists⟩ := (hcandidates row).mpr hin
    exact ⟨Token.ofRow table row, (hdead _).mpr ⟨hmem, hreached⟩, Token.table?_ofRow _ _,
      hwf.row_token hexists⟩

theorem belongsTo_typeRef (hwf : assembly.WellFormed) {library row : Nat} :
    BelongsTo assembly library (Token.ofRow .typeRef row) ∧
      (∃ columns, assembly.tables.row? .typeRef row = some columns) ↔
        IsLibraryType assembly library row := by
  constructor
  · rintro ⟨⟨row', htype, heq⟩ | ⟨row', -, heq⟩, hexists⟩
    · rwa [hwf.row_of_ofRow_eq hexists (exists_of_isLibraryType hwf htype).1 heq]
    · cases Token.table_of_ofRow_eq heq
  · intro htype
    exact ⟨.inl ⟨row, htype, rfl⟩, (exists_of_isLibraryType hwf htype).1⟩

theorem belongsTo_memberRef (hwf : assembly.WellFormed) {library row : Nat} :
    BelongsTo assembly library (Token.ofRow .memberRef row) ∧
      (∃ columns, assembly.tables.row? .memberRef row = some columns) ↔
        IsLibraryMember assembly library row := by
  constructor
  · rintro ⟨⟨row', -, heq⟩ | ⟨row', hmember, heq⟩, hexists⟩
    · cases Token.table_of_ofRow_eq heq
    · rwa [hwf.row_of_ofRow_eq hexists (exists_of_isLibraryMember hmember) heq]
  · intro hmember
    exact ⟨.inr ⟨row, hmember, rfl⟩, exists_of_isLibraryMember hmember⟩

/-! ## Planning -/

/-- Nothing but the markers goes if there is no library. -/
theorem fits_of_noLibrary {found : List Marker} (hall : Marker.all assembly = .ok found)
    (hnodup : (found.map (·.row)).Nodup)
    (hmarkers : ∀ row, row ∈ found.map (·.row) ↔ Marker.IsMarker assembly row)
    (hlibrary : markerLibrary assembly found = .ok none) :
    Plan.Fits ⟨found.map (·.row), none, [], [], found.map (·.row), [], []⟩ assembly where
  markers := hmarkers
  library := ⟨found, hall, hlibrary⟩
  libraryExists := nofun
  candidates := by simp
  kept := by simp
  typeRefs := by simp
  memberRefs := by simp
  attributes := by simpa using hmarkers
  distinct := ⟨hnodup, .nil, .nil⟩

theorem mem_append_fresh {rows others : List Nat} {row : Nat} :
    (row ∈ rows ++ others.filter fun other => !rows.contains other) ↔
      row ∈ rows ∨ row ∈ others := by
  rw [List.mem_append, List.mem_filter, Bool.not_eq_true', ← Bool.not_eq_true,
    List.contains_iff_mem]
  by_cases hrow : row ∈ rows
  · exact iff_of_true (.inl hrow) (.inl hrow)
  · exact or_congr_right (and_iff_left hrow)

theorem nodup_append_fresh {rows others : List Nat} (hrows : rows.Nodup) (hothers : others.Nodup) :
    (rows ++ others.filter fun other => !rows.contains other).Nodup := by
  rw [List.nodup_append]
  refine ⟨hrows, hothers.filter _, ?_⟩
  rintro row hrow _ hrow' rfl
  have hfresh := (List.mem_filter.mp hrow').2
  rw [Bool.not_eq_true', ← Bool.not_eq_true, List.contains_iff_mem] at hfresh
  exact hfresh hrow

/-- With a library, its rows that are not reached go as well, and the attributes attached to
them. -/
theorem fits_of_library (hwf : assembly.WellFormed) {found : List Marker} {library : Nat}
    {candidates live dead : List Token} {attached : List Nat}
    (hall : Marker.all assembly = .ok found) (hnodup : (found.map (·.row)).Nodup)
    (hmarkers : ∀ row, row ∈ found.map (·.row) ↔ Marker.IsMarker assembly row)
    (hlibrary : markerLibrary assembly found = .ok (some library))
    (hexists : ∃ columns, assembly.tables.row? .assemblyRef library = some columns)
    (hcandidates : ∀ token, token ∈ candidates ↔ BelongsTo assembly library token)
    (hlive : ∀ token, token ∈ live ↔ token ∈ candidates ∧ assembly.Reached candidates
      ((found.map (·.row)).map (Token.ofRow .customAttribute)) token)
    (hdead : ∀ token, token ∈ dead ↔ token ∈ candidates ∧ ¬assembly.Reached candidates
      ((found.map (·.row)).map (Token.ofRow .customAttribute)) token)
    (hdistinct : dead.Nodup)
    (hattached : ∀ row, row ∈ attached ↔ ∃ parent ∈ dead, assembly.attributeParent row = .ok parent)
    (hnodup' : attached.Nodup) :
    Plan.Fits ⟨found.map (·.row), some library, candidates, live,
      found.map (·.row) ++ attached.filter fun row => !(found.map (·.row)).contains row,
      rowsOf .memberRef dead, rowsOf .typeRef dead⟩ assembly := by
  have hbelongs : ∀ token ∈ candidates, BelongsTo assembly library token :=
    fun token hin => (hcandidates token).mp hin
  have hapart : ∀ table, (rowsOf table dead).Nodup := fun table =>
    nodup_rowsOf hdistinct fun token hin => ⟨library, hbelongs token ((hdead token).mp hin).1⟩
  have hsome : ∀ P : Nat → Prop, (∃ found, some library = some found ∧ P found) ↔ P library := by
    simp
  exact {
    markers := hmarkers
    library := ⟨found, hall, hlibrary⟩
    libraryExists := fun other heq => Option.some.inj heq ▸ hexists
    candidates := fun token =>
      (hcandidates token).trans (hsome fun library => BelongsTo assembly library token).symm
    kept := hlive
    typeRefs := fun row => by
      refine (mem_rowsOf_dead hwf (fun row => ?_) hbelongs hdead row).trans
        (and_congr_left' (hsome fun library => IsLibraryType assembly library row).symm)
      rw [hcandidates]
      exact belongsTo_typeRef hwf
    memberRefs := fun row => by
      refine (mem_rowsOf_dead hwf (fun row => ?_) hbelongs hdead row).trans
        (and_congr_left' (hsome fun library => IsLibraryMember assembly library row).symm)
      rw [hcandidates]
      exact belongsTo_memberRef hwf
    attributes := fun row => by
      rw [mem_append_fresh, hmarkers, hattached]
      refine or_congr_right (exists_congr fun parent => ?_)
      rw [hdead, and_comm]
      rfl
    distinct := ⟨nodup_append_fresh hnodup hnodup', hapart .memberRef, hapart .typeRef⟩ }

/-- The outcome of a removal with a library, once all is settled. -/
theorem removeFrom_eq {markers : List Nat} {library : Nat} {candidates live : List Token}
    {attached : List Nat} (hcandidates : rowsOfLibrary assembly library = .ok candidates)
    (hlive : assembly.reachableCandidates candidates
      (markers.map (Token.ofRow .customAttribute)) = .ok live)
    (hattached : assembly.attributesOf (candidates.filter fun token => !live.contains token) =
      .ok attached) :
    (removeFrom assembly markers library).outcome =
      Plan.carryOut ⟨markers, some library, candidates, live,
        markers ++ attached.filter fun row => !markers.contains row,
        rowsOf .memberRef (candidates.filter fun token => !live.contains token),
        rowsOf .typeRef (candidates.filter fun token => !live.contains token)⟩ assembly := by
  simp only [removeFrom, Plan.carryOut, Logged.outcome_bind, Logged.outcome_monadLift, hcandidates,
    hlive, hattached, Outcome.ok_bind, outcome_forM_warnKept]
  rfl

/-- It can always be settled what goes. -/
theorem exists_plan (hreadable : assembly.Readable) (hfit : assembly.SignaturesFit) :
    ∃ plan : Plan, plan.Fits assembly ∧ (run assembly).outcome = plan.carryOut assembly := by
  have hwf := hreadable.toWellFormed
  obtain ⟨found, hall, hnodup, hmarkers, htypes⟩ :=
    Marker.exists_all hwf hreadable.names hreadable.owned
  obtain ⟨library?, hlibrary, hexists⟩ := exists_markerLibrary hwf htypes
  rcases library? with _ | library
  · refine ⟨_, fits_of_noLibrary hall hnodup hmarkers hlibrary, ?_⟩
    simp only [run, Plan.carryOut, Logged.outcome_bind, Logged.outcome_monadLift, hall, hlibrary,
      Outcome.ok_bind]
    cases takeOut assembly .customAttribute (found.map (·.row)) <;> rfl
  obtain ⟨candidates, hcandidates, hdistinct, hmem⟩ := exists_rowsOfLibrary hwf library
  obtain ⟨live, hlive⟩ := exists_reachableCandidates hwf hfit
    ((found.map (·.row)).map (Token.ofRow .customAttribute)) fun token hin =>
      row?_of_belongsTo hwf ((hmem token).mp hin)
  have hreached := mem_of_reachableCandidates hlive
  have hdead : ∀ token, token ∈ (candidates.filter fun token => !live.contains token) ↔
      token ∈ candidates ∧ ¬assembly.Reached candidates
        ((found.map (·.row)).map (Token.ofRow .customAttribute)) token := by
    intro token
    rw [List.mem_filter, Bool.not_eq_true', ← Bool.not_eq_true, List.contains_iff_mem, hreached]
    exact ⟨fun h => ⟨h.1, fun hin => h.2 ⟨h.1, hin⟩⟩, fun h => ⟨h.1, fun hin => h.2 hin.2⟩⟩
  obtain ⟨attached, hattached, hnodup', hmem'⟩ :=
    exists_attributesOf hwf (candidates.filter fun token => !live.contains token)
  refine ⟨_, fits_of_library hwf hall hnodup hmarkers hlibrary (hexists library rfl) hmem hreached
    hdead (hdistinct.filter _) hmem' hnodup', ?_⟩
  rw [← removeFrom_eq hcandidates hlive hattached]
  simp only [run, Logged.outcome_bind, Logged.outcome_monadLift, hall, hlibrary, Outcome.ok_bind]

end

end NativeExports.MarkerRemoval
