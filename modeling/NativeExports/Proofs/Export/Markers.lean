import NativeExports.Export.Marker
import NativeExports.Proofs.Reachability
import NativeExports.Proofs.Renumbering.Lookups
import NativeExports.Proofs.Renumbering.Removal

/-!
# Finding markers

In a well-formed assembly whose names can be read and whose methods belong to types, all markers are
found.  Renumbering moves markers, but it makes none.
-/

namespace NativeExports

namespace Assembly

/-- The names of all rows can be read. -/
def NamesFit (assembly : Assembly) : Prop :=
  ∀ table, ∀ columns ∈ assembly.tables.rows table, ∀ (c : Nat) value,
    table.columns[c]? = some .string → columns[c]? = some value →
      ∃ name, assembly.strings.get value = .ok name

/-- Every method belongs to a type. -/
def MethodsOwned (assembly : Assembly) : Prop :=
  ∀ row ∈ assembly.rowNumbers .methodDef, ∃ owner, assembly.ownerOf row = .ok owner

theorem exists_columnString {assembly : Assembly} (hwf : assembly.WellFormed)
    (hnames : assembly.NamesFit) {table : Table} {row c : Nat}
    (hrow : ∃ columns, assembly.tables.row? table row = some columns)
    (hkind : table.columns[c]? = some .string) :
    ∃ name, assembly.columnString table row c = .ok name := by
  obtain ⟨columns, hrow⟩ := hrow
  obtain ⟨value, hget, hvalue, -⟩ := hwf.exists_value hrow hkind
  obtain ⟨name, hname⟩ := hnames table columns (Tables.mem_rows.mpr ⟨row, hrow⟩) c value hkind hget
  unfold columnString
  rw [hvalue]
  exact ⟨name, hname⟩

theorem exists_qualifiedName {assembly : Assembly} (hwf : assembly.WellFormed)
    (hnames : assembly.NamesFit) {table : Table} {row c c' : Nat}
    (hrow : ∃ columns, assembly.tables.row? table row = some columns)
    (hspace : table.columns[c]? = some .string) (hown : table.columns[c']? = some .string) :
    ∃ name, assembly.qualifiedName table c c' row = .ok name := by
  obtain ⟨space, hspace'⟩ := exists_columnString hwf hnames hrow hspace
  obtain ⟨own, hown'⟩ := exists_columnString hwf hnames hrow hown
  unfold qualifiedName
  rw [hspace', Outcome.ok_bind, hown']
  exact ⟨_, rfl⟩

theorem exists_scopeFrom {assembly : Assembly} (hwf : assembly.WellFormed) (count : Nat) {row : Nat}
    (hrow : ∃ columns, assembly.tables.row? .typeRef row = some columns) :
    ∃ found, scopeFrom assembly.tables count row = .ok found := by
  induction count generalizing row with
  | zero => exact ⟨none, rfl⟩
  | succ count ih =>
      obtain ⟨columns, hrow⟩ := hrow
      obtain ⟨value, target, named, -, hvalue, hdecode, hle⟩ :=
        hwf.exists_decode hrow (c := TypeRef.scopeColumn) rfl
      unfold scopeFrom
      rw [hvalue, Outcome.ok_bind, hdecode, Outcome.ok_bind]
      split
      · exact ⟨none, rfl⟩
      · rename_i next hne heq
        obtain ⟨rfl, rfl⟩ := Prod.mk.inj heq
        exact ih (Tables.exists_row?.mpr ⟨Nat.pos_of_ne_zero hne, hle⟩)
      · exact ⟨_, rfl⟩

/-- Every type reference that exists can be resolved as far as its scopes lead. -/
theorem exists_resolvingScope {assembly : Assembly} (hwf : assembly.WellFormed) {row : Nat}
    (hrow : ∃ columns, assembly.tables.row? .typeRef row = some columns) :
    ∃ found, assembly.resolvingScope row = .ok found :=
  exists_scopeFrom hwf _ hrow

end Assembly

namespace Marker

open Assembly

/-- Namespace and name of the type that declares the constructor of an attribute. -/
def constructorTypeName? (assembly : Assembly) (constructor : Nat) :
    Except Error (Option (String × String)) := do
  match ← constructorOwner? assembly constructor with
  | none => return none
  | some type => nameOf? assembly type

/-- A row of the attribute table is a marker. -/
def IsMarker (assembly : Assembly) (row : Nat) : Prop :=
  ∃ constructor space,
    assembly.tables.value .customAttribute row CustomAttribute.constructorColumn = .ok constructor ∧
      constructorTypeName? assembly constructor = .ok (some (space, typeName))

theorem IsMarker.exists_row {assembly : Assembly} {row : Nat} (h : IsMarker assembly row) :
    ∃ columns, assembly.tables.row? .customAttribute row = some columns := by
  obtain ⟨constructor, space, hconstructor, -⟩ := h
  exact Tables.exists_row_of_value hconstructor

/-! ## Types of attributes -/

section

variable {assembly : Assembly}

theorem constructorTypeName?_of_none {constructor : Nat}
    (h : constructorOwner? assembly constructor = .ok none) :
    constructorTypeName? assembly constructor = .ok none := by
  rw [constructorTypeName?, h]
  rfl

theorem constructorTypeName?_of_owner {constructor : Nat} {type : Token}
    (h : constructorOwner? assembly constructor = .ok (some type)) :
    constructorTypeName? assembly constructor = nameOf? assembly type := by
  rw [constructorTypeName?, h]
  rfl

theorem nameOf?_typeRef {row : Nat} (h : row < Token.rowLimit) :
    nameOf? assembly (Token.ofRow .typeRef row) = some <$> assembly.nameOfTypeRef row := by
  unfold nameOf?
  rw [Token.table?_ofRow]
  dsimp only
  rw [Token.row_ofRow, Nat.mod_eq_of_lt h]

theorem nameOf?_typeDef {row : Nat} (h : row < Token.rowLimit) :
    nameOf? assembly (Token.ofRow .typeDef row) = some <$> assembly.nameOfTypeDef row := by
  unfold nameOf?
  rw [Token.table?_ofRow]
  dsimp only
  rw [Token.row_ofRow, Nat.mod_eq_of_lt h]

/-- The type that declares a member, if it is declared by one. -/
def declaringType? (table : Table) (row : Nat) : Option Token :=
  if (table = .typeRef ∨ table = .typeDef) ∧ row ≠ 0 then some (Token.ofRow table row) else none

theorem declaringType?_eq_none {table : Table} {row : Nat} :
    declaringType? table row = none ↔ ¬((table = .typeRef ∨ table = .typeDef) ∧ row ≠ 0) := by
  unfold declaringType?
  split <;> simp_all

theorem constructorOwner?_method {constructor row : Nat} (hne : row ≠ 0)
    (hdecode : CodedKind.customAttributeType.decode constructor = .ok (.methodDef, row)) :
    constructorOwner? assembly constructor =
      (fun owner => some (Token.ofRow .typeDef owner)) <$> assembly.ownerOf row := by
  unfold constructorOwner?
  rw [hdecode, Outcome.ok_bind]
  dsimp only
  rw [if_neg hne]
  cases assembly.ownerOf row <;> rfl

theorem constructorOwner?_member {constructor row parent named : Nat} {table : Table}
    (hne : row ≠ 0)
    (hdecode : CodedKind.customAttributeType.decode constructor = .ok (.memberRef, row))
    (hparent : assembly.tables.value .memberRef row MemberRef.parentColumn = .ok parent)
    (hnamed : CodedKind.memberRefParent.decode parent = .ok (table, named)) :
    constructorOwner? assembly constructor = .ok (declaringType? table named) := by
  unfold constructorOwner?
  rw [hdecode, Outcome.ok_bind]
  dsimp only
  rw [if_neg hne, hparent, Outcome.ok_bind, hnamed, Outcome.ok_bind]
  unfold declaringType?
  by_cases hzero : named = 0 <;> cases table <;> simp [hzero]

theorem constructorOwner?_other {constructor row : Nat} {target : Table}
    (hdecode : CodedKind.customAttributeType.decode constructor = .ok (target, row))
    (h : row = 0 ∨ target ≠ .methodDef ∧ target ≠ .memberRef) :
    constructorOwner? assembly constructor = .ok none := by
  unfold constructorOwner?
  rw [hdecode, Outcome.ok_bind]
  rcases h with rfl | ⟨hmethod, hmember⟩
  · cases target <;> rfl
  · cases target <;> first | rfl | contradiction

/-- The type of an attribute is found, and exists. -/
theorem exists_constructorOwner? (hwf : assembly.WellFormed) (howned : assembly.MethodsOwned)
    {constructor : Nat}
    (hin : assembly.tables.InRange (.coded .customAttributeType) constructor) :
    ∃ owner?, constructorOwner? assembly constructor = .ok owner? ∧ ∀ type, owner? = some type →
      ∃ table row, (table = .typeRef ∨ table = .typeDef) ∧ type = Token.ofRow table row ∧
        ∃ columns, assembly.tables.row? table row = some columns := by
  obtain ⟨target, row, hdecode, hle⟩ := hin
  by_cases hother : row = 0 ∨ target ≠ .methodDef ∧ target ≠ .memberRef
  · exact ⟨none, constructorOwner?_other hdecode hother, nofun⟩
  have hne : row ≠ 0 := fun hzero => hother (.inl hzero)
  have hexists := Tables.exists_row?.mpr ⟨Nat.pos_of_ne_zero hne, hle⟩
  by_cases hmethod : target = .methodDef
  · subst hmethod
    obtain ⟨owner, howner⟩ := howned row (mem_rowNumbers.mpr hexists)
    refine ⟨_, (constructorOwner?_method hne hdecode).trans (by rw [howner]; rfl), ?_⟩
    intro type htype
    exact ⟨.typeDef, owner, .inr rfl, (Option.some.inj htype).symm,
      mem_rowNumbers.mp (mem_of_ownerOf howner)⟩
  · have hmember : target = .memberRef := by
      by_contra hmember
      exact hother (.inr ⟨hmethod, hmember⟩)
    subst hmember
    obtain ⟨columns, hrow⟩ := hexists
    obtain ⟨parent, table, named, -, hparent, hnamed, hnamedLe⟩ :=
      hwf.exists_decode hrow (c := MemberRef.parentColumn) rfl
    refine ⟨_, constructorOwner?_member hne hdecode hparent hnamed, fun type htype => ?_⟩
    unfold declaringType? at htype
    split at htype
    · rename_i htable
      exact ⟨table, named, htable.1, (Option.some.inj htype).symm,
        Tables.exists_row?.mpr ⟨Nat.pos_of_ne_zero htable.2, hnamedLe⟩⟩
    · cases htype

theorem exists_nameOf? (hwf : assembly.WellFormed) (hnames : assembly.NamesFit) {table : Table}
    {row : Nat} (htable : table = .typeRef ∨ table = .typeDef)
    (hrow : ∃ columns, assembly.tables.row? table row = some columns) :
    ∃ name, nameOf? assembly (Token.ofRow table row) = .ok (some name) := by
  have hlt : row < Token.rowLimit :=
    Nat.lt_of_le_of_lt (Tables.exists_row?.mp hrow).2 (hwf.counts table)
  rcases htable with rfl | rfl
  · obtain ⟨name, hname⟩ : ∃ name, assembly.nameOfTypeRef row = .ok name :=
      exists_qualifiedName hwf hnames hrow rfl rfl
    rw [nameOf?_typeRef hlt, hname]
    exact ⟨name, rfl⟩
  · obtain ⟨name, hname⟩ : ∃ name, assembly.nameOfTypeDef row = .ok name :=
      exists_qualifiedName hwf hnames hrow rfl rfl
    rw [nameOf?_typeDef hlt, hname]
    exact ⟨name, rfl⟩

/-! ## Markers -/

/-- What is found in a row of the attribute table is a marker exactly if its type has the name of
markers. -/
theorem exists_ofRow? (hwf : assembly.WellFormed) (hnames : assembly.NamesFit)
    (howned : assembly.MethodsOwned) {row : Nat}
    (hrow : ∃ columns, assembly.tables.row? .customAttribute row = some columns) :
    ∃ marker?, ofRow? assembly row = .ok marker? ∧
      ((∃ marker, marker? = some marker) ↔ IsMarker assembly row) ∧
      ∀ marker, marker? = some marker → marker.row = row ∧
        ∃ table n, (table = .typeRef ∨ table = .typeDef) ∧ marker.type = Token.ofRow table n ∧
          ∃ columns, assembly.tables.row? table n = some columns := by
  obtain ⟨columns, hrow⟩ := hrow
  obtain ⟨constructor, -, hconstructor, hin⟩ :=
    hwf.exists_value hrow (c := CustomAttribute.constructorColumn) rfl
  obtain ⟨parent, target, named, -, hparent, hdecode, -⟩ :=
    hwf.exists_decode hrow (c := CustomAttribute.parentColumn) rfl
  obtain ⟨owner?, howner, hexists⟩ := exists_constructorOwner? hwf howned hin
  have hmarker : ∀ found, constructorTypeName? assembly constructor = .ok found →
      (IsMarker assembly row ↔ ∃ space, found = some (space, typeName)) := by
    intro found hfound
    constructor
    · rintro ⟨constructor', space, hconstructor', hname⟩
      obtain rfl := Except.ok.inj (hconstructor.symm.trans hconstructor')
      exact ⟨space, Except.ok.inj (hfound.symm.trans hname)⟩
    · rintro ⟨space, rfl⟩
      exact ⟨constructor, space, hconstructor, hfound⟩
  unfold ofRow?
  rw [hconstructor, Outcome.ok_bind, howner, Outcome.ok_bind]
  rcases owner? with _ | type
  · refine ⟨none, rfl, ?_, nofun⟩
    rw [hmarker none (constructorTypeName?_of_none howner)]
    exact ⟨nofun, nofun⟩
  · obtain ⟨table, n, htable, rfl, hn⟩ := hexists type rfl
    obtain ⟨⟨space, name⟩, hname⟩ := exists_nameOf? hwf hnames htable hn
    rw [hmarker (some (space, name)) ((constructorTypeName?_of_owner howner).trans hname)]
    dsimp only
    rw [hname, Outcome.ok_bind]
    dsimp only
    by_cases hsame : name = typeName
    · rw [if_neg (not_not_intro hsame), hparent, Outcome.ok_bind, hdecode]
      refine ⟨_, rfl, ⟨fun _ => ⟨space, by rw [hsame]⟩, fun _ => ⟨_, rfl⟩⟩, fun marker h => ?_⟩
      obtain rfl := Option.some.inj h
      exact ⟨rfl, table, n, htable, rfl, hn⟩
    · rw [if_pos hsame]
      refine ⟨none, rfl, ⟨nofun, ?_⟩, nofun⟩
      rintro ⟨space', heq⟩
      exact absurd (Prod.mk.inj (Option.some.inj heq)).2 hsame

theorem rows_sublist {rows : List Nat} {found : List (Option Marker)}
    (h : List.Forall₂ (fun row marker? => ∀ marker, marker? = some marker → marker.row = row)
      rows found) : ((found.filterMap id).map (·.row)).Sublist rows := by
  induction h with
  | nil => exact .slnil
  | @cons row marker? rows found hfirst hrest ih =>
      rcases marker? with _ | marker
      · exact ih.cons row
      · rw [List.filterMap_cons_some (f := id) rfl, List.map_cons, hfirst marker rfl]
        exact ih.cons_cons row

/-- All markers are found, each once. -/
theorem exists_all (hwf : assembly.WellFormed) (hnames : assembly.NamesFit)
    (howned : assembly.MethodsOwned) :
    ∃ markers, all assembly = .ok markers ∧ (markers.map (·.row)).Nodup ∧
      (∀ row, row ∈ markers.map (·.row) ↔ IsMarker assembly row) ∧
      ∀ marker ∈ markers, ∃ table n, (table = .typeRef ∨ table = .typeDef) ∧
        marker.type = Token.ofRow table n ∧
          ∃ columns, assembly.tables.row? table n = some columns := by
  have hrow : ∀ row ∈ assembly.rowNumbers .customAttribute, _ := fun row hmem =>
    exists_ofRow? hwf hnames howned (mem_rowNumbers.mp hmem)
  obtain ⟨found, hfound⟩ : ∃ found,
      (assembly.rowNumbers .customAttribute).mapM (ofRow? assembly) = .ok found :=
    Outcome.exists_mapM fun row hmem => (hrow row hmem).imp fun _ h => h.1
  have hall := Outcome.mapM_eq_ok.mp hfound
  have hmem : ∀ {marker}, marker ∈ found.filterMap id →
      ∃ row ∈ assembly.rowNumbers .customAttribute,
      ofRow? assembly row = .ok (some marker) := by
    intro marker hmem
    obtain ⟨marker?, hmarker?, rfl⟩ := List.mem_filterMap.mp hmem
    exact Outcome.exists_of_forall₂_right hall hmarker?
  refine ⟨found.filterMap id, by rw [all, hfound]; rfl, ?_, fun row => ?_, fun marker hmarker => ?_⟩
  · have hsub : ((found.filterMap id).map (·.row)).Sublist
        (assembly.rowNumbers .customAttribute) := by
      apply rows_sublist
      refine (List.forall₂_iff_get.mpr ⟨hall.length_eq, fun n hn hn' marker hmarker => ?_⟩)
      obtain ⟨marker?, hof, -, hall'⟩ := hrow _ (List.get_mem _ ⟨n, hn⟩)
      have hget := (List.forall₂_iff_get.mp hall).2 n hn hn'
      rw [hmarker, hof] at hget
      exact (hall' marker (Except.ok.inj hget)).1
    exact List.Nodup.sublist hsub List.nodup_range'
  · constructor
    · intro hin
      obtain ⟨marker, hmarker, rfl⟩ := List.mem_map.mp hin
      obtain ⟨row, hrowMem, hof⟩ := hmem hmarker
      obtain ⟨marker?, hof', hiff, hall'⟩ := hrow row hrowMem
      obtain rfl := Except.ok.inj (hof'.symm.trans hof)
      rw [(hall' marker rfl).1]
      exact hiff.mp ⟨marker, rfl⟩
    · intro hmarker
      have hrowMem : row ∈ assembly.rowNumbers .customAttribute :=
        mem_rowNumbers.mpr hmarker.exists_row
      obtain ⟨marker?, hof, hiff, hall'⟩ := hrow row hrowMem
      obtain ⟨marker, rfl⟩ := hiff.mpr hmarker
      obtain ⟨marker?, hin, hof'⟩ := Outcome.exists_of_forall₂_left hall hrowMem
      obtain rfl := Except.ok.inj (hof.symm.trans hof')
      exact List.mem_map.mpr ⟨marker, List.mem_filterMap.mpr ⟨_, hin, rfl⟩, (hall' marker rfl).1⟩
  · obtain ⟨row, hrowMem, hof⟩ := hmem hmarker
    obtain ⟨marker?, hof', -, hall'⟩ := hrow row hrowMem
    obtain rfl := Except.ok.inj (hof'.symm.trans hof)
    exact (hall' marker rfl).2

end

/-! ## Markers after renumbering -/

section

variable {renumbering : Renumbering} {before after : Assembly}

theorem nameOf?_declaringType? (hcounts : ∀ table, before.tables.count table < Token.rowLimit)
    (hcounts' : ∀ table, after.tables.count table < Token.rowLimit)
    (hmoved : before.tables.MovedTo renumbering [] after.tables)
    (hstrings : after.strings = before.strings)
    {table : Table} {old new : Nat} {type : Token} {name : String × String}
    (hplace : renumbering.place table old = some new) (hzero : new = 0 ↔ old = 0)
    (hle : old ≤ before.tables.count table) (hle' : new ≤ after.tables.count table)
    (htype : declaringType? table old = some type)
    (hname : nameOf? before type = .ok (some name)) :
    ∃ type', declaringType? table new = some type' ∧ nameOf? after type' = .ok (some name) := by
  have hlt := Nat.lt_of_le_of_lt hle (hcounts table)
  have hlt' := Nat.lt_of_le_of_lt hle' (hcounts' table)
  unfold declaringType? at htype
  split at htype
  · rename_i htable
    have hne : new ≠ 0 := fun heq => htable.2 (hzero.mp heq)
    obtain rfl := Option.some.inj htype
    refine ⟨Token.ofRow table new, if_pos ⟨htable.1, hne⟩, ?_⟩
    rcases htable.1 with rfl | rfl
    · rw [nameOf?_typeRef hlt] at hname
      obtain ⟨found, hfound, heq⟩ := Outcome.map_eq_ok.mp hname
      rw [nameOf?_typeRef hlt', nameOfTypeRef_of_movedTo hmoved hstrings hplace hfound,
        Option.some.inj heq]
      rfl
    · rw [nameOf?_typeDef hlt] at hname
      obtain ⟨found, hfound, heq⟩ := Outcome.map_eq_ok.mp hname
      rw [nameOf?_typeDef hlt', nameOfTypeDef_of_movedTo hmoved hstrings hplace hfound,
        Option.some.inj heq]
      rfl
  · cases htype

/-- The type of a method that is a constructor has the name it had. -/
theorem constructorTypeName?_of_method (hwf : before.WellFormed) (hnames : before.NamesFit)
    (howned : before.MethodsOwned) (htype : Table.typeDef ≠ renumbering.table)
    (hmethod : Table.methodDef ≠ renumbering.table)
    (hmoved : before.tables.MovedTo renumbering [] after.tables)
    (hstrings : after.strings = before.strings) {constructor constructor' row : Nat} (hne : row ≠ 0)
    (hle : row ≤ before.tables.count .methodDef)
    (hdecode : CodedKind.customAttributeType.decode constructor = .ok (.methodDef, row))
    (hdecode' : CodedKind.customAttributeType.decode constructor' = .ok (.methodDef, row)) :
    ∃ name?, constructorTypeName? before constructor = .ok name? ∧
      constructorTypeName? after constructor' = .ok name? := by
  have hexists := Tables.exists_row?.mpr ⟨Nat.pos_of_ne_zero hne, hle⟩
  obtain ⟨owner, howner⟩ := howned row (mem_rowNumbers.mpr hexists)
  have howner' := ownerOf_of_movedTo hmoved htype hmethod howner
  have hin := mem_rowNumbers.mp (mem_of_ownerOf howner)
  have hlt := Nat.lt_of_le_of_lt (Tables.exists_row?.mp hin).2 (hwf.counts .typeDef)
  obtain ⟨name, hname⟩ : ∃ name, before.nameOfTypeDef owner = .ok name :=
    exists_qualifiedName hwf hnames hin rfl rfl
  have hname' :=
    nameOfTypeDef_of_movedTo hmoved hstrings (renumbering.place_of_ne htype owner) hname
  refine ⟨some name, ?_, ?_⟩
  · rw [constructorTypeName?_of_owner ((constructorOwner?_method hne hdecode).trans
      (by rw [howner]; rfl)), nameOf?_typeDef hlt, hname]
    rfl
  · rw [constructorTypeName?_of_owner ((constructorOwner?_method hne hdecode').trans
      (by rw [howner']; rfl)), nameOf?_typeDef hlt, hname']
    rfl

/-- So has the type that a reference to a constructor names. -/
theorem constructorTypeName?_of_member (hmade : renumbering.Made) (hwf : before.WellFormed)
    (hwf' : after.WellFormed) (hnames : before.NamesFit) (howned : before.MethodsOwned)
    (h : before.renumber renumbering [] = .ok after) {constructor constructor' old new : Nat}
    (hin : before.tables.InRange (.coded .customAttributeType) constructor)
    (hplace : renumbering.place .memberRef old = some new)
    (hexists : ∃ columns, before.tables.row? .memberRef old = some columns)
    (hne : old ≠ 0) (hne' : new ≠ 0)
    (hdecode : CodedKind.customAttributeType.decode constructor = .ok (.memberRef, old))
    (hdecode' : CodedKind.customAttributeType.decode constructor' = .ok (.memberRef, new)) :
    ∃ name?, constructorTypeName? before constructor = .ok name? ∧
      constructorTypeName? after constructor' = .ok name? := by
  have hmoved := movedTo_of_renumber hmade h
  obtain ⟨columns, hrow⟩ := hexists
  obtain ⟨parent, hget, hparent, hinParent⟩ :=
    hwf.exists_value hrow (c := MemberRef.parentColumn) rfl
  obtain ⟨parent', hparent', hnewParent⟩ :=
    value_of_movedTo hmoved hplace rfl (by decide) hparent
  have hsameParent := Renumbering.sameColumn_of_newColumn hinParent hwf.counts hnewParent
  obtain ⟨table, named, named', hnamed, hnamed', hplaceNamed, hleNamed, hzeroNamed⟩ :=
    decode_of_sameColumn hmade.lawful hmoved hwf'.counts hinParent hsameParent
  have howner := constructorOwner?_member hne hdecode hparent hnamed
  have howner' := constructorOwner?_member hne' hdecode' hparent' hnamed'
  rcases hdeclaring : declaringType? table named with _ | type
  · have hdeclaring' : declaringType? table named' = none := by
      rw [declaringType?_eq_none] at hdeclaring ⊢
      rintro ⟨htable, hne⟩
      exact hdeclaring ⟨htable, fun heq => hne (hzeroNamed.mpr heq)⟩
    rw [hdeclaring] at howner
    rw [hdeclaring'] at howner'
    exact ⟨none, constructorTypeName?_of_none howner, constructorTypeName?_of_none howner'⟩
  · obtain ⟨owner?, howner₂, hexists⟩ := exists_constructorOwner? hwf howned hin
    rw [hdeclaring] at howner
    obtain rfl := Except.ok.inj (howner₂.symm.trans howner)
    obtain ⟨found, n, hfound, rfl, hn⟩ := hexists type rfl
    obtain ⟨name, hname⟩ := exists_nameOf? hwf hnames hfound hn
    obtain ⟨type', htype', hname'⟩ := nameOf?_declaringType? hwf.counts hwf'.counts hmoved
      (heaps_of_renumber h).1 hplaceNamed hzeroNamed hleNamed
        (place_le_count hmade.lawful hmoved hleNamed hplaceNamed) hdeclaring hname
    rw [htype'] at howner'
    exact ⟨some name, (constructorTypeName?_of_owner howner).trans hname,
      (constructorTypeName?_of_owner howner').trans hname'⟩

/-- The type that declares the constructor of an attribute has the name it had. -/
theorem constructorTypeName?_of_renumber (hmade : renumbering.Made) (hwf : before.WellFormed)
    (hwf' : after.WellFormed) (hnames : before.NamesFit) (howned : before.MethodsOwned)
    (htype : Table.typeDef ≠ renumbering.table) (hmethod : Table.methodDef ≠ renumbering.table)
    (h : before.renumber renumbering [] = .ok after) {constructor constructor' : Nat}
    (hin : before.tables.InRange (.coded .customAttributeType) constructor)
    (hsame : renumbering.SameColumn (.coded .customAttributeType) constructor constructor') :
    ∃ name?, constructorTypeName? before constructor = .ok name? ∧
      constructorTypeName? after constructor' = .ok name? := by
  have hmoved := movedTo_of_renumber hmade h
  obtain ⟨target, old, new, hdecode, hdecode', hplace, hle, hzero⟩ :=
    decode_of_sameColumn hmade.lawful hmoved hwf'.counts hin hsame
  by_cases hother : old = 0 ∨ target ≠ .methodDef ∧ target ≠ .memberRef
  · have hother' : new = 0 ∨ target ≠ .methodDef ∧ target ≠ .memberRef := hother.imp_left hzero.mpr
    exact ⟨none, constructorTypeName?_of_none (constructorOwner?_other hdecode hother),
      constructorTypeName?_of_none (constructorOwner?_other hdecode' hother')⟩
  have hne : old ≠ 0 := fun heq => hother (.inl heq)
  have hne' : new ≠ 0 := fun heq => hne (hzero.mp heq)
  by_cases htarget : target = .methodDef
  · subst htarget
    rw [renumbering.place_of_ne hmethod] at hplace
    obtain rfl := Option.some.inj hplace
    exact constructorTypeName?_of_method hwf hnames howned htype hmethod hmoved
      (heaps_of_renumber h).1 hne hle hdecode hdecode'
  · have hmember : target = .memberRef := by
      by_contra hmember
      exact hother (.inr ⟨htarget, hmember⟩)
    subst hmember
    exact constructorTypeName?_of_member hmade hwf hwf' hnames howned h hin hplace
      (Tables.exists_row?.mpr ⟨Nat.pos_of_ne_zero hne, hle⟩) hne hne' hdecode hdecode'

/-- Renumbering makes no markers. -/
theorem isMarker_of_renumber (hmade : renumbering.Made) (hwf : before.WellFormed)
    (hwf' : after.WellFormed) (hnames : before.NamesFit) (howned : before.MethodsOwned)
    (htype : Table.typeDef ≠ renumbering.table) (hmethod : Table.methodDef ≠ renumbering.table)
    (h : before.renumber renumbering [] = .ok after) {row' : Nat} (hmarker : IsMarker after row') :
    ∃ row, renumbering.place .customAttribute row = some row' ∧ IsMarker before row := by
  have hkeeps := keepsMeaning_of_renumber hmade hwf
    (fun _ _ hmem => absurd hmem List.not_mem_nil) h
  obtain ⟨constructor', space, hvalue', hname'⟩ := hmarker
  obtain ⟨columns', hrow', hget'⟩ := Tables.value_eq_ok.mp hvalue'
  rcases row_of_keepsMeaning (movedTo_of_renumber hmade h) hkeeps hrow' with
    ⟨-, columns, hmem, -⟩ | ⟨row, columns, hrow, hplace, -, hcolumns⟩
  · exact absurd hmem List.not_mem_nil
  obtain ⟨constructor, hget, hvalue, hin⟩ :=
    hwf.exists_value hrow (c := CustomAttribute.constructorColumn) rfl
  obtain ⟨constructor₂, hget₂, hsame⟩ := hcolumns _ _ _ rfl hget (by decide)
  obtain rfl := Option.some.inj (hget₂.symm.trans hget')
  obtain ⟨name?, hname, hafter⟩ :=
    constructorTypeName?_of_renumber hmade hwf hwf' hnames howned htype
    hmethod h hin hsame
  obtain rfl := Except.ok.inj (hafter.symm.trans hname')
  exact ⟨row, hplace, constructor, space, hvalue, hname⟩

end

end Marker

namespace Assembly

/-- A well-formed assembly in which names can be read and methods belong to types. -/
structure Readable (assembly : Assembly) : Prop extends assembly.WellFormed where
  names : assembly.NamesFit
  owned : assembly.MethodsOwned

theorem readable_of_removal {assembly after : Assembly} {table : Table} {rows : List Nat}
    (hreadable : assembly.Readable) (htype : Table.typeDef ≠ table)
    (hmethod : Table.methodDef ≠ table)
    (h : assembly.renumber (.removal table (assembly.tables.count table) rows) [] = .ok after) :
    after.Readable := by
  have hmade : (Renumbering.removal table (assembly.tables.count table) rows).Made :=
    .removal _ _ _
  have hwf := hreadable.toWellFormed
  have hkeeps := keepsMeaning_of_renumber hmade hwf
    (fun _ _ hmem => absurd hmem List.not_mem_nil) h
  refine ⟨wellFormed_of_removal hwf h, ?_, ?_⟩
  · intro source columns' hmem c value' hkind hvalue'
    obtain ⟨row', hrow'⟩ := Tables.mem_rows.mp hmem
    rcases row_of_keepsMeaning (movedTo_of_renumber hmade h) hkeeps hrow' with
      ⟨-, columns, hin, -⟩ | ⟨row, columns, hrow, -, hlength, hcolumns⟩
    · exact absurd hin List.not_mem_nil
    have hc : ¬Tables.IsSignatureColumn source c := by
      rintro ⟨site, hsite, rfl, rfl⟩
      rw [Tables.kind_of_signatureColumn site hsite] at hkind
      cases hkind
    have hlt : c < columns.length := hlength ▸ (List.getElem?_eq_some_iff.mp hvalue').1
    have hvalue := List.getElem?_eq_getElem hlt
    obtain ⟨value'', hget, hsame⟩ := hcolumns c _ _ hkind hvalue hc
    obtain rfl := Option.some.inj (hget.symm.trans hvalue')
    rw [(heaps_of_renumber h).1, show value'' = columns[c] from hsame]
    exact hreadable.names source columns (Tables.mem_rows.mpr ⟨row, hrow⟩) c _ hkind hvalue
  · intro row hmem
    have hmethods : after.tables.count .methodDef = assembly.tables.count .methodDef := by
      rw [hkeeps.counts]
      exact if_neg hmethod
    unfold rowNumbers at hmem
    rw [hmethods] at hmem
    obtain ⟨owner, howner⟩ := hreadable.owned row hmem
    exact ⟨owner, ownerOf_of_movedTo (movedTo_of_renumber hmade h) htype hmethod howner⟩

end Assembly

end NativeExports
