import NativeExports.Proofs.Export.RemovalPlan
import NativeExports.Proofs.Renumbering.Refusal
import NativeExports.Proofs.Uses

/-!
# Removing markers

Taking out the markers is safe: nothing that stays refers to what goes.  And it is exact: what goes
are the markers, the rows of the library that are not reached, the attributes attached to these
rows, and the reference to the library unless a column still names it.  Only the entry point can be
in the way: if it names an attribute that goes, or the library although no column does, the removal
is refused.
-/

namespace NativeExports.MarkerRemoval

open Assembly

/-! ## Nothing that stays refers to what goes -/

namespace Plan

/-- The rows that go before the reference to the library. -/
def Goes (plan : Plan) (table : Table) (row : Nat) : Prop :=
  table = .customAttribute ∧ row ∈ plan.attributes ∨ table = .memberRef ∧ row ∈ plan.memberRefs ∨
    table = .typeRef ∧ row ∈ plan.typeRefs

/-- Those among them that belong to the library. -/
def GoesFromLibrary (plan : Plan) (table : Table) (row : Nat) : Prop :=
  table = .memberRef ∧ row ∈ plan.memberRefs ∨ table = .typeRef ∧ row ∈ plan.typeRefs

/-- The entry point names something that goes: an attribute, or the library if no column of the rows
that stay names it. -/
inductive Blocked (plan : Plan) (assembly : Assembly) : Prop
  | ofAttribute {row : Nat} (hrow : row ∈ plan.attributes)
      (hentry : assembly.entryPoint.Names .customAttribute row)
  | ofLibrary {library : Nat} (hlibrary : plan.library = some library)
      (hentry : assembly.entryPoint.Names .assemblyRef library)
      (hunnamed : assembly.UnnamedBut plan.Goes .assemblyRef library)

variable {plan : Plan} {assembly : Assembly}

theorem Fits.attributeExists (h : plan.Fits assembly) {row : Nat} (hrow : row ∈ plan.attributes) :
    ∃ columns, assembly.tables.row? .customAttribute row = some columns := by
  rcases (h.attributes row).mp hrow with hmarker | ⟨parent, hparent, -⟩
  · exact hmarker.exists_row
  · obtain ⟨stored, hstored, -⟩ := Outcome.bind_eq_ok.mp hparent
    exact Tables.exists_row_of_value hstored

/-- A row that stays is no marker. -/
theorem Fits.not_marker (h : plan.Fits assembly) (hwf : assembly.WellFormed)
    {source : Table} {n : Nat}
    (hexists : ∃ columns, assembly.tables.row? source n = some columns)
    (hstays : ¬plan.Goes source n) :
    Token.ofRow source n ∉ plan.markers.map (Token.ofRow .customAttribute) := by
  intro hmem
  obtain ⟨row, hmarker, heq⟩ := List.mem_map.mp hmem
  obtain rfl := Token.table_of_ofRow_eq heq
  have hin : row ∈ plan.attributes := (h.attributes row).mpr (.inl ((h.markers row).mp hmarker))
  rw [hwf.row_of_ofRow_eq (h.attributeExists hin) hexists heq] at hin
  exact hstays (.inl ⟨rfl, hin⟩)

/-- A row of the library that stays is reached. -/
theorem Fits.reaches_candidate (h : plan.Fits assembly) (hwf : assembly.WellFormed) {source : Table}
    {n : Nat} (hexists : ∃ columns, assembly.tables.row? source n = some columns)
    (hstays : ¬plan.Goes source n) (hcandidate : Token.ofRow source n ∈ plan.candidates) :
    plan.Reaches assembly (Token.ofRow source n) := by
  by_contra hnot
  obtain ⟨library, hlibrary, hbelongs⟩ := (h.candidates _).mp hcandidate
  obtain ⟨table, htable, hfound, -⟩ := table_of_belongsTo hbelongs
  rw [Token.table?_ofRow] at hfound
  obtain rfl := Option.some.inj hfound
  rcases htable with rfl | rfl
  · have htype := (belongsTo_typeRef hwf).mp ⟨hbelongs, hexists⟩
    exact hstays (.inr (.inr ⟨rfl, (h.typeRefs n).mpr ⟨⟨library, hlibrary, htype⟩, hnot⟩⟩))
  · have hmember := (belongsTo_memberRef hwf).mp ⟨hbelongs, hexists⟩
    exact hstays (.inr (.inl ⟨rfl, (h.memberRefs n).mpr ⟨⟨library, hlibrary, hmember⟩, hnot⟩⟩))

/-- What a row that stays refers to is reached. -/
theorem Fits.reaches_of_refers (h : plan.Fits assembly) (hwf : assembly.WellFormed) {source : Table}
    {n : Nat} {token : Token} (hstays : ¬plan.Goes source n)
    (hrefers : assembly.Refers source n token) :
    plan.Reaches assembly token := by
  have hexists : ∃ columns, assembly.tables.row? source n = some columns :=
    hrefers.imp fun _ hrow => hrow.1
  have hdeleted := h.not_marker hwf hexists hstays
  by_cases hcandidate : Token.ofRow source n ∈ plan.candidates
  · refine .candidate (h.reaches_candidate hwf hexists hstays hcandidate) hcandidate
      (Token.table?_ofRow _ _) ?_
    rwa [hwf.row_token hexists]
  by_cases hattached : ∃ parent, source = .customAttribute ∧
    assembly.attributeParent n = .ok parent ∧
      parent ∈ plan.candidates
  · obtain ⟨parent, rfl, hparent, hin⟩ := hattached
    have hreached : plan.Reaches assembly parent := by
      by_contra hnot
      exact hstays (.inl ⟨rfl, (h.attributes n).mpr (.inr ⟨parent, hparent, hin, hnot⟩)⟩)
    exact .attached hreached ⟨hparent, hin, hcandidate, hdeleted⟩ hrefers
  · refine .row ⟨hcandidate, hdeleted, ?_⟩ hrefers
    intro hsource parent hparent hin
    exact hattached ⟨parent, hsource, hparent, hin⟩

/-- Nothing but what goes refers to a row of the library that goes. -/
theorem Fits.unused (h : plan.Fits assembly) (hwf : assembly.WellFormed)
    (hentry : assembly.entryPoint.value < 2 ^ 32) {table : Table} {row : Nat}
    (hexists : ∃ columns, assembly.tables.row? table row = some columns)
    (hnot : ¬plan.Reaches assembly (Token.ofRow table row)) :
    assembly.Unused plan.Goes table row := by
  have hsame : ∀ token : Token, token.value < 2 ^ 32 → token.Names table row →
      token = Token.ofRow table row := by
    rintro token hlt ⟨htable, rfl⟩
    exact (Token.ofRow_row hlt htable).symm
  refine ⟨fun source n hstays token hrefers hnames => ?_, fun token hbodies hnames => ?_,
    fun hnames => ?_⟩
  · have hreached := h.reaches_of_refers hwf hstays hrefers
    rw [eq_ofRow_of_refers hrefers hnames] at hreached
    exact hnot hreached
  · rw [hsame token (lt_of_bodiesName hbodies) hnames] at hbodies
    exact hnot (.body hbodies)
  · have heq := hsame _ hentry hnames
    exact hnot (heq ▸ .entryPoint)

end Plan

/-! ## One step -/

/-- Some rows of a table have been taken out, and everything else means what it meant. -/
def TakenOut (table : Table) (rows : List Nat) (before after : Assembly) : Prop :=
  if rows = [] then after = before
  else KeepsMeaning (.removal table (before.tables.count table) rows) [] before after

/-- What is still to go when some rows of a table are gone. -/
structure LeavesToGo (table : Table) (rows : List Nat)
    (gone gone' : Table → Nat → Prop) : Prop where
  rows : ∀ n, gone table n ↔ n ∈ rows
  none : ∀ n, ¬gone' table n
  others : ∀ source n, source ≠ table → (gone source n ↔ gone' source n)

/-- What taking rows out leaves behind. -/
structure Step (table : Table) (rows : List Nat) (before after : Assembly) : Prop where
  taken : TakenOut table rows before after
  readable : after.Readable
  counts : ∀ other, other ≠ table → after.tables.count other = before.tables.count other
  signatures : table.isSignatureTarget = false → before.SignaturesFit → after.SignaturesFit
  /-- Rows of other tables stay unused, whatever goes. -/
  unused : table.isSignatureTarget = false → ∀ gone gone' : Table → Nat → Prop,
    LeavesToGo table rows gone gone' →
      ∀ other row, other ≠ table → before.Unused gone other row → after.Unused gone' other row
  /-- Columns name rows of other tables as before. -/
  unnamed : ∀ gone gone' : Table → Nat → Prop, LeavesToGo table rows gone gone' →
    ∀ other row, other ≠ table →
      (after.UnnamedBut gone' other row ↔ before.UnnamedBut gone other row)
  entryPoint : ∀ other row, other ≠ table →
    (after.entryPoint.Names other row ↔ before.entryPoint.Names other row)
  /-- What is a marker afterwards was one before. -/
  markers : ∀ row', Marker.IsMarker after row' → ∃ row, Marker.IsMarker before row ∧
    (table = .customAttribute → row ∉ rows)

section

variable {table : Table} {rows : List Nat} {before after : Assembly}

/-- With no rows gone, everything is still to go. -/
theorem LeavesToGo.eq_of_nil {gone gone' : Table → Nat → Prop}
    (h : LeavesToGo table [] gone gone') : gone = gone' := by
  funext source n
  by_cases hsource : source = table
  · subst hsource
    exact propext (iff_of_false (fun hin => List.not_mem_nil ((h.rows n).mp hin)) (h.none n))
  · exact propext (h.others source n hsource)

theorem step_refl (hreadable : before.Readable) : Step table [] before before where
  taken := by rw [TakenOut, if_pos rfl]
  readable := hreadable
  counts := fun _ _ => rfl
  signatures := fun _ hfit => hfit
  unused := by
    intro _ gone gone' hleaves other row _ hunused
    rwa [← hleaves.eq_of_nil]
  unnamed := by
    intro gone gone' hleaves other row _
    rw [hleaves.eq_of_nil]
  entryPoint := fun _ _ _ => Iff.rfl
  markers := fun row hmarker => ⟨row, hmarker, fun _ => List.not_mem_nil⟩

theorem step_of_takeOut (hreadable : before.Readable) (htype : Table.typeDef ≠ table)
    (hmethod : Table.methodDef ≠ table)
    (hrows : ∀ row ∈ rows, ∃ columns, before.tables.row? table row = some columns)
    (h : takeOut before table rows = .ok after) : Step table rows before after := by
  unfold takeOut at h
  split at h
  · rename_i hempty
    rw [List.isEmpty_iff.mp hempty]
    obtain rfl := Except.ok.inj h
    exact step_refl hreadable
  rename_i hsome
  have hmade : (Renumbering.removal table (before.tables.count table) rows).Made := .removal _ _ _
  have hwf := hreadable.toWellFormed
  have hreadable' := readable_of_removal hreadable htype hmethod h
  have hgone : ∀ row row', row ∈ rows →
      (Renumbering.removal table (before.tables.count table) rows).place table row ≠ some row' := by
    intro row row' hmem hplace
    obtain ⟨hlo, hhi⟩ := Tables.exists_row?.mp (hrows row hmem)
    rw [Renumbering.place_removal] at hplace
    exact Renumbering.not_mem_of_newRow_removal hlo hhi hplace hmem
  -- What goes besides the rows stays where it is, and is still to go.
  have hleft : ∀ {gone gone' : Table → Nat → Prop}, LeavesToGo table rows gone gone' →
      ∀ source n n',
        (Renumbering.removal table (before.tables.count table) rows).place source n = some n' →
          (gone source n ↔ gone' source n') := by
    intro gone gone' hleaves source n n' hplace
    by_cases hsource : source = table
    · subst hsource
      exact iff_of_false (fun hin => hgone n n' ((hleaves.rows n).mp hin) hplace) (hleaves.none n')
    · rw [Renumbering.place_of_ne hsource] at hplace
      rw [← Option.some.inj hplace]
      exact hleaves.others source n hsource
  constructor
  · unfold TakenOut
    rw [if_neg fun hempty => hsome (List.isEmpty_iff.mpr hempty)]
    exact keepsMeaning_of_renumber hmade hwf (fun _ _ hmem => absurd hmem List.not_mem_nil) h
  · exact hreadable'
  · exact fun other hother => ((movedTo_of_renumber hmade h).counts other).trans (if_neg hother)
  · exact fun hplain => signaturesFit_of_renumber hmade hplain h
  · intro hplain gone gone' hleaves other row hother hunused
    exact hunused.of_renumber hmade hwf hplain h
      (fun source n n' hplace => (hleft hleaves source n n' hplace).mp) hother
  · intro gone gone' hleaves other row hother
    refine unnamedBut_of_renumber hmade hwf h (fun source n hstays => ?_) (hleft hleaves) hother
    by_cases hsource : source = table
    · subst hsource
      rw [Renumbering.place_removal]
      exact Renumbering.exists_newRow_removal _ _ fun hmem => hstays ((hleaves.rows n).mpr hmem)
    · exact ⟨n, Renumbering.place_of_ne hsource n⟩
  · exact fun other row hother => names_entryPoint_of_renumber h hother
  · intro row' hmarker
    obtain ⟨row, hplace, hbefore⟩ := Marker.isMarker_of_renumber hmade hwf hreadable'.toWellFormed
      hreadable.names hreadable.owned htype hmethod h hmarker
    refine ⟨row, hbefore, ?_⟩
    rintro rfl hmem
    exact hgone row row' hmem hplace

/-- Rows that nothing uses can be taken out. -/
theorem exists_step (hreadable : before.Readable) (htype : Table.typeDef ≠ table)
    (hmethod : Table.methodDef ≠ table)
    (hfit : table.isSignatureTarget = true → before.SignaturesFit)
    (hrows : ∀ row ∈ rows, ∃ columns, before.tables.row? table row = some columns)
    (hunused : ∀ row ∈ rows, before.Unused (fun source n => source = table ∧ n ∈ rows) table row) :
    ∃ after, takeOut before table rows = .ok after ∧ Step table rows before after := by
  obtain ⟨after, h⟩ : ∃ after, takeOut before table rows = .ok after := by
    unfold takeOut
    split
    · exact ⟨before, rfl⟩
    · exact exists_removal hreadable.toWellFormed hfit (Ne.symm hmethod) fun row hmem =>
        (hunused row hmem).detached
  exact ⟨after, h, step_of_takeOut hreadable htype hmethod hrows h⟩

/-- Rows of a table that no signature names cannot be taken out if the entry point names one. -/
theorem exists_violation_of_takeOut (hwf : before.WellFormed)
    (hplain : table.isSignatureTarget = false) (hmethod : table ≠ .methodDef) {row : Nat}
    (hrow : row ∈ rows) (hexists : ∃ columns, before.tables.row? table row = some columns)
    (hentry : before.entryPoint.Names table row) :
    ∃ violation, takeOut before table rows = .error (.invariant violation) := by
  unfold takeOut
  rw [if_neg fun hempty => List.ne_nil_of_mem hrow (List.isEmpty_iff.mp hempty)]
  refine exists_violation_of_removal hwf (fun h => absurd (hplain.symm.trans h) (by decide))
    hmethod ?_
  rintro ⟨after, h⟩
  exact not_names_of_sameRow hrow (Tables.exists_row?.mp hexists) (sameRow_entryPoint h) hentry

end

/-! ## The reference to the library -/

/-- No index and no coded index names the reference to the library. -/
def Unnamed (assembly : Assembly) (library : Nat) : Prop :=
  ∀ source n columns, assembly.tables.row? source n = some columns →
    ∀ (c : Nat) kind value, source.columns[c]? = some kind → columns[c]? = some value →
      ¬kind.Names value .assemblyRef library

section

variable {assembly : Assembly}

theorem canName_customAttribute : ∀ source : Table,
    source.columns.any (ColumnKind.canName .customAttribute) = false := by
  decide

/-- No column, no signature and no code can name an attribute. -/
theorem unused_attribute (hwf : assembly.WellFormed) (gone : Table → Nat → Prop) {row : Nat}
    (hentry : ¬assembly.entryPoint.Names .customAttribute row) :
    assembly.Unused gone .customAttribute row := by
  apply unused_of_columns hwf rfl rfl hentry
  intro source n columns _ _ c kind value token hkind _ htarget hnames
  have hany : source.columns.any (ColumnKind.canName .customAttribute) = true :=
    List.any_eq_true.mpr
      ⟨kind, List.mem_of_getElem? hkind, canName_of_columnTarget htarget hnames.1⟩
  rw [canName_customAttribute] at hany
  cases hany

theorem not_refers_memberRef {n : Nat} {token : Token} (h : assembly.Refers .typeRef n token) :
    token.table? ≠ some .memberRef := by
  intro htable
  rcases canName_of_refers h htable with hany | ⟨-, htarget⟩
  · cases hany
  · cases htarget

theorem list_ne_assemblyRef : ∀ source : Table, .list .assemblyRef ∉ source.columns := by
  decide

theorem names_of_columnTarget (hwf : assembly.WellFormed) {source : Table} {n c value library : Nat}
    {columns : Row} {kind : ColumnKind} {token : Token}
    (hrow : assembly.tables.row? source n = some columns) (hkind : source.columns[c]? = some kind)
    (hvalue : columns[c]? = some value) (htarget : columnTarget kind value = .ok (some token))
    (hnames : token.Names .assemblyRef library) : kind.Names value .assemblyRef library := by
  have hin := hwf.inRange source columns (Tables.mem_rows.mpr ⟨n, hrow⟩) c kind value hkind hvalue
  have hnamed : ∀ {target : Table} {row : Nat}, row ≤ assembly.tables.count target →
      (if row = 0 then none else some (Token.ofRow target row)) = some token →
        target = .assemblyRef ∧ row = library := by
    intro target row hle hnew
    split at hnew
    · cases hnew
    · rename_i hne
      obtain rfl := Option.some.inj hnew
      obtain ⟨htable, hrow⟩ := hnames
      rw [Token.table?_ofRow] at htable
      rw [hwf.row_token (Tables.exists_row?.mpr ⟨Nat.pos_of_ne_zero hne, hle⟩)] at hrow
      exact ⟨Option.some.inj htable, hrow⟩
  cases kind with
  | index target => exact hnamed hin (Except.ok.inj htarget)
  | list target =>
      have htable := canName_of_columnTarget htarget hnames.1
      obtain rfl : target = .assemblyRef := of_decide_eq_true htable
      exact absurd (List.mem_of_getElem? hkind) (list_ne_assemblyRef source)
  | coded coded =>
      obtain ⟨target, row, hdecode, hle⟩ := hin
      rw [columnTarget, hdecode, Outcome.ok_bind] at htarget
      obtain ⟨rfl, rfl⟩ := hnamed hle (Except.ok.inj htarget)
      exact hdecode
  | _ => cases htarget

theorem unnamed_iff {library : Nat} : Unnamed assembly library ↔
    assembly.UnnamedBut (fun _ _ => False) .assemblyRef library :=
  ⟨fun h source n columns hrow _ => h source n columns hrow,
    fun h source n columns hrow => h source n columns hrow not_false⟩

theorem exists_usesOf_library (hwf : assembly.WellFormed) {library : Nat}
    (hlibrary : ∃ columns, assembly.tables.row? .assemblyRef library = some columns) :
    ∃ count, assembly.usesOf (Token.ofRow .assemblyRef library) = .ok count ∧
      (count = 0 ↔ Unnamed assembly library) := by
  obtain ⟨count, hcount⟩ := exists_usesOf hwf (Token.ofRow .assemblyRef library)
  have hzero := usesOf_eq_ok (Token.table?_ofRow _ _) hcount
  rw [hwf.row_token hlibrary] at hzero
  exact ⟨count, hcount, hzero⟩

/-- The reference to the library goes exactly if no column names it, unless the entry point does. -/
theorem exists_libraryStep (hreadable : assembly.Readable) {library : Nat}
    (hlibrary : ∃ columns, assembly.tables.row? .assemblyRef library = some columns)
    (hentry : Unnamed assembly library → ¬assembly.entryPoint.Names .assemblyRef library) :
    ∃ assemblyRef after, (removeLibrary assembly library).outcome = .ok (assemblyRef, after) ∧
      (assemblyRef = true ↔ Unnamed assembly library) ∧
        Step .assemblyRef (if assemblyRef then [library] else []) assembly after := by
  have hwf := hreadable.toWellFormed
  obtain ⟨count, hcount, hzero⟩ := exists_usesOf_library hwf hlibrary
  unfold removeLibrary
  simp only [Logged.outcome_bind, Logged.outcome_monadLift, hcount, Outcome.ok_bind]
  by_cases hunnamed : count = 0
  · rw [if_pos hunnamed]
    have hunused : ∀ row ∈ [library],
        assembly.Unused (fun source n => source = .assemblyRef ∧ n ∈ [library])
          .assemblyRef row := by
      intro row hmem
      rw [List.mem_singleton.mp hmem]
      apply unused_of_columns hwf rfl rfl (hentry (hzero.mp hunnamed))
      intro source n columns _ hrow c kind value token hkind hvalue htarget hnames
      exact hzero.mp hunnamed source n columns hrow c kind value hkind hvalue
        (names_of_columnTarget hwf hrow hkind hvalue htarget hnames)
    obtain ⟨after, hafter, hstep⟩ := exists_step hreadable (by decide) (by decide)
      (fun h => absurd h (by decide))
      (fun row hmem => List.mem_singleton.mp hmem ▸ hlibrary) hunused
    refine ⟨true, after, ?_, ⟨fun _ => hzero.mp hunnamed, fun _ => rfl⟩, hstep⟩
    simp only [Logged.outcome_bind, Logged.outcome_monadLift, hafter, Outcome.ok_bind]
    rfl
  · rw [if_neg hunnamed]
    refine ⟨false, assembly, rfl, ⟨nofun, fun hnone => absurd (hzero.mpr hnone) hunnamed⟩, ?_⟩
    exact step_refl hreadable

/-- The removal is refused if only the entry point names the library. -/
theorem exists_violation_of_removeLibrary (hwf : assembly.WellFormed) {library : Nat}
    (hlibrary : ∃ columns, assembly.tables.row? .assemblyRef library = some columns)
    (hunnamed : Unnamed assembly library)
    (hentry : assembly.entryPoint.Names .assemblyRef library) :
    ∃ violation, (removeLibrary assembly library).outcome = .error (.invariant violation) := by
  obtain ⟨count, hcount, hzero⟩ := exists_usesOf_library hwf hlibrary
  obtain ⟨violation, hviolation⟩ := exists_violation_of_takeOut hwf rfl (by decide)
    (List.mem_singleton.mpr rfl) hlibrary hentry
  refine ⟨violation, ?_⟩
  unfold removeLibrary
  simp only [Logged.outcome_bind, Logged.outcome_monadLift, hcount, Outcome.ok_bind,
    if_pos (hzero.mpr hunnamed), hviolation]
  rfl

end

/-! ## All steps -/

/-- What the plan says has been done. -/
structure Plan.CarriedOut (plan : Plan) (before : Assembly) (report : RemovalReport)
    (after : Assembly) : Prop where
  /-- Attributes, member references, type references and the reference to the library are taken out
  one after the other, the last one exactly if none of the rows left names it. -/
  steps : ∃ first second third, TakenOut .customAttribute plan.attributes before first ∧
    TakenOut .memberRef plan.memberRefs first second ∧
    TakenOut .typeRef plan.typeRefs second third ∧
    (report.assemblyRef = true ↔ ∃ library, plan.library = some library ∧ Unnamed third library) ∧
    TakenOut .assemblyRef (if report.assemblyRef then plan.library.toList else []) third after
  unmarked : Marker.all after = .ok []
  readable : after.Readable
  report : report = ⟨plan.attributes.length, plan.memberRefs.length, plan.typeRefs.length,
    report.assemblyRef, plan.kept⟩

section

variable {plan : Plan} {assembly : Assembly}

theorem Plan.Fits.memberRefExists (h : plan.Fits assembly) {row : Nat}
    (hrow : row ∈ plan.memberRefs) :
    ∃ columns, assembly.tables.row? .memberRef row = some columns := by
  obtain ⟨⟨library, -, hmember⟩, -⟩ := (h.memberRefs row).mp hrow
  exact exists_of_isLibraryMember hmember

theorem Plan.Fits.typeRefExists (h : plan.Fits assembly) (hwf : assembly.WellFormed) {row : Nat}
    (hrow : row ∈ plan.typeRefs) :
    ∃ columns, assembly.tables.row? .typeRef row = some columns := by
  obtain ⟨⟨library, -, htype⟩, -⟩ := (h.typeRefs row).mp hrow
  exact (exists_of_isLibraryType hwf htype).1

/-- Attributes can be taken out unless one is the entry point. -/
theorem exists_attributeStep (hfits : plan.Fits assembly) (hreadable : assembly.Readable)
    (hentry : ∀ row ∈ plan.attributes, ¬assembly.entryPoint.Names .customAttribute row) :
    ∃ first, takeOut assembly .customAttribute plan.attributes = .ok first ∧
      Step .customAttribute plan.attributes assembly first := by
  apply exists_step hreadable (by decide) (by decide) (fun h => absurd h (by decide))
  · intro row hmem
    exact hfits.attributeExists hmem
  · intro row hmem
    exact unused_attribute hreadable.toWellFormed _ (hentry row hmem)

/-- Without the attributes, only the rows of the library are to go. -/
theorem leavesToGo_attributes (plan : Plan) :
    LeavesToGo .customAttribute plan.attributes plan.Goes plan.GoesFromLibrary where
  rows n := by simp [Plan.Goes]
  none n := by simp [Plan.GoesFromLibrary]
  others source n hsource := by simp [Plan.Goes, Plan.GoesFromLibrary, hsource]

/-- Without the references to members, only the references to types are. -/
theorem leavesToGo_memberRefs (plan : Plan) :
    LeavesToGo .memberRef plan.memberRefs plan.GoesFromLibrary
      fun source n => source = .typeRef ∧ n ∈ plan.typeRefs where
  rows n := by simp [Plan.GoesFromLibrary]
  none n := by simp
  others source n hsource := by simp [Plan.GoesFromLibrary, hsource]

theorem leavesToGo_typeRefs (plan : Plan) :
    LeavesToGo .typeRef plan.typeRefs (fun source n => source = .typeRef ∧ n ∈ plan.typeRefs)
      fun _ _ => False where
  rows n := by simp
  none n := not_false
  others source n hsource := by simp [hsource]

/-- The references to members can be taken out next, for no reference to a type names one. -/
theorem exists_memberRefStep {first : Assembly} (hreadable : first.Readable)
    (hrows : ∀ row ∈ plan.memberRefs, ∃ columns, first.tables.row? .memberRef row = some columns)
    (hunused : ∀ row ∈ plan.memberRefs, first.Unused plan.GoesFromLibrary .memberRef row) :
    ∃ second, takeOut first .memberRef plan.memberRefs = .ok second ∧
      Step .memberRef plan.memberRefs first second := by
  apply exists_step hreadable (by decide) (by decide) (fun h => absurd h (by decide)) hrows
  intro row hmem
  have hrow := hunused row hmem
  refine ⟨fun source n hstays token hrefers hnames => ?_, hrow.bodies, hrow.entryPoint⟩
  by_cases hsource : source = .typeRef
  · subst hsource
    exact not_refers_memberRef hrefers hnames.1
  · exact hrow.rows source n (fun hin => hin.elim hstays fun htype => hsource htype.1) token
      hrefers hnames

/-- What the steps before the reference to the library leave behind. -/
structure Plan.Steps (plan : Plan) (before first second third : Assembly) : Prop where
  attributes : Step .customAttribute plan.attributes before first
  memberRefs : Step .memberRef plan.memberRefs first second
  typeRefs : Step .typeRef plan.typeRefs second third

section

variable {first second third : Assembly}

theorem Plan.Steps.count (h : plan.Steps assembly first second third) :
    third.tables.count .assemblyRef = assembly.tables.count .assemblyRef := by
  rw [h.typeRefs.counts _ (by decide), h.memberRefs.counts _ (by decide),
    h.attributes.counts _ (by decide)]

theorem Plan.Steps.entryPoint (h : plan.Steps assembly first second third) {library : Nat} :
    third.entryPoint.Names .assemblyRef library ↔
      assembly.entryPoint.Names .assemblyRef library := by
  rw [h.typeRefs.entryPoint _ _ (by decide), h.memberRefs.entryPoint _ _ (by decide),
    h.attributes.entryPoint _ _ (by decide)]

/-- Columns name the library in the end if those of rows that stay did so before. -/
theorem Plan.Steps.unnamed (h : plan.Steps assembly first second third) {library : Nat} :
    Unnamed third library ↔ assembly.UnnamedBut plan.Goes .assemblyRef library := by
  rw [unnamed_iff, h.typeRefs.unnamed _ _ (leavesToGo_typeRefs plan) _ _ (by decide),
    h.memberRefs.unnamed _ _ (leavesToGo_memberRefs plan) _ _ (by decide),
    h.attributes.unnamed _ _ (leavesToGo_attributes plan) _ _ (by decide)]

/-- What is a marker in the end was one before and stays. -/
theorem Plan.Steps.unmarked (h : plan.Steps assembly first second third)
    (hfits : plan.Fits assembly) (row : Nat) : ¬Marker.IsMarker third row := by
  intro hmarker
  obtain ⟨row₂, hmarker₂, -⟩ := h.typeRefs.markers row hmarker
  obtain ⟨row₁, hmarker₁, -⟩ := h.memberRefs.markers row₂ hmarker₂
  obtain ⟨row₀, hmarker₀, hstays⟩ := h.attributes.markers row₁ hmarker₁
  exact hstays rfl ((hfits.attributes row₀).mpr (.inl hmarker₀))

end

/-- The rows that go before the reference to the library can be taken out. -/
theorem exists_steps (hfits : plan.Fits assembly) (hreadable : assembly.Readable)
    (hfit : assembly.SignaturesFit) (hvalue : assembly.entryPoint.value < 2 ^ 32)
    (hentry : ∀ row ∈ plan.attributes, ¬assembly.entryPoint.Names .customAttribute row) :
    ∃ first second third, takeOut assembly .customAttribute plan.attributes = .ok first ∧
      takeOut first .memberRef plan.memberRefs = .ok second ∧
      takeOut second .typeRef plan.typeRefs = .ok third ∧
        plan.Steps assembly first second third := by
  have hwf := hreadable.toWellFormed
  obtain ⟨first, hfirst, hstep⟩ := exists_attributeStep hfits hreadable hentry
  obtain ⟨second, hsecond, hstep'⟩ : ∃ second, takeOut first .memberRef plan.memberRefs =
      .ok second ∧ Step .memberRef plan.memberRefs first second := by
    apply exists_memberRefStep hstep.readable
    · intro row hmem
      rw [Tables.exists_row?, hstep.counts .memberRef (by decide), ← Tables.exists_row?]
      exact hfits.memberRefExists hmem
    · intro row hmem
      exact hstep.unused rfl _ _ (leavesToGo_attributes plan) _ _ (by decide)
        (hfits.unused hwf hvalue (hfits.memberRefExists hmem) ((hfits.memberRefs row).mp hmem).2)
  have hcounts : second.tables.count .typeRef = assembly.tables.count .typeRef :=
    (hstep'.counts .typeRef (by decide)).trans (hstep.counts .typeRef (by decide))
  obtain ⟨third, hthird, hstep''⟩ : ∃ third, takeOut second .typeRef plan.typeRefs = .ok third ∧
      Step .typeRef plan.typeRefs second third := by
    apply exists_step hstep'.readable (by decide) (by decide)
      fun _ => hstep'.signatures rfl (hstep.signatures rfl hfit)
    · intro row hmem
      rw [Tables.exists_row?, hcounts, ← Tables.exists_row?]
      exact hfits.typeRefExists hwf hmem
    · intro row hmem
      have hunused : first.Unused plan.GoesFromLibrary .typeRef row :=
        hstep.unused rfl _ _ (leavesToGo_attributes plan) _ _ (by decide)
          (hfits.unused hwf hvalue (hfits.typeRefExists hwf hmem) ((hfits.typeRefs row).mp hmem).2)
      exact hstep'.unused rfl _ _ (leavesToGo_memberRefs plan) _ _ (by decide) hunused
  exact ⟨first, second, third, hfirst, hsecond, hthird, hstep, hstep', hstep''⟩

/-- The library is there until it is taken out. -/
theorem Plan.Steps.libraryExists {first second third : Assembly}
    (h : plan.Steps assembly first second third) (hfits : plan.Fits assembly) {library : Nat}
    (hlibrary : plan.library = some library) :
    ∃ columns, third.tables.row? .assemblyRef library = some columns := by
  rw [Tables.exists_row?, h.count, ← Tables.exists_row?]
  exact hfits.libraryExists library hlibrary

/-- The reference to the library goes last, if there is one and no column names it. -/
theorem Plan.Steps.exists_removeLibrary {first second third : Assembly}
    (h : plan.Steps assembly first second third) (hfits : plan.Fits assembly)
    (hfree : ¬plan.Blocked assembly) :
    ∃ assemblyRef after, plan.removeLibrary third = .ok (assemblyRef, after) ∧
      (assemblyRef = true ↔ ∃ library, plan.library = some library ∧ Unnamed third library) ∧
        Step .assemblyRef (if assemblyRef then plan.library.toList else []) third after := by
  unfold Plan.removeLibrary
  rcases hplan : plan.library with _ | library
  · exact ⟨false, third, rfl, ⟨nofun, nofun⟩, step_refl h.typeRefs.readable⟩
  · have hentry : Unnamed third library → ¬third.entryPoint.Names .assemblyRef library :=
      fun hunnamed hnames =>
        hfree (.ofLibrary hplan (h.entryPoint.mp hnames) (h.unnamed.mp hunnamed))
    obtain ⟨assemblyRef, after, hlast, hunnamed, hstep⟩ :=
      exists_libraryStep h.typeRefs.readable (h.libraryExists hfits hplan) hentry
    refine ⟨assemblyRef, after, hlast, ?_, hstep⟩
    simpa using hunnamed

/-- No step makes a marker of what was none. -/
theorem Step.all_eq_nil {table : Table} {rows : List Nat} {before after : Assembly}
    (h : Step table rows before after) (hunmarked : ∀ row, ¬Marker.IsMarker before row) :
    Marker.all after = .ok [] := by
  obtain ⟨found, hfound, -, hmem, -⟩ := Marker.exists_all h.readable.toWellFormed
    h.readable.names h.readable.owned
  have hempty : found = [] := by
    rcases found with _ | ⟨marker, rest⟩
    · rfl
    · obtain ⟨row, hmarker, -⟩ :=
        h.markers _ ((hmem marker.row).mp (List.mem_map_of_mem (.head _)))
      exact absurd hmarker (hunmarked row)
  rw [hfound, hempty]

/-- The removal does what the plan says. -/
theorem exists_carryOut (hfits : plan.Fits assembly) (hreadable : assembly.Readable)
    (hfit : assembly.SignaturesFit) (hvalue : assembly.entryPoint.value < 2 ^ 32)
    (hfree : ¬plan.Blocked assembly) :
    ∃ report after, plan.carryOut assembly = .ok (report, after) ∧
      plan.CarriedOut assembly report after := by
  obtain ⟨first, second, third, hfirst, hsecond, hthird, hsteps⟩ :=
    exists_steps hfits hreadable hfit hvalue fun row hrow hentry => hfree (.ofAttribute hrow hentry)
  obtain ⟨assemblyRef, after, hlast, hunnamed, hstep⟩ := hsteps.exists_removeLibrary hfits hfree
  refine ⟨⟨plan.attributes.length, plan.memberRefs.length, plan.typeRefs.length, assemblyRef,
    plan.kept⟩, after, ?_, ?_⟩
  · simp only [Plan.carryOut, hfirst, hsecond, hthird, hlast, Outcome.ok_bind]
    rfl
  · exact ⟨⟨first, second, third, hsteps.attributes.taken, hsteps.memberRefs.taken,
      hsteps.typeRefs.taken, hunnamed, hstep.taken⟩, hstep.all_eq_nil (hsteps.unmarked hfits),
      hstep.readable, rfl⟩

/-- The removal is refused if the entry point is in the way. -/
theorem exists_violation_of_carryOut (hfits : plan.Fits assembly) (hreadable : assembly.Readable)
    (hfit : assembly.SignaturesFit) (hvalue : assembly.entryPoint.value < 2 ^ 32)
    (hblocked : plan.Blocked assembly) :
    ∃ violation, plan.carryOut assembly = .error (.invariant violation) := by
  cases hblocked with
  | ofAttribute hrow hentry =>
      obtain ⟨violation, hviolation⟩ := exists_violation_of_takeOut hreadable.toWellFormed rfl
        (by decide) hrow (hfits.attributeExists hrow) hentry
      refine ⟨violation, ?_⟩
      rw [Plan.carryOut, hviolation]
      rfl
  | ofLibrary hlibrary hentry hunnamed =>
      have hother : ∀ row ∈ plan.attributes, ¬assembly.entryPoint.Names .customAttribute row :=
        fun row _ hnames => absurd (Option.some.inj (hnames.1.symm.trans hentry.1)) (by decide)
      obtain ⟨first, second, third, hfirst, hsecond, hthird, hsteps⟩ :=
        exists_steps hfits hreadable hfit hvalue hother
      obtain ⟨violation, hviolation⟩ :=
        exists_violation_of_removeLibrary hsteps.typeRefs.readable.toWellFormed
          (hsteps.libraryExists hfits hlibrary) (hsteps.unnamed.mpr hunnamed)
          (hsteps.entryPoint.mpr hentry)
      refine ⟨violation, ?_⟩
      simp only [Plan.carryOut, Plan.removeLibrary, hfirst, hsecond, hthird, hlibrary, hviolation,
        Outcome.ok_bind]
      rfl

/-- Removing the markers does what the plan says, unless the entry point is in the way: then the
removal is refused. -/
theorem removal_exact (hreadable : assembly.Readable) (hfit : assembly.SignaturesFit)
    (hvalue : assembly.entryPoint.value < 2 ^ 32) :
    ∃ plan : Plan, plan.Fits assembly ∧
      (plan.Blocked assembly →
        ∃ violation, (run assembly).outcome = .error (.invariant violation)) ∧
      (¬plan.Blocked assembly → ∃ report after, (run assembly).outcome = .ok (report, after) ∧
        plan.CarriedOut assembly report after) := by
  obtain ⟨plan, hfits, hrun⟩ := exists_plan hreadable hfit
  rw [hrun]
  exact ⟨plan, hfits, exists_violation_of_carryOut hfits hreadable hfit hvalue,
    exists_carryOut hfits hreadable hfit hvalue⟩

end

/-! ## A library with a marker -/

/-- The rows of a library with one method, which carries a marker. -/
def markedTables : Tables :=
  (((((Tables.empty.setRows .typeRef [[6, 1, 0]]).setRows .typeDef [[0, 1, 0, 0, 1, 1]]).setRows
    .methodDef [[0, 0, 0, 1, 1, 1]]).setRows .memberRef [[9, 1, 1]]).setRows .customAttribute
      [[32, 11, 0]]).setRows .assemblyRef [[1, 0, 0, 0, 0, 0, 1, 0, 0]]

/-- The names of such a library. -/
def markedStrings : StringHeap :=
  ⟨0 :: (Utf8.encode Marker.typeName ++ [0])⟩

/-- The signatures of such a library. -/
def markedBlobs : BlobHeap :=
  ⟨[0, 3, 0x20, 0, 1]⟩

/-- A library with one method, which carries a marker, and some entry point. -/
def marked (entryPoint : Nat) : Assembly where
  image := {
    data := []
    machine := 0x14C
    characteristics := 0x2000
    is64 := false
    peOffset := 0
    sectionTableOffset := 0
    fileAlignment := 512
    sectionAlignment := 512
    headersSize := 0
    sections := []
    cli := (0, 0)
    debug := none }
  cli := ⟨72, 2, 5, 8, 8, 1, entryPoint, (0, 0), (0, 0), (0, 0)⟩
  version := "v4.0.30319"
  rootFlags := 0
  tables := markedTables
  strings := markedStrings
  blobs := markedBlobs
  guids := []
  userStrings := []
  addedBodies := []

theorem bodyRvas_marked (entryPoint : Nat) : (marked entryPoint).bodyRvas = [] := by
  rw [bodyRvas, show ((marked entryPoint).tables.rows .methodDef).filterMap bodyRva? = [] from rfl,
    List.mergeSort_nil]
  rfl

theorem wellFormed_marked (entryPoint : Nat) : (marked entryPoint).WellFormed where
  arity := (by decide : ∀ table, ∀ columns ∈ markedTables.rows table,
    columns.length = table.columns.length)
  inRange := fun table columns hmem =>
    Tables.inRange_of_zip ((by decide : ∀ table, ∀ columns ∈ markedTables.rows table,
      ∀ entry ∈ table.columns.zip columns, markedTables.InRange entry.1 entry.2) table columns hmem)
  counts := (by decide : ∀ table, markedTables.count table < Token.rowLimit)
  bodies := by
    constructor
    · rw [bodyRvas_marked]
      exact fun _ hmem => absurd hmem List.not_mem_nil
    · rw [bodyRvas_marked]
      exact fun _ hmem => absurd hmem List.not_mem_nil
  bodyTokens := by
    rw [bodyRvas_marked]
    exact fun _ hmem => absurd hmem List.not_mem_nil
  added := fun _ hmem => absurd hmem List.not_mem_nil
  ascending := .nil

theorem names_marked : (∃ name, markedStrings.get 0 = .ok name) ∧
    ∃ name, markedStrings.get 1 = .ok name := by
  constructor
  · exact Outcome.exists_of_isOk (by cbv)
  · exact Outcome.exists_of_isOk (by cbv)

theorem namesFit_marked (entryPoint : Nat) : (marked entryPoint).NamesFit := by
  intro table columns hmem c value hkind hvalue
  have hall : ∀ table, ∀ columns ∈ markedTables.rows table, ∀ entry ∈ table.columns.zip columns,
      entry.1 = .string → entry.2 = 0 ∨ entry.2 = 1 := by
    decide
  have hzip : (ColumnKind.string, value) ∈ table.columns.zip columns :=
    List.mem_of_getElem? (List.getElem?_zip_eq_some.mpr ⟨hkind, hvalue⟩)
  rcases hall table columns hmem _ hzip rfl with hvalue | hvalue
  · rw [show value = 0 from hvalue]
    exact names_marked.1
  · rw [show value = 1 from hvalue]
    exact names_marked.2

theorem readable_marked (entryPoint : Nat) : (marked entryPoint).Readable where
  toWellFormed := wellFormed_marked entryPoint
  names := namesFit_marked entryPoint
  owned := by
    intro row hmem
    rw [show (marked entryPoint).rowNumbers .methodDef = [1] from rfl] at hmem
    rw [List.mem_singleton.mp hmem]
    exact ⟨1, rfl⟩

theorem signaturesFit_marked (entryPoint : Nat) : (marked entryPoint).SignaturesFit := by
  intro site hsite columns hmem index hindex hne
  have hall : ∀ site ∈ SignatureColumn.all, ∀ columns ∈ markedTables.rows site.table,
      site.shape = .signature ∧ ∀ index ∈ columns[site.column]?, index = 1 := by
    decide
  obtain ⟨hshape, hone⟩ := hall site hsite columns hmem
  rw [hshape, hone index hindex]
  exact ⟨[0x20, 0, 1], [], by cbv, by cbv⟩

theorem isMarker_marked (entryPoint : Nat) : Marker.IsMarker (marked entryPoint) 1 :=
  ⟨11, "", rfl, by cbv⟩

/-- The marker of the library is taken out. -/
theorem removal_exact_marked :
    (marked 0).Readable ∧ (marked 0).SignaturesFit ∧ (marked 0).entryPoint.value < 2 ^ 32 ∧
      ∃ plan : Plan, plan.Fits (marked 0) ∧ 1 ∈ plan.attributes ∧
        ∃ report after, (run (marked 0)).outcome = .ok (report, after) ∧
          plan.CarriedOut (marked 0) report after := by
  have hvalue : (marked 0).entryPoint.value < 2 ^ 32 := by decide
  have hnull : ∀ table row, table ≠ .module → ¬(marked 0).entryPoint.Names table row := by
    rintro table row htable ⟨heq, -⟩
    exact htable (Option.some.inj heq).symm
  have hfree : ∀ plan : Plan, ¬plan.Blocked (marked 0) := by
    rintro plan (⟨-, hentry⟩ | ⟨-, hentry, -⟩)
    · exact hnull _ _ (by decide) hentry
    · exact hnull _ _ (by decide) hentry
  obtain ⟨plan, hfits, -, hsuccess⟩ :=
    removal_exact (readable_marked 0) (signaturesFit_marked 0) hvalue
  refine ⟨readable_marked 0, signaturesFit_marked 0, hvalue, plan, hfits, ?_, hsuccess (hfree plan)⟩
  exact (hfits.attributes 1).mpr (.inl (isMarker_marked 0))

/-- It stays if it is the entry point. -/
theorem removal_blocked_by_entryPoint :
    (marked 0x0C000001).Readable ∧ (marked 0x0C000001).SignaturesFit ∧
      (marked 0x0C000001).entryPoint.value < 2 ^ 32 ∧
        ∃ violation, (run (marked 0x0C000001)).outcome = .error (.invariant violation) := by
  obtain ⟨plan, hfits, hrun⟩ :=
    exists_plan (readable_marked 0x0C000001) (signaturesFit_marked 0x0C000001)
  have hmem : 1 ∈ plan.attributes := (hfits.attributes 1).mpr (.inl (isMarker_marked _))
  have hentry : (marked 0x0C000001).entryPoint.Names .customAttribute 1 := by
    constructor
    · decide
    · decide
  have hvalue : (marked 0x0C000001).entryPoint.value < 2 ^ 32 := by decide
  rw [hrun]
  exact ⟨readable_marked _, signaturesFit_marked _, hvalue, exists_violation_of_carryOut hfits
    (readable_marked _) (signaturesFit_marked _) hvalue (.ofAttribute hmem hentry)⟩

end NativeExports.MarkerRemoval
