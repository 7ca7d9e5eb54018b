import NativeExports.Proofs.Renumbering.Removal

/-!
# When a removal is refused

Two traversals of an assembly have to agree: one collects the references of rows and bodies, the
other renumbers them and refuses to take out a row that is still referred to.  A removal succeeds
exactly if nothing that stays is found to refer to the rows, and otherwise it is refused because of
such a reference and fails in no other way.

Starts of runs are collected but never refused, because a run can begin at the next row that stays.
There is one reference on which the traversals disagree: the exception clauses and the local
variables of added bodies are collected, but not renumbered.
-/

namespace NativeExports

/-- The tokens of a body outside its code become related ones, unless they name no row. -/
theorem MethodBody.Follows.image {related : Token → Token → Prop} {body body' : MethodBody}
    (h : body.Follows related body') {token : Token} (hmem : token ∈ body.outerTokens) :
    token.isNull = true ∨ ∃ new, related token new := by
  by_cases hnull : token.isNull = true
  · exact .inl hnull
  refine .inr ?_
  rcases MethodBody.mem_outerTokens.mp hmem with
      ⟨clause, hclause, hnames, -, rfl⟩ | ⟨hfat, hne, rfl⟩
  · obtain ⟨clause', -, hfollows⟩ := Outcome.exists_of_forall₂_left h.clauses hclause
    exact ⟨_, hfollows.type.1 ⟨hnames, by simpa using hnull⟩⟩
  · exact ⟨_, h.locals.1 ⟨hfat, hne⟩⟩

namespace Assembly

/-! ## What is collected -/

/-- A run of a row starts at the row of a token. -/
def StartsRunAt (assembly : Assembly) (table : Table) (row : Nat) (token : Token) : Prop :=
  ∃ columns, assembly.tables.row? table row = some columns ∧
    ∃ (c : Nat) (target : Table) (value : Nat), table.columns[c]? = some (.list target) ∧
      columns[c]? = some value ∧ columnTarget (.list target) value = .ok (some token)

theorem refers_iff {assembly : Assembly} {table : Table} {row : Nat} {token : Token} :
    assembly.Refers table row token ↔
      assembly.Holds table row token ∨ assembly.StartsRunAt table row token := by
  constructor
  · rintro ⟨columns, hrow, ⟨c, kind, value, hkind, hvalue, htarget⟩ | hsignature⟩
    · by_cases hlist : ∃ target, kind = .list target
      · obtain ⟨target, rfl⟩ := hlist
        exact .inr ⟨columns, hrow, c, target, value, hkind, hvalue, htarget⟩
      · exact .inl ⟨columns, hrow, .inl ⟨c, kind, value, hkind, hvalue,
          fun target heq => hlist ⟨target, heq⟩, htarget⟩⟩
    · exact .inl ⟨columns, hrow, .inr hsignature⟩
  · rintro (hholds | ⟨columns, hrow, c, target, value, hkind, hvalue, htarget⟩)
    · exact hholds.refers
    · exact ⟨columns, hrow, .inl ⟨c, _, value, hkind, hvalue, htarget⟩⟩

theorem bodiesName_iff {assembly : Assembly} (hwf : assembly.WellFormed) {token : Token} :
    assembly.BodiesName token ↔ assembly.CodeNames token ∨ assembly.OuterNames token := by
  constructor
  · rintro (hstored | ⟨entry, hentry, body, instructions, hread, hdecode, hmem⟩)
    · exact .inl (.inl hstored)
    · rcases List.mem_append.mp hmem with hcode | houter
      · exact .inl (.inr ⟨entry, hentry, body, instructions, hread, hdecode, hcode⟩)
      · exact .inr ⟨entry, hentry, body, hread, houter⟩
  · rintro (hcode | ⟨entry, hentry, body, hread, hmem⟩)
    · exact hcode.bodiesName
    · obtain ⟨body', instructions, hread', hdecode, -⟩ := hwf.added entry hentry
      obtain rfl := Except.ok.inj (hread.symm.trans hread')
      exact .inr ⟨entry, hentry, body, instructions, hread, hdecode, List.mem_append_right _ hmem⟩

/-- One of the references that are collected names a row: of a row that stays, starts of runs aside,
of a body, or the entry point. -/
def Reported (assembly : Assembly) (gone : Table → Nat → Prop) (table : Table) (row : Nat) : Prop :=
  (∃ source n token, ¬gone source n ∧ assembly.Holds source n token ∧ token.Names table row) ∨
  (∃ targets, assembly.bodyTargets = .ok targets ∧ ∃ token ∈ targets, token.Names table row) ∨
  assembly.entryPoint.Names table row

/-- Everything that is collected is gone through when rows are renumbered, apart from the tokens of
added bodies outside their code. -/
theorem not_reported_iff {assembly : Assembly} (hwf : assembly.WellFormed)
    {gone : Table → Nat → Prop} {table : Table} {row : Nat} :
    ¬assembly.Reported gone table row ↔ assembly.Detached gone table row ∧
      ∀ token, assembly.OuterNames token → ¬token.Names table row := by
  obtain ⟨targets, htargets⟩ := exists_bodyTargets hwf
  have hmem : ∀ token, token ∈ targets ↔ assembly.CodeNames token ∨ assembly.OuterNames token :=
    fun token => (bodyTargets_eq_ok htargets token).trans (bodiesName_iff hwf)
  constructor
  · intro hnot
    have hbodies : ∀ token ∈ targets, ¬token.Names table row := fun token hin hnames =>
      hnot (.inr (.inl ⟨targets, htargets, token, hin, hnames⟩))
    refine ⟨⟨fun source n hstays token hholds hnames => ?_, fun token hcode => ?_,
      fun hentry => ?_⟩,
      fun token houter => hbodies token ((hmem token).mpr (.inr houter))⟩
    · exact hnot (.inl ⟨source, n, token, hstays, hholds, hnames⟩)
    · exact hbodies token ((hmem token).mpr (.inl hcode))
    · exact hnot (.inr (.inr hentry))
  · rintro ⟨hdetached, houter⟩
      (⟨source, n, token, hstays, hholds, hnames⟩ | ⟨targets', htargets', token, hin, hnames⟩ |
        hentry)
    · exact hdetached.rows source n hstays token hholds hnames
    · obtain rfl := Except.ok.inj (htargets.symm.trans htargets')
      rcases (hmem token).mp hin with hcode | hout
      · exact hdetached.bodies token hcode hnames
      · exact houter token hout hnames
    · exact hdetached.entryPoint hentry

/-! ## What a removal has not refused -/

section

variable {assembly after : Assembly} {table : Table} {rows : List Nat}

theorem not_names_of_sameRow {oldCount row : Nat} {old new : Token} (hrow : row ∈ rows)
    (hrange : 1 ≤ row ∧ row ≤ oldCount)
    (h : (Renumbering.removal table oldCount rows).SameRow old new) : ¬old.Names table row := by
  rintro ⟨htable, rfl⟩
  have htable' : old.table? = some (Renumbering.removal table oldCount rows).table := htable
  rw [Renumbering.SameRow, if_pos htable'] at h
  obtain ⟨new', hnew, -⟩ := h
  exact Renumbering.not_mem_of_newRow_removal hrange.1 hrange.2 hnew hrow

theorem not_names_of_newToken {oldCount row : Nat} {old new : Token} (hrow : row ∈ rows)
    (hrange : 1 ≤ row ∧ row ≤ oldCount)
    (h : (Renumbering.removal table oldCount rows).newToken old = .ok new) :
    ¬old.Names table row :=
  not_names_of_sameRow hrow hrange (Renumbering.sameRow_of_newToken h)

/-- A column that has a new value names no row that goes. -/
theorem not_names_of_newColumn {oldCount row value value' : Nat} {source : Table} {n : Nat}
    {column : ColumnKind} {token : Token} (hrow : row ∈ rows) (hrange : 1 ≤ row ∧ row ≤ oldCount)
    (hin : assembly.tables.InRange column value)
    (hcounts : ∀ table, assembly.tables.count table < Token.rowLimit)
    (hlist : ∀ target, column ≠ .list target)
    (htarget : columnTarget column value = .ok (some token))
    (h : (Renumbering.removal table oldCount rows).newColumn source n column value = .ok value') :
    ¬token.Names table row := by
  -- A column names a row by number, and the token has the whole number.
  have hplaced : ∀ target old new, old ≤ assembly.tables.count target →
      (Renumbering.removal table oldCount rows).place target old = some new →
      (if old = 0 then none else some (Token.ofRow target old)) = some token →
      ¬token.Names table row := by
    rintro target old new hle hplace hsome ⟨htable, hnumber⟩
    split at hsome
    · cases hsome
    obtain rfl := Option.some.inj hsome
    rw [Token.table?_ofRow] at htable
    obtain rfl := Option.some.inj htable
    rw [Token.row_ofRow, Nat.mod_eq_of_lt (Nat.lt_of_le_of_lt hle (hcounts target))] at hnumber
    subst hnumber
    rw [Renumbering.place_removal] at hplace
    exact Renumbering.not_mem_of_newRow_removal hrange.1 hrange.2 hplace hrow
  have hsame := Renumbering.sameColumn_of_newColumn hin hcounts h
  cases column with
  | index target => exact hplaced target value value' hin hsame (Except.ok.inj htarget)
  | coded coded =>
      obtain ⟨target, old, hdecode, hle⟩ := hin
      obtain ⟨target', old', new, hdecode', hplace, -⟩ := hsame
      obtain ⟨rfl, rfl⟩ := Prod.mk.inj (Except.ok.inj (hdecode.symm.trans hdecode'))
      rw [columnTarget, hdecode, Outcome.ok_bind] at htarget
      exact hplaced target old new hle hplace (Except.ok.inj htarget)
  | list target => exact absurd rfl (hlist target)
  | _ => cases htarget

/-- A row that stays has a place. -/
theorem exists_place_removal (oldCount : Nat) {source : Table} {n : Nat}
    (hstays : ¬(source = table ∧ n ∈ rows)) :
    ∃ n', (Renumbering.removal table oldCount rows).place source n = some n' := by
  by_cases hsource : source = table
  · subst hsource
    rw [Renumbering.place_removal]
    exact Renumbering.exists_newRow_removal _ _ fun hmem => hstays ⟨rfl, hmem⟩
  · exact ⟨n, Renumbering.place_of_ne hsource n⟩

section

variable {row : Nat}

/-- A removal has renumbered what the rows that stay hold, so none of it names a row that goes. -/
theorem not_names_of_holds (hwf : assembly.WellFormed) (hfit : assembly.SignaturesFit)
    (hapart : assembly.tables.FormsApart)
    (h : assembly.renumber (.removal table (assembly.tables.count table) rows) [] = .ok after)
    (hrow : row ∈ rows) (hrange : 1 ≤ row ∧ row ≤ assembly.tables.count table) {source : Table}
    {n : Nat} {token : Token} (hstays : ¬(source = table ∧ n ∈ rows))
    (hholds : assembly.Holds source n token) : ¬token.Names table row := by
  have hmade : (Renumbering.removal table (assembly.tables.count table) rows).Made := .removal _ _ _
  obtain ⟨columns, hcolumns, hholds⟩ := hholds
  obtain ⟨n', hplace⟩ := exists_place_removal (assembly.tables.count table) hstays
  rcases hholds with ⟨c, column, value, hkind, hvalue, hlist, htarget⟩ | ⟨site, hsite, rfl, hnames⟩
  · have hc : ¬Tables.IsSignatureColumn source c := by
      rintro ⟨site, hsite, rfl, rfl⟩
      rw [Tables.kind_of_signatureColumn site hsite] at hkind
      rw [← Option.some.inj hkind] at htarget
      cases htarget
    obtain ⟨columns', -, -, hfollows⟩ :=
      (movedTo_of_renumber hmade h).rows source n n' columns hcolumns hplace
    obtain ⟨value', -, hnew⟩ := hfollows c column value hkind hvalue hc
    exact not_names_of_newColumn hrow hrange
      (hwf.inRange source columns (Tables.mem_rows.mpr ⟨n, hcolumns⟩) c column value hkind hvalue)
      hwf.counts hlist htarget hnew
  · obtain ⟨index, blob, tokens, hindex, hne, hget, htokens, hmem⟩ := hnames
    by_cases htarget : table.isSignatureTarget = true
    · have hfollow := signaturesFollow_of_renumber hmade hfit hapart htarget rfl h
      obtain ⟨columns', index', new, -, hindex', -, -, hmoves⟩ :=
        hfollow.rows site hsite n n' columns hcolumns hplace
      obtain rfl := Option.some.inj (hindex.symm.trans hindex')
      obtain ⟨-, blob', updated, hget', hupdated, -⟩ := hmoves hne
      obtain rfl := Except.ok.inj (hget.symm.trans hget')
      obtain ⟨new, hnew⟩ := BlobForm.exists_image_of_mapTokens hupdated htokens hmem
      exact not_names_of_newToken hrow hrange hnew
    · rintro ⟨htable, -⟩
      exact htarget (BlobForm.isSignatureTarget_of_mem_tokens htokens hmem htable)

/-- Nor does any token that a removal has renumbered in a body. -/
theorem not_names_of_codeNames (hwf : assembly.WellFormed) (hmethod : table ≠ .methodDef)
    (h : assembly.renumber (.removal table (assembly.tables.count table) rows) [] = .ok after)
    (hrow : row ∈ rows) (hrange : 1 ≤ row ∧ row ≤ assembly.tables.count table) {token : Token}
    (hcode : assembly.CodeNames token) : ¬token.Names table row := by
  have hkeeps := keepsMeaning_of_renumber (.removal _ _ _) hwf
    (fun _ _ hmem => absurd hmem List.not_mem_nil) h
  rcases hcode with ⟨rva, hrva, offset, body, instructions, hoffset, hbody, hmem⟩ |
    ⟨entry, hentry, body, instructions, hread, hdecode, hmem⟩
  · obtain ⟨columns, hin, hbodyRva⟩ := mem_bodyRvas.mp hrva
    obtain ⟨method, hmethodRow⟩ := Tables.mem_rows.mp hin
    obtain ⟨-, offset', hoffset', -, body', body₂, instructions', instructions₂, hbody', -,
      hfollows, hmaps, -⟩ := hkeeps.bodies method method columns rva hmethodRow
        (Renumbering.place_of_ne (Ne.symm hmethod) method) hbodyRva
    obtain rfl := Except.ok.inj (hoffset.symm.trans hoffset')
    obtain ⟨rfl, rfl⟩ := hbody.unique hbody'
    rcases List.mem_append.mp hmem with hcode | houter
    · obtain ⟨new, -, hsame⟩ := Outcome.exists_of_forall₂_left (Code.tokensOf_mapsTo hmaps) hcode
      exact not_names_of_sameRow hrow hrange hsame
    · rcases hfollows.image houter with hnull | ⟨new, hsame⟩
      · rintro ⟨-, rfl⟩
        have hzero : token.row = 0 := by simpa [Token.isNull] using hnull
        omega
      · exact not_names_of_sameRow hrow hrange hsame
  · obtain ⟨entry', -, -, body', instructions', instructions₂, hread', -, hdecode', -, hmaps⟩ :=
      hkeeps.added entry hentry
    obtain rfl := Except.ok.inj (hread.symm.trans hread')
    obtain rfl := Except.ok.inj (hdecode.symm.trans hdecode')
    obtain ⟨new, -, hsame⟩ := Outcome.exists_of_forall₂_left (Code.tokensOf_mapsTo hmaps) hmem
    exact not_names_of_sameRow hrow hrange hsame

/-- The rows that a removal takes out are detached: no reference that is renumbered names them. -/
theorem detached_of_removal (hwf : assembly.WellFormed) (hfit : assembly.SignaturesFit)
    (hapart : assembly.tables.FormsApart) (hmethod : table ≠ .methodDef)
    (h : assembly.renumber (.removal table (assembly.tables.count table) rows) [] = .ok after)
    (hrow : row ∈ rows) (hrange : 1 ≤ row ∧ row ≤ assembly.tables.count table) :
    assembly.Detached (fun source n => source = table ∧ n ∈ rows) table row where
  rows _ _ hstays _ hholds := not_names_of_holds hwf hfit hapart h hrow hrange hstays hholds
  bodies _ hcode := not_names_of_codeNames hwf hmethod h hrow hrange hcode
  entryPoint := not_names_of_sameRow hrow hrange (keepsMeaning_of_renumber (.removal _ _ _) hwf
    (fun _ _ hmem => absurd hmem List.not_mem_nil) h).entryPoint

end

/-- A removal that does not succeed is refused. -/
theorem exists_violation_of_removal (hwf : assembly.WellFormed)
    (hfit : table.isSignatureTarget = true → assembly.SignaturesFit) (hmethod : table ≠ .methodDef)
    (hfails : ¬∃ after,
      assembly.renumber (.removal table (assembly.tables.count table) rows) [] = .ok after) :
    ∃ violation, assembly.renumber (.removal table (assembly.tables.count table) rows) [] =
      .error (.invariant violation) := by
  have hkind : Outcome.FailsOnly (fun e => ∃ violation, e = .invariant violation)
      (assembly.renumber (.removal table (assembly.tables.count table) rows) []) :=
    failsOnly_removal hwf hfit hmethod fun _ _ => .inl fun violation => ⟨violation, rfl⟩
  obtain ⟨_, herror, violation, rfl⟩ := hkind.exists_error hfails
  exact ⟨violation, herror⟩

/-- A removal succeeds exactly if the rows are detached, and otherwise it is refused.  So it
succeeds if nothing that is collected names one of the rows; and if it succeeds, what is collected
and does name one is a token of an added body outside its code. -/
theorem removal_succeeds_iff_detached (hwf : assembly.WellFormed) (hfit : assembly.SignaturesFit)
    (hapart : assembly.tables.FormsApart) (hmethod : table ≠ .methodDef)
    (hrows : ∀ row ∈ rows, 1 ≤ row ∧ row ≤ assembly.tables.count table) :
    (∀ source n columns, assembly.tables.row? source n = some columns →
      ∃ targets, assembly.rowTargets source n = .ok targets ∧ ∀ token, token ∈ targets ↔
        assembly.Holds source n token ∨ assembly.StartsRunAt source n token) ∧
    ((∃ after, assembly.renumber (.removal table (assembly.tables.count table) rows) [] =
      .ok after) ↔
      ∀ row ∈ rows, assembly.Detached (fun source n => source = table ∧ n ∈ rows) table row) ∧
    ((¬∃ after,
        assembly.renumber (.removal table (assembly.tables.count table) rows) [] = .ok after) →
      ∃ violation, assembly.renumber (.removal table (assembly.tables.count table) rows) [] =
        .error (.invariant violation)) ∧
    ((∀ row ∈ rows, ¬assembly.Reported (fun source n => source = table ∧ n ∈ rows) table row) ↔
      (∃ after,
        assembly.renumber (.removal table (assembly.tables.count table) rows) [] = .ok after) ∧
      ∀ row ∈ rows, ∀ token, assembly.OuterNames token → ¬token.Names table row) := by
  have hsucceeds : (∃ after,
      assembly.renumber (.removal table (assembly.tables.count table) rows) [] = .ok after) ↔
      ∀ row ∈ rows, assembly.Detached (fun source n => source = table ∧ n ∈ rows) table row := by
    constructor
    · rintro ⟨after, h⟩ row hrow
      exact detached_of_removal hwf hfit hapart hmethod h hrow (hrows row hrow)
    · exact exists_removal hwf (fun _ => hfit) hmethod
  refine ⟨fun source n columns hrow => ?_, hsucceeds,
    exists_violation_of_removal hwf (fun _ => hfit) hmethod, ?_⟩
  · obtain ⟨targets, htargets⟩ := exists_rowTargets hwf hfit hrow
    exact ⟨targets, htargets, fun token => (rowTargets_eq_ok htargets token).trans refers_iff⟩
  · rw [hsucceeds, ← forall₂_and]
    exact forall₂_congr fun row hrow => not_reported_iff hwf

end

/-- The second row of local variables is taken out although an added body is found to name it. -/
theorem removal_ignores_added_locals :
    withAddedLocals.WellFormed ∧ withAddedLocals.SignaturesFit ∧
      withAddedLocals.tables.FormsApart ∧ Table.standAloneSig ≠ .methodDef ∧
      (∀ row ∈ [2], 1 ≤ row ∧ row ≤ withAddedLocals.tables.count .standAloneSig) ∧
      (∃ after, withAddedLocals.renumber (.removal .standAloneSig 2 [2]) [] = .ok after) ∧
      withAddedLocals.Reported (fun source n => source = .standAloneSig ∧ n ∈ [2])
        .standAloneSig 2 := by
  have hzero : ∀ site ∈ SignatureColumn.all, ∀ columns ∈ withAddedLocals.tables.rows site.table,
      columns[site.column]? = some 0 := by decide
  have hfit : withAddedLocals.SignaturesFit := fun site hsite columns hmem index hindex hne =>
    absurd (Option.some.inj (hindex.symm.trans (hzero site hsite columns hmem))) hne
  have hapart : withAddedLocals.tables.FormsApart := by
    rintro index hne ⟨site, hsite, -, columns, hmem, hindex⟩ -
    exact hne (Option.some.inj (hindex.symm.trans (hzero site hsite columns hmem)))
  have hrange : ∀ row ∈ [2], 1 ≤ row ∧ row ≤ withAddedLocals.tables.count .standAloneSig := by
    decide
  obtain ⟨-, -, -, hreported⟩ :=
    removal_succeeds_iff_detached wellFormed_withAddedLocals hfit hapart
    (by decide : Table.standAloneSig ≠ .methodDef) hrange
  have hsucceeds : ∃ after,
      withAddedLocals.renumber (.removal .standAloneSig 2 [2]) [] = .ok after := by
    apply Outcome.exists_of_isOk
    cbv
  refine ⟨wellFormed_withAddedLocals, hfit, hapart, by decide, hrange, hsucceeds, ?_⟩
  by_contra hnot
  obtain ⟨-, houter⟩ := hreported.mp fun row hrow => List.mem_singleton.mp hrow ▸ hnot
  refine houter 2 (.head _) ⟨0x11000002⟩ ⟨_, .head _,
    ⟨1, 12, 0x11000002, 8, true, false, []⟩, ?_, ?_⟩
    ⟨by decide, by decide⟩
  · cbv
  · decide

end Assembly

end NativeExports
