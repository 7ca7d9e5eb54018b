import NativeExports.Proofs.CodedIndices
import NativeExports.Proofs.Renumbering.MovedSignatures
import NativeExports.Proofs.Renumbering.Steps

/-!
# How a renumbering can fail

A renumbering fails if something that stays refers to a row that is taken out, and for no other
reason.  The lemmas say so for any kind of failure: if no reference that stays can fail to be
renumbered but in this way, then neither can the renumbering.  If there is no failure of the kind at
all, the renumbering succeeds.
-/

namespace NativeExports

variable {kind : Error → Prop}

namespace Renumbering

theorem exists_newReference {renumbering : Renumbering} {source : Table} {row row' : Nat}
    (h : renumbering.newRow row = some row') :
    renumbering.newReference source row = .ok row' :=
  Assembly.newReference_eq_ok.mpr h

theorem failsOnly_newToken {renumbering : Renumbering} {token : Token}
    (h : token.table? = some renumbering.table → ∃ row, renumbering.newRow token.row = some row) :
    Outcome.FailsOnly kind (renumbering.newToken token) := by
  unfold newToken
  split
  · rename_i htable
    obtain ⟨row, hrow⟩ := h htable
    rw [hrow]
    exact .ok _
  · exact .ok token

/-- A column fails as the row that it names does.  Where a run begins can always be told. -/
theorem failsOnly_newColumn {renumbering : Renumbering} {tables : Tables} {column : ColumnKind}
    {value : Nat} (source : Table) (row : Nat) (hrange : tables.InRange column value)
    (h : ∀ old, Assembly.columnTarget column value =
      .ok (some (Token.ofRow renumbering.table old)) →
      (∀ target, column ≠ .list target) → old ≠ 0 → old ≤ tables.count renumbering.table →
        Outcome.FailsOnly kind (renumbering.newReference source old)) :
    Outcome.FailsOnly kind (renumbering.newColumn source row column value) := by
  have hzero : Outcome.FailsOnly kind (renumbering.newReference source 0) :=
    .of_eq_ok (exists_newReference (newRow_zero renumbering))
  cases column with
  | index target =>
      simp only [newColumn]
      split
      · rename_i htarget
        subst htarget
        by_cases hnull : value = 0
        · exact hnull ▸ hzero
        · exact h value (by rw [Assembly.columnTarget, if_neg hnull])
            (fun _ => ColumnKind.noConfusion) hnull hrange
      · exact .ok value
  | coded coded =>
      obtain ⟨target, old, hdecode, hle⟩ := hrange
      simp only [newColumn]
      split
      · rename_i hcontains
        rw [hdecode, Outcome.ok_bind]
        split
        · rename_i hmoves
          obtain ⟨rfl, hnull⟩ := hmoves
          dsimp only at hnull
          refine (h old ?_ (fun _ => ColumnKind.noConfusion) hnull hle).bind fun new _ => ?_
          · rw [Assembly.columnTarget, hdecode, Outcome.ok_bind]
            dsimp only
            rw [if_neg hnull]
            rfl
          · obtain ⟨value', hvalue⟩ := CodedKind.exists_encode hcontains new
            exact .of_eq_ok hvalue
        · exact .ok value
      · exact .ok value
  | _ => exact .ok _

end Renumbering

/-! ## Bodies -/

namespace Assembly

theorem failsOnly_renumberBody {renumbering : Renumbering} {image : Image} {offset : Nat}
    {body : MethodBody} {instructions : List Instruction}
    (hbody : HasBody image offset body instructions)
    (hkeeps : ∀ token ∈ body.tokens instructions,
      Outcome.FailsOnly kind (renumbering.newToken token)) :
    Outcome.FailsOnly kind (renumberBody renumbering image offset) := by
  obtain ⟨hoffset, hread⟩ := bodyFrom_eq_ok.mp hbody.read
  have hshape := MethodBody.shape_of_read hread
  have hextent := hshape.extent_le
  rw [List.length_drop] at hextent
  have hsize : body.headerSize + body.codeSize ≤ body.extent (image.data.drop offset) :=
    hshape.size_le
  have hstart : ∀ clause ∈ body.clauses, body.headerSize + body.codeSize ≤ clause.position :=
    hshape.clauses.start_le
  have hdecode := hbody.code
  rw [MethodBody.code, List.drop_drop] at hdecode
  rw [renumberBody_eq, hbody.read, Outcome.ok_bind]
  refine (failsOnly_renumberCode hdecode fun token hmem =>
    hkeeps token (List.mem_append_left _ hmem)).bind fun first hfirst => ?_
  obtain ⟨hchanged, -⟩ := renumberCode_eq_ok (by omega) hfirst
  refine Outcome.FailsOnly.bind (failsOnly_renumberClauses ?_ hshape.clauses.apart ?_)
    fun second _ => Outcome.FailsOnly.bind ?_ fun third _ => .ok _
  · intro clause hmem
    have := hshape.clauses.le_stop clause hmem
    rw [hchanged.1]
    omega
  · intro clause hmem hnames
    have hfield : Bytes.field first (offset + clause.position) 4 = clause.classOrFilter := by
      have hkeep : Bytes.field first (offset + clause.position) 4 =
          Bytes.field image.data (offset + clause.position) 4 := by
        refine Bytes.field_eq_of_sameOn (hchanged.sameOn fun p hlo hhi hin => ?_)
        have := hstart clause hmem
        omega
      have hself := congrArg ExceptionClause.classOrFilter (hshape.clauses.reread clause hmem)
      change Bytes.field (image.data.drop offset) clause.position 4 = clause.classOrFilter at hself
      rw [hkeep, ← hself, Bytes.field_drop]
    unfold NamesToken at hnames
    rw [hfield] at hnames ⊢
    refine hkeeps _ (List.mem_append_right _ ?_)
    refine MethodBody.mem_outerTokens.mpr (.inl ⟨clause, hmem, hnames.1, fun hzero => ?_, rfl⟩)
    have hnull := hnames.2
    rw [hzero] at hnull
    cases hnull
  · unfold renumberLocals
    by_cases hlocals : body.isFat = true ∧ body.localsToken ≠ 0
    · rw [if_pos hlocals]
      apply failsOnly_renumberToken
      refine hkeeps _ (List.mem_append_right _ ?_)
      exact MethodBody.mem_outerTokens.mpr (.inr ⟨hlocals.1, hlocals.2, rfl⟩)
    · rw [if_neg hlocals]
      exact .ok second

/-- Bodies that are apart from each other are renumbered one after the other. -/
theorem failsOnly_foldlM_renumberBody {renumbering : Renumbering} {image : Image}
    {offsets : List Nat}
    (hbodies : ∀ offset ∈ offsets, ∃ body instructions, HasBody image offset body instructions ∧
      ∀ token ∈ body.tokens instructions, Outcome.FailsOnly kind (renumbering.newToken token))
    (hapart : offsets.Pairwise (Apart image)) :
    Outcome.FailsOnly kind (offsets.foldlM (renumberBody renumbering) image) := by
  induction offsets generalizing image with
  | nil => exact .ok image
  | cons first rest ih =>
      obtain ⟨body, instructions, hbody, hkeeps⟩ := hbodies first (.head _)
      rw [List.foldlM_cons]
      refine (failsOnly_renumberBody hbody hkeeps).bind fun between hbetween => ?_
      obtain ⟨-, hchanged, -⟩ := renumberBody_eq_ok hbody.read hbetween
      obtain ⟨hfar, hapart⟩ := List.pairwise_cons.mp hapart
      have hsame : ∀ offset ∈ rest, SameBody image between offset := fun offset hmem =>
        sameBody_of_apart hbody.read hchanged (hfar offset hmem)
      have hexists : ∀ offset ∈ rest, ∃ body instructions,
          HasBody image offset body instructions := fun offset hmem => by
        obtain ⟨body₂, instructions₂, hbody₂, -⟩ := hbodies offset (.tail _ hmem)
        exact ⟨body₂, instructions₂, hbody₂⟩
      refine ih (fun offset hmem => ?_) (hapart.imp_of_mem fun hmem hmem' hpair =>
        hpair.of_sameBody (hsame _ hmem) (hsame _ hmem') (hexists _ hmem) (hexists _ hmem'))
      obtain ⟨body₂, instructions₂, hbody₂, hkeeps₂⟩ := hbodies offset (.tail _ hmem)
      exact ⟨body₂, instructions₂, (hsame offset hmem _ _ hbody₂).1, hkeeps₂⟩

theorem failsOnly_renumberAddedBody {renumbering : Renumbering} {added : Nat × Bytes}
    (h : ∃ body instructions, MethodBody.read added.2 = .ok body ∧
      Code.decode (body.code added.2) = .ok instructions ∧
        ∀ token ∈ Code.tokensOf instructions,
          Outcome.FailsOnly kind (renumbering.newToken token)) :
    Outcome.FailsOnly kind (renumberAddedBody renumbering added) := by
  obtain ⟨body, instructions, hread, hdecode, hkeeps⟩ := h
  rw [renumberAddedBody, hread, Outcome.ok_bind]
  exact (failsOnly_renumberCode hdecode hkeeps).bind fun data _ => .ok (added.1, data)

/-! ## All steps -/

/-- Every reference that stays can be renumbered, up to failures of a kind. -/
structure NamesKept (kind : Error → Prop) (renumbering : Renumbering) (assembly : Assembly) :
    Prop where
  columns : ∀ table row row' columns, assembly.tables.row? table row = some columns →
    renumbering.place table row = some row' → ∀ (c : Nat) column value,
      table.columns[c]? = some column → columns[c]? = some value →
        Outcome.FailsOnly kind (renumbering.newColumn table row' column value)
  entryPoint : Outcome.FailsOnly kind (renumbering.newToken assembly.entryPoint)
  keys : renumbering.table = .methodDef → ∀ entry ∈ assembly.addedBodies,
    Outcome.FailsOnly kind (renumbering.newReference .methodDef entry.1)
  bodies : renumbering.table.isCodeTarget = true → ∀ row row' columns rva offset body instructions,
    assembly.tables.row? .methodDef row = some columns →
    renumbering.place .methodDef row = some row' → bodyRva? columns = some rva →
    assembly.image.offsetOf rva = .ok offset → HasBody assembly.image offset body instructions →
      ∀ token ∈ body.tokens instructions, Outcome.FailsOnly kind (renumbering.newToken token)
  added : renumbering.table.isCodeTarget = true → ∀ entry ∈ assembly.addedBodies,
    ∃ body instructions, MethodBody.read entry.2 = .ok body ∧
      Code.decode (body.code entry.2) = .ok instructions ∧
        ∀ token ∈ Code.tokensOf instructions, Outcome.FailsOnly kind (renumbering.newToken token)
  signatures : renumbering.table.isSignatureTarget = true → ∀ site ∈ SignatureColumn.all,
    ∀ row row' columns, assembly.tables.row? site.table row = some columns →
      renumbering.place site.table row = some row' →
        ∃ index, columns[site.column]? = some index ∧
          (index ≠ 0 → CanMove kind renumbering site.shape assembly.blobs index)

theorem failsOnly_rearrange {renumbering : Renumbering} {tables : Tables} {inserted : List Row}
    (hcount : tables.count renumbering.table = renumbering.oldCount)
    (hlength : inserted.length = renumbering.suppliedCount) :
    Outcome.FailsOnly kind (rearrange renumbering tables inserted) := by
  simp only [rearrange, if_neg (not_not_intro hcount), if_neg (not_not_intro hlength)]
  exact .ok _

theorem failsOnly_newTables_of_namesKept {renumbering : Renumbering} (hmade : renumbering.Made)
    {inserted : List Row} {before : Assembly} {arranged : Tables}
    (h : NamesKept kind renumbering before)
    (harranged : rearrange renumbering before.tables inserted = .ok arranged) :
    Outcome.FailsOnly kind (renumbering.newTables arranged) := by
  refine Renumbering.failsOnly_newTables fun source => ?_
  apply Renumbering.failsOnly_newRowsFrom
  intro n columns hget
  have hrow : arranged.row? source (1 + n) = some columns :=
    Tables.row?_eq_some.mpr ⟨by omega, by rw [Nat.add_sub_cancel_left]; exact hget⟩
  unfold Renumbering.newRowOf
  by_cases hin : source = renumbering.table ∧ renumbering.isInserted (1 + n) = true
  · rw [if_pos hin]
    exact .ok columns
  · rw [if_neg hin]
    rcases origin_of_rearrange hmade harranged hrow with hin' | ⟨row, hbefore, hplace⟩
    · exact absurd hin' hin
    · exact Renumbering.failsOnly_newColumns fun c column value hkind hvalue =>
        h.columns source row (1 + n) columns hbefore hplace c column value hkind hvalue

theorem failsOnly_newEntryPoint {renumbering : Renumbering} {assembly : Assembly}
    (h : Outcome.FailsOnly kind (renumbering.newToken assembly.entryPoint)) :
    Outcome.FailsOnly kind (newEntryPoint renumbering assembly) := by
  unfold newEntryPoint
  split
  · exact .ok _
  · exact h

theorem failsOnly_rekeyed {renumbering : Renumbering} {assembly : Assembly}
    (h : renumbering.table = .methodDef → ∀ entry ∈ assembly.addedBodies,
      Outcome.FailsOnly kind (renumbering.newReference .methodDef entry.1)) :
    Outcome.FailsOnly kind (rekeyed renumbering assembly) := by
  unfold rekeyed
  split
  · rename_i hmethod
    refine Outcome.FailsOnly.foldlM (motive := fun entries _ => entries ⊆ assembly.addedBodies) ?_
      fun _ hmem => hmem
    intro entry entries moved hsub
    exact ⟨(h hmethod entry (hsub (.head _))).bind fun _ _ => .ok _,
      fun _ _ other hmem => hsub (.tail _ hmem)⟩
  · exact .ok _

theorem failsOnly_patched {renumbering : Renumbering} {inserted : List Row}
    {before middle : Assembly} (hfit : renumbering.table.isCodeTarget = true → before.BodiesFit)
    (hinserted : renumbering.table = .methodDef →
      ∀ columns ∈ inserted, columns.getD MethodDef.rvaColumn 0 = 0)
    (h : NamesKept kind renumbering before)
    (hmoved : before.tables.MovedTo renumbering inserted middle.tables)
    (himage : middle.image = before.image)
    (hadded : ∀ entry ∈ middle.addedBodies, ∃ old ∈ before.addedBodies, old.2 = entry.2) :
    Outcome.FailsOnly kind (patched renumbering middle) := by
  unfold patched
  split
  · rename_i hcode
    have hfit' : middle.BodiesFit :=
      (hfit hcode).of_subset himage fun rva => bodyRvas_of_movedTo hmoved hinserted
    obtain ⟨offsets, hoffsets⟩ : ∃ offsets, middle.bodyOffsets = .ok offsets := by
      apply Outcome.exists_mapM
      intro rva hmem
      obtain ⟨offset, body, instructions, hoffset, -⟩ := hfit'.found rva hmem
      exact ⟨offset, hoffset⟩
    have hall := bodyOffsets_eq_ok hoffsets
    have hbodies : ∀ offset ∈ offsets, ∃ body instructions,
        HasBody middle.image offset body instructions ∧ ∀ token ∈ body.tokens instructions,
          Outcome.FailsOnly kind (renumbering.newToken token) := by
      intro offset hmem
      obtain ⟨rva, hrva, hoffset⟩ := Outcome.exists_of_forall₂_right hall hmem
      obtain ⟨offset', body, instructions, hoffset', hbody⟩ := hfit'.found rva hrva
      rw [hoffset] at hoffset'
      obtain rfl := Except.ok.inj hoffset'
      obtain ⟨row, row', columns, hrow, hplace, hbodyRva⟩ := body_of_movedTo hmoved hinserted hrva
      refine ⟨body, instructions, hbody, ?_⟩
      rw [himage] at hoffset hbody
      exact h.bodies hcode row row' columns rva offset body instructions hrow hplace
        hbodyRva hoffset
        hbody
    have hapart : offsets.Pairwise (Apart middle.image) :=
      pairwise_of_forall₂ hall (pairwise_bodyRvas middle) fun rva hrva rva' hrva' hlt offset offset'
        hoffset hoffset' =>
          hfit'.apart rva hrva rva' hrva' (Nat.ne_of_lt hlt) offset offset' hoffset hoffset'
    rw [renumberBodies, hoffsets, Outcome.ok_bind]
    refine (failsOnly_foldlM_renumberBody hbodies hapart).bind fun image _ =>
      (Outcome.FailsOnly.mapM fun entry hmem => ?_).bind fun addedBodies _ => .ok _
    obtain ⟨old, hold, hsame⟩ := hadded entry hmem
    apply failsOnly_renumberAddedBody
    rw [← hsame]
    exact h.added hcode old hold
  · exact .ok middle

/-- Columns with signatures are left alone while the tables are renewed. -/
theorem signaturesMove_of_namesKept {renumbering : Renumbering} (hmade : renumbering.Made)
    {before middle : Assembly} {inserted : List Row} {arranged : Tables}
    (h : NamesKept kind renumbering before)
    (hsignature : renumbering.table.isSignatureTarget = true)
    (hnone : ∀ row, renumbering.isInserted row = false)
    (harranged : rearrange renumbering before.tables inserted = .ok arranged)
    (hrenewed : renumbering.newTables arranged = .ok middle.tables)
    (hblobs : middle.blobs = before.blobs) :
    SignaturesMove kind renumbering middle := by
  intro site hsite row' columns' hrow'
  obtain ⟨columns, hrow⟩ : ∃ columns, arranged.row? site.table row' = some columns := by
    rw [Tables.exists_row?, ← count_of_newTables hrenewed, ← Tables.exists_row?]
    exact ⟨columns', hrow'⟩
  obtain ⟨columns'', hget, hnew⟩ := row?_of_newTables hrenewed hrow
  rw [hrow'] at hget
  obtain rfl := Option.some.inj hget
  rcases origin_of_rearrange hmade harranged hrow with ⟨-, hin⟩ | ⟨row, hbefore, hplace⟩
  · rw [hnone] at hin
    cases hin
  · obtain ⟨index, hindex, hmove⟩ :=
      h.signatures hsignature site hsite row row' columns hbefore hplace
    rw [Renumbering.newRowOf, if_neg (by simp [hnone])] at hnew
    have hkind := Tables.kind_of_signatureColumn site hsite
    obtain ⟨index', hindex', hvalue⟩ :=
      (Renumbering.renews_of_newColumns hnew).2 site.column .blob index hkind hindex
    obtain rfl := Except.ok.inj hvalue
    rw [hblobs]
    exact ⟨index, hindex', hmove⟩

/-- A renumbering fails only as one of the references does that stay. -/
theorem failsOnly_renumber {renumbering : Renumbering} (hmade : renumbering.Made)
    {inserted : List Row} {before : Assembly}
    (hcount : before.tables.count renumbering.table = renumbering.oldCount)
    (hlength : inserted.length = renumbering.suppliedCount)
    (hnone : renumbering.table.isSignatureTarget = true → renumbering.suppliedCount = 0)
    (hinserted : renumbering.table = .methodDef →
      ∀ columns ∈ inserted, columns.getD MethodDef.rvaColumn 0 = 0)
    (hascending : Ascending before.addedBodies)
    (hfit : renumbering.table.isCodeTarget = true → before.BodiesFit)
    (h : NamesKept kind renumbering before) :
    Outcome.FailsOnly kind (before.renumber renumbering inserted) := by
  rw [renumber_eq]
  refine (failsOnly_rearrange hcount hlength).bind fun arranged harranged => ?_
  refine (failsOnly_newTables_of_namesKept hmade h harranged).bind fun renewed hrenewed => ?_
  refine (failsOnly_newEntryPoint h.entryPoint).bind fun entryPoint _ => ?_
  refine (failsOnly_rekeyed h.keys).bind fun bodies hrekeyed => ?_
  have hmoved : before.tables.MovedTo renumbering inserted
      (before.withTables renewed entryPoint bodies).tables :=
    movedTo_of_newTables hmade harranged hrenewed (.refl _)
  have hadded : ∀ entry ∈ bodies, ∃ old ∈ before.addedBodies, old.2 = entry.2 := by
    intro entry hmem
    obtain ⟨row, -, hold⟩ := (rekeyed_eq_ok hmade.lawful hascending hrekeyed).2.2 entry hmem
    exact ⟨(row, entry.2), hold, rfl⟩
  refine (failsOnly_patched hfit hinserted h hmoved rfl hadded).bind fun middle hmiddle => ?_
  obtain ⟨image, addedBodies, rfl, -⟩ := patched_eq_ok hmiddle
  unfold resigned
  split
  · rename_i hsignature
    exact failsOnly_renumberSignatures (signaturesMove_of_namesKept hmade h hsignature
      (Renumbering.isInserted_of_suppliedCount_eq_zero (hnone hsignature)) harranged hrenewed rfl)
  · exact .ok _

end Assembly

end NativeExports
