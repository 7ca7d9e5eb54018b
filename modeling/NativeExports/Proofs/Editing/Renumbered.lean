import NativeExports.Proofs.Editing.Consistent
import NativeExports.Proofs.Renumbering.Lookups

/-!
# Renumbering keeps assemblies consistent

A token leads somewhere after a renumbering if it did before, because it names the same row; columns
of the heaps and signatures go on to be readable, and runs stay in order.  The rows that are put in
have to fit among the others.  The tokens of added bodies outside their code stay as they are.
-/

namespace NativeExports

theorem Renumbering.Made.oldCount_le {renumbering : Renumbering} (h : renumbering.Made)
    (hsupplied : renumbering.suppliedCount ≠ 0) : renumbering.oldCount ≤ renumbering.newCount := by
  cases h with
  | removal table oldCount removed => exact absurd rfl hsupplied
  | insertion table oldCount position count owner h => exact Nat.le_add_right _ _
  | permutation h =>
      obtain ⟨numbers, rfl, -⟩ := permutation_eq_ok h
      exact Nat.le_refl _

namespace Assembly

variable {renumbering : Renumbering} {inserted : List Row} {before after : Assembly}

/-- Rows that can be put in. -/
structure Insertable (before : Assembly) (renumbering : Renumbering)
    (inserted : List Row) : Prop where
  fits : ∀ columns ∈ inserted, before.RowFits renumbering.table columns
  fresh : ∀ columns ∈ inserted, before.tables.Fresh renumbering.table columns
  runs : renumbering.RunsFit inserted before.tables
  plain : inserted ≠ [] → renumbering.table.isSignatureTarget = false
  unaddressed : renumbering.table = .methodDef →
    ∀ columns ∈ inserted, columns.getD MethodDef.rvaColumn 0 = 0

/-- Nothing needs to fit if no rows are put in. -/
theorem insertable_nil (before : Assembly)
    (hedit : ∀ position count owner, renumbering.edit ≠ .insertion position count owner) :
    Insertable before renumbering [] where
  fits := nofun
  fresh := nofun
  runs := fun position count owner heq => absurd heq (hedit position count owner)
  plain := fun hne => absurd rfl hne
  unaddressed := nofun

/-! ## Tokens -/

theorem within_of_sameRow (hlawful : renumbering.Lawful)
    (hmoved : before.tables.MovedTo renumbering inserted after.tables) {literals : Nat}
    {old new : Token} (hsame : renumbering.SameRow old new)
    (h : old.Within before.tables.count literals) : new.Within after.tables.count literals := by
  unfold Renumbering.SameRow at hsame
  split at hsame
  · rename_i htable
    obtain ⟨row, hrow, htable', hnew⟩ := hsame
    rw [Token.within_of_table htable] at h
    rw [Token.within_of_table htable', hnew]
    exact Nat.le_trans (Nat.mod_le _ _)
      (place_le_count hlawful hmoved h ((renumbering.place_self _).trans hrow))
  · rename_i htable
    subst hsame
    cases hold : new.table? with
    | some table =>
        rw [Token.within_of_table hold] at h ⊢
        have hother : table ≠ renumbering.table := fun heq => htable (heq ▸ hold)
        rw [hmoved.counts, if_neg hother]
        exact h
    | none =>
        unfold Token.Within at h ⊢
        rw [hold] at h ⊢
        exact h

theorem reaches_of_sameRow (hmade : renumbering.Made)
    (h : before.renumber renumbering inserted = .ok after) {old new : Token}
    (hsame : renumbering.SameRow old new) (hreaches : before.Reaches old) : after.Reaches new := by
  unfold Reaches at hreaches ⊢
  rw [(heaps_of_renumber h).2.1]
  exact within_of_sameRow hmade.lawful (movedTo_of_renumber hmade h) hsame hreaches

/-- The tokens of code stem from those there were. -/
theorem codeNames_of_renumber (hmade : renumbering.Made) (hwf : before.WellFormed)
    (hinserted : renumbering.table = .methodDef →
      ∀ columns ∈ inserted, columns.getD MethodDef.rvaColumn 0 = 0)
    (h : before.renumber renumbering inserted = .ok after) {token' : Token}
    (hnames : after.CodeNames token') :
    ∃ token, before.CodeNames token ∧ renumbering.SameRow token token' := by
  rcases hnames with ⟨rva, hrva, offset, body', instructions', hoffset, hbody', hmem⟩ |
    ⟨entry', hentry', body', instructions', hread', hdecode', hmem⟩
  · rw [(image_of_renumber hmade hwf.bodies hinserted h).1] at hoffset
    obtain ⟨body, body₂, instructions, instructions₂, hbody, hbody₂, hfollows, hmaps, -⟩ :=
      bodyFollows_of_renumber hmade hwf hinserted h hrva hoffset
    obtain ⟨rfl, rfl⟩ := hbody₂.unique hbody'
    have hbefore := bodyRvas_of_movedTo (movedTo_of_renumber hmade h) hinserted hrva
    rcases List.mem_append.mp hmem with hcode | houter
    · obtain ⟨token, htoken, hsame⟩ :=
        Outcome.exists_of_forall₂_right (Code.tokensOf_mapsTo hmaps) hcode
      exact ⟨token, .inl ⟨rva, hbefore, offset, body, instructions, hoffset, hbody,
        List.mem_append_left _ htoken⟩, hsame⟩
    · obtain ⟨token, htoken, hsame⟩ := hfollows.origin houter
      refine ⟨token, .inl ⟨rva, hbefore, offset, body, instructions, hoffset, hbody,
        List.mem_append_right _ htoken⟩, ?_⟩
      rcases hsame with hsame | ⟨hnull, rfl⟩
      · exact hsame
      · exact Renumbering.sameRow_of_isNull hnull
  · obtain ⟨entry, hentry, -, body, instructions, instructions₂, hread, hread₂, hdecode, hdecode₂,
      hmaps⟩ := addedOrigin_of_renumber hmade.lawful hwf h hentry'
    obtain rfl := Except.ok.inj (hread₂.symm.trans hread')
    obtain rfl := Except.ok.inj (hdecode₂.symm.trans hdecode')
    obtain ⟨token, htoken, hsame⟩ :=
      Outcome.exists_of_forall₂_right (Code.tokensOf_mapsTo hmaps) hmem
    exact ⟨token, .inr ⟨entry, hentry, _, instructions, hread, hdecode, htoken⟩, hsame⟩

/-- The tokens of added bodies outside their code stay. -/
theorem outerNames_of_renumber (hmade : renumbering.Made) (hwf : before.WellFormed)
    (h : before.renumber renumbering inserted = .ok after) {token : Token} :
    after.OuterNames token ↔ before.OuterNames token := by
  constructor
  · rintro ⟨entry', hentry', body', hread', hmem⟩
    obtain ⟨entry, hentry, -, body, -, -, hread, hread₂, -⟩ :=
      addedOrigin_of_renumber hmade.lawful hwf h hentry'
    obtain rfl := Except.ok.inj (hread₂.symm.trans hread')
    exact ⟨entry, hentry, body, hread, hmem⟩
  · rintro ⟨entry, hentry, body, hread, hmem⟩
    obtain ⟨-, hforth, -⟩ := addedBodies_of_renumber hmade.lawful hwf.ascending h
    obtain ⟨entry', hentry', -, hfollows⟩ := hforth entry hentry
    obtain ⟨body₂, -, -, hread₂, hread', -⟩ :=
      addedBodyFollows_of_addedFollows hfollows (hwf.added entry hentry)
    obtain rfl := Except.ok.inj (hread.symm.trans hread₂)
    exact ⟨entry', hentry', body, hread', hmem⟩

/-! ## Signatures -/

/-- The blob heap only becomes longer. -/
theorem blobs_of_renumber (hmade : renumbering.Made) (hbefore : before.Consistent)
    (hnone : renumbering.table.isSignatureTarget = true → renumbering.suppliedCount = 0)
    (h : before.renumber renumbering inserted = .ok after) :
    before.blobs.data <+: after.blobs.data := by
  by_cases htarget : renumbering.table.isSignatureTarget = true
  · obtain ⟨more, hmore⟩ := (signaturesFollow_of_renumber hmade hbefore.signaturesFit hbefore.apart
      htarget (hnone htarget) h).grown
    rw [hmore]
    exact List.prefix_append _ _
  · have hsame := (signatures_of_renumber hmade (by simpa using htarget) h).1
    exact ⟨[], by rw [hsame, List.append_nil]⟩

/-- The signature of a row is one of those there were, or that of a row that was put in. -/
theorem signature_of_renumber (hmade : renumbering.Made) (hbefore : before.Consistent)
    (hnone : renumbering.table.isSignatureTarget = true → renumbering.suppliedCount = 0)
    (h : before.renumber renumbering inserted = .ok after) {site : SignatureColumn}
    (hsite : site ∈ SignatureColumn.all) {row' index' : Nat} {columns' : Row}
    (hrow' : after.tables.row? site.table row' = some columns')
    (hindex' : columns'[site.column]? = some index') :
    (site.table = renumbering.table ∧ ∃ columns ∈ inserted, columns[site.column]? = some index') ∨
    ∃ columns ∈ before.tables.rows site.table, ∃ index, columns[site.column]? = some index ∧
      (index = 0 → index' = 0) ∧ (index ≠ 0 → after.ReadsAs site.shape index') ∧
        (renumbering.table.isSignatureTarget = false → index' = index) := by
  have hmoved := movedTo_of_renumber hmade h
  rcases hmoved.origin _ _ _ hrow' with ⟨htable, hin⟩ | ⟨row, columns, hrow, hplace⟩
  · have hplain : renumbering.table.isSignatureTarget = false := by
      by_contra htarget
      rw [Renumbering.isInserted_of_suppliedCount_eq_zero (hnone (by simpa using htarget))] at hin
      cases hin
    obtain ⟨columns, hmem, hget⟩ := supplied_of_renumber hmade hplain h hin
    rw [← htable, hrow'] at hget
    obtain rfl := Option.some.inj hget
    exact .inl ⟨htable, columns', hmem, hindex'⟩
  · refine .inr ⟨columns, Tables.mem_rows.mpr ⟨row, hrow⟩, ?_⟩
    have hfits := hbefore.rows site.table columns (Tables.mem_rows.mpr ⟨row, hrow⟩)
    by_cases htarget : renumbering.table.isSignatureTarget = true
    · obtain ⟨columns₂, index, new, hrow₂, hindex, hnew, hzero, hmoves⟩ :=
        (signaturesFollow_of_renumber hmade hbefore.signaturesFit hbefore.apart htarget
          (hnone htarget) h).rows site hsite row row' columns hrow hplace
      obtain rfl := Option.some.inj (hrow'.symm.trans hrow₂)
      obtain rfl := Option.some.inj (hindex'.symm.trans hnew)
      refine ⟨index, hindex, hzero, fun hne => ?_, fun hplain => absurd htarget (by simp [hplain])⟩
      obtain ⟨-, blob, updated, hblob, hupdated, hget⟩ := hmoves hne
      obtain ⟨tokens, tokens', htokens, htokens', hmaps⟩ :=
        BlobForm.tokens_of_mapTokens renumbering.bounded_newToken hupdated
      obtain ⟨blob₂, tokens₂, hblob₂, htokens₂, hall⟩ :=
        hfits.signature site hsite rfl index hindex hne
      obtain rfl := Except.ok.inj (hblob.symm.trans hblob₂)
      obtain rfl := Except.ok.inj (htokens.symm.trans htokens₂)
      refine ⟨updated, tokens', hget, htokens', fun token' hmem => ?_⟩
      obtain ⟨token, htoken, hmap⟩ := Outcome.exists_of_forall₂_right hmaps hmem
      exact reaches_of_sameRow hmade h (Renumbering.sameRow_of_newToken hmap) (hall token htoken)
    · have hplain : renumbering.table.isSignatureTarget = false := by simpa using htarget
      obtain ⟨hblobs, hsame⟩ := signatures_of_renumber hmade hplain h
      have hindex := hsame _ _ _ _ _ hrow hplace hrow' _ ⟨site, hsite, rfl, rfl⟩
      rw [hindex'] at hindex
      refine ⟨index', hindex.symm, id, fun hne => ?_, fun _ => rfl⟩
      obtain ⟨blob, tokens, hblob, htokens, hall⟩ :=
        hfits.signature site hsite rfl index' hindex.symm hne
      refine ⟨blob, tokens, hblobs ▸ hblob, htokens, fun token hmem => ?_⟩
      refine reaches_of_sameRow hmade h ?_ (hall token hmem)
      rw [Renumbering.SameRow, if_neg fun htable => ?_]
      exact htarget (BlobForm.isSignatureTarget_of_mem_tokens htokens hmem htable)

theorem formsApart_of_renumber (hmade : renumbering.Made) (hbefore : before.Consistent)
    (hnone : renumbering.table.isSignatureTarget = true → renumbering.suppliedCount = 0)
    (hfresh : ∀ columns ∈ inserted, before.tables.Fresh renumbering.table columns)
    (h : before.renumber renumbering inserted = .ok after) : after.tables.FormsApart := by
  by_cases htarget : renumbering.table.isSignatureTarget = true
  · exact (signaturesFollow_of_renumber hmade hbefore.signaturesFit hbefore.apart htarget
      (hnone htarget) h).apart
  · -- Signatures stay, and none was put in where one of another form is.
    have hholds : ∀ {form index}, after.tables.HoldsSignature form index →
        before.tables.HoldsSignature form index ∨ ∃ site ∈ SignatureColumn.all,
          site.table = renumbering.table ∧ site.shape = form ∧
            ∃ columns ∈ inserted, columns[site.column]? = some index := by
      rintro form index ⟨site, hsite, hshape, columns', hmem, hindex'⟩
      obtain ⟨row', hrow'⟩ := Tables.mem_rows.mp hmem
      rcases signature_of_renumber hmade hbefore hnone h hsite hrow' hindex' with
        ⟨htable, hcolumns⟩ | ⟨columns, hin, index₂, hindex, -, -, hsame⟩
      · exact .inr ⟨site, hsite, htable, hshape, hcolumns⟩
      · rw [hsame (by simpa using htarget)]
        exact .inl ⟨site, hsite, hshape, columns, hin, hindex⟩
    intro index hne htype hsignature
    rcases hholds htype with hold | ⟨site, hsite, htable, hshape, columns, hmem, hindex⟩ <;>
      rcases hholds hsignature with
        hold' | ⟨site', hsite', htable', hshape', columns', hmem', hindex'⟩
    · exact hbefore.apart index hne hold hold'
    · exact hfresh columns' hmem' site' hsite' htable' index hindex' hne .type
        (by rw [hshape']; nofun) hold
    · exact hfresh columns hmem site hsite htable index hindex hne .signature
        (by rw [hshape]; nofun) hold'
    · obtain rfl := SignatureColumn.eq_of_table site hsite site' hsite' (htable'.trans htable.symm)
      rw [hshape] at hshape'
      cases hshape'

/-! ## Assemblies -/

/-- What is put in is found among longer tables. -/
theorem covers_of_inserted (hmade : renumbering.Made) (hbefore : before.Consistent)
    (hnone : renumbering.table.isSignatureTarget = true → renumbering.suppliedCount = 0)
    (h : before.renumber renumbering inserted = .ok after) (hne : inserted ≠ []) :
    after.Covers before := by
  have hmoved := movedTo_of_renumber hmade h
  obtain ⟨hstrings, hliterals, hguids⟩ := heaps_of_renumber h
  refine ⟨fun table => ?_, hstrings ▸ List.prefix_refl _, blobs_of_renumber hmade hbefore hnone h,
    hguids, hliterals⟩
  rw [hmoved.counts]
  split
  · rename_i htable
    rw [htable, hmoved.fits.1]
    refine hmade.oldCount_le fun hzero => hne (List.length_eq_zero_iff.mp ?_)
    exact hmoved.fits.2.trans hzero
  · exact Nat.le_refl _

theorem resolves_of_renumber (hmade : renumbering.Made) (hbefore : before.Consistent)
    (hnone : renumbering.table.isSignatureTarget = true → renumbering.suppliedCount = 0)
    (h : before.renumber renumbering inserted = .ok after) {kind : ColumnKind} {value : Nat}
    (hresolves : before.Resolves kind value) : after.Resolves kind value := by
  obtain ⟨hstrings, -, hguids⟩ := heaps_of_renumber h
  cases kind with
  | string =>
      change ∃ name, after.strings.get value = .ok name
      rw [hstrings]
      exact hresolves
  | guid =>
      change 16 * value ≤ after.guids.length
      rw [hguids]
      exact hresolves
  | blob =>
      obtain ⟨blob, hblob⟩ := hresolves
      obtain ⟨more, hmore⟩ := blobs_of_renumber hmade hbefore hnone h
      have hgrown := BlobHeap.get_append hblob more
      rw [hmore] at hgrown
      exact ⟨blob, hgrown⟩
  | _ => trivial

theorem Insertable.none (hinsertable : Insertable before renumbering inserted)
    (hlength : inserted.length = renumbering.suppliedCount)
    (htarget : renumbering.table.isSignatureTarget = true) : renumbering.suppliedCount = 0 := by
  rw [← hlength]
  by_contra hne
  have hplain := hinsertable.plain fun hnil => hne (hnil ▸ rfl)
  rw [htarget] at hplain
  cases hplain

theorem rowFits_of_renumber (hmade : renumbering.Made) (hbefore : before.Consistent)
    (hinsertable : Insertable before renumbering inserted) (hafter : after.WellFormed)
    (h : before.renumber renumbering inserted = .ok after) {table : Table} {columns' : Row}
    (hmem : columns' ∈ after.tables.rows table) : after.RowFits table columns' := by
  have hmoved := movedTo_of_renumber hmade h
  have hnone := hinsertable.none hmoved.fits.2
  obtain ⟨row', hrow'⟩ := Tables.mem_rows.mp hmem
  refine ⟨hafter.arity table columns' hmem, hafter.inRange table columns' hmem, ?_, ?_⟩
  · intro c kind value' hkind hvalue'
    by_cases hsignature : Tables.IsSignatureColumn table c
    · obtain ⟨site, hsite, rfl, rfl⟩ := hsignature
      have hblob := Tables.kind_of_signatureColumn site hsite
      obtain rfl := Option.some.inj (hkind.symm.trans hblob)
      rcases signature_of_renumber hmade hbefore hnone h hsite hrow' hvalue' with
        ⟨htable, columns, hin, hindex⟩ | ⟨columns, hin, index, hindex, hzero, hreads, -⟩
      · exact resolves_of_renumber hmade hbefore hnone h
          ((hinsertable.fits columns hin).resolves site.column .blob value' (htable ▸ hblob) hindex)
      · by_cases hne : index = 0
        · rw [hzero hne, ← hne]
          exact resolves_of_renumber hmade hbefore hnone h
            ((hbefore.rows site.table columns hin).resolves site.column .blob index hblob hindex)
        · obtain ⟨blob, -, hget, -⟩ := hreads hne
          exact ⟨blob, hget⟩
    · rcases hmoved.origin _ _ _ hrow' with ⟨rfl, hin⟩ | ⟨row, columns, hrow, hplace⟩
      · obtain ⟨columns, hsupplied, columns₂, hrow₂, hsame⟩ := hmoved.of_isInserted hin
        obtain rfl := Option.some.inj (hrow'.symm.trans hrow₂)
        rw [hsame.2 c hsignature] at hvalue'
        exact resolves_of_renumber hmade hbefore hnone h
          ((hinsertable.fits columns hsupplied).resolves c kind value' hkind hvalue')
      · obtain ⟨columns₂, hrow₂, hlength, hfollows⟩ := hmoved.rows _ _ _ _ hrow hplace
        obtain rfl := Option.some.inj (hrow'.symm.trans hrow₂)
        have hvalue := List.getElem?_eq_getElem
          (hlength ▸ (List.getElem?_eq_some_iff.mp hvalue').1 : c < columns.length)
        obtain ⟨value₂, hvalue₂, hnew⟩ := hfollows c kind _ hkind hvalue hsignature
        obtain rfl := Option.some.inj (hvalue'.symm.trans hvalue₂)
        have hold := resolves_of_renumber hmade hbefore hnone h
          ((hbefore.rows table columns (Tables.mem_rows.mpr ⟨row, hrow⟩)).resolves c kind _ hkind
            hvalue)
        -- Columns of the heaps keep their value, and the others have nothing to resolve.
        cases kind with
        | string => exact Except.ok.inj hnew ▸ hold
        | guid => exact Except.ok.inj hnew ▸ hold
        | blob => exact Except.ok.inj hnew ▸ hold
        | _ => trivial
  · intro site hsite htable index hindex hne
    subst htable
    rcases signature_of_renumber hmade hbefore hnone h hsite hrow' hindex with
      ⟨htable, columns, hin, hindex⟩ | ⟨columns, hin, old, hold, hzero, hreads, -⟩
    · exact (covers_of_inserted hmade hbefore hnone h (List.ne_nil_of_mem hin)).readsAs
        ((hinsertable.fits columns hin).signature site hsite htable index hindex hne)
    · exact hreads fun heq => hne (hzero heq)

/-- Renumbering keeps an assembly consistent. -/
theorem consistent_of_renumber (hmade : renumbering.Made) (hkeeps : renumbering.KeepsRuns)
    (hbefore : before.Consistent) (hinsertable : Insertable before renumbering inserted)
    (hcount : renumbering.newCount < Token.rowLimit)
    (h : before.renumber renumbering inserted = .ok after) : after.Consistent := by
  have hmoved := movedTo_of_renumber hmade h
  have hnone := hinsertable.none hmoved.fits.2
  have hrows : RowsFit renumbering.table inserted after.tables := fun columns hmem =>
    ⟨(hinsertable.fits columns hmem).arity, fun c kind value hkind hvalue =>
      ((hinsertable.fits columns hmem).inRange c kind value hkind hvalue).mono
        (covers_of_inserted hmade hbefore hnone h (List.ne_nil_of_mem hmem)).counts⟩
  have hwf : after.WellFormed :=
    wellFormed_of_renumber hmade hbefore.toWellFormed hinsertable.unaddressed hrows hcount h
  exact {
    toWellFormed := hwf
    rows := fun table columns' hmem =>
      rowFits_of_renumber hmade hbefore hinsertable hwf h hmem
    apart := formsApart_of_renumber hmade hbefore hnone hinsertable.fresh h
    runs := runsOrdered_of_movedTo hmade.lawful hkeeps hbefore.runs hinsertable.runs hmoved
    names := by
      intro token' hnames
      obtain ⟨token, htoken, hsame⟩ := codeNames_of_renumber hmade hbefore.toWellFormed
        hinsertable.unaddressed h hnames
      exact reaches_of_sameRow hmade h hsame (hbefore.names token htoken)
    keys := by
      intro entry' hmem'
      obtain ⟨entry, hmem, hplace, -⟩ :=
        addedOrigin_of_renumber hmade.lawful hbefore.toWellFormed h hmem'
      obtain ⟨value', hvalue', hnew⟩ := value_of_movedTo hmoved hplace
        (rfl : Table.methodDef.columns[MethodDef.rvaColumn]? = some .u32) (by decide)
        (hbefore.keys entry hmem)
      rw [hvalue', ← Except.ok.inj hnew]
    leads := by
      rw [(heaps_of_renumber h).1]
      exact ⟨hbefore.leads.1,
        head?_of_grown hbefore.leads.2 (blobs_of_renumber hmade hbefore hnone h)⟩ }

end Assembly

end NativeExports
