import NativeExports.Proofs.Renumbering.Meaning
import NativeExports.Proofs.Renumbering.MovedSignatures

/-!
# Shared signatures

Rows share blobs, also across tables, and a shared blob is renumbered once.  All rows that hold it
then get the result, which was made for the first of the columns that hold it.  For a blob that is
used in one form only this is the renumbered signature of each of its rows.  A blob that is both a
bare type and a signature is renumbered in the form of the first column; in the other form it may
keep tokens that should have changed.
-/

namespace NativeExports

/-- A row that stays or is put in holds an offset in the given column. -/
def Renumbering.HeldAt (renumbering : Renumbering) (tables : Tables) (inserted : List Row)
    (index : Nat) (site : SignatureColumn) : Prop :=
  (∃ row row' columns, tables.row? site.table row = some columns ∧
    renumbering.place site.table row = some row' ∧ columns[site.column]? = some index) ∨
  site.table = renumbering.table ∧ ∃ columns ∈ inserted, columns[site.column]? = some index

/-- If all columns that hold a blob have one form, this form is the first. -/
theorem BlobForm.Leads.form_eq {holds : SignatureColumn → Prop} {form shape : BlobForm}
    (h : form.Leads holds)
    (hone : ∀ site ∈ SignatureColumn.all, holds site → site.shape = shape) : form = shape := by
  obtain ⟨front, site, back, hall, rfl, hholds, -⟩ := h
  exact hone site (hall ▸ List.mem_append_right _ (.head _)) hholds

/-- There is one first column. -/
theorem BlobForm.Leads.unique {holds : SignatureColumn → Prop} {form form' : BlobForm}
    (h : form.Leads holds) (h' : form'.Leads holds) : form' = form := by
  obtain ⟨front, site, back, hall, rfl, hholds, hfirst⟩ := h
  obtain ⟨front', site', back', hall', rfl, hholds', hfirst'⟩ := h'
  rcases List.append_eq_append_iff.mp (hall.symm.trans hall') with
    ⟨between, hfront, hback⟩ | ⟨between, hfront, hback⟩
  · cases between with
    | nil =>
        cases hback
        rfl
    | cons other between =>
        obtain ⟨rfl, -⟩ := List.cons.inj hback
        exact absurd hholds (hfirst' _ (hfront ▸ List.mem_append_right _ (.head _)))
  · cases between with
    | nil =>
        cases hback
        rfl
    | cons other between =>
        obtain ⟨rfl, -⟩ := List.cons.inj hback
        exact absurd hholds' (hfirst _ (hfront ▸ List.mem_append_right _ (.head _)))

/-- Types lead if no table in front of theirs has rows. -/
theorem BlobForm.leads_type {renumbering : Renumbering} {tables : Tables} {inserted : List Row}
    {index : Nat} (htarget : renumbering.table.isSignatureTarget = true)
    (hempty : ∀ site ∈ SignatureColumn.all.take 5, tables.rows site.table = [])
    (hholds : renumbering.HeldAt tables inserted index ⟨.typeSpec, 0, .type⟩) :
    BlobForm.type.Leads (renumbering.HeldAt tables inserted index) := by
  refine ⟨SignatureColumn.all.take 5, ⟨.typeSpec, 0, .type⟩, [⟨.methodSpec, 1, .signature⟩], rfl,
    rfl, hholds, ?_⟩
  rintro other hother (⟨row, row', columns, hrow, -⟩ | ⟨htable, -⟩)
  · have hmem := Tables.mem_rows.mpr ⟨row, hrow⟩
    rw [hempty other hother] at hmem
    cases hmem
  · have hplain : ∀ other ∈ SignatureColumn.all.take 5,
        other.table.isSignatureTarget = false := by
      decide
    rw [← htable, hplain other hother] at htarget
    cases htarget

namespace Assembly

variable {renumbering : Renumbering}

/-- The new tables hold an offset where the old ones or the rows put in do. -/
theorem holdsAt_of_newTables (hmade : renumbering.Made) {inserted : List Row}
    {tables arranged renewed : Tables}
    (harranged : rearrange renumbering tables inserted = .ok arranged)
    (hrenewed : renumbering.newTables arranged = .ok renewed) {site : SignatureColumn}
    (hsite : site ∈ SignatureColumn.all) (index : Nat) :
    renewed.HoldsAt site index ↔ renumbering.HeldAt tables inserted index site := by
  have hmoved := movedTo_of_newTables hmade harranged hrenewed (.refl _)
  have hcolumn : Tables.IsSignatureColumn site.table site.column := ⟨site, hsite, rfl, rfl⟩
  constructor
  · rintro ⟨columns', hmem', hindex⟩
    obtain ⟨row', hrow'⟩ := Tables.mem_rows.mp hmem'
    rcases hmoved.origin _ _ _ hrow' with ⟨htable, hin⟩ | ⟨row, columns, hrow, hplace⟩
    · obtain ⟨position, count, owner, n, columns, hedit, rfl, hget⟩ :=
        Renumbering.exists_supplied hmoved.fits.2 hin
      have hsupplied := inserted_of_newTables hmade harranged hrenewed hedit hget
      rw [← htable, hrow'] at hsupplied
      obtain rfl := Option.some.inj hsupplied
      exact .inr ⟨htable, columns', List.mem_of_getElem? hget, hindex⟩
    · rw [signature_of_newTables hmade harranged hrenewed hrow hplace hrow' hcolumn] at hindex
      exact .inl ⟨row, row', columns, hrow, hplace, hindex⟩
  · rintro (⟨row, row', columns, hrow, hplace, hindex⟩ | ⟨htable, columns, hmem, hindex⟩)
    · obtain ⟨columns', hrow', -⟩ := hmoved.rows _ _ _ _ hrow hplace
      rw [← signature_of_newTables hmade harranged hrenewed hrow hplace hrow' hcolumn] at hindex
      exact ⟨columns', Tables.mem_rows.mpr ⟨row', hrow'⟩, hindex⟩
    · obtain ⟨n, hget⟩ := List.mem_iff_getElem?.mp hmem
      obtain ⟨position, count, owner, hedit⟩ := Renumbering.exists_insertion hmoved.fits.2 hmem
      have hrow := inserted_of_newTables hmade harranged hrenewed hedit hget
      exact ⟨columns, Tables.mem_rows.mpr ⟨_, htable ▸ hrow⟩, hindex⟩

/-- Signatures after a renumbering.  Every row that stays holds the blob it held before with the
tokens renumbered in the form of the first column that holds the blob, which is the form of the row
unless the blob is used in both forms.  Rows without a signature get none, and every blob is still
found where it was. -/
theorem signatures_follow_first_form (hmade : renumbering.Made) {inserted : List Row}
    {before after : Assembly} (hfit : before.SignaturesFit)
    (htarget : renumbering.table.isSignatureTarget = true)
    (h : before.renumber renumbering inserted = .ok after) :
    (∀ site ∈ SignatureColumn.all, ∀ row row' columns,
      before.tables.row? site.table row = some columns →
      renumbering.place site.table row = some row' →
      ∃ columns' index new, after.tables.row? site.table row' = some columns' ∧
        columns[site.column]? = some index ∧ columns'[site.column]? = some new ∧
        (index = 0 → new = 0) ∧ (index ≠ 0 → new ≠ 0 ∧ ∃ (blob updated : Bytes) (form : BlobForm),
          before.blobs.get index = .ok blob ∧
          form.Leads (renumbering.HeldAt before.tables inserted index) ∧
          ((∀ other ∈ SignatureColumn.all,
            renumbering.HeldAt before.tables inserted index other → other.shape = site.shape) →
              form = site.shape) ∧
          form.mapTokens renumbering.newToken blob = .ok updated ∧
          after.blobs.get new = .ok updated)) ∧
      ∀ index blob, before.blobs.get index = .ok blob → after.blobs.get index = .ok blob := by
  obtain ⟨arranged, middle, harranged, hrenewed, hblobs, hresigned⟩ :=
    renumberSignatures_of_renumber htarget h
  refine ⟨fun site hsite row row' columns hrow hplace => ?_, fun index blob hget =>
    (grown_of_renumberSignatures hresigned).get (hblobs ▸ hget)⟩
  obtain ⟨columns₂, hmiddle, -⟩ :=
    (movedTo_of_newTables hmade harranged hrenewed (.refl _)).rows _ _ _ _ hrow hplace
  have hsame := signature_of_newTables hmade harranged hrenewed hrow hplace hmiddle
    ⟨site, hsite, rfl, rfl⟩
  obtain ⟨columns', index, new, hrow', hindex, hnew, hoffset⟩ :=
    offsetFollows_of_renumberSignatures hresigned hsite hmiddle
  rw [hsame] at hindex
  refine ⟨columns', index, new, hrow', hindex, hnew, hoffset.null, fun hne => ?_⟩
  obtain ⟨blob, -, hblob, -⟩ :=
    hfit site hsite columns (Tables.mem_rows.mpr ⟨row, hrow⟩) index hindex hne
  obtain ⟨hne', form, updated, hform, hupdated, hget, -⟩ := hoffset.moved hne blob (hblobs ▸ hblob)
  have hleads := hform.congr fun site hsite =>
    holdsAt_of_newTables hmade harranged hrenewed hsite index
  exact ⟨hne', blob, updated, form, hblob, hleads, hleads.form_eq, hupdated, hget⟩

/-! ## A blob in both forms -/

/-- A type and an instance of a generic method have one blob, which is a type without tokens or an
instance at the second referenced type. -/
def withSharedSignature : Assembly :=
  { withAddedLocals with
    tables := ((Tables.empty.setRows .typeRef [[0, 0, 0], [0, 0, 0]]).setRows .typeSpec
      [[1]]).setRows .methodSpec [[0, 1]]
    blobs := ⟨[0, 4, 0x0A, 1, 0x12, 0x09]⟩
    addedBodies := [] }

theorem signaturesFit_withSharedSignature : withSharedSignature.SignaturesFit := by
  have hfit : ∀ site ∈ SignatureColumn.all,
      ∀ columns ∈ withSharedSignature.tables.rows site.table,
        columns[site.column]? = some 1 ∧ site.table ∈ [.typeSpec, .methodSpec] := by
    decide
  intro site hsite columns hmem index hindex hne
  obtain ⟨hone, htable⟩ := hfit site hsite columns hmem
  obtain rfl := Option.some.inj (hone.symm.trans hindex)
  cases hshape : site.shape with
  | type => exact ⟨[0x0A, 1, 0x12, 0x09], [], by cbv, by cbv⟩
  | signature => exact ⟨[0x0A, 1, 0x12, 0x09], [⟨0x01000002⟩], by cbv, by cbv⟩

/-- The first referenced type goes.  The instance still holds the token of the second one, which has
become the first. -/
theorem shared_signature_keeps_token :
    withSharedSignature.SignaturesFit ∧ ∃ after columns new,
      withSharedSignature.renumber (.removal .typeRef 2 [1]) [] = .ok after ∧
        after.tables.row? .methodSpec 1 = some columns ∧ columns[1]? = some new ∧
        after.blobs.get new = .ok [0x0A, 1, 0x12, 0x09] ∧
        BlobForm.signature.mapTokens (Renumbering.removal .typeRef 2 [1]).newToken
          [0x0A, 1, 0x12, 0x09] = .ok [0x0A, 1, 0x12, 0x05] := by
  refine ⟨signaturesFit_withSharedSignature, ?_⟩
  obtain ⟨after, hafter⟩ : ∃ after,
      withSharedSignature.renumber (.removal .typeRef 2 [1]) [] = .ok after := by
    apply Outcome.exists_of_isOk
    cbv
  obtain ⟨hrows, -⟩ := signatures_follow_first_form (.removal .typeRef 2 [1])
    signaturesFit_withSharedSignature rfl hafter
  obtain ⟨columns', index, new, hrow', hindex, hnew, -, hmoved⟩ :=
    hrows ⟨.methodSpec, 1, .signature⟩ (by decide) 1 1 [0, 1] rfl rfl
  obtain rfl : 1 = index := Option.some.inj hindex
  obtain ⟨-, blob, updated, form, hblob, hform, -, hupdated, hget⟩ := hmoved (by decide)
  obtain rfl : [0x0A, 1, 0x12, 0x09] = blob := Except.ok.inj hblob
  have htype : BlobForm.type.Leads
      (Renumbering.HeldAt (.removal .typeRef 2 [1]) withSharedSignature.tables [] 1) :=
    BlobForm.leads_type rfl (by decide) (.inl ⟨1, 1, [1], rfl, rfl, rfl⟩)
  obtain rfl := htype.unique hform
  have hstays : BlobForm.type.mapTokens (Renumbering.removal .typeRef 2 [1]).newToken
      [0x0A, 1, 0x12, 0x09] = .ok [0x0A, 1, 0x12, 0x09] := by
    cbv
  obtain rfl := Except.ok.inj (hstays.symm.trans hupdated)
  exact ⟨after, columns', new, hafter, hrow', hnew, hget, by cbv⟩

end Assembly

end NativeExports
