import NativeExports.Proofs.Renumbering.SharedSignatures

/-!
# Rows that are put in

New rows are supplied in their final form, and a renumbering leaves their columns alone.  The blobs
of signatures are the exception, since signatures are renumbered without regard to whose they are.
Only types are both a table that signatures can name and one that has signatures, so only new rows
of types are affected.
-/

namespace NativeExports

theorem SignatureColumn.table_eq_typeSpec :
    ∀ site ∈ all, site.table.isSignatureTarget = true → site = ⟨.typeSpec, 0, .type⟩ := by
  decide

namespace Assembly

/-- Other rows than types have no signatures that are renumbered. -/
theorem row?_inserted_of_ne {renumbering : Renumbering} (hmade : renumbering.Made)
    {inserted : List Row} {before after : Assembly} (hne : renumbering.table ≠ .typeSpec)
    (h : before.renumber renumbering inserted = .ok after) {position count : Nat}
    {owner : Option (Table × Nat)} (hedit : renumbering.edit = .insertion position count owner)
    {n : Nat} {columns : Row} (hget : inserted[n]? = some columns) :
    after.tables.row? renumbering.table (position + n) = some columns := by
  cases htarget : renumbering.table.isSignatureTarget with
  | false => exact row?_of_renumber_inserted hmade htarget h hedit hget
  | true =>
      obtain ⟨columns', hrow', -, hsame⟩ :=
        (movedTo_of_renumber hmade h).inserted position count owner hedit n columns hget
      rw [hrow', List.ext_getElem? fun c => hsame c ?_]
      rintro ⟨site, hsite, htable, -⟩
      have hsite := SignatureColumn.table_eq_typeSpec site hsite (htable ▸ htarget)
      exact hne (by rw [← htable, hsite])

theorem grown_of_renumber {renumbering : Renumbering} (hmade : renumbering.Made)
    {inserted : List Row} {before after : Assembly}
    (h : before.renumber renumbering inserted = .ok after) : Grown before.blobs after.blobs := by
  cases htarget : renumbering.table.isSignatureTarget with
  | false =>
      rw [(signatures_of_renumber hmade htarget h).1]
      exact .refl _
  | true =>
      obtain ⟨arranged, middle, -, -, hblobs, hresigned⟩ := renumberSignatures_of_renumber htarget h
      rw [← hblobs]
      exact grown_of_renumberSignatures hresigned

/-- The rows that are put in have the columns supplied, and their signatures are the old ones.  A
new type is different: its blob is renumbered as if the row had been there before. -/
theorem inserted_rows_stay {table : Table} {oldCount position count : Nat}
    {owner : Option (Table × Nat)} (hposition : 1 ≤ position ∧ position ≤ oldCount + 1)
    {inserted : List Row} {before after : Assembly}
    (h : before.renumber (.insertion table oldCount position count owner) inserted = .ok after) :
    inserted.length = count ∧
      (∀ index blob, before.blobs.get index = .ok blob → after.blobs.get index = .ok blob) ∧
      (table ≠ .typeSpec → ∀ n columns, inserted[n]? = some columns →
        after.tables.row? table (position + n) = some columns) ∧
      (table = .typeSpec → ∀ n columns, inserted[n]? = some columns →
        ∃ columns' index new, after.tables.row? table (position + n) = some columns' ∧
          columns'.length = columns.length ∧ (∀ c, c ≠ 0 → columns'[c]? = columns[c]?) ∧
          columns[0]? = some index ∧ columns'[0]? = some new ∧
          OffsetFollows (.insertion table oldCount position count owner)
            (Renumbering.HeldAt (.insertion table oldCount position count owner) before.tables
              inserted index) before.blobs after.blobs index new) := by
  have hmade : (Renumbering.insertion table oldCount position count owner).Made :=
    .insertion _ _ _ _ _ (.inr hposition)
  have hmoved := movedTo_of_renumber hmade h
  refine ⟨hmoved.fits.2, fun index blob => (grown_of_renumber hmade h).get,
    fun hne n columns hget => row?_inserted_of_ne hmade hne h rfl hget, ?_⟩
  rintro rfl n columns hget
  obtain ⟨arranged, middle, harranged, hrenewed, hblobs, hresigned⟩ :=
    renumberSignatures_of_renumber rfl h
  have hmiddle := inserted_of_newTables hmade harranged hrenewed rfl hget
  have htype : (⟨.typeSpec, 0, .type⟩ : SignatureColumn) ∈ SignatureColumn.all := by decide
  obtain ⟨columns', index, new, hrow', hindex, hnew, hoffset⟩ :=
    offsetFollows_of_renumberSignatures hresigned htype hmiddle
  obtain ⟨columns₂, hrow₂, hlength, hsame⟩ :=
    hmoved.inserted position count owner rfl n columns hget
  obtain rfl := Option.some.inj (hrow'.symm.trans hrow₂)
  refine ⟨columns', index, new, hrow', hlength, fun c hc => hsame c ?_, hindex, hnew, hoffset.null,
    fun hne blob hblob => ?_⟩
  · rintro ⟨site, hsite, htable, rfl⟩
    obtain rfl := SignatureColumn.table_eq_typeSpec site hsite (by rw [htable]; rfl)
    exact hc rfl
  · obtain ⟨hne', form, updated, hform, hmapped⟩ := hoffset.moved hne blob (hblobs ▸ hblob)
    exact ⟨hne', form, updated, hform.congr fun site hsite =>
      holdsAt_of_newTables hmade harranged hrenewed hsite index, hmapped⟩

/-! ## A new type that names a type -/

/-- A type, and the blob of an array of it for when it is the second one. -/
def withTypeAndArray : Assembly :=
  { withAddedLocals with
    tables := Tables.empty.setRows .typeSpec [[1]]
    blobs := ⟨[0, 2, 0x1D, 0x08, 3, 0x1D, 0x12, 0x0A]⟩
    addedBodies := [] }

/-- The array is put in front of the type.  Its signature names the second type before and the third
one, which does not exist, afterwards. -/
theorem inserted_type_is_renumbered :
    ∃ after new, withTypeAndArray.renumber (.insertion .typeSpec 1 1 1 none) [[4]] = .ok after ∧
      withTypeAndArray.blobs.get 4 = .ok [0x1D, 0x12, 0x0A] ∧
      after.tables.row? .typeSpec 1 = some [new] ∧ new ≠ 4 ∧
      after.blobs.get new = .ok [0x1D, 0x12, 0x0E] := by
  obtain ⟨after, hafter⟩ : ∃ after,
      withTypeAndArray.renumber (.insertion .typeSpec 1 1 1 none) [[4]] = .ok after := by
    apply Outcome.exists_of_isOk
    cbv
  obtain ⟨-, -, -, htypes⟩ := inserted_rows_stay ⟨Nat.le_refl 1, Nat.le_succ 1⟩ hafter
  obtain ⟨columns', index, new, hrow', hlength, -, hindex, hnew, hoffset⟩ := htypes rfl 0 [4] rfl
  obtain rfl : 4 = index := Option.some.inj hindex
  have hblob : withTypeAndArray.blobs.get 4 = .ok [0x1D, 0x12, 0x0A] := rfl
  obtain ⟨-, form, updated, hform, hupdated, hget, hsame⟩ := hoffset.moved (by decide) _ hblob
  have htype : BlobForm.type.Leads (Renumbering.HeldAt (.insertion .typeSpec 1 1 1 none)
      withTypeAndArray.tables [[4]] 4) :=
    BlobForm.leads_type rfl (by decide) (.inr ⟨rfl, [4], .head _, rfl⟩)
  obtain rfl := htype.unique hform
  have hmapped : BlobForm.type.mapTokens (Renumbering.insertion .typeSpec 1 1 1 none).newToken
      [0x1D, 0x12, 0x0A] = .ok [0x1D, 0x12, 0x0E] := by
    cbv
  obtain rfl := Except.ok.inj (hmapped.symm.trans hupdated)
  obtain ⟨value, rfl⟩ := List.length_eq_one_iff.mp hlength
  obtain rfl := Option.some.inj hnew
  exact ⟨after, value, hafter, hblob, hrow', fun heq => absurd (hsame.mp heq) (by decide), hget⟩

end Assembly

end NativeExports
