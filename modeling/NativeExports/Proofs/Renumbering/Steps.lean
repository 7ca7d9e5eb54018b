import NativeExports.Proofs.Renumbering.AddedBodies
import NativeExports.Proofs.Renumbering.Bodies
import NativeExports.Proofs.Renumbering.Rows

/-!
# Renumbering an assembly, step by step

A renumbering that succeeds has succeeded at each of its steps: rows, entry point, keys of the added
bodies, code and signatures.  This module puts together what the steps do.
-/

namespace NativeExports.Assembly

/-- The assembly once its tables, its entry point and the rows of its added bodies are
renumbered. -/
def withTables (assembly : Assembly) (tables : Tables) (entryPoint : Token)
    (addedBodies : List (Nat × Bytes)) : Assembly :=
  { assembly with tables, addedBodies, cli := { assembly.cli with entryPoint := entryPoint.value } }

/-- The new entry point, which may name no row. -/
def newEntryPoint (renumbering : Renumbering) (assembly : Assembly) : Except Error Token :=
  if assembly.entryPoint.isNull then .ok assembly.entryPoint
  else renumbering.newToken assembly.entryPoint

/-- The added bodies under the new rows of their methods. -/
def rekeyed (renumbering : Renumbering) (assembly : Assembly) :
    Except Error (List (Nat × Bytes)) :=
  if renumbering.table = .methodDef then rekeyBodies renumbering assembly.addedBodies
  else .ok assembly.addedBodies

/-- The assembly with new tokens in its code. -/
def patched (renumbering : Renumbering) (assembly : Assembly) : Except Error Assembly :=
  if renumbering.table.isCodeTarget then renumberBodies renumbering assembly else .ok assembly

/-- The assembly with new tokens in its signatures. -/
def resigned (renumbering : Renumbering) (assembly : Assembly) : Except Error Assembly :=
  if renumbering.table.isSignatureTarget then renumberSignatures renumbering assembly
  else .ok assembly

theorem renumber_eq (assembly : Assembly) (renumbering : Renumbering) (inserted : List Row) :
    assembly.renumber renumbering inserted = (do
      let arranged ← rearrange renumbering assembly.tables inserted
      let renewed ← renumbering.newTables arranged
      let entryPoint ← newEntryPoint renumbering assembly
      let addedBodies ← rekeyed renumbering assembly
      let assembly ← patched renumbering (assembly.withTables renewed entryPoint addedBodies)
      resigned renumbering assembly) := by
  unfold renumber newEntryPoint rekeyed patched resigned
  by_cases hnull : assembly.entryPoint.isNull = true <;>
    by_cases hmethod : renumbering.table = .methodDef <;>
      by_cases hcode : renumbering.table.isCodeTarget = true <;>
        simp only [hnull, hmethod, hcode, if_true, if_false] <;> rfl

theorem renumber_eq_ok {renumbering : Renumbering} {inserted : List Row} {before after : Assembly}
    (h : before.renumber renumbering inserted = .ok after) :
    ∃ arranged renewed entryPoint addedBodies middle,
      rearrange renumbering before.tables inserted = .ok arranged ∧
      renumbering.newTables arranged = .ok renewed ∧
      newEntryPoint renumbering before = .ok entryPoint ∧
      rekeyed renumbering before = .ok addedBodies ∧
      patched renumbering (before.withTables renewed entryPoint addedBodies) = .ok middle ∧
      resigned renumbering middle = .ok after := by
  rw [renumber_eq] at h
  obtain ⟨arranged, harranged, h⟩ := Outcome.bind_eq_ok.mp h
  obtain ⟨renewed, hrenewed, h⟩ := Outcome.bind_eq_ok.mp h
  obtain ⟨entryPoint, hentry, h⟩ := Outcome.bind_eq_ok.mp h
  obtain ⟨addedBodies, hadded, h⟩ := Outcome.bind_eq_ok.mp h
  obtain ⟨middle, hmiddle, h⟩ := Outcome.bind_eq_ok.mp h
  exact ⟨arranged, renewed, entryPoint, addedBodies, middle, harranged, hrenewed, hentry, hadded,
    hmiddle, h⟩

theorem resigned_eq_ok {renumbering : Renumbering} {assembly assembly' : Assembly}
    (h : resigned renumbering assembly = .ok assembly') :
    ∃ tables blobs, assembly' = { assembly with tables, blobs } ∧
      assembly.tables.ResignedFrom tables := by
  unfold resigned at h
  split at h
  · exact renumberSignatures_eq_ok h
  · obtain rfl := Except.ok.inj h
    exact ⟨_, _, rfl, .refl _⟩

/-- What becomes of an added body, under the same row. -/
def AddedFollows (renumbering : Renumbering) (added added' : Nat × Bytes) : Prop :=
  added'.1 = added.1 ∧
    if renumbering.table.isCodeTarget then AddedBodyFollows renumbering.Renames added.2 added'.2
    else added'.2 = added.2

theorem patched_eq_ok {renumbering : Renumbering} {assembly assembly' : Assembly}
    (h : patched renumbering assembly = .ok assembly') :
    ∃ image addedBodies, assembly' = { assembly with image, addedBodies } ∧
      List.Forall₂ (AddedFollows renumbering) assembly.addedBodies addedBodies := by
  unfold patched at h
  split at h
  · rename_i hcode
    obtain ⟨image, addedBodies, rfl, hadded, -⟩ := renumberBodies_eq_ok h
    refine ⟨image, addedBodies, rfl, hadded.imp fun added added' hfollows => ⟨hfollows.1, ?_⟩⟩
    rw [if_pos hcode]
    exact hfollows.2
  · rename_i hcode
    obtain rfl := Except.ok.inj h
    refine ⟨_, _, rfl, List.forall₂_same.mpr fun added _ => ⟨rfl, ?_⟩⟩
    rw [if_neg hcode]

/-- Every row of the result comes from the old rows, or was put in. -/
theorem movedTo_of_renumber {renumbering : Renumbering} (hmade : renumbering.Made)
    {inserted : List Row} {before after : Assembly}
    (h : before.renumber renumbering inserted = .ok after) :
    before.tables.MovedTo renumbering inserted after.tables := by
  obtain ⟨arranged, renewed, entryPoint, addedBodies, middle, harranged, hrenewed, -, -, hpatched,
    hresigned⟩ := renumber_eq_ok h
  obtain ⟨image, addedBodies', rfl, -⟩ := patched_eq_ok hpatched
  obtain ⟨tables, blobs, rfl, hsame⟩ := resigned_eq_ok hresigned
  exact movedTo_of_newTables hmade harranged hrenewed hsame

/-- Names, string literals and GUIDs are not renumbered. -/
theorem heaps_of_renumber {renumbering : Renumbering} {inserted : List Row}
    {before after : Assembly} (h : before.renumber renumbering inserted = .ok after) :
    after.strings = before.strings ∧ after.userStrings = before.userStrings ∧
      after.guids = before.guids := by
  obtain ⟨arranged, renewed, entryPoint, addedBodies, middle, -, -, -, -, hpatched, hresigned⟩ :=
    renumber_eq_ok h
  obtain ⟨image, addedBodies', rfl, -⟩ := patched_eq_ok hpatched
  obtain ⟨tables, blobs, rfl, -⟩ := resigned_eq_ok hresigned
  exact ⟨rfl, rfl, rfl⟩

/-- Columns with signatures are left alone while the tables are renewed. -/
theorem signature_of_newTables {renumbering : Renumbering} (hmade : renumbering.Made)
    {inserted : List Row} {tables arranged renewed : Tables}
    (harranged : rearrange renumbering tables inserted = .ok arranged)
    (hrenewed : renumbering.newTables arranged = .ok renewed) {table : Table} {row row' c : Nat}
    {columns columns' : Row} (hrow : tables.row? table row = some columns)
    (hplace : renumbering.place table row = some row')
    (hrow' : renewed.row? table row' = some columns') (hc : Tables.IsSignatureColumn table c) :
    columns'[c]? = columns[c]? := by
  obtain ⟨harrow, hnot⟩ := row?_of_rearrange hmade harranged hrow hplace
  obtain ⟨columns'', hget, hnew⟩ := row?_of_newTables hrenewed harrow
  obtain rfl := Option.some.inj (hget.symm.trans hrow')
  rw [Renumbering.newRowOf, if_neg hnot] at hnew
  obtain ⟨hlength, hcolumns⟩ := Renumbering.renews_of_newColumns hnew
  obtain ⟨site, hsite, rfl, rfl⟩ := hc
  rcases hvalue : columns[site.column]? with _ | value
  · rw [List.getElem?_eq_none_iff] at hvalue ⊢
    rw [hlength]
    exact hvalue
  · obtain ⟨value', hvalue', hsame⟩ :=
      hcolumns site.column .blob value (Tables.kind_of_signatureColumn site hsite) hvalue
    rw [hvalue', Except.ok.inj hsame]

/-- Unless signatures can name rows of the table, all signatures stay. -/
theorem signatures_of_renumber {renumbering : Renumbering} (hmade : renumbering.Made)
    {inserted : List Row} {before after : Assembly}
    (hplain : renumbering.table.isSignatureTarget = false)
    (h : before.renumber renumbering inserted = .ok after) :
    after.blobs = before.blobs ∧ ∀ table row row' columns columns',
      before.tables.row? table row = some columns → renumbering.place table row = some row' →
      after.tables.row? table row' = some columns' →
        ∀ c : Nat, Tables.IsSignatureColumn table c → columns'[c]? = columns[c]? := by
  obtain ⟨arranged, renewed, entryPoint, bodies, middle, harranged, hrenewed, -, -, hpatched,
    hresigned⟩ := renumber_eq_ok h
  obtain ⟨image, bodies', rfl, -⟩ := patched_eq_ok hpatched
  unfold resigned at hresigned
  rw [if_neg (by simp [hplain])] at hresigned
  obtain rfl := Except.ok.inj hresigned
  exact ⟨rfl, fun table row row' columns columns' hrow hplace hrow' c hc =>
    signature_of_newTables hmade harranged hrenewed hrow hplace hrow' hc⟩

/-- Rows that are put in stand at their position as supplied, unless signatures are renumbered. -/
theorem row?_of_renumber_inserted {renumbering : Renumbering} (hmade : renumbering.Made)
    {inserted : List Row} {before after : Assembly}
    (hplain : renumbering.table.isSignatureTarget = false)
    (h : before.renumber renumbering inserted = .ok after) {position count : Nat}
    {owner : Option (Table × Nat)} (hedit : renumbering.edit = .insertion position count owner)
    {n : Nat} {columns : Row} (hget : inserted[n]? = some columns) :
    after.tables.row? renumbering.table (position + n) = some columns := by
  obtain ⟨arranged, renewed, entryPoint, bodies, middle, harranged, hrenewed, -, -, hpatched,
    hresigned⟩ := renumber_eq_ok h
  obtain ⟨image, bodies', rfl, -⟩ := patched_eq_ok hpatched
  unfold resigned at hresigned
  rw [if_neg (by simp [hplain])] at hresigned
  obtain rfl := Except.ok.inj hresigned
  exact inserted_of_newTables hmade harranged hrenewed hedit hget

theorem supplied_of_renumber {renumbering : Renumbering} (hmade : renumbering.Made)
    {inserted : List Row} {before after : Assembly}
    (hplain : renumbering.table.isSignatureTarget = false)
    (h : before.renumber renumbering inserted = .ok after) {row : Nat}
    (hin : renumbering.isInserted row = true) :
    ∃ columns ∈ inserted, after.tables.row? renumbering.table row = some columns := by
  obtain ⟨position, count, owner, n, columns, hedit, rfl, hget⟩ :=
    Renumbering.exists_supplied (movedTo_of_renumber hmade h).fits.2 hin
  exact ⟨columns, List.mem_of_getElem? hget,
    row?_of_renumber_inserted hmade hplain h hedit hget⟩

theorem entryPoint_of_renumber {renumbering : Renumbering} {inserted : List Row}
    {before after : Assembly} (h : before.renumber renumbering inserted = .ok after) :
    newEntryPoint renumbering before = .ok after.entryPoint := by
  obtain ⟨arranged, renewed, entryPoint, addedBodies, middle, -, -, hentry, -, hpatched,
    hresigned⟩ := renumber_eq_ok h
  obtain ⟨image, addedBodies', rfl, -⟩ := patched_eq_ok hpatched
  obtain ⟨tables, blobs, rfl, -⟩ := resigned_eq_ok hresigned
  exact hentry

theorem rekeyed_eq_ok {renumbering : Renumbering} (hlawful : renumbering.Lawful)
    {assembly : Assembly} (hascending : Ascending assembly.addedBodies)
    {bodies : List (Nat × Bytes)} (h : rekeyed renumbering assembly = .ok bodies) :
    Ascending bodies ∧
      (∀ entry ∈ assembly.addedBodies, ∃ row',
        renumbering.place .methodDef entry.1 = some row' ∧ (row', entry.2) ∈ bodies) ∧
      ∀ entry' ∈ bodies, ∃ row,
        renumbering.place .methodDef row = some entry'.1 ∧
          (row, entry'.2) ∈ assembly.addedBodies := by
  unfold rekeyed at h
  split at h
  · rename_i hmethod
    obtain ⟨hasc, htotal, hentries⟩ := rekeyBodies_eq_ok hlawful hascending h
    rw [← hmethod]
    refine ⟨hasc, fun entry hmem => ?_, fun entry' hmem => ?_⟩
    · obtain ⟨row', hrow'⟩ := htotal entry hmem
      exact ⟨row', (renumbering.place_self _).trans hrow', (hentries _).mpr ⟨entry.1, hrow', hmem⟩⟩
    · obtain ⟨row, hrow, hin⟩ := (hentries entry').mp hmem
      exact ⟨row, (renumbering.place_self _).trans hrow, hin⟩
  · rename_i hmethod
    obtain rfl := Except.ok.inj h
    have hstays := renumbering.place_of_ne (Ne.symm hmethod)
    exact ⟨hascending, fun entry hmem => ⟨entry.1, hstays _, hmem⟩,
      fun entry hmem => ⟨entry.1, hstays _, hmem⟩⟩

/-- What becomes of the added bodies: each is found under the new row of its method. -/
theorem addedBodies_of_renumber {renumbering : Renumbering} (hlawful : renumbering.Lawful)
    {inserted : List Row} {before after : Assembly} (hascending : Ascending before.addedBodies)
    (h : before.renumber renumbering inserted = .ok after) :
    Ascending after.addedBodies ∧
      (∀ entry ∈ before.addedBodies, ∃ entry' ∈ after.addedBodies,
        renumbering.place .methodDef entry.1 = some entry'.1 ∧
          AddedFollows renumbering (entry'.1, entry.2) entry') ∧
      ∀ entry' ∈ after.addedBodies, ∃ entry ∈ before.addedBodies,
        renumbering.place .methodDef entry.1 = some entry'.1 ∧
          AddedFollows renumbering (entry'.1, entry.2) entry' := by
  obtain ⟨arranged, renewed, entryPoint, bodies, middle, -, -, -, hrekeyed, hpatched, hresigned⟩ :=
    renumber_eq_ok h
  obtain ⟨image, bodies', rfl, hfollows⟩ := patched_eq_ok hpatched
  obtain ⟨tables, blobs, rfl, -⟩ := resigned_eq_ok hresigned
  change List.Forall₂ _ bodies bodies' at hfollows
  obtain ⟨hasc, hforth, hback⟩ := rekeyed_eq_ok hlawful hascending hrekeyed
  refine ⟨?_, fun entry hmem => ?_, fun entry' hmem => ?_⟩
  · refine pairwise_of_forall₂ hfollows hasc fun a _ a' _ hlt b b' hb hb' => ?_
    rw [hb.1, hb'.1]
    exact hlt
  · obtain ⟨row', hrow', hin⟩ := hforth entry hmem
    obtain ⟨entry', hmem', hentry'⟩ := Outcome.exists_of_forall₂_left hfollows hin
    obtain rfl : entry'.1 = row' := hentry'.1
    exact ⟨entry', hmem', hrow', hentry'⟩
  · obtain ⟨entry, hin, hentry⟩ := Outcome.exists_of_forall₂_right hfollows hmem
    obtain ⟨row, hrow, hin'⟩ := hback entry hin
    have hsame : entry'.1 = entry.1 := hentry.1
    refine ⟨(row, entry.2), hin', hsame ▸ hrow, ?_⟩
    rw [hsame]
    exact hentry

/-- Rows that are put in have no body in the image, and the other methods keep theirs. -/
theorem body_of_movedTo {renumbering : Renumbering} {inserted : List Row}
    {before after : Assembly} (hmoved : before.tables.MovedTo renumbering inserted after.tables)
    (hinserted : renumbering.table = .methodDef →
      ∀ columns ∈ inserted, columns.getD MethodDef.rvaColumn 0 = 0)
    {rva : Nat} (h : rva ∈ after.bodyRvas) :
    ∃ row row' columns, before.tables.row? .methodDef row = some columns ∧
      renumbering.place .methodDef row = some row' ∧ bodyRva? columns = some rva := by
  obtain ⟨columns', hmem, hrva⟩ := mem_bodyRvas.mp h
  obtain ⟨row', hrow'⟩ := Tables.mem_rows.mp hmem
  rcases hmoved.origin _ _ _ hrow' with ⟨hmethod, hin⟩ | ⟨row, columns, hrow, hplace⟩
  · obtain ⟨columns, hsupplied, columns'', hget, hsame⟩ := hmoved.of_isInserted hin
    rw [← hmethod, hrow'] at hget
    obtain rfl := Option.some.inj hget
    rw [← hmethod] at hsame
    have hzero := hinserted hmethod.symm columns hsupplied
    rw [bodyRva?_congr (hsame.2 _ (by decide)) (hsame.2 _ (by decide))] at hrva
    rw [List.getD_eq_getElem?_getD] at hzero
    simp [bodyRva?, hzero] at hrva
  · obtain ⟨columns'', hget, hfollows⟩ := hmoved.rows _ _ _ _ hrow hplace
    rw [hrow'] at hget
    obtain rfl := Option.some.inj hget
    refine ⟨row, row', columns, hrow, hplace, ?_⟩
    rw [← hrva]
    exact (bodyRva?_congr (hfollows.getElem?_eq rfl (by decide) fun _ => rfl)
      (hfollows.getElem?_eq rfl (by decide) fun _ => rfl)).symm

theorem bodyRvas_of_movedTo {renumbering : Renumbering} {inserted : List Row}
    {before after : Assembly} (hmoved : before.tables.MovedTo renumbering inserted after.tables)
    (hinserted : renumbering.table = .methodDef →
      ∀ columns ∈ inserted, columns.getD MethodDef.rvaColumn 0 = 0)
    {rva : Nat} (h : rva ∈ after.bodyRvas) : rva ∈ before.bodyRvas := by
  obtain ⟨row, row', columns, hrow, -, hrva⟩ := body_of_movedTo hmoved hinserted h
  exact mem_bodyRvas.mpr ⟨columns, Tables.mem_rows.mpr ⟨row, hrow⟩, hrva⟩

theorem BodiesFit.of_subset {assembly assembly' : Assembly} (h : assembly.BodiesFit)
    (himage : assembly'.image = assembly.image)
    (hsubset : ∀ rva ∈ assembly'.bodyRvas, rva ∈ assembly.bodyRvas) : assembly'.BodiesFit := by
  refine ⟨fun rva hmem => ?_, fun rva hmem rva' hmem' => ?_⟩
  · rw [himage]
    exact h.found rva (hsubset rva hmem)
  · rw [himage]
    exact h.apart rva (hsubset rva hmem) rva' (hsubset rva' hmem')

/-- Signatures aside, the rows of methods are those of the renewed tables. -/
theorem bodyRvas_of_resignedFrom {assembly : Assembly} (assembly' : Assembly)
    (h : assembly.tables.ResignedFrom assembly'.tables) {rva : Nat}
    (hrva : rva ∈ assembly'.bodyRvas) : rva ∈ assembly.bodyRvas := by
  obtain ⟨columns', hmem, hbody⟩ := mem_bodyRvas.mp hrva
  obtain ⟨row, hrow'⟩ := Tables.mem_rows.mp hmem
  obtain ⟨columns, hrow⟩ : ∃ columns, assembly.tables.row? .methodDef row = some columns := by
    rw [Tables.exists_row?, ← (h .methodDef).1, ← Tables.exists_row?]
    exact ⟨columns', hrow'⟩
  obtain ⟨columns'', hget, hsame⟩ := (h .methodDef).2 _ _ hrow
  rw [hrow'] at hget
  obtain rfl := Option.some.inj hget
  refine mem_bodyRvas.mpr ⟨columns, Tables.mem_rows.mpr ⟨row, hrow⟩, ?_⟩
  rw [← hbody]
  exact (bodyRva?_congr (hsame.2 _ (by decide)) (hsame.2 _ (by decide))).symm

/-- The image after a renumbering.  The bodies of methods that stay are found where they were; they
have new tokens if code can name rows of the table. -/
theorem image_of_renumber {renumbering : Renumbering} (hmade : renumbering.Made)
    {inserted : List Row} {before after : Assembly} (hfit : before.BodiesFit)
    (hinserted : renumbering.table = .methodDef →
      ∀ columns ∈ inserted, columns.getD MethodDef.rvaColumn 0 = 0)
    (h : before.renumber renumbering inserted = .ok after) :
    after.image = { before.image with data := after.image.data } ∧
      after.image.data.length = before.image.data.length ∧
      (renumbering.table.isCodeTarget = true → ∀ rva ∈ after.bodyRvas, ∀ offset,
        before.image.offsetOf rva = .ok offset →
          BodyFollows renumbering.Renames before.image after.image offset) ∧
      (renumbering.table.isCodeTarget = false → after.image = before.image) := by
  obtain ⟨arranged, renewed, entryPoint, bodies, middle, harranged, hrenewed, -, -, hpatched,
    hresigned⟩ := renumber_eq_ok h
  obtain ⟨tables, blobs, rfl, hsame⟩ := resigned_eq_ok hresigned
  have hmoved : before.tables.MovedTo renumbering inserted
      (before.withTables renewed entryPoint bodies).tables :=
    movedTo_of_newTables hmade harranged hrenewed (.refl _)
  have hfit' : (before.withTables renewed entryPoint bodies).BodiesFit :=
    hfit.of_subset rfl fun rva => bodyRvas_of_movedTo hmoved hinserted
  unfold patched at hpatched
  split at hpatched
  · rename_i hcode
    obtain ⟨himage, hlength, hfollows⟩ := bodiesFollow_of_renumberBodies hfit' hpatched
    obtain ⟨image, addedBodies, rfl, -⟩ := renumberBodies_eq_ok hpatched
    refine ⟨himage, hlength, fun _ rva hmem => hfollows rva ?_, fun hno => ?_⟩
    · exact bodyRvas_of_resignedFrom { before with tables } hsame hmem
    · rw [hcode] at hno
      cases hno
  · rename_i hcode
    obtain rfl := Except.ok.inj hpatched
    exact ⟨rfl, rfl, fun hyes => absurd hyes hcode, fun _ => rfl⟩

end NativeExports.Assembly
