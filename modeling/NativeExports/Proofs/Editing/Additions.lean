import NativeExports.Proofs.CodedIndices
import NativeExports.Proofs.Editing.Consistent

/-!
# Adding references and types

Names and blobs are added to heaps that only become longer, and rows behind the last one of a table.
So an addition always succeeds if what it refers to exists, and leaves a consistent assembly as long
as tokens can tell the rows apart.
-/

namespace NativeExports

theorem Outcome.exists_findM? {ε α : Type} {p : α → Except ε Bool} {as : List α}
    (h : ∀ a ∈ as, ∃ found, p a = .ok found) : ∃ result, as.findM? p = .ok result := by
  induction as with
  | nil => exact ⟨none, rfl⟩
  | cons first rest ih =>
      obtain ⟨found, hfound⟩ := h first (.head _)
      obtain ⟨result, hresult⟩ := ih fun a hmem => h a (.tail _ hmem)
      cases found with
      | true => exact ⟨some first, bind_eq_ok.mpr ⟨true, hfound, rfl⟩⟩
      | false => exact ⟨result, bind_eq_ok.mpr ⟨false, hfound, hresult⟩⟩

namespace Assembly

/-- A row that a kind of coded index can name. -/
def Codable (assembly : Assembly) (kind : CodedKind) (target : Table × Nat) : Prop :=
  kind.contains target.1 = true ∧ target.2 ≤ assembly.tables.count target.1

/-- A signature that can be stored, whose tokens lead somewhere. -/
structure SignatureFits (assembly : Assembly) (signature : Bytes) : Prop where
  short : signature.length < Compressed.limit
  reads : ∃ tokens, BlobForm.signature.tokens signature = .ok tokens ∧
    ∀ token ∈ tokens, assembly.Reaches token

section

variable {before after : Assembly}

theorem Codable.exists_encode {kind : CodedKind} {target : Table × Nat}
    (h : before.Codable kind target) : ∃ stored, kind.encode target.1 target.2 = .ok stored ∧
      before.tables.InRange (.coded kind) stored := by
  obtain ⟨stored, hstored⟩ := CodedKind.exists_encode h.1 target.2
  exact ⟨stored, hstored, target.1, _, CodedKind.decode_encode hstored,
    Nat.le_trans (Nat.mod_le _ _) h.2⟩

theorem rowFits_of_zip {table : Table} {columns : Row}
    (hlength : columns.length = table.columns.length)
    (hentries : ∀ entry ∈ table.columns.zip columns,
      before.tables.InRange entry.1 entry.2 ∧ before.Resolves entry.1 entry.2)
    (hsignature : ∀ site ∈ SignatureColumn.all, site.table = table → ∀ index,
      columns[site.column]? = some index → index ≠ 0 → before.ReadsAs site.shape index) :
    before.RowFits table columns := by
  have hentry : ∀ (c : Nat) kind value, table.columns[c]? = some kind → columns[c]? = some value →
      before.tables.InRange kind value ∧ before.Resolves kind value :=
    fun c kind value hkind hvalue => hentries (kind, value)
      (List.mem_of_getElem? (List.getElem?_zip_eq_some.mpr ⟨hkind, hvalue⟩))
  exact ⟨hlength, fun c kind value hkind hvalue => (hentry c kind value hkind hvalue).1,
    fun c kind value hkind hvalue => (hentry c kind value hkind hvalue).2, hsignature⟩

/-- The value in a column of names leads to a name. -/
theorem Consistent.exists_columnString (h : before.Consistent) {table : Table} {row c : Nat}
    (hrow : 1 ≤ row ∧ row ≤ before.tables.count table) (hkind : table.columns[c]? = some .string) :
    ∃ name, before.columnString table row c = .ok name := by
  obtain ⟨columns, hcolumns⟩ := Tables.exists_row?.mpr hrow
  obtain ⟨value, hget, hvalue, -⟩ := h.exists_value hcolumns hkind
  obtain ⟨name, hname⟩ := (h.rows table columns (Tables.mem_rows.mpr ⟨row, hcolumns⟩)).resolves c
    .string value hkind hget
  exact ⟨name, Outcome.bind_eq_ok.mpr ⟨value, hvalue, hname⟩⟩

theorem Consistent.exists_columnBlob (h : before.Consistent) {table : Table} {row c : Nat}
    (hrow : 1 ≤ row ∧ row ≤ before.tables.count table) (hkind : table.columns[c]? = some .blob) :
    ∃ blob, before.columnBlob table row c = .ok blob := by
  obtain ⟨columns, hcolumns⟩ := Tables.exists_row?.mpr hrow
  obtain ⟨value, hget, hvalue, -⟩ := h.exists_value hcolumns hkind
  obtain ⟨blob, hblob⟩ := (h.rows table columns (Tables.mem_rows.mpr ⟨row, hcolumns⟩)).resolves c
    .blob value hkind hget
  exact ⟨blob, Outcome.bind_eq_ok.mpr ⟨value, hvalue, hblob⟩⟩

/-- No row holds a signature behind the end of the heap. -/
theorem Consistent.not_holdsSignature (h : before.Consistent) {form : BlobForm} {index : Nat}
    (hne : index ≠ 0) (hend : before.blobs.data.length ≤ index) :
    ¬before.tables.HoldsSignature form index := by
  rintro ⟨site, hsite, -, columns, hmem, hindex⟩
  obtain ⟨blob, -, hget, -⟩ :=
    (h.rows site.table columns hmem).signature site hsite rfl index hindex hne
  exact absurd (BlobHeap.lt_of_get hget) (Nat.not_lt.mpr hend)

/-! ## The elementary additions -/

theorem exists_internString (h : before.Consistent) (name : String) :
    ∃ index after, internString name before = .ok (index, after) ∧ after.Refines before ∧
      after.tables = before.tables ∧ after.blobs = before.blobs ∧ after.Resolves .string index := by
  have hgrown := StringHeap.intern_prefix before.strings name
  refine ⟨_, _, rfl, ⟨?_, ?_, fun _ => .inl⟩, rfl, rfl, ?_⟩
  · exact h.of_heaps hgrown (List.prefix_refl _)
  · exact ⟨fun _ => Nat.le_refl _, hgrown, List.prefix_refl _, rfl, rfl⟩
  · exact StringHeap.exists_get_intern h.leads.1 name

/-- A blob that is not too long can be added, and is found where it was added. -/
theorem appendBlob_of_lead (hlead : before.blobs.data.head? = some 0) {blob : Bytes}
    (hshort : blob.length < Compressed.limit) :
    ∃ index blobs, appendBlob blob before = .ok (index, { before with blobs }) ∧
      before.blobs.data <+: blobs.data ∧ blobs.get index = .ok blob ∧
        (index ≠ 0 → before.blobs.data.length ≤ index) := by
  obtain ⟨index, more, happend⟩ : ∃ index more,
      before.blobs.append blob = .ok (index, ⟨before.blobs.data ++ more⟩) :=
    BlobHeap.exists_append hshort
  obtain ⟨hget, hindex⟩ := BlobHeap.get_of_append hlead happend
  refine ⟨index, _, Outcome.bind_eq_ok.mpr ⟨_, happend, rfl⟩, List.prefix_append _ _, hget, ?_⟩
  intro hne
  exact (hindex.resolve_left hne).ge

theorem exists_appendBlob (h : before.Consistent) {blob : Bytes}
    (hshort : blob.length < Compressed.limit) :
    ∃ index after, appendBlob blob before = .ok (index, after) ∧ after.Refines before ∧
      after.tables = before.tables ∧ after.blobs.get index = .ok blob ∧
        (index ≠ 0 → before.blobs.data.length ≤ index) := by
  obtain ⟨index, blobs, happend, hgrown, hget, hend⟩ := appendBlob_of_lead h.leads.2 hshort
  refine ⟨index, _, happend, ⟨?_, ?_, fun _ => .inl⟩, rfl, hget, hend⟩
  · exact h.of_heaps (List.prefix_refl _) hgrown
  · exact ⟨fun _ => Nat.le_refl _, List.prefix_refl _, hgrown, rfl, rfl⟩

/-- A row that fits can be added behind the last one of a table. -/
theorem refines_withRow (h : before.Consistent) {table : Table} {columns : Row}
    (hmethod : table ≠ .methodDef)
    (hcount : (before.withRow table columns).tables.count table < Token.rowLimit)
    (hfits : before.RowFits table columns) (hfresh : before.tables.Fresh table columns)
    (hruns : ∀ (c : Nat) target value, table.columns[c]? = some (.list target) →
      columns[c]? = some value → value = before.tables.count target + 1) :
    (before.withRow table columns).Refines before := by
  refine ⟨h.withRow hmethod ?_ hfits hfresh hruns, covers_withRow, fun _ => .inl⟩
  rw [withRow, Tables.count, Tables.rows_push, if_pos rfl, List.length_append] at hcount
  exact hcount

theorem not_list_of_all {kinds : List ColumnKind} (hnone : ∀ target, ColumnKind.list target ∉ kinds)
    {columns : Row} {count : Table → Nat} (c : Nat) (target : Table) (value : Nat)
    (hkind : kinds[c]? = some (.list target)) (_ : columns[c]? = some value) :
    value = count target + 1 :=
  absurd (List.mem_of_getElem? hkind) (hnone target)

/-! ## References and types -/

/-- A reference to a type can be added if its scope exists. -/
theorem exists_appendTypeRef (h : before.Consistent) {scope : Table × Nat} (space name : String)
    (hscope : before.Codable .resolutionScope scope) :
    ∃ row after, appendTypeRef scope space name before = .ok (row, after) ∧
      ((∀ table, after.tables.count table < Token.rowLimit) → after.Refines before) := by
  obtain ⟨stored, hstored, hin⟩ := hscope.exists_encode
  obtain ⟨index, named, hnamed, hrefines, htables, -, hname⟩ := exists_internString h name
  obtain ⟨index', spaced, hspaced, hrefines', htables', -, hspace⟩ :=
    exists_internString hrefines.consistent space
  refine ⟨_, _, Edit.bind_eq_ok.mpr ⟨stored, before, Edit.lift_eq_ok.mpr ⟨hstored, rfl⟩,
    Edit.bind_eq_ok.mpr ⟨index, named, hnamed, Edit.bind_eq_ok.mpr ⟨index', spaced, hspaced, rfl⟩⟩⟩,
    fun hcounts => (hrefines.trans hrefines').trans ?_⟩
  have hnone : ∀ site ∈ SignatureColumn.all, site.table ≠ .typeRef := by decide
  refine refines_withRow hrefines'.consistent (by decide) (hcounts .typeRef) ?_ ?_
    (not_list_of_all (by decide))
  · refine rowFits_of_zip rfl ?_ fun site hsite htable => absurd htable (hnone site hsite)
    intro entry hmem
    simp only [Table.columns, List.zip_cons_cons, List.zip_nil_left, List.mem_cons,
      List.not_mem_nil, or_false] at hmem
    rcases hmem with rfl | rfl | rfl
    · exact ⟨hin.mono (hrefines.covers.trans hrefines'.covers).counts, trivial⟩
    · exact ⟨trivial, hrefines'.covers.resolves hname⟩
    · exact ⟨trivial, hspace⟩
  · exact fun site hsite htable => absurd htable (hnone site hsite)

/-- Every row can be compared with a reference that is looked for: first its coded column, and then
the rest of it. -/
theorem exists_comparison (h : before.Consistent) {table : Table} {row c : Nat} {coded : CodedKind}
    (hrange : 1 ≤ row ∧ row ≤ before.tables.count table)
    (hkind : table.columns[c]? = some (.coded coded)) (stored : Nat) {rest : Except Error Bool}
    (hrest : ∃ found, rest = .ok found) :
    ∃ found, (do
      if (← before.tables.value table row c) ≠ stored then return false
      rest) = .ok found := by
  obtain ⟨columns, hrow⟩ := Tables.exists_row?.mpr hrange
  obtain ⟨value, -, hvalue, -⟩ := h.exists_value hrow hkind
  rw [hvalue, Outcome.ok_bind]
  split
  · exact ⟨false, rfl⟩
  · exact hrest

theorem exists_isTypeRef (h : before.Consistent) (stored : Nat) (space name : String) {row : Nat}
    (hmem : row ∈ before.rowNumbers .typeRef) :
    ∃ found, before.isTypeRef stored space name row = .ok found := by
  have hrange := Tables.exists_row?.mp (mem_rowNumbers.mp hmem)
  obtain ⟨own, hown⟩ := h.exists_columnString (c := TypeRef.nameColumn) hrange rfl
  obtain ⟨outer, houter⟩ := h.exists_columnString (c := TypeRef.namespaceColumn) hrange rfl
  refine exists_comparison h hrange rfl stored ?_
  unfold nameOfTypeRef qualifiedName
  rw [hown, houter]
  exact ⟨_, rfl⟩

/-- A reference to a type is found or added if its scope exists. -/
theorem exists_typeRefFor (h : before.Consistent) {scope : Table × Nat} (space name : String)
    (hscope : before.Codable .resolutionScope scope) :
    ∃ row after, typeRefFor scope space name before = .ok (row, after) ∧
      ((∀ table, after.tables.count table < Token.rowLimit) → after.Refines before) := by
  obtain ⟨stored, hstored, -⟩ := hscope.exists_encode
  obtain ⟨result, hresult⟩ := Outcome.exists_findM? fun row hmem =>
    exists_isTypeRef h stored space name hmem
  cases result with
  | some row =>
      exact ⟨row, before, Edit.bind_eq_ok.mpr ⟨stored, before, Edit.lift_eq_ok.mpr ⟨hstored, rfl⟩,
        Edit.bind_eq_ok.mpr ⟨before, before, rfl, Edit.bind_eq_ok.mpr
          ⟨some row, before, Edit.lift_eq_ok.mpr ⟨hresult, rfl⟩, rfl⟩⟩⟩, fun _ => .refl h⟩
  | none =>
      obtain ⟨row, after, hafter, hrefines⟩ := exists_appendTypeRef h space name hscope
      exact ⟨row, after, Edit.bind_eq_ok.mpr ⟨stored, before, Edit.lift_eq_ok.mpr ⟨hstored, rfl⟩,
        Edit.bind_eq_ok.mpr ⟨before, before, rfl, Edit.bind_eq_ok.mpr
          ⟨none, before, Edit.lift_eq_ok.mpr ⟨hresult, rfl⟩, hafter⟩⟩⟩, hrefines⟩

/-- A signature that was added can be read. -/
theorem SignatureFits.readsAs {signature : Bytes} (h : before.SignatureFits signature)
    (hcovers : after.Covers before) {index : Nat} (hget : after.blobs.get index = .ok signature) :
    after.ReadsAs .signature index := by
  obtain ⟨tokens, htokens, hall⟩ := h.reads
  exact ⟨signature, tokens, hget, htokens, fun token hmem => hcovers.reaches (hall token hmem)⟩

theorem exists_isMemberRef (h : before.Consistent) (stored : Nat) (name : String)
    (signature : Bytes) {row : Nat} (hmem : row ∈ before.rowNumbers .memberRef) :
    ∃ found, before.isMemberRef stored name signature row = .ok found := by
  have hrange := Tables.exists_row?.mp (mem_rowNumbers.mp hmem)
  obtain ⟨own, hown⟩ := h.exists_columnString (c := MemberRef.nameColumn) hrange rfl
  obtain ⟨blob, hblob⟩ := h.exists_columnBlob (c := MemberRef.signatureColumn) hrange rfl
  refine exists_comparison h hrange rfl stored ?_
  rw [hown, hblob, Outcome.ok_bind]
  split
  · exact ⟨false, rfl⟩
  · exact ⟨_, rfl⟩

/-- The row of a reference to a member can be added if its name and its signature were added. -/
theorem refines_memberRef (h : before.Consistent) {stored index blob : Nat}
    (hparent : before.tables.InRange (.coded .memberRefParent) stored)
    (hname : before.Resolves .string index) (hreads : before.ReadsAs .signature blob)
    (hfresh : blob ≠ 0 → ∀ form, ¬before.tables.HoldsSignature form blob)
    (hcount : (before.withRow .memberRef [stored, index, blob]).tables.count .memberRef <
      Token.rowLimit) :
    (before.withRow .memberRef [stored, index, blob]).Refines before := by
  have hsites : ∀ site ∈ SignatureColumn.all, site.table = .memberRef →
      site = ⟨.memberRef, MemberRef.signatureColumn, .signature⟩ :=
    SignatureColumn.eq_of_table ⟨.memberRef, MemberRef.signatureColumn, .signature⟩ (by decide)
  refine refines_withRow h (by decide) hcount (rowFits_of_zip rfl ?_ ?_) ?_
    (not_list_of_all (by decide))
  · intro entry hmem
    simp only [Table.columns, List.zip_cons_cons, List.zip_nil_left, List.mem_cons,
      List.not_mem_nil, or_false] at hmem
    rcases hmem with rfl | rfl | rfl
    · exact ⟨hparent, trivial⟩
    · exact ⟨trivial, hname⟩
    · obtain ⟨signature, -, hget, -⟩ := hreads
      exact ⟨trivial, signature, hget⟩
  · intro site hsite htable found hfound _
    obtain rfl := hsites site hsite htable
    obtain rfl := Option.some.inj hfound
    exact hreads
  · intro site hsite htable found hfound hne form _
    obtain rfl := hsites site hsite htable
    obtain rfl := Option.some.inj hfound
    exact hfresh hne form

/-- A reference to a member is found or added if its parent exists. -/
theorem exists_memberRefFor (h : before.Consistent) {parent : Table × Nat} (name : String)
    {signature : Bytes} (hparent : before.Codable .memberRefParent parent)
    (hsignature : before.SignatureFits signature) :
    ∃ row after, memberRefFor parent name signature before = .ok (row, after) ∧
      ((∀ table, after.tables.count table < Token.rowLimit) → after.Refines before) := by
  obtain ⟨stored, hstored, hin⟩ := hparent.exists_encode
  obtain ⟨result, hresult⟩ := Outcome.exists_findM? fun row hmem =>
    exists_isMemberRef h stored name signature hmem
  cases result with
  | some row =>
      exact ⟨row, before, Edit.bind_eq_ok.mpr ⟨stored, before, Edit.lift_eq_ok.mpr ⟨hstored, rfl⟩,
        Edit.bind_eq_ok.mpr ⟨before, before, rfl, Edit.bind_eq_ok.mpr
          ⟨some row, before, Edit.lift_eq_ok.mpr ⟨hresult, rfl⟩, rfl⟩⟩⟩, fun _ => .refl h⟩
  | none =>
      obtain ⟨index, named, hnamed, hrefines, htables, hblobs, hname⟩ := exists_internString h name
      obtain ⟨blob, signed, hsigned, hrefines', htables', hget, hend⟩ :=
        exists_appendBlob hrefines.consistent hsignature.short
      have hcovers := hrefines.covers.trans hrefines'.covers
      refine ⟨_, _, Edit.bind_eq_ok.mpr ⟨stored, before, Edit.lift_eq_ok.mpr ⟨hstored, rfl⟩,
        Edit.bind_eq_ok.mpr ⟨before, before, rfl, Edit.bind_eq_ok.mpr
          ⟨none, before, Edit.lift_eq_ok.mpr ⟨hresult, rfl⟩,
            Edit.bind_eq_ok.mpr ⟨index, named, hnamed,
            Edit.bind_eq_ok.mpr ⟨blob, signed, hsigned, rfl⟩⟩⟩⟩⟩,
        fun hcounts => (hrefines.trans hrefines').trans ?_⟩
      refine refines_memberRef hrefines'.consistent (hin.mono hcovers.counts)
        (hrefines'.covers.resolves hname) (hsignature.readsAs hcovers hget) ?_ (hcounts .memberRef)
      rw [htables']
      exact fun hne form => hrefines.consistent.not_holdsSignature hne (hend hne)

/-- A type can be added if its base exists. -/
theorem exists_appendTypeDef (h : before.Consistent) (flags : Nat) (space name : String)
    {base : Table × Nat} (hbase : before.Codable .typeDefOrRef base) :
    ∃ row after, appendTypeDef flags space name base before = .ok (row, after) ∧
      ((∀ table, after.tables.count table < Token.rowLimit) → after.Refines before) := by
  obtain ⟨stored, hstored, hin⟩ := hbase.exists_encode
  obtain ⟨index, named, hnamed, hrefines, htables, -, hname⟩ := exists_internString h name
  obtain ⟨index', spaced, hspaced, hrefines', htables', -, hspace⟩ :=
    exists_internString hrefines.consistent space
  refine ⟨_, _, Edit.bind_eq_ok.mpr ⟨stored, before, Edit.lift_eq_ok.mpr ⟨hstored, rfl⟩,
    Edit.bind_eq_ok.mpr ⟨index, named, hnamed, Edit.bind_eq_ok.mpr ⟨index', spaced, hspaced,
      Edit.bind_eq_ok.mpr ⟨spaced, spaced, rfl, rfl⟩⟩⟩⟩,
    fun hcounts => (hrefines.trans hrefines').trans ?_⟩
  have hnone : ∀ site ∈ SignatureColumn.all, site.table ≠ .typeDef := by decide
  refine refines_withRow hrefines'.consistent (by decide) (hcounts .typeDef) ?_ ?_ value_typeDefRow
  · refine rowFits_of_zip rfl ?_ fun site hsite htable => absurd htable (hnone site hsite)
    intro entry hmem
    simp only [Table.columns, List.zip_cons_cons, List.zip_nil_left, List.mem_cons,
      List.not_mem_nil, or_false] at hmem
    rcases hmem with rfl | rfl | rfl | rfl | rfl | rfl
    · exact ⟨trivial, trivial⟩
    · exact ⟨trivial, hrefines'.covers.resolves hname⟩
    · exact ⟨trivial, hspace⟩
    · exact ⟨hin.mono (hrefines.covers.trans hrefines'.covers).counts, trivial⟩
    · exact ⟨trivial, trivial⟩
    · exact ⟨trivial, trivial⟩
  · exact fun site hsite htable => absurd htable (hnone site hsite)

/-- The marshalling of parameters can be added if the parameters exist. -/
theorem exists_addMarshalling (h : before.Consistent) {row : Nat} {params : List ParamDraft}
    (hrows : row + params.length ≤ before.tables.count .param + 1)
    (hroom : before.tables.count .fieldMarshal + params.countP (·.marshal.isSome) < Token.rowLimit)
    (hshort : ∀ param ∈ params, ∀ type, param.marshal = some type →
      type.length < Compressed.limit) :
    ∃ after, addMarshalling row params before = .ok ((), after) ∧ after.Refines before := by
  induction params generalizing row before with
  | nil => exact ⟨before, rfl, .refl h⟩
  | cons param rest ih =>
      rw [List.length_cons] at hrows
      have hrest : ∀ param ∈ rest, ∀ type, param.marshal = some type →
          type.length < Compressed.limit := fun other hmem => hshort other (.tail _ hmem)
      cases hmarshal : param.marshal with
      | none =>
          have hnext : row + 1 + rest.length ≤ before.tables.count .param + 1 := by omega
          rw [List.countP_cons_of_neg (by simp [hmarshal])] at hroom
          obtain ⟨after, hafter, hrefines⟩ := ih h hnext hroom hrest
          refine ⟨after, ?_, hrefines⟩
          unfold addMarshalling
          rw [hmarshal]
          exact hafter
      | some type =>
          have hparam : before.Codable .hasFieldMarshal (.param, row) := ⟨rfl, by
            change row ≤ before.tables.count .param
            omega⟩
          obtain ⟨stored, hstored, hin⟩ := hparam.exists_encode
          obtain ⟨blob, marshalled, hblob, hrefines, htables, hget, -⟩ :=
            exists_appendBlob h (hshort param (.head _) type hmarshal)
          rw [List.countP_cons_of_pos (by simp [hmarshal])] at hroom
          have hcount :
              (marshalled.withRow .fieldMarshal [stored, blob]).tables.count .fieldMarshal =
              before.tables.count .fieldMarshal + 1 := by
            rw [withRow, Tables.count, Tables.rows_push, if_pos rfl, List.length_append, htables]
            rfl
          have hnone : ∀ site ∈ SignatureColumn.all, site.table ≠ .fieldMarshal := by decide
          have hpushed : (marshalled.withRow .fieldMarshal [stored, blob]).Refines marshalled := by
            refine refines_withRow hrefines.consistent (by decide) (by omega) ?_ ?_
              (not_list_of_all (by decide))
            · refine rowFits_of_zip rfl ?_ fun site hsite htable => absurd htable (hnone site hsite)
              intro entry hmem
              simp only [Table.columns, List.zip_cons_cons, List.zip_nil_left, List.mem_cons,
                List.not_mem_nil, or_false] at hmem
              rcases hmem with rfl | rfl
              · exact ⟨hin.mono hrefines.covers.counts, trivial⟩
              · exact ⟨trivial, type, hget⟩
            · exact fun site hsite htable => absurd htable (hnone site hsite)
          have hparams := (hrefines.covers.trans hpushed.covers).counts .param
          have hnext : row + 1 + rest.length ≤
              (marshalled.withRow .fieldMarshal [stored, blob]).tables.count .param + 1 := by omega
          obtain ⟨after, hafter, hrefines'⟩ := ih hpushed.consistent hnext (by omega) hrest
          refine ⟨after, ?_, (hrefines.trans hpushed).trans hrefines'⟩
          unfold addMarshalling
          rw [hmarshal]
          exact Edit.bind_eq_ok.mpr ⟨stored, before, Edit.lift_eq_ok.mpr ⟨hstored, rfl⟩,
            Edit.bind_eq_ok.mpr ⟨blob, marshalled, hblob, Edit.bind_eq_ok.mpr ⟨_, _, rfl, hafter⟩⟩⟩

end

end Assembly

end NativeExports
