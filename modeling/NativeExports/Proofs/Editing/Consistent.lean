import NativeExports.Proofs.Building
import NativeExports.Proofs.Editing.Runs
import NativeExports.Proofs.Renumbering.Removal

/-!
# Consistent assemblies

An assembly is consistent if everything that is stored in it can be read and leads somewhere: on top
of being well-formed, its runs are in order, its columns find their names, GUIDs and blobs, its
signatures can be read, the tokens of its signatures and of its code lead to rows or literals, and
bodies are kept aside only for methods without an address.

The tokens of added bodies outside their code are left out.  They are not renumbered, so they can
come to lead nowhere.
-/

namespace NativeExports

/-- A token names a row up to a number of rows, or a string literal.  It may name no row. -/
def Token.Within (count : Table → Nat) (literals : Nat) (token : Token) : Prop :=
  match token.table? with
  | some table => token.row ≤ count table
  | none => token.tableNumber = 0x70 ∧ token.row < literals

theorem Token.within_of_table {count : Table → Nat} {literals : Nat} {token : Token} {table : Table}
    (htable : token.table? = some table) :
    token.Within count literals ↔ token.row ≤ count table := by
  unfold Token.Within
  rw [htable]

theorem Token.Within.mono {count count' : Table → Nat} {literals : Nat} {token : Token}
    (h : token.Within count literals) (hle : ∀ table, count table ≤ count' table) :
    token.Within count' literals := by
  unfold Token.Within at h ⊢
  split
  · rename_i table htable
    rw [htable] at h
    exact Nat.le_trans h (hle table)
  · rename_i htable
    rw [htable] at h
    exact h

theorem Tables.InRange.mono {before after : Tables} {kind : ColumnKind} {value : Nat}
    (h : before.InRange kind value) (hle : ∀ table, before.count table ≤ after.count table) :
    after.InRange kind value := by
  cases kind with
  | index target => exact Nat.le_trans h (hle target)
  | coded coded =>
      obtain ⟨target, row, hdecode, hin⟩ := h
      exact ⟨target, row, hdecode, Nat.le_trans hin (hle target)⟩
  | _ => trivial

namespace Assembly

/-- A token leads to a row or a literal of the assembly, or names no row. -/
def Reaches (assembly : Assembly) (token : Token) : Prop :=
  token.Within assembly.tables.count assembly.userStrings.length

/-- A column that refers to a heap finds something there. -/
def Resolves (assembly : Assembly) (kind : ColumnKind) (value : Nat) : Prop :=
  match kind with
  | .string => ∃ name, assembly.strings.get value = .ok name
  | .guid => 16 * value ≤ assembly.guids.length
  | .blob => ∃ blob, assembly.blobs.get value = .ok blob
  | _ => True

/-- A blob can be read as a signature, whose tokens lead somewhere. -/
def ReadsAs (assembly : Assembly) (form : BlobForm) (index : Nat) : Prop :=
  ∃ blob tokens, assembly.blobs.get index = .ok blob ∧ form.tokens blob = .ok tokens ∧
    ∀ token ∈ tokens, assembly.Reaches token

/-- A row that a table of the assembly can have. -/
structure RowFits (assembly : Assembly) (table : Table) (columns : Row) : Prop where
  arity : columns.length = table.columns.length
  inRange : ∀ (c : Nat) kind value, table.columns[c]? = some kind → columns[c]? = some value →
    assembly.tables.InRange kind value
  resolves : ∀ (c : Nat) kind value, table.columns[c]? = some kind → columns[c]? = some value →
    assembly.Resolves kind value
  signature : ∀ site ∈ SignatureColumn.all, site.table = table → ∀ index,
    columns[site.column]? = some index → index ≠ 0 → assembly.ReadsAs site.shape index

/-- An assembly in which everything that is stored can be read and leads somewhere. -/
structure Consistent (assembly : Assembly) : Prop extends WellFormed assembly where
  /-- The rows of every table fit. -/
  rows : ∀ table, ∀ columns ∈ assembly.tables.rows table, assembly.RowFits table columns
  /-- No blob is used both as a bare type and as a signature. -/
  apart : assembly.tables.FormsApart
  runs : assembly.tables.RunsOrdered
  /-- The tokens of bodies lead somewhere. -/
  names : ∀ token, assembly.CodeNames token → assembly.Reaches token
  /-- Bodies are kept aside for methods without an address. -/
  keys : ∀ entry ∈ assembly.addedBodies,
    assembly.tables.value .methodDef entry.1 MethodDef.rvaColumn = .ok 0
  /-- The heaps of names and blobs begin with an empty entry. -/
  leads : assembly.strings.data.head? = some 0 ∧ assembly.blobs.data.head? = some 0

theorem Consistent.signaturesFit {assembly : Assembly} (h : assembly.Consistent) :
    assembly.SignaturesFit := by
  intro site hsite columns hmem index hindex hne
  obtain ⟨blob, tokens, hget, htokens, -⟩ :=
    (h.rows site.table columns hmem).signature site hsite rfl index hindex hne
  exact ⟨blob, tokens, hget, htokens⟩

/-! ## Longer heaps and tables -/

/-- One assembly has the rows and the heap entries of another one, and perhaps more. -/
structure Covers (after before : Assembly) : Prop where
  counts : ∀ table, before.tables.count table ≤ after.tables.count table
  strings : before.strings.data <+: after.strings.data
  blobs : before.blobs.data <+: after.blobs.data
  guids : after.guids = before.guids
  literals : after.userStrings = before.userStrings

section

variable {before middle after : Assembly}

theorem Covers.refl (assembly : Assembly) : assembly.Covers assembly :=
  ⟨fun _ => Nat.le_refl _, List.prefix_refl _, List.prefix_refl _, rfl, rfl⟩

theorem Covers.trans (h : middle.Covers before) (h' : after.Covers middle) :
    after.Covers before where
  counts := fun table => Nat.le_trans (h.counts table) (h'.counts table)
  strings := h.strings.trans h'.strings
  blobs := h.blobs.trans h'.blobs
  guids := h'.guids.trans h.guids
  literals := h'.literals.trans h.literals

theorem Covers.reaches (h : after.Covers before) {token : Token} (hreaches : before.Reaches token) :
    after.Reaches token := by
  unfold Reaches at hreaches ⊢
  rw [h.literals]
  exact hreaches.mono h.counts

theorem Covers.blob (h : after.Covers before) {index : Nat} {blob : Bytes}
    (hget : before.blobs.get index = .ok blob) : after.blobs.get index = .ok blob :=
  BlobHeap.get_of_prefix h.blobs hget

theorem Covers.resolves (h : after.Covers before) {kind : ColumnKind} {value : Nat}
    (hresolves : before.Resolves kind value) : after.Resolves kind value := by
  cases kind with
  | string =>
      obtain ⟨name, hname⟩ := hresolves
      exact ⟨name, StringHeap.get_of_prefix h.strings hname⟩
  | guid =>
      change 16 * value ≤ after.guids.length
      rw [h.guids]
      exact hresolves
  | blob =>
      obtain ⟨blob, hblob⟩ := hresolves
      exact ⟨blob, h.blob hblob⟩
  | _ => trivial

theorem Covers.readsAs (h : after.Covers before) {form : BlobForm} {index : Nat}
    (hreads : before.ReadsAs form index) : after.ReadsAs form index := by
  obtain ⟨blob, tokens, hget, htokens, hall⟩ := hreads
  exact ⟨blob, tokens, h.blob hget, htokens, fun token hmem => h.reaches (hall token hmem)⟩

theorem Covers.rowFits (h : after.Covers before) {table : Table} {columns : Row}
    (hfits : before.RowFits table columns) : after.RowFits table columns where
  arity := hfits.arity
  inRange := fun c kind value hkind hvalue =>
    (hfits.inRange c kind value hkind hvalue).mono h.counts
  resolves := fun c kind value hkind hvalue => h.resolves (hfits.resolves c kind value hkind hvalue)
  signature := fun site hsite htable index hindex hne =>
    h.readsAs (hfits.signature site hsite htable index hindex hne)

end

/-- One assembly is consistent and has all that another one has; the tokens of its added bodies
outside their code were there before, unless they lead somewhere. -/
structure Refines (after before : Assembly) : Prop where
  consistent : after.Consistent
  covers : after.Covers before
  outer : ∀ token, after.OuterNames token → before.OuterNames token ∨ after.Reaches token

theorem Refines.refl {assembly : Assembly} (h : assembly.Consistent) : assembly.Refines assembly :=
  ⟨h, .refl assembly, fun _ => .inl⟩

theorem Refines.trans {before middle after : Assembly} (h : middle.Refines before)
    (h' : after.Refines middle) : after.Refines before where
  consistent := h'.consistent
  covers := h.covers.trans h'.covers
  outer := by
    intro token hnames
    rcases h'.outer token hnames with hnames | hreaches
    · exact (h.outer token hnames).imp_right h'.covers.reaches
    · exact .inr hreaches

theorem head?_of_grown {data data' : Bytes} {lead : UInt8} (h : data.head? = some lead)
    (hgrown : data <+: data') : data'.head? = some lead := by
  obtain ⟨rest, rfl⟩ := List.head?_eq_some_iff.mp h
  obtain ⟨more, rfl⟩ := hgrown
  rfl

/-- Longer heaps change nothing. -/
theorem Consistent.of_heaps {assembly : Assembly} (h : assembly.Consistent) {strings : StringHeap}
    {blobs : BlobHeap} (hstrings : assembly.strings.data <+: strings.data)
    (hblobs : assembly.blobs.data <+: blobs.data) :
    ({ assembly with strings, blobs } : Assembly).Consistent := by
  have hcovers : ({ assembly with strings, blobs } : Assembly).Covers assembly :=
    ⟨fun _ => Nat.le_refl _, hstrings, hblobs, rfl, rfl⟩
  exact {
    arity := h.arity
    inRange := h.inRange
    counts := h.counts
    bodies := ⟨h.bodies.found, h.bodies.apart⟩
    bodyTokens := h.bodyTokens
    added := h.added
    ascending := h.ascending
    rows := fun table columns hmem => hcovers.rowFits (h.rows table columns hmem)
    apart := h.apart
    runs := h.runs
    names := h.names
    keys := h.keys
    leads := ⟨head?_of_grown h.leads.1 hstrings, head?_of_grown h.leads.2 hblobs⟩ }

end Assembly

/-! ## A row behind the last one -/

namespace Tables

variable {tables : Tables} {table : Table} {columns : Row}

theorem count_le_push (other : Table) :
    tables.count other ≤ (tables.push table columns).count other := by
  rw [count, count, rows_push]
  split
  · rename_i heq
    rw [heq, List.length_append]
    exact Nat.le_add_right _ _
  · exact Nat.le_refl _

theorem mem_rows_push {other : Table} {found : Row}
    (h : found ∈ (tables.push table columns).rows other) :
    found ∈ tables.rows other ∨ other = table ∧ found = columns := by
  rw [rows_push] at h
  split at h
  · rename_i heq
    subst heq
    rcases List.mem_append.mp h with hold | hnew
    · exact .inl hold
    · exact .inr ⟨rfl, List.mem_singleton.mp hnew⟩
  · exact .inl h

theorem value_push {other : Table} {row c value : Nat}
    (h : (tables.push table columns).value other row c = .ok value) :
    tables.value other row c = .ok value ∨
      other = table ∧ row = tables.count table + 1 ∧ columns[c]? = some value := by
  obtain ⟨found, hrow, hvalue⟩ := value_eq_ok.mp h
  obtain ⟨hlo, hget⟩ := row?_eq_some.mp hrow
  rw [rows_push] at hget
  split at hget
  · rename_i heq
    subst heq
    rcases Nat.lt_or_ge (row - 1) (tables.rows other).length with hlt | hge
    · rw [List.getElem?_append_left hlt] at hget
      exact .inl (value_eq_ok.mpr ⟨found, row?_eq_some.mpr ⟨hlo, hget⟩, hvalue⟩)
    · rw [List.getElem?_append_right hge] at hget
      have hlast := (List.getElem?_eq_some_iff.mp hget).1
      rw [List.length_singleton] at hlast
      have hzero : row - 1 - (tables.rows other).length = 0 := by omega
      rw [hzero, List.getElem?_cons_zero] at hget
      obtain rfl := Option.some.inj hget
      exact .inr ⟨rfl, by unfold count; omega, hvalue⟩
  · exact .inl (value_eq_ok.mpr ⟨found, row?_eq_some.mpr ⟨hlo, hget⟩, hvalue⟩)

/-- A row whose runs are empty leaves the other runs alone. -/
theorem RunsOrdered.push (h : tables.RunsOrdered)
    (hruns : ∀ (c : Nat) target value, table.columns[c]? = some (.list target) →
      columns[c]? = some value → value = tables.count target + 1) :
    (tables.push table columns).RunsOrdered := by
  constructor
  · intro other c target row value hkind hvalue
    have hle : tables.count target + 1 ≤ (tables.push table columns).count target + 1 :=
      Nat.succ_le_succ (count_le_push target)
    rcases value_push hvalue with hold | ⟨rfl, -, hget⟩
    · obtain ⟨hlo, hhi⟩ := h.within other c target row value hkind hold
      exact ⟨hlo, Nat.le_trans hhi hle⟩
    · rw [hruns c target value hkind hget]
      exact ⟨Nat.succ_pos _, hle⟩
  · intro other c target row row' value value' hkind hle hvalue hvalue'
    rcases value_push hvalue with hold | ⟨rfl, rfl, hget⟩ <;>
      rcases value_push hvalue' with hold' | ⟨htable, hrow', hget'⟩
    · exact h.ascending other c target row row' value value' hkind hle hold hold'
    · subst htable
      rw [hruns c target value' hkind hget']
      exact (h.within other c target row value hkind hold).2
    · exact absurd (bounds_of_value hold').2 (Nat.not_le.mpr hle)
    · exact Nat.le_of_eq
        ((hruns c target value hkind hget).trans (hruns c target value' hkind hget').symm)

/-- A signature is stored where none of another form is. -/
def Fresh (tables : Tables) (table : Table) (columns : Row) : Prop :=
  ∀ site ∈ SignatureColumn.all, site.table = table → ∀ index, columns[site.column]? = some index →
    index ≠ 0 → ∀ form, form ≠ site.shape → ¬tables.HoldsSignature form index

theorem holdsSignature_push {form : BlobForm} {index : Nat}
    (h : (tables.push table columns).HoldsSignature form index) :
    tables.HoldsSignature form index ∨ ∃ site ∈ SignatureColumn.all, site.table = table ∧
      site.shape = form ∧ columns[site.column]? = some index := by
  obtain ⟨site, hsite, hshape, found, hmem, hindex⟩ := h
  rcases mem_rows_push hmem with hold | ⟨htable, rfl⟩
  · exact .inl ⟨site, hsite, hshape, found, hold, hindex⟩
  · exact .inr ⟨site, hsite, htable, hshape, hindex⟩

theorem FormsApart.push (h : tables.FormsApart) (hfresh : tables.Fresh table columns) :
    (tables.push table columns).FormsApart := by
  intro index hne htype hsignature
  rcases holdsSignature_push htype with hold | ⟨site, hsite, htable, hshape, hindex⟩ <;>
    rcases holdsSignature_push hsignature with hold' | ⟨site', hsite', htable', hshape', hindex'⟩
  · exact h index hne hold hold'
  · exact hfresh site' hsite' htable' index hindex' hne .type (by rw [hshape']; nofun) hold
  · exact hfresh site hsite htable index hindex hne .signature (by rw [hshape]; nofun) hold'
  · obtain rfl := SignatureColumn.eq_of_table site hsite site' hsite' (htable'.trans htable.symm)
    rw [hshape] at hshape'
    cases hshape'

end Tables

namespace Assembly

variable {assembly : Assembly} {table : Table} {columns : Row}

/-- The assembly with a row behind the last one of a table. -/
def withRow (assembly : Assembly) (table : Table) (columns : Row) : Assembly :=
  { assembly with tables := assembly.tables.push table columns }

theorem covers_withRow : (assembly.withRow table columns).Covers assembly :=
  ⟨Tables.count_le_push, List.prefix_refl _, List.prefix_refl _, rfl, rfl⟩

/-- A row that fits can be added, unless it is a method. -/
theorem Consistent.withRow (h : assembly.Consistent) (hmethod : table ≠ .methodDef)
    (hcount : assembly.tables.count table + 1 < Token.rowLimit)
    (hfits : assembly.RowFits table columns) (hfresh : assembly.tables.Fresh table columns)
    (hruns : ∀ (c : Nat) target value, table.columns[c]? = some (.list target) →
      columns[c]? = some value → value = assembly.tables.count target + 1) :
    (assembly.withRow table columns).Consistent := by
  have hmethods : (assembly.withRow table columns).tables.rows .methodDef =
      assembly.tables.rows .methodDef := by
    rw [Assembly.withRow, Tables.rows_push, if_neg (Ne.symm hmethod)]
  have hrvas : (assembly.withRow table columns).bodyRvas = assembly.bodyRvas := by
    unfold bodyRvas
    rw [hmethods]
  have hrows : ∀ other, ∀ found ∈ (assembly.withRow table columns).tables.rows other,
      (assembly.withRow table columns).RowFits other found := by
    intro other found hmem
    apply covers_withRow.rowFits
    rcases Tables.mem_rows_push hmem with hold | ⟨rfl, rfl⟩
    · exact h.rows other found hold
    · exact hfits
  exact {
    arity := fun other found hmem => (hrows other found hmem).arity
    inRange := fun other found hmem => (hrows other found hmem).inRange
    counts := by
      intro other
      rw [Assembly.withRow, Tables.count, Tables.rows_push]
      split
      · rw [List.length_append]
        exact hcount
      · exact h.counts other
    bodies := h.bodies.of_subset rfl fun rva hmem => hrvas ▸ hmem
    bodyTokens := by
      rw [hrvas]
      exact h.bodyTokens
    added := h.added
    ascending := h.ascending
    rows := hrows
    apart := h.apart.push hfresh
    runs := h.runs.push hruns
    names := by
      intro token hnames
      refine covers_withRow.reaches (h.names token ?_)
      rcases hnames with ⟨rva, hrva, hstored⟩ | hadded
      · rw [hrvas] at hrva
        exact .inl ⟨rva, hrva, hstored⟩
      · exact .inr hadded
    keys := by
      intro entry hmem
      rw [← h.keys entry hmem, Tables.value, Tables.value, Tables.row, Tables.row,
        Tables.row?_of_rows_eq hmethods]
    leads := h.leads }

end Assembly

end NativeExports
