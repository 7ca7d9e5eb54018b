import NativeExports.Proofs.Renumbering.Removal

/-!
# Uses of a row

Only some columns can refer to rows of a given table, and only some tables can be named in
signatures or code.  Rows of the other tables are unused as soon as no column names them, which is
what counting their uses finds out.
-/

namespace NativeExports

/-- An index or a coded index names a row. -/
def ColumnKind.Names (kind : ColumnKind) (value : Nat) (table : Table) (row : Nat) : Prop :=
  match kind with
  | .index target => target = table ∧ value = row
  | .coded forms => forms.decode value = .ok (table, row)
  | _ => False

/-- Whether a column can refer to a table. -/
def ColumnKind.canName (table : Table) : ColumnKind → Bool
  | .index target | .list target => target = table
  | .coded forms => forms.contains table
  | _ => false

namespace Assembly

theorem canName_of_columnTarget {kind : ColumnKind} {value : Nat} {token : Token} {table : Table}
    (h : columnTarget kind value = .ok (some token)) (htable : token.table? = some table) :
    kind.canName table = true := by
  have hnamed : ∀ {target : Table} {row : Nat},
      (if row = 0 then none else some (Token.ofRow target row)) = some token → target = table := by
    intro target row hnew
    split at hnew
    · cases hnew
    · rw [← Option.some.inj hnew, Token.table?_ofRow] at htable
      exact Option.some.inj htable
  cases kind with
  | index target => exact decide_eq_true (hnamed (Except.ok.inj h))
  | list target => exact decide_eq_true (hnamed (Except.ok.inj h))
  | coded coded =>
      obtain ⟨⟨target, row⟩, hdecode, h⟩ := Outcome.bind_eq_ok.mp h
      rw [← hnamed (Except.ok.inj h)]
      exact CodedKind.contains_of_decode hdecode
  | _ => cases h

/-- A row that refers to a table does so in a column for this table, or in its signature. -/
theorem canName_of_refers {assembly : Assembly} {source : Table} {n : Nat} {token : Token}
    {table : Table} (h : assembly.Refers source n token) (htable : token.table? = some table) :
    source.columns.any (ColumnKind.canName table) = true ∨
      (∃ site ∈ SignatureColumn.all, site.table = source) ∧ table.isSignatureTarget = true := by
  obtain ⟨columns, -, ⟨c, kind, value, hkind, -, htarget⟩ | ⟨site, hsite, hsource, hnames⟩⟩ := h
  · refine .inl (List.any_eq_true.mpr ⟨kind, List.mem_of_getElem? hkind, ?_⟩)
    exact canName_of_columnTarget htarget htable
  · obtain ⟨index, blob, tokens, -, -, -, htokens, hmem⟩ := hnames
    exact .inr ⟨⟨site, hsite, hsource⟩,
      BlobForm.isSignatureTarget_of_mem_tokens htokens hmem htable⟩

theorem isCodeTarget_of_bodiesName {assembly : Assembly} (hwf : assembly.WellFormed) {token : Token}
    {table : Table} (h : assembly.BodiesName token) (htable : token.table? = some table) :
    table.isCodeTarget = true := by
  rcases h with ⟨rva, hrva, offset, body, instructions, hoffset, hbody, hmem⟩ |
    ⟨entry, hentry, body, instructions, hread, hdecode, hmem⟩
  · exact hwf.bodyTokens rva hrva offset body instructions hoffset hbody token hmem table htable
  · obtain ⟨body', instructions', hread', hdecode', htokens⟩ := hwf.added entry hentry
    obtain rfl := Except.ok.inj (hread.symm.trans hread')
    obtain rfl := Except.ok.inj (hdecode.symm.trans hdecode')
    exact htokens token hmem table htable

/-- A row that neither code nor signatures can name is unused if no column and no entry point names
it. -/
theorem unused_of_columns {assembly : Assembly} (hwf : assembly.WellFormed)
    {gone : Table → Nat → Prop} {table : Table} {row : Nat}
    (hcode : table.isCodeTarget = false) (hsignature : table.isSignatureTarget = false)
    (hentry : ¬assembly.entryPoint.Names table row)
    (h : ∀ source n columns, ¬gone source n → assembly.tables.row? source n = some columns →
      ∀ (c : Nat) kind value token, source.columns[c]? = some kind → columns[c]? = some value →
        columnTarget kind value = .ok (some token) → ¬token.Names table row) :
    assembly.Unused gone table row := by
  refine ⟨fun source n hstays token hrefers hnames => ?_, fun token hbodies hnames => ?_, hentry⟩
  · obtain ⟨columns, hrow, ⟨c, kind, value, hkind, hvalue, htarget⟩ | ⟨site, -, -, hsite⟩⟩ :=
      hrefers
    · exact h source n columns hstays hrow c kind value token hkind hvalue htarget hnames
    · obtain ⟨index, blob, tokens, -, -, -, htokens, hmem⟩ := hsite
      have htarget := BlobForm.isSignatureTarget_of_mem_tokens htokens hmem hnames.1
      rw [hsignature] at htarget
      cases htarget
  · have htarget := isCodeTarget_of_bodiesName hwf hbodies hnames.1
    rw [hcode] at htarget
    cases htarget

/-! ## Columns after a renumbering -/

/-- A column names the same rows of other tables as before. -/
theorem names_of_sameColumn {renumbering : Renumbering} {tables : Tables} {kind : ColumnKind}
    {value value' : Nat} (hcounts : ∀ table, tables.count table < Token.rowLimit)
    (hin : tables.InRange kind value) (hsame : renumbering.SameColumn kind value value')
    {table : Table} (htable : table ≠ renumbering.table) (row : Nat) :
    kind.Names value' table row ↔ kind.Names value table row := by
  cases kind with
  | index target =>
      refine and_congr_right ?_
      rintro rfl
      have hplace : some value = some value' :=
        (renumbering.place_of_ne htable value).symm.trans hsame
      rw [Option.some.inj hplace]
  | coded coded =>
      obtain ⟨target, old, hdecode, hle⟩ := hin
      obtain ⟨target', old', new, hdecode', hplace, hnew⟩ := hsame
      obtain ⟨rfl, rfl⟩ := Prod.mk.inj (Except.ok.inj (hdecode.symm.trans hdecode'))
      unfold ColumnKind.Names
      dsimp only
      rw [hdecode, hnew]
      by_cases htarget : target = table
      · subst htarget
        rw [← Option.some.inj ((renumbering.place_of_ne htable old).symm.trans hplace),
          CodedKind.mod_eq_of_lt_rowLimit coded (Nat.lt_of_le_of_lt hle (hcounts target))]
      · constructor <;> exact fun h => absurd (Prod.mk.inj (Except.ok.inj h)).1 htarget
  | _ => exact Iff.rfl

/-- No index and no coded index names a row, except perhaps in rows that go. -/
def UnnamedBut (assembly : Assembly) (gone : Table → Nat → Prop) (table : Table)
    (row : Nat) : Prop :=
  ∀ source n columns, assembly.tables.row? source n = some columns → ¬gone source n →
    ∀ (c : Nat) kind value, source.columns[c]? = some kind → columns[c]? = some value →
      ¬kind.Names value table row

/-- Whether columns name a row of another table stays the same. -/
theorem unnamedBut_of_renumber {renumbering : Renumbering} {before after : Assembly}
    (hmade : renumbering.Made) (hwf : before.WellFormed)
    (h : before.renumber renumbering [] = .ok after) {gone gone' : Table → Nat → Prop}
    (hstays : ∀ source n, ¬gone source n → ∃ n', renumbering.place source n = some n')
    (hgone : ∀ source n n', renumbering.place source n = some n' →
      (gone source n ↔ gone' source n'))
    {table : Table} {row : Nat} (htable : table ≠ renumbering.table) :
    after.UnnamedBut gone' table row ↔ before.UnnamedBut gone table row := by
  have hmoved := movedTo_of_renumber hmade h
  have hkeeps := keepsMeaning_of_renumber hmade hwf
    (fun _ _ hmem => absurd hmem List.not_mem_nil) h
  have hplain : ∀ {source : Table} {c : Nat} {kind : ColumnKind} {value : Nat},
      source.columns[c]? = some kind → kind.Names value table row →
        ¬Tables.IsSignatureColumn source c := by
    rintro source c kind value hkind hnames ⟨site, hsite, rfl, rfl⟩
    rw [Tables.kind_of_signatureColumn site hsite] at hkind
    rw [← Option.some.inj hkind] at hnames
    exact hnames
  constructor
  · intro hunnamed source n columns hrow hstay c kind value hkind hvalue hnames
    obtain ⟨n', hplace⟩ := hstays source n hstay
    obtain ⟨columns', hrow', -, hcolumns⟩ := hkeeps.rows source n n' columns hrow hplace
    obtain ⟨value', hvalue', hsame⟩ := hcolumns c kind value hkind hvalue (hplain hkind hnames)
    have hin := hwf.inRange source columns (Tables.mem_rows.mpr ⟨n, hrow⟩) c kind value hkind hvalue
    exact hunnamed source n' columns' hrow' (mt (hgone source n n' hplace).mpr hstay) c kind value'
      hkind hvalue' ((names_of_sameColumn hwf.counts hin hsame htable row).mpr hnames)
  · intro hunnamed source n' columns' hrow' hstay' c kind value' hkind hvalue' hnames
    rcases row_of_keepsMeaning hmoved hkeeps hrow' with
      ⟨-, columns, hmem, -⟩ | ⟨n, columns, hrow, hplace, hlength, hcolumns⟩
    · exact absurd hmem List.not_mem_nil
    have hlt : c < columns.length := hlength ▸ (List.getElem?_eq_some_iff.mp hvalue').1
    have hvalue := List.getElem?_eq_getElem hlt
    obtain ⟨value'', hget, hsame⟩ := hcolumns c kind _ hkind hvalue (hplain hkind hnames)
    obtain rfl := Option.some.inj (hget.symm.trans hvalue')
    have hin := hwf.inRange source columns (Tables.mem_rows.mpr ⟨n, hrow⟩) c kind _ hkind hvalue
    exact hunnamed source n columns hrow (mt (hgone source n n' hplace).mp hstay') c kind _ hkind
      hvalue ((names_of_sameColumn hwf.counts hin hsame htable row).mp hnames)

/-! ## Counting uses -/

theorem refersTo_eq_ok {table : Table} {row : Nat} {kind : ColumnKind} {value : Nat} {hit : Bool}
    (h : refersTo table row kind value = .ok hit) : hit = true ↔ kind.Names value table row := by
  cases kind with
  | index target =>
      obtain rfl := Except.ok.inj h
      simp [ColumnKind.Names]
  | coded coded =>
      by_cases hcontains : coded.contains table = true
      · simp only [refersTo, if_pos hcontains] at h
        obtain ⟨found, hfound, h⟩ := Outcome.bind_eq_ok.mp h
        obtain rfl := Outcome.pure_eq_ok.mp h
        simp [ColumnKind.Names, hfound]
      · simp only [refersTo, if_neg hcontains] at h
        obtain rfl := Except.ok.inj h
        constructor
        · intro hfalse
          cases hfalse
        · exact fun hnames => absurd (CodedKind.contains_of_decode hnames) hcontains
  | _ =>
      obtain rfl := Except.ok.inj h
      exact ⟨fun hfalse => absurd hfalse Bool.false_ne_true, False.elim⟩

theorem exists_refersTo {tables : Tables} {kind : ColumnKind} {value : Nat}
    (h : tables.InRange kind value) (table : Table) (row : Nat) :
    ∃ hit, refersTo table row kind value = .ok hit := by
  cases kind with
  | coded coded =>
      obtain ⟨target, named, hdecode, -⟩ := h
      by_cases hcontains : coded.contains table = true
      · simp only [refersTo, if_pos hcontains, hdecode]
        exact ⟨_, rfl⟩
      · simp only [refersTo, if_neg hcontains]
        exact ⟨_, rfl⟩
  | _ => exact ⟨_, rfl⟩

theorem countInRow_eq_ok {table : Table} {row : Nat} {source : Table} {columns : Row} {count : Nat}
    (h : countInRow table row source columns = .ok count) :
    count = 0 ↔ ∀ (c : Nat) kind value, source.columns[c]? = some kind → columns[c]? = some value →
      ¬kind.Names value table row := by
  obtain ⟨hits, hhits, h⟩ := Outcome.bind_eq_ok.mp h
  obtain rfl := Outcome.pure_eq_ok.mp h
  replace hhits := Outcome.mapM_eq_ok.mp hhits
  rw [List.count_eq_zero]
  constructor
  · intro hnone c kind value hkind hvalue hnames
    have hzip : (kind, value) ∈ source.columns.zip columns :=
      List.mem_of_getElem? (List.getElem?_zip_eq_some.mpr ⟨hkind, hvalue⟩)
    obtain ⟨hit, hmem, hhit⟩ := Outcome.exists_of_forall₂_left hhits hzip
    have htrue : hit = true := (refersTo_eq_ok hhit).mpr hnames
    exact hnone (htrue ▸ hmem)
  · intro hnone hmem
    obtain ⟨⟨kind, value⟩, hzip, hhit⟩ := Outcome.exists_of_forall₂_right hhits hmem
    obtain ⟨c, hc⟩ := List.mem_iff_getElem?.mp hzip
    obtain ⟨hkind, hvalue⟩ := List.getElem?_zip_eq_some.mp hc
    exact hnone c kind value hkind hvalue ((refersTo_eq_ok hhit).mp rfl)

/-- No uses are counted exactly if no column names the row. -/
theorem usesOf_eq_ok {assembly : Assembly} {token : Token} {table : Table} {count : Nat}
    (htable : token.table? = some table) (h : assembly.usesOf token = .ok count) :
    count = 0 ↔ ∀ source n columns, assembly.tables.row? source n = some columns →
      ∀ (c : Nat) kind value, source.columns[c]? = some kind → columns[c]? = some value →
        ¬kind.Names value table token.row := by
  unfold usesOf at h
  rw [htable] at h
  obtain ⟨sums, hsums, h⟩ := Outcome.bind_eq_ok.mp h
  obtain rfl := Outcome.pure_eq_ok.mp h
  replace hsums := Outcome.mapM_eq_ok.mp hsums
  rw [List.sum_eq_zero_iff_forall_eq_nat]
  constructor
  · intro hzero source n columns hrow
    obtain ⟨sum, hmem, hsum⟩ := Outcome.exists_of_forall₂_left hsums source.mem_all
    obtain ⟨counts, hcounts, hsum⟩ := Outcome.bind_eq_ok.mp hsum
    obtain rfl := Outcome.pure_eq_ok.mp hsum
    obtain ⟨count, hin, hcount⟩ := Outcome.exists_of_forall₂_left (Outcome.mapM_eq_ok.mp hcounts)
      (Tables.mem_rows.mpr ⟨n, hrow⟩)
    exact (countInRow_eq_ok hcount).mp
      (List.sum_eq_zero_iff_forall_eq_nat.mp (hzero _ hmem) count hin)
  · intro hnone sum hmem
    obtain ⟨source, -, hsum⟩ := Outcome.exists_of_forall₂_right hsums hmem
    obtain ⟨counts, hcounts, hsum⟩ := Outcome.bind_eq_ok.mp hsum
    obtain rfl := Outcome.pure_eq_ok.mp hsum
    rw [List.sum_eq_zero_iff_forall_eq_nat]
    intro count hin
    obtain ⟨columns, hcolumns, hcount⟩ :=
      Outcome.exists_of_forall₂_right (Outcome.mapM_eq_ok.mp hcounts) hin
    obtain ⟨n, hrow⟩ := Tables.mem_rows.mp hcolumns
    exact (countInRow_eq_ok hcount).mpr (hnone source n columns hrow)

theorem exists_usesOf {assembly : Assembly} (hwf : assembly.WellFormed) (token : Token) :
    ∃ count, assembly.usesOf token = .ok count := by
  unfold usesOf
  split
  · exact ⟨0, rfl⟩
  · rename_i table htable
    have hrow : ∀ source, ∀ columns ∈ assembly.tables.rows source,
        ∃ count, countInRow table token.row source columns = .ok count := by
      intro source columns hmem
      have hhits : ∀ entry ∈ source.columns.zip columns, ∃ hit,
          refersTo table token.row entry.1 entry.2 = .ok hit := by
        rintro ⟨kind, value⟩ hzip
        obtain ⟨c, hc⟩ := List.mem_iff_getElem?.mp hzip
        obtain ⟨hkind, hvalue⟩ := List.getElem?_zip_eq_some.mp hc
        exact exists_refersTo (hwf.inRange source columns hmem c kind value hkind hvalue) _ _
      exact Outcome.exists_bind (Outcome.exists_mapM hhits) fun hits _ => ⟨_, rfl⟩
    obtain ⟨sums, hsums⟩ : ∃ sums, Table.all.mapM (fun source => do
        let counts ← (assembly.tables.rows source).mapM (countInRow table token.row source)
        return counts.sum) = (.ok sums : Except Error (List Nat)) := by
      apply Outcome.exists_mapM
      intro source _
      obtain ⟨counts, hcounts⟩ := Outcome.exists_mapM (hrow source)
      rw [hcounts]
      exact ⟨counts.sum, rfl⟩
    rw [hsums]
    exact ⟨sums.sum, rfl⟩

end Assembly

end NativeExports
