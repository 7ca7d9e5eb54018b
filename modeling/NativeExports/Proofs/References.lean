import NativeExports.Proofs.Pieces
import NativeExports.Proofs.WellFormed

/-!
# References between rows

What a row refers to, and what method bodies refer to, as relations.  The functions that collect
references succeed in a well-formed assembly and collect exactly what these relations say.
-/

namespace NativeExports

/-- A token names a row. -/
def Token.Names (token : Token) (table : Table) (row : Nat) : Prop :=
  token.table? = some table ∧ token.row = row

theorem Token.names_ofRow {table : Table} {row : Nat} (h : row < rowLimit) :
    (ofRow table row).Names table row :=
  ⟨table?_ofRow table row, (row_ofRow table row).trans (Nat.mod_eq_of_lt h)⟩

theorem Token.ofRow_row_ofRow (table : Table) (row : Nat) :
    ofRow table (ofRow table row).row = ofRow table row := by
  rw [row_ofRow, ofRow, ofRow, Nat.mod_mod]

namespace Assembly

/-- The signature in a column of a row names a token. -/
def SignatureNames (assembly : Assembly) (site : SignatureColumn) (columns : Row) (token : Token) :
    Prop :=
  ∃ index blob tokens, columns[site.column]? = some index ∧ index ≠ 0 ∧
    assembly.blobs.get index = .ok blob ∧ site.shape.tokens blob = .ok tokens ∧ token ∈ tokens

/-- A row refers to a token, by a column or in its signature. -/
def Refers (assembly : Assembly) (table : Table) (row : Nat) (token : Token) : Prop :=
  ∃ columns, assembly.tables.row? table row = some columns ∧
    ((∃ (c : Nat) (kind : ColumnKind) (value : Nat), table.columns[c]? = some kind ∧
      columns[c]? = some value ∧ columnTarget kind value = .ok (some token)) ∨
    ∃ site ∈ SignatureColumn.all, site.table = table ∧ assembly.SignatureNames site columns token)

/-- A method body holds a token. -/
def BodiesName (assembly : Assembly) (token : Token) : Prop :=
  (∃ rva ∈ assembly.bodyRvas, ∃ offset body instructions, assembly.image.offsetOf rva = .ok offset ∧
    HasBody assembly.image offset body instructions ∧ token ∈ body.tokens instructions) ∨
  ∃ entry ∈ assembly.addedBodies, ∃ body instructions, MethodBody.read entry.2 = .ok body ∧
    Code.decode (body.code entry.2) = .ok instructions ∧ token ∈ body.tokens instructions

/-- The signatures of all rows can be read. -/
def SignaturesFit (assembly : Assembly) : Prop :=
  ∀ site ∈ SignatureColumn.all, ∀ columns ∈ assembly.tables.rows site.table,
    ∀ index, columns[site.column]? = some index → index ≠ 0 →
      ∃ blob tokens, assembly.blobs.get index = .ok blob ∧ site.shape.tokens blob = .ok tokens

/-! ## Rows -/

theorem exists_columnTarget {tables : Tables} {kind : ColumnKind} {value : Nat}
    (h : tables.InRange kind value) : ∃ target, columnTarget kind value = .ok target := by
  cases kind with
  | coded coded =>
      obtain ⟨target, row, hdecode, -⟩ := h
      rw [columnTarget, hdecode]
      exact ⟨_, rfl⟩
  | _ => exact ⟨_, rfl⟩

theorem signatureTargets_eq_ok {assembly : Assembly} {table : Table} {columns : Row}
    {site : SignatureColumn} {tokens : List Token}
    (h : assembly.signatureTargets table columns site = .ok tokens) (token : Token) :
    token ∈ tokens ↔ site.table = table ∧ assembly.SignatureNames site columns token := by
  unfold signatureTargets at h
  dsimp only at h
  split at h
  · rename_i hsite
    obtain ⟨blob, hget, htokens⟩ := Outcome.bind_eq_ok.mp h
    have hindex : columns[site.column]? = some (columns.getD site.column 0) := by
      rw [List.getD_eq_getElem?_getD] at hsite ⊢
      rcases hcolumn : columns[site.column]? with _ | index
      · rw [hcolumn] at hsite
        exact absurd rfl hsite.2
      · rfl
    constructor
    · intro hmem
      exact ⟨hsite.1, _, blob, tokens, hindex, hsite.2, hget, htokens, hmem⟩
    · rintro ⟨-, index, blob', tokens', hindex', -, hget', htokens', hmem⟩
      rw [hindex] at hindex'
      obtain rfl := Option.some.inj hindex'
      rw [hget] at hget'
      obtain rfl := Except.ok.inj hget'
      rw [htokens] at htokens'
      obtain rfl := Except.ok.inj htokens'
      exact hmem
  · rename_i hsite
    obtain rfl := Except.ok.inj h
    refine ⟨nofun, ?_⟩
    rintro ⟨htable, index, -, -, hindex, hne, -⟩
    refine absurd ⟨htable, ?_⟩ hsite
    rw [List.getD_eq_getElem?_getD, hindex]
    exact hne

theorem exists_signatureTargets {assembly : Assembly} (hfit : assembly.SignaturesFit)
    {table : Table} {columns : Row} (hmem : columns ∈ assembly.tables.rows table)
    {site : SignatureColumn} (hsite : site ∈ SignatureColumn.all) :
    ∃ tokens, assembly.signatureTargets table columns site = .ok tokens := by
  unfold signatureTargets
  dsimp only
  split
  · rename_i hnamed
    obtain ⟨rfl, hne⟩ := hnamed
    have hindex : columns[site.column]? = some (columns.getD site.column 0) := by
      rw [List.getD_eq_getElem?_getD] at hne ⊢
      rcases hcolumn : columns[site.column]? with _ | index
      · rw [hcolumn] at hne
        exact absurd rfl hne
      · rfl
    obtain ⟨blob, tokens, hget, htokens⟩ := hfit site hsite columns hmem _ hindex hne
    rw [hget]
    exact ⟨tokens, htokens⟩
  · exact ⟨[], rfl⟩

/-- What is collected from a row is what the row refers to. -/
theorem rowTargets_eq_ok {assembly : Assembly} {table : Table} {row : Nat} {targets : List Token}
    (h : assembly.rowTargets table row = .ok targets) (token : Token) :
    token ∈ targets ↔ assembly.Refers table row token := by
  obtain ⟨columns, hrow, h⟩ := Outcome.bind_eq_ok.mp h
  obtain ⟨direct, hdirect, h⟩ := Outcome.bind_eq_ok.mp h
  obtain ⟨embedded, hembedded, h⟩ := Outcome.bind_eq_ok.mp h
  obtain rfl := Outcome.pure_eq_ok.mp h
  replace hrow := Tables.row_eq_ok.mp hrow
  replace hdirect := Outcome.mapM_eq_ok.mp hdirect
  replace hembedded := Outcome.mapM_eq_ok.mp hembedded
  rw [List.mem_append, List.mem_filterMap, List.mem_flatten]
  constructor
  · rintro (⟨target, hmem, rfl⟩ | ⟨tokens, hmem, htoken⟩)
    · obtain ⟨⟨kind, value⟩, hzip, htarget⟩ := Outcome.exists_of_forall₂_right hdirect hmem
      obtain ⟨c, hc⟩ := List.mem_iff_getElem?.mp hzip
      obtain ⟨hkind, hvalue⟩ := List.getElem?_zip_eq_some.mp hc
      exact ⟨columns, hrow, .inl ⟨c, kind, value, hkind, hvalue, htarget⟩⟩
    · obtain ⟨site, hsite, htokens⟩ := Outcome.exists_of_forall₂_right hembedded hmem
      obtain ⟨htable, hnames⟩ := (signatureTargets_eq_ok htokens token).mp htoken
      exact ⟨columns, hrow, .inr ⟨site, hsite, htable, hnames⟩⟩
  · rintro ⟨columns', hrow', hrefers⟩
    rw [hrow] at hrow'
    obtain rfl := Option.some.inj hrow'
    rcases hrefers with ⟨c, kind, value, hkind, hvalue, htarget⟩ | ⟨site, hsite, htable, hnames⟩
    · have hzip : (kind, value) ∈ table.columns.zip columns :=
        List.mem_of_getElem? (List.getElem?_zip_eq_some.mpr ⟨hkind, hvalue⟩)
      obtain ⟨target, hmem, htarget'⟩ := Outcome.exists_of_forall₂_left hdirect hzip
      exact .inl ⟨some token, Except.ok.inj (htarget.symm.trans htarget') ▸ hmem, rfl⟩
    · obtain ⟨tokens, hmem, htokens⟩ := Outcome.exists_of_forall₂_left hembedded hsite
      exact .inr ⟨tokens, hmem, (signatureTargets_eq_ok htokens token).mpr ⟨htable, hnames⟩⟩

theorem exists_rowTargets {assembly : Assembly} (hwf : assembly.WellFormed)
    (hfit : assembly.SignaturesFit) {table : Table} {row : Nat} {columns : Row}
    (hrow : assembly.tables.row? table row = some columns) :
    ∃ targets, assembly.rowTargets table row = .ok targets := by
  have hmem := Tables.mem_rows.mpr ⟨row, hrow⟩
  have hdirect : ∀ entry ∈ table.columns.zip columns, ∃ target,
      columnTarget entry.1 entry.2 = .ok target := by
    rintro ⟨kind, value⟩ hzip
    obtain ⟨c, hc⟩ := List.mem_iff_getElem?.mp hzip
    obtain ⟨hkind, hvalue⟩ := List.getElem?_zip_eq_some.mp hc
    exact exists_columnTarget (hwf.inRange table columns hmem c kind value hkind hvalue)
  rw [rowTargets, Tables.row_eq_ok.mpr hrow, Outcome.ok_bind]
  exact Outcome.exists_bind (Outcome.exists_mapM hdirect) fun direct _ =>
    Outcome.exists_bind
      (Outcome.exists_mapM fun site hsite => exists_signatureTargets hfit hmem hsite)
      fun embedded _ => ⟨_, rfl⟩

/-- Rows refer to tokens by table and row. -/
theorem eq_ofRow_of_refers {assembly : Assembly} {source : Table} {n : Nat} {token : Token}
    {table : Table} {row : Nat} (h : assembly.Refers source n token)
    (hnames : token.Names table row) :
    token = Token.ofRow table row := by
  have hmade : ∃ found m, token = Token.ofRow found m := by
    obtain ⟨columns, -, ⟨c, kind, value, -, -, htarget⟩ | ⟨site, -, -, hsite⟩⟩ := h
    · have hnamed : ∀ {target : Table} {m : Nat},
          (if m = 0 then none else some (Token.ofRow target m)) = some token →
            ∃ found m, token = Token.ofRow found m := by
        intro target m hnew
        split at hnew
        · cases hnew
        · exact ⟨target, m, (Option.some.inj hnew).symm⟩
      cases kind with
      | index target => exact hnamed (Except.ok.inj htarget)
      | list target => exact hnamed (Except.ok.inj htarget)
      | coded coded =>
          obtain ⟨⟨target, m⟩, -, htarget⟩ := Outcome.bind_eq_ok.mp htarget
          exact hnamed (Except.ok.inj htarget)
      | _ => cases htarget
    · obtain ⟨index, blob, tokens, -, -, -, htokens, hmem⟩ := hsite
      obtain ⟨found, m, -, heq⟩ := BlobForm.exists_ofRow_of_mem_tokens htokens hmem
      exact ⟨found, m, heq⟩
  obtain ⟨found, m, rfl⟩ := hmade
  obtain ⟨htable, rfl⟩ := hnames
  rw [Token.table?_ofRow] at htable
  rw [← Option.some.inj htable, Token.ofRow_row_ofRow]

/-! ## Bodies -/

theorem bodyTokens_eq_ok {data : Bytes} {tokens : List Token} :
    bodyTokens data = .ok tokens ↔ ∃ body instructions, MethodBody.read data = .ok body ∧
      Code.decode (body.code data) = .ok instructions ∧ body.tokens instructions = tokens := by
  unfold bodyTokens
  rw [Outcome.bind_eq_ok]
  refine exists_congr fun body => ?_
  rw [Outcome.bind_eq_ok]
  constructor
  · rintro ⟨hread, instructions, hdecode, h⟩
    refine ⟨instructions, hread, hdecode, ?_⟩
    rw [← Outcome.pure_eq_ok.mp h, List.append_assoc]
    rfl
  · rintro ⟨instructions, hread, hdecode, rfl⟩
    refine ⟨hread, instructions, hdecode, congrArg Except.ok ?_⟩
    exact List.append_assoc ..

theorem bodyTokensAt_eq_ok {image : Image} {offset : Nat} {tokens : List Token} :
    bodyTokensAt image offset = .ok tokens ↔ ∃ body instructions,
      HasBody image offset body instructions ∧ body.tokens instructions = tokens := by
  unfold bodyTokensAt
  constructor
  · intro h
    split at h
    · rename_i hoffset
      obtain ⟨body, instructions, hread, hdecode, htokens⟩ := bodyTokens_eq_ok.mp h
      exact ⟨body, instructions, ⟨bodyFrom_eq_ok.mpr ⟨hoffset, hread⟩, hdecode⟩, htokens⟩
    · cases h
  · rintro ⟨body, instructions, hbody, htokens⟩
    obtain ⟨hoffset, hread⟩ := bodyFrom_eq_ok.mp hbody.read
    rw [if_pos hoffset]
    exact bodyTokens_eq_ok.mpr ⟨body, instructions, hread, hbody.code, htokens⟩

theorem exists_bodyOffsets {assembly : Assembly} (hfit : assembly.BodiesFit) :
    ∃ offsets, assembly.bodyOffsets = .ok offsets := by
  apply Outcome.exists_mapM
  intro rva hmem
  obtain ⟨offset, body, instructions, hoffset, -⟩ := hfit.found rva hmem
  exact ⟨offset, hoffset⟩

/-- What is collected from the bodies is what they hold. -/
theorem bodyTargets_eq_ok {assembly : Assembly} {targets : List Token}
    (h : assembly.bodyTargets = .ok targets) (token : Token) :
    token ∈ targets ↔ assembly.BodiesName token := by
  obtain ⟨offsets, hoffsets, h⟩ := Outcome.bind_eq_ok.mp h
  obtain ⟨stored, hstored, h⟩ := Outcome.bind_eq_ok.mp h
  obtain ⟨added, hadded, h⟩ := Outcome.bind_eq_ok.mp h
  obtain rfl := Outcome.pure_eq_ok.mp h
  replace hoffsets := bodyOffsets_eq_ok hoffsets
  replace hstored := Outcome.mapM_eq_ok.mp hstored
  replace hadded := Outcome.mapM_eq_ok.mp hadded
  rw [List.mem_append, List.mem_flatten, List.mem_flatten]
  refine or_congr ⟨?_, ?_⟩ ⟨?_, ?_⟩
  · rintro ⟨tokens, hmem, htoken⟩
    obtain ⟨offset, hin, htokens⟩ := Outcome.exists_of_forall₂_right hstored hmem
    obtain ⟨rva, hrva, hoffset⟩ := Outcome.exists_of_forall₂_right hoffsets hin
    obtain ⟨body, instructions, hbody, rfl⟩ := bodyTokensAt_eq_ok.mp htokens
    exact ⟨rva, hrva, offset, body, instructions, hoffset, hbody, htoken⟩
  · rintro ⟨rva, hrva, offset, body, instructions, hoffset, hbody, htoken⟩
    obtain ⟨offset', hin, hoffset'⟩ := Outcome.exists_of_forall₂_left hoffsets hrva
    rw [hoffset] at hoffset'
    obtain rfl := Except.ok.inj hoffset'
    obtain ⟨tokens, hmem, htokens⟩ := Outcome.exists_of_forall₂_left hstored hin
    rw [bodyTokensAt_eq_ok.mpr ⟨body, instructions, hbody, rfl⟩] at htokens
    exact ⟨tokens, hmem, Except.ok.inj htokens ▸ htoken⟩
  · rintro ⟨tokens, hmem, htoken⟩
    obtain ⟨entry, hin, htokens⟩ := Outcome.exists_of_forall₂_right hadded hmem
    obtain ⟨body, instructions, hread, hdecode, rfl⟩ := bodyTokens_eq_ok.mp htokens
    exact ⟨entry, hin, body, instructions, hread, hdecode, htoken⟩
  · rintro ⟨entry, hin, body, instructions, hread, hdecode, htoken⟩
    obtain ⟨tokens, hmem, htokens⟩ := Outcome.exists_of_forall₂_left hadded hin
    have hown := bodyTokens_eq_ok.mpr ⟨body, instructions, hread, hdecode, rfl⟩
    exact ⟨tokens, hmem, Except.ok.inj (hown.symm.trans htokens) ▸ htoken⟩

theorem exists_bodyTargets {assembly : Assembly} (hwf : assembly.WellFormed) :
    ∃ targets, assembly.bodyTargets = .ok targets := by
  refine Outcome.exists_bind (exists_bodyOffsets hwf.bodies) fun offsets hoffsets =>
    Outcome.exists_bind (Outcome.exists_mapM ?_) fun stored _ =>
      Outcome.exists_bind (Outcome.exists_mapM ?_) fun added _ => ⟨_, rfl⟩
  · intro offset hmem
    obtain ⟨rva, hrva, hoffset⟩ := Outcome.exists_of_forall₂_right (bodyOffsets_eq_ok hoffsets) hmem
    obtain ⟨offset', body, instructions, hoffset', hbody⟩ := hwf.bodies.found rva hrva
    rw [hoffset] at hoffset'
    obtain rfl := Except.ok.inj hoffset'
    exact ⟨_, bodyTokensAt_eq_ok.mpr ⟨body, instructions, hbody, rfl⟩⟩
  · intro entry hmem
    obtain ⟨body, instructions, hread, hdecode, -⟩ := hwf.added entry hmem
    exact ⟨_, bodyTokens_eq_ok.mpr ⟨body, instructions, hread, hdecode, rfl⟩⟩

/-- Tokens in bodies have 32 bits. -/
theorem lt_of_mem_tokens {data : Bytes} {body : MethodBody} {instructions : List Instruction}
    {token : Token} (hread : MethodBody.read data = .ok body)
    (hdecode : Code.decode (body.code data) = .ok instructions)
    (hmem : token ∈ body.tokens instructions) : token.value < 2 ^ 32 := by
  rcases List.mem_append.mp hmem with hcode | houter
  · have hlayout := Code.decode_eq_ok.mp hdecode
    clear hdecode hmem
    generalize body.code data = code at hlayout
    generalize 0 = offset at hlayout
    induction hlayout with
    | nil => cases hcode
    | @cons instruction rest front back hholds hrest ih =>
        obtain ⟨found, hfound, htoken⟩ := List.mem_filterMap.mp hcode
        rcases List.mem_cons.mp hfound with rfl | hfound
        · cases hoperand : found.operand with
          | token named =>
              rw [hoperand] at htoken
              rw [← Option.some.inj htoken]
              exact (hholds.exchange hoperand).1
          | _ =>
              rw [hoperand] at htoken
              cases htoken
        · have hin : token ∈ Code.tokensOf rest := List.mem_filterMap.mpr ⟨found, hfound, htoken⟩
          exact ih hin
  · rcases MethodBody.mem_outerTokens.mp houter with ⟨clause, hclause, -, -, rfl⟩ | ⟨-, -, rfl⟩
    · have hsame := (MethodBody.shape_of_read hread).clauses.reread clause hclause
      rw [← hsame]
      exact Bytes.field_lt ..
    · exact MethodBody.localsToken_lt hread

theorem lt_of_bodiesName {assembly : Assembly} {token : Token} (h : assembly.BodiesName token) :
    token.value < 2 ^ 32 := by
  rcases h with ⟨rva, -, offset, body, instructions, -, hbody, hmem⟩ |
    ⟨entry, -, body, instructions, hread, hdecode, hmem⟩
  · exact lt_of_mem_tokens (bodyFrom_eq_ok.mp hbody.read).2 hbody.code hmem
  · exact lt_of_mem_tokens hread hdecode hmem

end Assembly

end NativeExports
