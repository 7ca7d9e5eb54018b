import NativeExports.Proofs.Renumbering.Meaning

/-!
# Renumbering keeps assemblies well-formed

The rows put in have to be well-formed themselves, and the edited table must not outgrow the tokens.
Everything else follows from what renumbering does to references.
-/

namespace NativeExports

/-! ## Tokens of renumbered bodies -/

theorem Renumbering.SameRow.table?_eq {renumbering : Renumbering} {old new : Token}
    (h : renumbering.SameRow old new) : new.table? = old.table? := by
  unfold SameRow at h
  split at h
  · rename_i htable
    obtain ⟨row, -, hnew, -⟩ := h
    rw [hnew, htable]
  · rw [h]

theorem Token.IsCodeToken.congr {token token' : Token} (h : token.IsCodeToken)
    (htable : token'.table? = token.table?) : token'.IsCodeToken :=
  fun table htoken => h table (htable ▸ htoken)

theorem Code.tokensOf_mapsTo {related : Token → Token → Prop}
    {instructions instructions' : List Instruction}
    (h : List.Forall₂ (Instruction.MapsTo related) instructions instructions') :
    List.Forall₂ related (tokensOf instructions) (tokensOf instructions') := by
  induction h with
  | nil => exact .nil
  | @cons old new olds news hfirst hrest ih =>
      unfold tokensOf at ih ⊢
      rw [List.filterMap_cons, List.filterMap_cons]
      have hoperand := hfirst.operand
      generalize old.operand = before at hoperand
      generalize new.operand = after at hoperand
      cases hoperand with
      | token hrelated => exact .cons hrelated ih
      | plain hplain =>
          cases before with
          | token token => exact absurd rfl (hplain token)
          | _ => exact ih

/-- Every token outside the code of a renumbered body stems from one of the old body. -/
theorem MethodBody.Follows.origin {related : Token → Token → Prop} {body body' : MethodBody}
    (h : body.Follows related body') {token' : Token} (hmem : token' ∈ body'.outerTokens) :
    ∃ token ∈ body.outerTokens, related token token' ∨ token.isNull = true ∧ token' = token := by
  have hfat : body'.isFat = body.isFat := by rw [h.layout]
  rcases mem_outerTokens.mp hmem with ⟨clause', hclause', hnames', hne', rfl⟩ | ⟨hfat', hne', rfl⟩
  · obtain ⟨clause, hclause, hfollows⟩ := Outcome.exists_of_forall₂_right h.clauses hclause'
    have hnames : clause.namesType = true := by
      rw [hfollows.layout] at hnames'
      exact hnames'
    by_cases hnull : (⟨clause.classOrFilter⟩ : Token).isNull = false
    · refine ⟨_, mem_outerTokens.mpr (.inl ⟨clause, hclause, hnames, fun hzero => ?_, rfl⟩),
        .inl (hfollows.type.1 ⟨hnames, hnull⟩)⟩
      rw [hzero] at hnull
      cases hnull
    · have hsame := hfollows.type.2 fun htoken => hnull htoken.2
      exact ⟨_, mem_outerTokens.mpr (.inl ⟨clause, hclause, hnames, hsame ▸ hne', rfl⟩),
        .inr ⟨by simpa using hnull, by rw [hsame]⟩⟩
  · by_cases hne : body.localsToken ≠ 0
    · exact ⟨_, mem_outerTokens.mpr (.inr ⟨hfat ▸ hfat', hne, rfl⟩),
        .inl (h.locals.1 ⟨hfat ▸ hfat', hne⟩)⟩
    · exact absurd (h.locals.2 fun hlocals => hne hlocals.2) fun hsame =>
        hne' (hsame.trans (not_not.mp hne))

namespace Assembly

theorem isCodeToken_of_follows {renumbering : Renumbering} {body body' : MethodBody}
    {instructions instructions' : List Instruction}
    (hfollows : body.Follows renumbering.SameRow body')
    (hmaps : List.Forall₂ (Instruction.MapsTo renumbering.SameRow) instructions instructions')
    (htokens : ∀ token ∈ body.tokens instructions, token.IsCodeToken) :
    ∀ token ∈ body'.tokens instructions', token.IsCodeToken := by
  intro token' hmem
  rcases List.mem_append.mp hmem with hcode | houter
  · obtain ⟨token, htoken, hsame⟩ :=
      Outcome.exists_of_forall₂_right (Code.tokensOf_mapsTo hmaps) hcode
    exact (htokens token (List.mem_append_left _ htoken)).congr hsame.table?_eq
  · obtain ⟨token, htoken, hsame | ⟨-, rfl⟩⟩ := hfollows.origin houter
    · exact (htokens token (List.mem_append_right _ htoken)).congr hsame.table?_eq
    · exact htokens token' (List.mem_append_right _ htoken)

/-! ## References -/

/-- A row that stays is a row of the new table. -/
theorem place_le_count {renumbering : Renumbering} (hlawful : renumbering.Lawful)
    {inserted : List Row} {before after : Tables}
    (hmoved : before.MovedTo renumbering inserted after) {table : Table} {row row' : Nat}
    (hrow : row ≤ before.count table) (hplace : renumbering.place table row = some row') :
    row' ≤ after.count table := by
  rw [hmoved.counts]
  by_cases htable : table = renumbering.table
  · subst htable
    rw [if_pos rfl]
    rw [renumbering.place_self] at hplace
    rcases Nat.eq_zero_or_pos row with rfl | hlo
    · rw [Renumbering.newRow_zero] at hplace
      rw [← Option.some.inj hplace]
      exact Nat.zero_le _
    · exact (hlawful.range row row' hlo (hmoved.fits.1 ▸ hrow) hplace).2.1
  · rw [if_neg htable]
    rw [renumbering.place_of_ne htable] at hplace
    exact Option.some.inj hplace ▸ hrow

theorem inRange_of_sameColumn {renumbering : Renumbering} (hlawful : renumbering.Lawful)
    {inserted : List Row} {before after : Tables}
    (hmoved : before.MovedTo renumbering inserted after) {kind : ColumnKind} {value value' : Nat}
    (h : before.InRange kind value) (hsame : renumbering.SameColumn kind value value') :
    after.InRange kind value' := by
  cases kind with
  | index target => exact place_le_count hlawful hmoved h hsame
  | coded coded =>
      obtain ⟨target, old, hdecode, hin⟩ := h
      obtain ⟨target', old', new, hdecode', hplace, hnew⟩ := hsame
      rw [hdecode] at hdecode'
      obtain ⟨rfl, rfl⟩ := Prod.mk.inj (Except.ok.inj hdecode')
      exact ⟨target, _, hnew,
        Nat.le_trans (Nat.mod_le _ _) (place_le_count hlawful hmoved hin hplace)⟩
  | _ => trivial

/-! ## Assemblies -/

/-- The rows put in are rows of their table. -/
def RowsFit (table : Table) (inserted : List Row) (after : Tables) : Prop :=
  ∀ columns ∈ inserted, columns.length = table.columns.length ∧ ∀ (c : Nat) kind value,
    table.columns[c]? = some kind → columns[c]? = some value → after.InRange kind value

/-- What a row of the renumbered tables stems from. -/
theorem row_of_keepsMeaning {renumbering : Renumbering} {inserted : List Row}
    {before after : Assembly} (hmoved : before.tables.MovedTo renumbering inserted after.tables)
    (hkeeps : KeepsMeaning renumbering inserted before after) {table : Table} {row' : Nat}
    {columns' : Row} (hrow' : after.tables.row? table row' = some columns') :
    (table = renumbering.table ∧ ∃ columns ∈ inserted,
      Tables.SameButSignatures table columns columns') ∨
    ∃ row columns, before.tables.row? table row = some columns ∧
      renumbering.place table row = some row' ∧ columns'.length = columns.length ∧
      ∀ (c : Nat) kind value, table.columns[c]? = some kind → columns[c]? = some value →
        ¬Tables.IsSignatureColumn table c →
          ∃ value', columns'[c]? = some value' ∧ renumbering.SameColumn kind value value' := by
  rcases hmoved.origin table row' columns' hrow' with ⟨htable, hin⟩ | ⟨row, columns, hrow, hplace⟩
  · subst htable
    obtain ⟨columns, hmem, columns'', hget, hsame⟩ := hmoved.of_isInserted hin
    rw [hrow'] at hget
    obtain rfl := Option.some.inj hget
    exact .inl ⟨rfl, columns, hmem, hsame⟩
  · obtain ⟨columns'', hget, hlength, hcolumns⟩ := hkeeps.rows table row row' columns hrow hplace
    rw [hrow'] at hget
    obtain rfl := Option.some.inj hget
    exact .inr ⟨row, columns, hrow, hplace, hlength, hcolumns⟩

/-- Columns that refer to existing rows go on to do so, if those of the rows put in do. -/
theorem inRange_of_movedTo {renumbering : Renumbering} (hlawful : renumbering.Lawful)
    {inserted : List Row} {before after : Tables}
    (hmoved : before.MovedTo renumbering inserted after)
    (hrange : ∀ table, ∀ columns ∈ before.rows table, ∀ (c : Nat) kind value,
      table.columns[c]? = some kind → columns[c]? = some value → before.InRange kind value)
    (hcounts : ∀ table, before.count table < Token.rowLimit)
    (hrows : RowsFit renumbering.table inserted after) {table : Table} {columns' : Row}
    (hmem : columns' ∈ after.rows table) {c : Nat} {kind : ColumnKind} {value' : Nat}
    (hkind : table.columns[c]? = some kind) (hvalue' : columns'[c]? = some value') :
    after.InRange kind value' := by
  obtain ⟨row', hrow'⟩ := Tables.mem_rows.mp hmem
  by_cases hsignature : Tables.IsSignatureColumn table c
  · obtain ⟨site, hsite, rfl, rfl⟩ := hsignature
    rw [Tables.kind_of_signatureColumn site hsite] at hkind
    rw [← Option.some.inj hkind]
    trivial
  · rcases hmoved.origin table row' columns' hrow' with ⟨rfl, hin⟩ | ⟨row, columns, hrow, hplace⟩
    · obtain ⟨columns, hmem, columns'', hget, hsame⟩ := hmoved.of_isInserted hin
      obtain rfl := Option.some.inj (hrow'.symm.trans hget)
      rw [hsame.2 c hsignature] at hvalue'
      exact (hrows columns hmem).2 c kind value' hkind hvalue'
    · have hbefore := hrange table columns (Tables.mem_rows.mpr ⟨row, hrow⟩)
      obtain ⟨columns'', hget, hlength, hcolumns⟩ :=
        sameColumns_of_movedTo hmoved hrow hplace hbefore hcounts
      obtain rfl := Option.some.inj (hrow'.symm.trans hget)
      have hlt : c < columns.length := hlength ▸ (List.getElem?_eq_some_iff.mp hvalue').1
      have hvalue := List.getElem?_eq_getElem hlt
      obtain ⟨value'', hget', hsame⟩ := hcolumns c kind columns[c] hkind hvalue hsignature
      obtain rfl := Option.some.inj (hvalue'.symm.trans hget')
      exact inRange_of_sameColumn hlawful hmoved (hbefore c kind _ hkind hvalue) hsame

/-- The bodies of the renumbered image take the same positions as before. -/
theorem bodiesFit_of_renumber {renumbering : Renumbering} (hmade : renumbering.Made)
    {inserted : List Row} {before after : Assembly} (hwf : before.WellFormed)
    (hinserted : renumbering.table = .methodDef →
      ∀ columns ∈ inserted, columns.getD MethodDef.rvaColumn 0 = 0)
    (h : before.renumber renumbering inserted = .ok after) : after.BodiesFit := by
  have hmoved := movedTo_of_renumber hmade h
  have hbefore : ∀ rva ∈ after.bodyRvas, rva ∈ before.bodyRvas := fun rva =>
    bodyRvas_of_movedTo hmoved hinserted
  have hsame : ∀ rva, after.image.offsetOf rva = before.image.offsetOf rva := fun rva => by
    rw [(image_of_renumber hmade hwf.bodies hinserted h).1]
    rfl
  have hfollows : ∀ rva ∈ after.bodyRvas, ∀ offset, before.image.offsetOf rva = .ok offset →
      BodyFollows renumbering.SameRow before.image after.image offset :=
    fun rva hmem offset hoffset => bodyFollows_of_renumber hmade hwf hinserted h hmem hoffset
  constructor
  · intro rva hmem
    obtain ⟨offset, _, _, hoffset, -⟩ := hwf.bodies.found rva (hbefore rva hmem)
    obtain ⟨_, body', _, instructions', -, hbody', -⟩ := hfollows rva hmem offset hoffset
    exact ⟨offset, body', instructions', (hsame rva).trans hoffset, hbody'⟩
  · intro rva hmem rva' hmem' hne offset offset' hoffset hoffset' body body' hread hread' p hp hp'
    rw [hsame] at hoffset hoffset'
    obtain ⟨old, new, _, _, hold, hnew, -, -, hextent⟩ := hfollows rva hmem offset hoffset
    obtain ⟨old', new', _, _, hold', hnew', -, -, hextent'⟩ := hfollows rva' hmem' offset' hoffset'
    obtain rfl := hnew.bodyFrom_eq hread
    obtain rfl := hnew'.bodyFrom_eq hread'
    rw [InBody, hextent] at hp
    rw [InBody, hextent'] at hp'
    exact hwf.bodies.apart rva (hbefore rva hmem) rva'
      (hbefore rva' hmem') hne offset offset' hoffset
      hoffset' old old' hold.read hold'.read p hp hp'

/-- Every added body stems from one that there was. -/
theorem addedOrigin_of_renumber {renumbering : Renumbering} (hlawful : renumbering.Lawful)
    {inserted : List Row} {before after : Assembly} (hwf : before.WellFormed)
    (h : before.renumber renumbering inserted = .ok after) {entry' : Nat × Bytes}
    (hmem : entry' ∈ after.addedBodies) : ∃ entry ∈ before.addedBodies,
      renumbering.place .methodDef entry.1 = some entry'.1 ∧
        AddedBodyFollows renumbering.SameRow entry.2 entry'.2 := by
  obtain ⟨-, -, hback⟩ := addedBodies_of_renumber hlawful hwf.ascending h
  obtain ⟨entry, hentry, hplace, hfollows⟩ := hback entry' hmem
  have hbody := addedBodyFollows_of_addedFollows hfollows (hwf.added entry hentry)
  exact ⟨entry, hentry, hplace, hbody⟩

/-- Renumbering keeps an assembly well-formed. -/
theorem wellFormed_of_renumber {renumbering : Renumbering} (hmade : renumbering.Made)
    {inserted : List Row} {before after : Assembly} (hwf : before.WellFormed)
    (hinserted : renumbering.table = .methodDef →
      ∀ columns ∈ inserted, columns.getD MethodDef.rvaColumn 0 = 0)
    (hrows : RowsFit renumbering.table inserted after.tables)
    (hcount : renumbering.newCount < Token.rowLimit)
    (h : before.renumber renumbering inserted = .ok after) : after.WellFormed := by
  have hmoved := movedTo_of_renumber hmade h
  have hkeeps := keepsMeaning_of_renumber hmade hwf hinserted h
  have hfit := bodiesFit_of_renumber hmade hwf hinserted h
  refine ⟨?_, ?_, ?_, hfit, ?_, ?_, hkeeps.addedOrigin.1⟩
  · intro table columns' hmem
    obtain ⟨row', hrow'⟩ := Tables.mem_rows.mp hmem
    rcases row_of_keepsMeaning hmoved hkeeps hrow' with
      ⟨rfl, columns, hin, hsame⟩ | ⟨row, columns, hrow, -, hlength, -⟩
    · exact hsame.1.trans (hrows columns hin).1
    · exact hlength.trans (hwf.arity table columns (Tables.mem_rows.mpr ⟨row, hrow⟩))
  · intro table columns' hmem c kind value' hkind hvalue'
    exact inRange_of_movedTo hmade.lawful hmoved hwf.inRange hwf.counts hrows hmem hkind hvalue'
  · intro table
    rw [hkeeps.counts]
    split
    · exact hcount
    · exact hwf.counts table
  · intro rva hmem offset body' instructions' hoffset hbody'
    rw [(image_of_renumber hmade hwf.bodies hinserted h).1] at hoffset
    have hbefore : rva ∈ before.bodyRvas := bodyRvas_of_movedTo hmoved hinserted hmem
    obtain ⟨body, body₂, instructions, instructions₂, hold, hnew, hfollows, hmaps, -⟩ :=
      bodyFollows_of_renumber hmade hwf hinserted h hmem hoffset
    obtain ⟨rfl, rfl⟩ := hnew.unique hbody'
    exact isCodeToken_of_follows hfollows hmaps
      (hwf.bodyTokens rva hbefore offset body instructions hoffset hold)
  · intro entry' hmem'
    obtain ⟨entry, hmem, -, body, instructions, instructions', hread, hread', hdecode, hdecode',
      hmaps⟩ := addedOrigin_of_renumber hmade.lawful hwf h hmem'
    obtain ⟨body₂, instructions₂, hread₂, hdecode₂, htokens⟩ := hwf.added entry hmem
    obtain rfl := Except.ok.inj (hread.symm.trans hread₂)
    obtain rfl := Except.ok.inj (hdecode.symm.trans hdecode₂)
    refine ⟨body, instructions', hread', hdecode', fun token' hmem => ?_⟩
    rcases List.mem_append.mp hmem with hcode | houter
    · obtain ⟨token, htoken, hsame⟩ :=
        Outcome.exists_of_forall₂_right (Code.tokensOf_mapsTo hmaps) hcode
      exact (htokens token (List.mem_append_left _ htoken)).congr hsame.table?_eq
    · exact htokens token' (List.mem_append_right _ houter)

end Assembly

end NativeExports
