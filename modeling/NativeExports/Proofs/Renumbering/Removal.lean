import NativeExports.Proofs.References
import NativeExports.Proofs.Renumbering.Preservation
import NativeExports.Proofs.Renumbering.Failure

/-!
# Taking rows out

Rows can be taken out if nothing that stays refers to them.  What refers to a row of another table
afterwards has referred to it before, so rows that are unused stay unused while others are taken
out.
-/

namespace NativeExports

namespace Renumbering

theorem place_removal (table : Table) (oldCount : Nat) (removed : List Nat) (row : Nat) :
    (removal table oldCount removed).place table row =
      (removal table oldCount removed).newRow row :=
  place_self _ row

theorem newCount_removal_le (table : Table) (oldCount : Nat) (removed : List Nat) :
    (removal table oldCount removed).newCount ≤ oldCount := by
  have hle : (keeps oldCount removed).count true ≤ (keeps oldCount removed).length :=
    List.count_le_length
  rw [length_keeps] at hle
  exact hle

/-- A row that is not taken out stays. -/
theorem exists_newRow_removal (table : Table) (oldCount : Nat) {row : Nat} {removed : List Nat}
    (h : row ∉ removed) : ∃ new, (removal table oldCount removed).newRow row = some new := by
  rcases Nat.eq_zero_or_pos row with rfl | hlo
  · exact ⟨0, newRow_zero _⟩
  by_cases hhi : row ≤ oldCount
  · exact ⟨_, (newRow_removal hlo hhi).trans (if_neg fun hin => h (List.contains_iff_mem.mp hin))⟩
  · have hlt : (removal table oldCount removed).oldCount < row := Nat.lt_of_not_le hhi
    exact ⟨_, newRow_of_lt hlt⟩

/-- A row that stays moves towards the front, if at all. -/
theorem newRow_removal_le {table : Table} {oldCount row new : Nat} {removed : List Nat}
    (h : (removal table oldCount removed).newRow row = some new) : new ≤ row := by
  rcases Nat.eq_zero_or_pos row with rfl | hlo
  · rw [newRow_zero] at h
    exact Nat.le_of_eq (Option.some.inj h).symm
  by_cases hhi : row ≤ oldCount
  · rw [newRow_removal hlo hhi] at h
    split at h
    · cases h
    · obtain rfl := Option.some.inj h
      have hcount : ((keeps oldCount removed).take (row - 1)).count true ≤ row - 1 :=
        Nat.le_trans List.count_le_length (List.length_take_le _ _)
      omega
  · have hlt : (removal table oldCount removed).oldCount < row := Nat.lt_of_not_le hhi
    have hle : (removal table oldCount removed).newCount ≤
        (removal table oldCount removed).oldCount :=
      newCount_removal_le table oldCount removed
    rw [newRow_of_lt hlt] at h
    obtain rfl := Option.some.inj h
    omega

theorem not_mem_of_newRow_removal {table : Table} {oldCount row new : Nat} {removed : List Nat}
    (hlo : 1 ≤ row) (hhi : row ≤ oldCount)
    (h : (removal table oldCount removed).newRow row = some new) : row ∉ removed := by
  rw [newRow_removal hlo hhi] at h
  split at h
  · cases h
  · rename_i hstays
    exact fun hin => hstays (List.contains_iff_mem.mpr hin)

end Renumbering

namespace Assembly

/-- A row holds a token, in its signature or in a column that is no start of a run. -/
def Holds (assembly : Assembly) (table : Table) (row : Nat) (token : Token) : Prop :=
  ∃ columns, assembly.tables.row? table row = some columns ∧
    ((∃ (c : Nat) (kind : ColumnKind) (value : Nat), table.columns[c]? = some kind ∧
      columns[c]? = some value ∧ (∀ target, kind ≠ .list target) ∧
        columnTarget kind value = .ok (some token)) ∨
    ∃ site ∈ SignatureColumn.all, site.table = table ∧ assembly.SignatureNames site columns token)

theorem Holds.refers {assembly : Assembly} {table : Table} {row : Nat} {token : Token}
    (h : assembly.Holds table row token) : assembly.Refers table row token := by
  obtain ⟨columns, hrow, ⟨c, kind, value, hkind, hvalue, -, htarget⟩ | hsignature⟩ := h
  · exact ⟨columns, hrow, .inl ⟨c, kind, value, hkind, hvalue, htarget⟩⟩
  · exact ⟨columns, hrow, .inr hsignature⟩

/-- A body of the image holds a token, or the code of an added body does. -/
def CodeNames (assembly : Assembly) (token : Token) : Prop :=
  (∃ rva ∈ assembly.bodyRvas, ∃ offset body instructions, assembly.image.offsetOf rva = .ok offset ∧
    HasBody assembly.image offset body instructions ∧ token ∈ body.tokens instructions) ∨
  ∃ entry ∈ assembly.addedBodies, ∃ body instructions, MethodBody.read entry.2 = .ok body ∧
    Code.decode (body.code entry.2) = .ok instructions ∧ token ∈ Code.tokensOf instructions

/-- An added body holds a token outside its code. -/
def OuterNames (assembly : Assembly) (token : Token) : Prop :=
  ∃ entry ∈ assembly.addedBodies, ∃ body, MethodBody.read entry.2 = .ok body ∧
    token ∈ body.outerTokens

theorem CodeNames.bodiesName {assembly : Assembly} {token : Token} (h : assembly.CodeNames token) :
    assembly.BodiesName token := by
  rcases h with hstored | ⟨entry, hentry, body, instructions, hread, hdecode, hmem⟩
  · exact .inl hstored
  · exact .inr ⟨entry, hentry, body, instructions, hread, hdecode, List.mem_append_left _ hmem⟩

/-- Nothing that a renumbering goes through refers to a row, except perhaps rows that go as well.
The tokens of added bodies outside their code are not gone through. -/
structure Detached (assembly : Assembly) (gone : Table → Nat → Prop) (table : Table) (row : Nat) :
    Prop where
  rows : ∀ source n, ¬gone source n → ∀ token, assembly.Holds source n token →
    ¬token.Names table row
  bodies : ∀ token, assembly.CodeNames token → ¬token.Names table row
  entryPoint : ¬assembly.entryPoint.Names table row

/-- Nothing refers to a row, except perhaps rows that go as well. -/
structure Unused (assembly : Assembly) (gone : Table → Nat → Prop) (table : Table) (row : Nat) :
    Prop where
  rows : ∀ source n, ¬gone source n → ∀ token, assembly.Refers source n token →
    ¬token.Names table row
  bodies : ∀ token, assembly.BodiesName token → ¬token.Names table row
  entryPoint : ¬assembly.entryPoint.Names table row

theorem Unused.detached {assembly : Assembly} {gone : Table → Nat → Prop}
    {table : Table} {row : Nat}
    (h : assembly.Unused gone table row) : assembly.Detached gone table row where
  rows := fun source n hstays token hholds => h.rows source n hstays token hholds.refers
  bodies := fun token hnames => h.bodies token hnames.bodiesName
  entryPoint := h.entryPoint

/-! ## Success -/

section

variable {kind : Error → Prop} {assembly : Assembly} {table : Table} {rows : List Nat}

/-- A row has a new number unless it goes. -/
theorem failsOnly_newReference_removal {source : Table} {row : Nat} (oldCount : Nat)
    (h : row ∈ rows → ∀ violation, kind (.invariant violation)) :
    Outcome.FailsOnly kind ((Renumbering.removal table oldCount rows).newReference source row) := by
  by_cases hmem : row ∈ rows
  · unfold Renumbering.newReference
    split
    · exact .ok _
    · intro e heq
      rw [← Except.error.inj heq]
      exact h hmem _
  · obtain ⟨new, hnew⟩ := Renumbering.exists_newRow_removal table oldCount hmem
    exact .of_eq_ok (Renumbering.exists_newReference hnew)

/-- A token has a new form unless it names a row that goes. -/
theorem failsOnly_newToken_removal {token : Token} (oldCount : Nat)
    (h : ∀ row ∈ rows, token.Names table row → ∀ violation, kind (.invariant violation)) :
    Outcome.FailsOnly kind ((Renumbering.removal table oldCount rows).newToken token) := by
  unfold Renumbering.newToken
  split
  · rename_i htable
    by_cases hmem : token.row ∈ rows
    · split
      · exact .ok _
      · intro e heq
        rw [← Except.error.inj heq]
        exact h token.row hmem ⟨htable, rfl⟩ _
    · obtain ⟨new, hnew⟩ := Renumbering.exists_newRow_removal table oldCount hmem
      rw [hnew]
      exact .ok _
  · exact .ok token

/-- A new token names a row of the same table, and none further behind. -/
theorem newToken_removal_le {token new : Token} {oldCount : Nat}
    (h : (Renumbering.removal table oldCount rows).newToken token = .ok new) :
    new.table? = token.table? ∧ new.row ≤ token.row := by
  unfold Renumbering.newToken at h
  split at h
  · rename_i htable
    split at h
    · rename_i row hrow
      obtain rfl := Except.ok.inj h
      refine ⟨(Token.table?_ofRow _ _).trans htable.symm, ?_⟩
      rw [Token.row_ofRow]
      exact Nat.le_trans (Nat.mod_le _ _) (Renumbering.newRow_removal_le hrow)
    · cases h
  · obtain rfl := Except.ok.inj h
    exact ⟨rfl, Nat.le_refl _⟩

/-- What is taken out can be missed, up to failures of a kind that stand for what refers to it. -/
theorem namesKept_of_removal (hwf : assembly.WellFormed)
    (hfit : table.isSignatureTarget = true → assembly.SignaturesFit) (hmethod : table ≠ .methodDef)
    (h : ∀ row ∈ rows, (∀ violation, kind (.invariant violation)) ∨
      assembly.Detached (fun source n => source = table ∧ n ∈ rows) table row) :
    NamesKept kind (Renumbering.removal table (assembly.tables.count table) rows) assembly := by
  have hstays : ∀ {source n n'}, (∃ columns, assembly.tables.row? source n = some columns) →
      (Renumbering.removal table (assembly.tables.count table) rows).place source n = some n' →
        ¬(source = table ∧ n ∈ rows) := by
    rintro source n n' hexists hplace ⟨rfl, hmem⟩
    obtain ⟨hlo, hhi⟩ := Tables.exists_row?.mp hexists
    exact Renumbering.not_mem_of_newRow_removal hlo hhi
      ((Renumbering.place_removal _ _ _ _).symm.trans hplace) hmem
  have hheld : ∀ {source n token}, ¬(source = table ∧ n ∈ rows) → assembly.Holds source n token →
      ∀ row ∈ rows, token.Names table row → ∀ violation, kind (.invariant violation) := by
    intro source n token hstay hholds row hmem hnames
    exact (h row hmem).resolve_right fun hdetached =>
      hdetached.rows source n hstay token hholds hnames
  have hcode : ∀ {token}, assembly.CodeNames token →
      ∀ row ∈ rows, token.Names table row → ∀ violation, kind (.invariant violation) := by
    intro token hcode row hmem hnames
    exact (h row hmem).resolve_right fun hdetached => hdetached.bodies token hcode hnames
  constructor
  · intro source n n' columns hrow hplace c column value hkind hvalue
    have hin :=
      hwf.inRange source columns (Tables.mem_rows.mpr ⟨n, hrow⟩) c column value hkind hvalue
    refine Renumbering.failsOnly_newColumn source n' hin fun old htarget hlist _ hle => ?_
    refine failsOnly_newReference_removal _ fun hmem => ?_
    exact hheld (hstays ⟨columns, hrow⟩ hplace)
      ⟨columns, hrow, .inl ⟨c, column, value, hkind, hvalue, hlist, htarget⟩⟩ old hmem
      (Token.names_ofRow (Nat.lt_of_le_of_lt hle (hwf.counts table)))
  · exact failsOnly_newToken_removal _ fun row hmem hnames =>
      (h row hmem).resolve_right fun hdetached => hdetached.entryPoint hnames
  · exact fun hmethod' => absurd hmethod' hmethod
  · intro _ row row' columns rva offset body instructions hrow _ hrva hoffset hbody token htoken
    have hmem : rva ∈ assembly.bodyRvas :=
      mem_bodyRvas.mpr ⟨columns, Tables.mem_rows.mpr ⟨row, hrow⟩, hrva⟩
    exact failsOnly_newToken_removal _
      (hcode (.inl ⟨rva, hmem, offset, body, instructions, hoffset, hbody, htoken⟩))
  · intro _ entry hentry
    obtain ⟨body, instructions, hread, hdecode, -⟩ := hwf.added entry hentry
    exact ⟨body, instructions, hread, hdecode, fun token htoken => failsOnly_newToken_removal _
      (hcode (.inr ⟨entry, hentry, body, instructions, hread, hdecode, htoken⟩))⟩
  · intro htarget site hsite row row' columns hrow hplace
    have hmem := Tables.mem_rows.mpr ⟨row, hrow⟩
    obtain ⟨index, hindex, -⟩ := hwf.exists_value hrow (Tables.kind_of_signatureColumn site hsite)
    refine ⟨index, hindex, fun hne => ?_⟩
    obtain ⟨blob, tokens, hget, htokens⟩ := hfit htarget site hsite columns hmem index hindex hne
    refine ⟨blob, tokens, hget, htokens,
      BlobForm.failsOnly_mapTokens htokens fun token htoken => ?_,
      fun updated hupdated => ?_⟩
    · refine ⟨failsOnly_newToken_removal _ (hheld (hstays ⟨columns, hrow⟩ hplace) ?_),
        fun new hnew => (newToken_removal_le hnew).1⟩
      exact ⟨columns, hrow, .inr ⟨site, hsite, rfl, index, blob, tokens, hindex, hne, hget, htokens,
        htoken⟩⟩
    · exact Nat.lt_of_le_of_lt (BlobForm.length_mapTokens_le htokens
        (fun _ _ _ hnew => newToken_removal_le hnew) hupdated) (BlobHeap.length_lt_limit hget)

theorem failsOnly_removal (hwf : assembly.WellFormed)
    (hfit : table.isSignatureTarget = true → assembly.SignaturesFit) (hmethod : table ≠ .methodDef)
    (h : ∀ row ∈ rows, (∀ violation, kind (.invariant violation)) ∨
      assembly.Detached (fun source n => source = table ∧ n ∈ rows) table row) :
    Outcome.FailsOnly kind
      (assembly.renumber (.removal table (assembly.tables.count table) rows) []) :=
  failsOnly_renumber (.removal _ _ _) rfl rfl (fun _ => rfl)
    (fun _ _ hmem => absurd hmem List.not_mem_nil) hwf.ascending (fun _ => hwf.bodies)
    (namesKept_of_removal hwf hfit hmethod h)

/-- Rows can be taken out if nothing that stays refers to them. -/
theorem exists_removal (hwf : assembly.WellFormed)
    (hfit : table.isSignatureTarget = true → assembly.SignaturesFit) (hmethod : table ≠ .methodDef)
    (h : ∀ row ∈ rows, assembly.Detached (fun source n => source = table ∧ n ∈ rows) table row) :
    ∃ after, assembly.renumber (.removal table (assembly.tables.count table) rows) [] = .ok after :=
  Outcome.exists_of_failsOnly
    (failsOnly_removal hwf hfit hmethod fun row hmem => .inr (h row hmem))

theorem wellFormed_of_removal {after : Assembly} (hwf : assembly.WellFormed)
    (h : assembly.renumber (.removal table (assembly.tables.count table) rows) [] = .ok after) :
    after.WellFormed := by
  refine wellFormed_of_renumber (.removal _ _ _) hwf (fun _ _ hmem => absurd hmem List.not_mem_nil)
    (fun _ hmem => absurd hmem List.not_mem_nil) ?_ h
  exact Nat.lt_of_le_of_lt (Renumbering.newCount_removal_le _ _ _) (hwf.counts table)

end

/-! ## References afterwards -/

section

variable {renumbering : Renumbering} {before after : Assembly}

theorem ne_of_target {target : Table} {row : Nat} {token : Token}
    (h : (if row = 0 then none else some (Token.ofRow target row)) = some token)
    (hother : token.table? ≠ some renumbering.table) : target ≠ renumbering.table := by
  rintro rfl
  split at h
  · cases h
  · rw [← Option.some.inj h, Token.table?_ofRow] at hother
    exact hother rfl

/-- A column that names a row of another table has named it before. -/
theorem columnTarget_of_sameColumn {tables : Tables} {kind : ColumnKind} {value value' : Nat}
    {token : Token} (hcounts : ∀ table, tables.count table < Token.rowLimit)
    (hin : tables.InRange kind value) (hsame : renumbering.SameColumn kind value value')
    (hother : token.table? ≠ some renumbering.table)
    (htarget : columnTarget kind value' = .ok (some token)) :
    columnTarget kind value = .ok (some token) := by
  cases kind with
  | index target =>
      have htable := ne_of_target (Except.ok.inj htarget) hother
      have hplace : some value = some value' :=
        (renumbering.place_of_ne htable value).symm.trans hsame
      rw [Option.some.inj hplace]
      exact htarget
  | list target =>
      rw [← hsame (ne_of_target (Except.ok.inj htarget) hother)]
      exact htarget
  | coded coded =>
      obtain ⟨target, row, hdecode, hle⟩ := hin
      obtain ⟨target', row', new, hdecode', hplace, hnew⟩ := hsame
      obtain ⟨rfl, rfl⟩ := Prod.mk.inj (Except.ok.inj (hdecode.symm.trans hdecode'))
      rw [columnTarget, hnew, Outcome.ok_bind] at htarget
      rw [columnTarget, hdecode, Outcome.ok_bind]
      have htable := ne_of_target (Except.ok.inj htarget) hother
      have hstays := (renumbering.place_of_ne htable row).symm.trans hplace
      rw [← Option.some.inj hstays, CodedKind.mod_eq_of_lt_rowLimit coded
        (Nat.lt_of_le_of_lt hle (hcounts target))] at htarget
      exact htarget
  | _ => cases htarget

/-- A row that refers to a row of another table has referred to it before. -/
theorem refers_of_renumber (hmade : renumbering.Made) (hwf : before.WellFormed)
    (hplain : renumbering.table.isSignatureTarget = false)
    (h : before.renumber renumbering [] = .ok after) {table : Table} {row' : Nat} {token : Token}
    (hother : token.table? ≠ some renumbering.table) (hrefers : after.Refers table row' token) :
    ∃ row, renumbering.place table row = some row' ∧ before.Refers table row token := by
  have hmoved := movedTo_of_renumber hmade h
  have hkeeps := keepsMeaning_of_renumber hmade hwf
    (fun _ _ hmem => absurd hmem List.not_mem_nil) h
  obtain ⟨hblobs, hsignatures⟩ := signatures_of_renumber hmade hplain h
  obtain ⟨columns', hrow', hrefers⟩ := hrefers
  rcases row_of_keepsMeaning hmoved hkeeps hrow' with
    ⟨-, columns, hmem, -⟩ | ⟨row, columns, hrow, hplace, hlength, hcolumns⟩
  · exact absurd hmem List.not_mem_nil
  refine ⟨row, hplace, columns, hrow, ?_⟩
  rcases hrefers with ⟨c, kind, value', hkind, hvalue', htarget⟩ | ⟨site, hsite, rfl, hnames⟩
  · have hc : ¬Tables.IsSignatureColumn table c := by
      rintro ⟨site, hsite, rfl, rfl⟩
      rw [Tables.kind_of_signatureColumn site hsite] at hkind
      rw [← Option.some.inj hkind] at htarget
      cases htarget
    have hlt : c < columns.length := hlength ▸ (List.getElem?_eq_some_iff.mp hvalue').1
    have hvalue := List.getElem?_eq_getElem hlt
    obtain ⟨value'', hget, hsame⟩ := hcolumns c kind _ hkind hvalue hc
    obtain rfl := Option.some.inj (hget.symm.trans hvalue')
    have hin := hwf.inRange table columns (Tables.mem_rows.mpr ⟨row, hrow⟩) c kind _ hkind hvalue
    exact .inl ⟨c, kind, _, hkind, hvalue,
      columnTarget_of_sameColumn hwf.counts hin hsame hother htarget⟩
  · obtain ⟨index, blob, tokens, hindex, hne, hget, htokens, hmem⟩ := hnames
    rw [hsignatures _ _ _ _ _ hrow hplace hrow' _ ⟨site, hsite, rfl, rfl⟩] at hindex
    rw [hblobs] at hget
    exact .inr ⟨site, hsite, rfl, index, blob, tokens, hindex, hne, hget, htokens, hmem⟩

/-- Signatures that no row is renumbered in can be read as before. -/
theorem signaturesFit_of_renumber (hmade : renumbering.Made)
    (hplain : renumbering.table.isSignatureTarget = false)
    (h : before.renumber renumbering [] = .ok after) (hfit : before.SignaturesFit) :
    after.SignaturesFit := by
  obtain ⟨hblobs, hsignatures⟩ := signatures_of_renumber hmade hplain h
  intro site hsite columns' hmem index hindex hne
  obtain ⟨row', hrow'⟩ := Tables.mem_rows.mp hmem
  rcases (movedTo_of_renumber hmade h).origin _ _ _ hrow' with
      ⟨htable, hin⟩ | ⟨row, columns, hrow, hplace⟩
  · obtain ⟨columns, hsupplied, -⟩ := (movedTo_of_renumber hmade h).of_isInserted hin
    exact absurd hsupplied List.not_mem_nil
  · rw [hsignatures _ _ _ _ _ hrow hplace hrow' _ ⟨site, hsite, rfl, rfl⟩] at hindex
    rw [hblobs]
    exact hfit site hsite columns (Tables.mem_rows.mpr ⟨row, hrow⟩) index hindex hne

theorem eq_of_sameRow {old new : Token} (h : renumbering.SameRow old new)
    (hother : new.table? ≠ some renumbering.table) : new = old := by
  unfold Renumbering.SameRow at h
  split at h
  · obtain ⟨row, -, hnew, -⟩ := h
    exact absurd hnew hother
  · exact h

theorem mem_tokens_of_follows {body body' : MethodBody}
    {instructions instructions' : List Instruction}
    {token : Token} (hfollows : body.Follows renumbering.SameRow body')
    (hmaps : List.Forall₂ (Instruction.MapsTo renumbering.SameRow) instructions instructions')
    (hother : token.table? ≠ some renumbering.table) (hmem : token ∈ body'.tokens instructions') :
    token ∈ body.tokens instructions := by
  rcases List.mem_append.mp hmem with hcode | houter
  · obtain ⟨old, hold, hsame⟩ := Outcome.exists_of_forall₂_right (Code.tokensOf_mapsTo hmaps) hcode
    exact List.mem_append_left _ (eq_of_sameRow hsame hother ▸ hold)
  · obtain ⟨old, hold, hsame | ⟨-, rfl⟩⟩ := hfollows.origin houter
    · exact List.mem_append_right _ (eq_of_sameRow hsame hother ▸ hold)
    · exact List.mem_append_right _ hold

/-- A body that names a row of another table has named it before. -/
theorem bodiesName_of_renumber (hmade : renumbering.Made) (hwf : before.WellFormed)
    (h : before.renumber renumbering [] = .ok after) {token : Token}
    (hother : token.table? ≠ some renumbering.table) (hnames : after.BodiesName token) :
    before.BodiesName token := by
  have hnone : renumbering.table = .methodDef →
      ∀ columns ∈ ([] : List Row), columns.getD MethodDef.rvaColumn 0 = 0 :=
    fun _ _ hmem => absurd hmem List.not_mem_nil
  have hmoved := movedTo_of_renumber hmade h
  rcases hnames with ⟨rva, hrva, offset, body', instructions', hoffset, hbody', hmem⟩ |
    ⟨entry', hentry', body', instructions', hread', hdecode', hmem⟩
  · rw [(image_of_renumber hmade hwf.bodies hnone h).1] at hoffset
    obtain ⟨body, body₂, instructions, instructions₂, hbody, hbody₂, hfollows, hmaps, -⟩ :=
      bodyFollows_of_renumber hmade hwf hnone h hrva hoffset
    obtain ⟨rfl, rfl⟩ := hbody₂.unique hbody'
    exact .inl ⟨rva, bodyRvas_of_movedTo hmoved hnone hrva, offset, body, instructions, hoffset,
      hbody, mem_tokens_of_follows hfollows hmaps hother hmem⟩
  · obtain ⟨entry, hentry, -, body, instructions, instructions₂, hread, hread₂, hdecode, hdecode₂,
      hmaps⟩ := addedOrigin_of_renumber hmade.lawful hwf h hentry'
    obtain rfl := Except.ok.inj (hread₂.symm.trans hread')
    obtain rfl := Except.ok.inj (hdecode₂.symm.trans hdecode')
    refine .inr ⟨entry, hentry, _, instructions, hread, hdecode, ?_⟩
    rcases List.mem_append.mp hmem with hcode | houter
    · obtain ⟨old, hold, hsame⟩ :=
        Outcome.exists_of_forall₂_right (Code.tokensOf_mapsTo hmaps) hcode
      exact List.mem_append_left _ (eq_of_sameRow hsame hother ▸ hold)
    · exact List.mem_append_right _ houter

/-- The entry point names the same rows of other tables as before. -/
theorem names_entryPoint_of_renumber (h : before.renumber renumbering [] = .ok after)
    {table : Table}
    {row : Nat} (htable : table ≠ renumbering.table) :
    after.entryPoint.Names table row ↔ before.entryPoint.Names table row := by
  have hother : ∀ {token : Token}, token.Names table row →
      token.table? ≠ some renumbering.table := by
    intro token hnames heq
    exact htable (Option.some.inj (hnames.1.symm.trans heq))
  have hsame := sameRow_entryPoint h
  constructor
  · intro hnames
    exact eq_of_sameRow hsame (hother hnames) ▸ hnames
  · intro hnames
    rw [Renumbering.SameRow, if_neg (hother hnames)] at hsame
    exact hsame.symm ▸ hnames

/-- Rows of other tables stay unused. -/
theorem Unused.of_renumber (hmade : renumbering.Made) (hwf : before.WellFormed)
    (hplain : renumbering.table.isSignatureTarget = false)
    (h : before.renumber renumbering [] = .ok after) {gone gone' : Table → Nat → Prop}
    (hgone : ∀ table row row', renumbering.place table row = some row' → gone table row →
      gone' table row') {table : Table} {row : Nat} (htable : table ≠ renumbering.table)
    (hunused : before.Unused gone table row) : after.Unused gone' table row := by
  have hother : ∀ {token : Token}, token.Names table row →
      token.table? ≠ some renumbering.table := by
    intro token hnames heq
    exact htable (Option.some.inj (hnames.1.symm.trans heq))
  constructor
  · intro source n' hstays token hrefers hnames
    obtain ⟨n, hplace, hbefore⟩ := refers_of_renumber hmade hwf hplain h (hother hnames) hrefers
    exact hunused.rows source n
      (fun hin => hstays (hgone source n n' hplace hin)) token hbefore hnames
  · intro token hbodies hnames
    exact hunused.bodies token (bodiesName_of_renumber hmade hwf h (hother hnames) hbodies) hnames
  · exact fun hnames => hunused.entryPoint ((names_entryPoint_of_renumber h htable).mp hnames)

end

end Assembly

end NativeExports
