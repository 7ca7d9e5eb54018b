import Mathlib
import NativeExports.Proofs.CodedIndices
import NativeExports.Proofs.Renumbering.Steps
import NativeExports.Proofs.WellFormed

/-!
# References mean the same after renumbering

Renumbering is right if every reference names the row it named before, under its new number.  This
holds for columns, for the entry point, for the rows of added bodies, for the bodies of the image
and for the code of added bodies.  It holds for the exception clauses and the local variables of
added bodies only as far as the renumbering leaves their tokens alone, because these are not
renumbered.

Tokens hold 24 bits of a row number, and coded indices what fits above their tag.
-/

namespace NativeExports

namespace Renumbering

/-- Two tokens name the same row, the one before and the other after the renumbering. -/
def SameRow (renumbering : Renumbering) (old new : Token) : Prop :=
  if old.table? = some renumbering.table then
    ∃ row, renumbering.newRow old.row = some row ∧ new.table? = some renumbering.table ∧
      new.row = row % Token.rowLimit
  else new = old

/-- Two values of a column mean the same, the one before and the other after the renumbering.  Where
runs of rows begin is another matter. -/
def SameColumn (renumbering : Renumbering) (kind : ColumnKind) (old new : Nat) : Prop :=
  match kind with
  | .index target => renumbering.place target old = some new
  | .coded coded =>
    ∃ target oldRow newRow, coded.decode old = .ok (target, oldRow) ∧
      renumbering.place target oldRow = some newRow ∧
      coded.decode new = .ok (target, newRow % 2 ^ (32 - coded.tagWidth))
  | .list target => target ≠ renumbering.table → new = old
  | _ => new = old

theorem sameRow_of_newToken {renumbering : Renumbering} {old new : Token}
    (h : renumbering.newToken old = .ok new) : renumbering.SameRow old new := by
  unfold newToken at h
  unfold SameRow
  split at h
  · rename_i htable
    rw [if_pos htable]
    split at h
    · rename_i row hrow
      obtain rfl := Except.ok.inj h
      exact ⟨row, hrow, Token.table?_ofRow _ _, Token.row_ofRow _ _⟩
    · cases h
  · rename_i htable
    rw [if_neg htable]
    exact (Except.ok.inj h).symm

theorem sameRow_of_isNull {renumbering : Renumbering} {token : Token}
    (h : token.isNull = true) : renumbering.SameRow token token := by
  have hrow : token.row = 0 := by simpa [Token.isNull] using h
  unfold SameRow
  split
  · rename_i htable
    refine ⟨0, ?_, htable, hrow⟩
    rw [hrow, newRow_zero]
  · rfl

/-- A token that code may hold is left alone by a renumbering of a table that code cannot name. -/
theorem newToken_of_isCodeToken {renumbering : Renumbering} {token : Token}
    (htoken : token.IsCodeToken) (htable : renumbering.table.isCodeTarget = false) :
    renumbering.newToken token = .ok token := by
  unfold newToken
  rw [if_neg]
  intro heq
  have := htoken _ heq
  rw [htable] at this
  cases this

theorem sameColumn_of_newColumn {renumbering : Renumbering} {tables : Tables} {source : Table}
    {row : Nat} {kind : ColumnKind} {old new : Nat} (hrange : tables.InRange kind old)
    (hcounts : ∀ table, tables.count table < Token.rowLimit)
    (h : renumbering.newColumn source row kind old = .ok new) :
    renumbering.SameColumn kind old new := by
  cases kind with
  | index target =>
      simp only [newColumn] at h
      split at h
      · rename_i htarget
        rw [SameColumn, htarget, place_self]
        exact Assembly.newReference_eq_ok.mp h
      · rename_i htarget
        obtain rfl := Except.ok.inj h
        exact place_of_ne htarget old
  | list target =>
      intro htarget
      simp only [newColumn, if_neg htarget] at h
      exact (Except.ok.inj h).symm
  | coded coded =>
      obtain ⟨target, oldRow, hdecode, hin⟩ := hrange
      have hsmall : oldRow % 2 ^ (32 - coded.tagWidth) = oldRow :=
        coded.mod_eq_of_lt_rowLimit (Nat.lt_of_le_of_lt hin (hcounts target))
      refine ⟨target, oldRow, ?_⟩
      simp only [newColumn] at h
      by_cases hmoves : target = renumbering.table ∧ oldRow ≠ 0
      · obtain ⟨rfl, hne⟩ := hmoves
        rw [if_pos (CodedKind.contains_of_decode hdecode), hdecode, Outcome.ok_bind] at h
        dsimp only at h
        rw [if_pos ⟨rfl, hne⟩] at h
        obtain ⟨newRow, hnew, hencode⟩ := Outcome.bind_eq_ok.mp h
        exact ⟨newRow, hdecode, (place_self _ _).trans (Assembly.newReference_eq_ok.mp hnew),
          CodedKind.decode_encode hencode⟩
      · have hsame : new = old := by
          split at h
          · rw [hdecode, Outcome.ok_bind] at h
            dsimp only at h
            rw [if_neg hmoves] at h
            exact (Outcome.pure_eq_ok.mp h).symm
          · exact (Except.ok.inj h).symm
        subst hsame
        refine ⟨oldRow, hdecode, ?_, by rw [hsmall]; exact hdecode⟩
        by_cases htarget : target = renumbering.table
        · have hzero : oldRow = 0 := by
            by_contra hne
            exact hmoves ⟨htarget, hne⟩
          rw [htarget, place_self, hzero, newRow_zero]
        · exact place_of_ne htarget oldRow
  | _ => exact (Except.ok.inj h).symm

end Renumbering

/-! ## Bodies whose tokens stay -/

theorem Code.mapsTo_self {related : Token → Token → Prop} {instructions : List Instruction}
    (h : ∀ token ∈ tokensOf instructions, related token token) :
    List.Forall₂ (Instruction.MapsTo related) instructions instructions := by
  refine List.forall₂_same.mpr fun instruction hmem => ⟨?_, rfl⟩
  by_cases htoken : ∃ token, instruction.operand = .token token
  · obtain ⟨token, htoken⟩ := htoken
    rw [htoken]
    exact .token (h token (List.mem_filterMap.mpr ⟨instruction, hmem, by rw [htoken]⟩))
  · exact .plain fun token heq => htoken ⟨token, heq⟩

namespace MethodBody

/-- A body means the same with the tokens it has if each of them does. -/
theorem follows_self_iff {related : Token → Token → Prop} {body : MethodBody}
    (hnull : ∀ token : Token, token.isNull = true → related token token) :
    body.Follows related body ↔ ∀ token ∈ body.outerTokens, related token token := by
  constructor
  · intro h token hmem
    rcases mem_outerTokens.mp hmem with ⟨clause, hclause, hnames, -, rfl⟩ | ⟨hfat, hne, rfl⟩
    · by_cases hzero : (⟨clause.classOrFilter⟩ : Token).isNull = true
      · exact hnull _ hzero
      · exact (List.forall₂_same.mp h.clauses clause hclause).type.1 ⟨hnames, by simpa using hzero⟩
    · exact h.locals.1 ⟨hfat, hne⟩
  · intro h
    refine ⟨rfl, ⟨fun hlocals => ?_, fun _ => rfl⟩, List.forall₂_same.mpr fun clause hmem =>
      ⟨rfl, fun htype => ?_, fun _ => rfl⟩⟩
    · exact h _ (mem_outerTokens.mpr (.inr ⟨hlocals.1, hlocals.2, rfl⟩))
    · refine h _ (mem_outerTokens.mpr (.inl ⟨clause, hmem, htype.1, fun hzero => ?_, rfl⟩))
      have hnot := htype.2
      rw [hzero] at hnot
      cases hnot

end MethodBody

/-! ## Assemblies -/

namespace Assembly

/-- Every reference of `before` means the same in `after`.  The exception clauses and the local
variables of added bodies are left out. -/
structure KeepsMeaning (renumbering : Renumbering) (inserted : List Row) (before after : Assembly) :
    Prop where
  /-- The tables have the announced numbers of rows. -/
  counts : ∀ table, after.tables.count table =
    if table = renumbering.table then renumbering.newCount else before.tables.count table
  /-- Every row that stays stands at its new number, and its columns mean what they meant. -/
  rows : ∀ table row row' columns, before.tables.row? table row = some columns →
    renumbering.place table row = some row' →
    ∃ columns', after.tables.row? table row' = some columns' ∧ columns'.length = columns.length ∧
      ∀ (c : Nat) kind value, table.columns[c]? = some kind → columns[c]? = some value →
        ¬Tables.IsSignatureColumn table c →
          ∃ value', columns'[c]? = some value' ∧ renumbering.SameColumn kind value value'
  /-- Every row that is put in stands at its position with the columns supplied. -/
  inserted : ∀ position count owner, renumbering.edit = .insertion position count owner →
    inserted.length = count ∧ ∀ n columns, inserted[n]? = some columns →
      ∃ columns', after.tables.row? renumbering.table (position + n) = some columns' ∧
        Tables.SameButSignatures renumbering.table columns columns'
  /-- There are no other rows. -/
  origin : ∀ table row' columns', after.tables.row? table row' = some columns' →
    (table = renumbering.table ∧ renumbering.isInserted row' = true) ∨
      ∃ row columns, before.tables.row? table row = some columns ∧
        renumbering.place table row = some row'
  entryPoint : renumbering.SameRow before.entryPoint after.entryPoint
  /-- The body of every method that stays is found where it was, and its tokens mean what they
  meant. -/
  bodies : ∀ row row' columns rva, before.tables.row? .methodDef row = some columns →
    renumbering.place .methodDef row = some row' → bodyRva? columns = some rva →
      rva ∈ after.bodyRvas ∧ ∃ offset, before.image.offsetOf rva = .ok offset ∧
        after.image.offsetOf rva = .ok offset ∧
          BodyFollows renumbering.SameRow before.image after.image offset
  /-- Every added body stands under the new row of its method, and its code means what it meant. -/
  added : ∀ entry ∈ before.addedBodies, ∃ entry' ∈ after.addedBodies,
    renumbering.place .methodDef entry.1 = some entry'.1 ∧
      AddedBodyFollows renumbering.SameRow entry.2 entry'.2
  /-- There are no other added bodies, and no row has two of them. -/
  addedOrigin : Ascending after.addedBodies ∧ ∀ entry' ∈ after.addedBodies,
    ∃ entry ∈ before.addedBodies, renumbering.place .methodDef entry.1 = some entry'.1

/-- The exception clauses and the local variables of added bodies mean the same, too. -/
def KeepsOuterMeaning (renumbering : Renumbering) (before after : Assembly) : Prop :=
  ∀ entry ∈ before.addedBodies, ∃ entry' ∈ after.addedBodies,
    renumbering.place .methodDef entry.1 = some entry'.1 ∧
      ∃ body body', MethodBody.read entry.2 = .ok body ∧ MethodBody.read entry'.2 = .ok body' ∧
        body.Follows renumbering.SameRow body'

/-- Code that names no row of the table means the same. -/
theorem addedBodyFollows_of_addedFollows {renumbering : Renumbering} {added added' : Nat × Bytes}
    (h : AddedFollows renumbering added added')
    (hadded : ∃ body instructions, MethodBody.read added.2 = .ok body ∧
      Code.decode (body.code added.2) = .ok instructions ∧
        ∀ token ∈ body.tokens instructions, token.IsCodeToken) :
    AddedBodyFollows renumbering.SameRow added.2 added'.2 := by
  obtain ⟨-, hdata⟩ := h
  split at hdata
  · obtain ⟨body, old, new, hread, hread', hdecode, hdecode', hmaps⟩ := hdata
    exact ⟨body, old, new, hread, hread', hdecode, hdecode', hmaps.imp fun _ _ hmap =>
      hmap.imp fun _ _ => Renumbering.sameRow_of_newToken⟩
  · rename_i hcode
    obtain ⟨body, instructions, hread, hdecode, htokens⟩ := hadded
    rw [hdata]
    refine ⟨body, instructions, instructions, hread, hread, hdecode, hdecode,
      Code.mapsTo_self fun token hmem => Renumbering.sameRow_of_newToken ?_⟩
    exact Renumbering.newToken_of_isCodeToken (htokens token (List.mem_append_left _ hmem))
      (by simpa using hcode)

/-- The bodies of the image mean the same. -/
theorem bodyFollows_of_renumber {renumbering : Renumbering} (hmade : renumbering.Made)
    {inserted : List Row} {before after : Assembly} (hwf : before.WellFormed)
    (hinserted : renumbering.table = .methodDef →
      ∀ columns ∈ inserted, columns.getD MethodDef.rvaColumn 0 = 0)
    (h : before.renumber renumbering inserted = .ok after) {rva : Nat}
    (hafter : rva ∈ after.bodyRvas) {offset : Nat}
    (hoffset : before.image.offsetOf rva = .ok offset) :
    BodyFollows renumbering.SameRow before.image after.image offset := by
  obtain ⟨-, -, hcode, hplain⟩ := image_of_renumber hmade hwf.bodies hinserted h
  have hbefore : rva ∈ before.bodyRvas :=
    bodyRvas_of_movedTo (movedTo_of_renumber hmade h) hinserted hafter
  by_cases htarget : renumbering.table.isCodeTarget = true
  · obtain ⟨body, body', old, new, hold, hnew, hfollows, hmaps, hextent⟩ :=
      hcode htarget rva hafter offset hoffset
    exact ⟨body, body', old, new, hold, hnew,
      hfollows.imp fun _ _ => Renumbering.sameRow_of_newToken,
      hmaps.imp fun _ _ hmap => hmap.imp fun _ _ => Renumbering.sameRow_of_newToken, hextent⟩
  · have htarget : renumbering.table.isCodeTarget = false := by simpa using htarget
    obtain ⟨offset', body, instructions, hoffset', hbody⟩ := hwf.bodies.found rva hbefore
    rw [hoffset] at hoffset'
    obtain rfl := Except.ok.inj hoffset'
    have htokens : ∀ token ∈ body.tokens instructions, renumbering.SameRow token token :=
      fun token hmem => Renumbering.sameRow_of_newToken (Renumbering.newToken_of_isCodeToken
        (hwf.bodyTokens rva hbefore offset body instructions hoffset hbody token hmem) htarget)
    rw [hplain htarget]
    refine ⟨body, body, instructions, instructions, hbody, hbody, ?_, ?_, rfl⟩
    · exact (MethodBody.follows_self_iff fun _ => Renumbering.sameRow_of_isNull).mpr
        fun token hmem => htokens token (List.mem_append_right _ hmem)
    · exact Code.mapsTo_self fun token hmem => htokens token (List.mem_append_left _ hmem)

theorem sameRow_entryPoint {renumbering : Renumbering} {inserted : List Row}
    {before after : Assembly} (h : before.renumber renumbering inserted = .ok after) :
    renumbering.SameRow before.entryPoint after.entryPoint := by
  have hentry := entryPoint_of_renumber h
  unfold newEntryPoint at hentry
  split at hentry
  · rename_i hnull
    rw [← Except.ok.inj hentry]
    exact Renumbering.sameRow_of_isNull hnull
  · exact Renumbering.sameRow_of_newToken hentry

/-- A row that stays stands at its new number, and its columns mean what they meant. -/
theorem sameColumns_of_movedTo {renumbering : Renumbering} {inserted : List Row}
    {before after : Tables} (hmoved : before.MovedTo renumbering inserted after) {table : Table}
    {row row' : Nat} {columns : Row} (hrow : before.row? table row = some columns)
    (hplace : renumbering.place table row = some row')
    (hrange : ∀ (c : Nat) kind value, table.columns[c]? = some kind → columns[c]? = some value →
      before.InRange kind value)
    (hcounts : ∀ table, before.count table < Token.rowLimit) :
    ∃ columns', after.row? table row' = some columns' ∧ columns'.length = columns.length ∧
      ∀ (c : Nat) kind value, table.columns[c]? = some kind → columns[c]? = some value →
        ¬Tables.IsSignatureColumn table c →
          ∃ value', columns'[c]? = some value' ∧ renumbering.SameColumn kind value value' := by
  obtain ⟨columns', hrow', hlength, hcolumns⟩ := hmoved.rows table row row' columns hrow hplace
  refine ⟨columns', hrow', hlength, fun c kind value hkind hvalue hc => ?_⟩
  obtain ⟨value', hvalue', hnew⟩ := hcolumns c kind value hkind hvalue hc
  exact ⟨value', hvalue', Renumbering.sameColumn_of_newColumn (hrange c kind value hkind hvalue)
    hcounts hnew⟩

theorem keepsMeaning_of_renumber {renumbering : Renumbering} (hmade : renumbering.Made)
    {inserted : List Row} {before after : Assembly} (hwf : before.WellFormed)
    (hinserted : renumbering.table = .methodDef →
      ∀ columns ∈ inserted, columns.getD MethodDef.rvaColumn 0 = 0)
    (h : before.renumber renumbering inserted = .ok after) :
    KeepsMeaning renumbering inserted before after := by
  have hmoved := movedTo_of_renumber hmade h
  obtain ⟨hascending, hforth, hback⟩ := addedBodies_of_renumber hmade.lawful hwf.ascending h
  refine ⟨hmoved.counts, ?_, ?_, hmoved.origin, sameRow_entryPoint h, ?_, ?_, hascending, ?_⟩
  · intro table row row' columns hrow hplace
    exact sameColumns_of_movedTo hmoved hrow hplace
      (hwf.inRange table columns (Tables.mem_rows.mpr ⟨row, hrow⟩)) hwf.counts
  · intro position count owner hedit
    refine ⟨?_, hmoved.inserted position count owner hedit⟩
    rw [hmoved.fits.2, Renumbering.suppliedCount, hedit]
  · intro row row' columns rva hrow hplace hrva
    obtain ⟨columns', hrow', hfollows⟩ := hmoved.rows _ _ _ _ hrow hplace
    have hbefore : rva ∈ before.bodyRvas :=
      mem_bodyRvas.mpr ⟨columns, List.mem_of_getElem? (Tables.row?_eq_some.mp hrow).2, hrva⟩
    have hafter : rva ∈ after.bodyRvas := by
      refine mem_bodyRvas.mpr ⟨columns', List.mem_of_getElem? (Tables.row?_eq_some.mp hrow').2, ?_⟩
      rw [bodyRva?_congr (hfollows.getElem?_eq rfl (by decide) fun _ => rfl)
        (hfollows.getElem?_eq rfl (by decide) fun _ => rfl)]
      exact hrva
    obtain ⟨offset, body, instructions, hoffset, -⟩ := hwf.bodies.found rva hbefore
    refine ⟨hafter, offset, hoffset, ?_,
      bodyFollows_of_renumber hmade hwf hinserted h hafter hoffset⟩
    rw [(image_of_renumber hmade hwf.bodies hinserted h).1]
    exact hoffset
  · intro entry hmem
    obtain ⟨entry', hmem', hplace, hfollows⟩ := hforth entry hmem
    have hbody := addedBodyFollows_of_addedFollows hfollows (hwf.added entry hmem)
    exact ⟨entry', hmem', hplace, hbody⟩
  · intro entry' hmem'
    obtain ⟨entry, hmem, hplace, -⟩ := hback entry' hmem'
    exact ⟨entry, hmem, hplace⟩

/-- The exception clauses and the local variables of added bodies keep their tokens.  So they keep
their meaning exactly if the renumbering leaves the rows alone that these tokens name. -/
theorem keepsOuterMeaning_iff {renumbering : Renumbering} (hlawful : renumbering.Lawful)
    {inserted : List Row} {before after : Assembly} (hwf : before.WellFormed)
    (h : before.renumber renumbering inserted = .ok after) :
    KeepsOuterMeaning renumbering before after ↔
      ∀ entry ∈ before.addedBodies, ∀ body, MethodBody.read entry.2 = .ok body →
        ∀ token ∈ body.outerTokens, renumbering.SameRow token token := by
  obtain ⟨hascending, hforth, -⟩ := addedBodies_of_renumber hlawful hwf.ascending h
  have hread : ∀ entry ∈ before.addedBodies, ∃ entry' ∈ after.addedBodies,
      renumbering.place .methodDef entry.1 = some entry'.1 ∧ ∃ body,
        MethodBody.read entry.2 = .ok body ∧ MethodBody.read entry'.2 = .ok body := by
    intro entry hmem
    obtain ⟨entry', hmem', hplace, hfollows⟩ := hforth entry hmem
    obtain ⟨body, -, -, hbody, hbody', -⟩ :=
      addedBodyFollows_of_addedFollows hfollows (hwf.added entry hmem)
    exact ⟨entry', hmem', hplace, body, hbody, hbody'⟩
  constructor
  · intro hkeeps entry hmem body hbody
    obtain ⟨entry', hmem', hplace, body₁, body₂, hbody₁, hbody₂, hfollows⟩ := hkeeps entry hmem
    obtain ⟨entry₃, hmem₃, hplace₃, body₃, hbody₃, hbody₃'⟩ := hread entry hmem
    -- The added body under the new row is unique, so it is the one whose layout is known.
    rw [hplace₃] at hplace
    have hrow : entry₃.1 = entry'.1 := Option.some.inj hplace
    have hmem₃' : (entry₃.1, entry'.2) ∈ after.addedBodies := hrow ▸ hmem'
    have hdata : entry₃.2 = entry'.2 := hascending.body_eq hmem₃ hmem₃'
    rw [hbody] at hbody₁ hbody₃
    rw [← hdata, hbody₃'] at hbody₂
    obtain rfl := Except.ok.inj hbody₁
    obtain rfl := Except.ok.inj hbody₂
    obtain rfl := Except.ok.inj hbody₃
    exact (MethodBody.follows_self_iff fun _ => Renumbering.sameRow_of_isNull).mp hfollows
  · intro hstays entry hmem
    obtain ⟨entry', hmem', hplace, body, hbody, hbody'⟩ := hread entry hmem
    exact ⟨entry', hmem', hplace, body, body, hbody, hbody',
      (MethodBody.follows_self_iff fun _ => Renumbering.sameRow_of_isNull).mpr
        (hstays entry hmem body hbody)⟩

/-- A renumbering that succeeds keeps the meaning of every reference, with one exception: the
exception clauses and the local variables of added bodies keep their meaning only if the renumbering
leaves their tokens alone. -/
theorem references_keep_meaning {renumbering : Renumbering} (hmade : renumbering.Made)
    {inserted : List Row} {before after : Assembly} (hwf : before.WellFormed)
    (hinserted : renumbering.table = .methodDef →
      ∀ columns ∈ inserted, columns.getD MethodDef.rvaColumn 0 = 0)
    (h : before.renumber renumbering inserted = .ok after) :
    KeepsMeaning renumbering inserted before after ∧
      (KeepsOuterMeaning renumbering before after ↔
        ∀ entry ∈ before.addedBodies, ∀ body, MethodBody.read entry.2 = .ok body →
          ∀ token ∈ body.outerTokens, renumbering.SameRow token token) :=
  ⟨keepsMeaning_of_renumber hmade hwf hinserted h, keepsOuterMeaning_iff hmade.lawful hwf h⟩

/-! ## An added body with local variables -/

/-- Two methods, one of which is added and has local variables. -/
def withAddedLocals : Assembly where
  image := {
    data := List.replicate 8 0 ++ [0x06, 0x2A]
    machine := 0x14C
    characteristics := 0x2000
    is64 := false
    peOffset := 0
    sectionTableOffset := 0
    fileAlignment := 512
    sectionAlignment := 512
    headersSize := 16
    sections := []
    cli := (0, 0)
    debug := none }
  cli := ⟨72, 2, 5, 8, 8, 1, 0, (0, 0), (0, 0), (0, 0)⟩
  version := "v4.0.30319"
  rootFlags := 0
  tables := ((Tables.empty.setRows .methodDef [[8, 0, 0, 0, 0, 1], [0, 0, 0, 0, 0, 1]]).setRows
    .standAloneSig [[0], [0]])
  strings := ⟨[0]⟩
  blobs := ⟨[0]⟩
  guids := []
  userStrings := []
  addedBodies := [(2, [0x03, 0x30, 8, 0, 1, 0, 0, 0, 2, 0, 0, 0x11, 0x2A])]

theorem bodyRvas_withAddedLocals : withAddedLocals.bodyRvas = [8] := by
  rw [bodyRvas, show (withAddedLocals.tables.rows .methodDef).filterMap bodyRva? = [8] from rfl,
    List.mergeSort_singleton]
  rfl

theorem hasBody_withAddedLocals :
    HasBody withAddedLocals.image 8 ⟨1, 1, 0, 8, false, false, []⟩
      [⟨0, 1, false, 0x2A, "ret", .none⟩] :=
  ⟨by cbv, by cbv⟩

theorem wellFormed_withAddedLocals : withAddedLocals.WellFormed where
  arity := by decide
  inRange := fun table columns hmem =>
    Tables.inRange_of_zip ((by decide : ∀ table, ∀ columns ∈ withAddedLocals.tables.rows table,
      ∀ entry ∈ table.columns.zip columns, withAddedLocals.tables.InRange entry.1 entry.2)
        table columns hmem)
  counts := by decide
  bodies := by
    constructor
    · rw [bodyRvas_withAddedLocals]
      intro rva hmem
      obtain rfl := List.mem_singleton.mp hmem
      exact ⟨8, _, _, rfl, hasBody_withAddedLocals⟩
    · rw [bodyRvas_withAddedLocals]
      intro rva hmem rva' hmem' hne
      rw [List.mem_singleton.mp hmem, List.mem_singleton.mp hmem'] at hne
      exact absurd rfl hne
  bodyTokens := by
    rw [bodyRvas_withAddedLocals]
    intro rva hmem offset body instructions hoffset hbody
    obtain rfl := List.mem_singleton.mp hmem
    obtain rfl : 8 = offset := Except.ok.inj hoffset
    obtain ⟨rfl, rfl⟩ := hasBody_withAddedLocals.unique hbody
    decide
  added := by
    intro entry hmem
    obtain rfl := List.mem_singleton.mp hmem
    refine ⟨⟨1, 12, 0x11000002, 8, true, false, []⟩, [⟨0, 1, false, 0x2A, "ret", .none⟩], by cbv,
      by cbv, by decide⟩
  ascending := List.pairwise_singleton _ _

/-- The other row of local variables goes, but the added body still names the second one. -/
theorem added_locals_lose_meaning :
    withAddedLocals.WellFormed ∧ ∃ after,
      withAddedLocals.renumber (.removal .standAloneSig 2 [1]) [] = .ok after ∧
        KeepsMeaning (.removal .standAloneSig 2 [1]) [] withAddedLocals after ∧
        ¬KeepsOuterMeaning (.removal .standAloneSig 2 [1]) withAddedLocals after := by
  refine ⟨wellFormed_withAddedLocals, ?_⟩
  obtain ⟨after, hafter⟩ : ∃ after,
      withAddedLocals.renumber (.removal .standAloneSig 2 [1]) [] = .ok after := by
    apply Outcome.exists_of_isOk
    cbv
  obtain ⟨hkeeps, houter⟩ := references_keep_meaning (.removal .standAloneSig 2 [1])
    wellFormed_withAddedLocals (fun _ _ hmem => absurd hmem List.not_mem_nil) hafter
  refine ⟨after, hafter, hkeeps, fun hkept => ?_⟩
  have hsame := houter.mp hkept _ (.head _) ⟨1, 12, 0x11000002, 8, true, false, []⟩ (by cbv)
    ⟨0x11000002⟩ (by decide)
  rw [Renumbering.SameRow, if_pos (by decide)] at hsame
  obtain ⟨row, hrow, -, heq⟩ := hsame
  obtain rfl : 1 = row := Option.some.inj hrow
  cases heq

end Assembly

end NativeExports
