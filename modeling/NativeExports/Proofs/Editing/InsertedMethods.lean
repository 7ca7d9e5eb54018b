import NativeExports.Proofs.Editing.InsertedParams

/-!
# What adding a method does

Two insertions follow each other: a row for the method, and rows for its parameters.  The new method
begins where the parameters of the method behind it do, so its run of parameters is empty when the
second insertion fills it.  Together the insertions add one method to one type and its parameters to
that method; all other rows move behind the new ones or stay, and what they refer to moves along.
-/

namespace NativeExports

namespace Assembly

/-- Where rows stand once a method is put in at row `method`, and `count` parameters from row
`param` on. -/
def movedRow (method param count : Nat) (table : Table) (row : Nat) : Nat :=
  match table with
  | .methodDef => if method ≤ row then row + 1 else row
  | .param => if param ≤ row then row + count else row
  | _ => row

/-- What becomes of a token in the code of an added body when a method is put in. -/
def movedToken (method : Nat) (token : Token) : Token :=
  if token.table? = some .methodDef then
    Token.ofRow .methodDef (if method ≤ token.row then token.row + 1 else token.row)
  else token

/-- A name stands where an offset leads, and it is read back unless it holds a NUL. -/
def HoldsName (assembly : Assembly) (index : Nat) (name : String) : Prop :=
  assembly.strings.Holds index name ∧
    (0 ∉ Utf8.encode name → assembly.strings.get index = .ok name)

/-- An assembly that methods can be added to: its tables are sound, and its bodies can be read and
do not overlap. -/
structure Sound (assembly : Assembly) : Prop where
  tables : assembly.tables.Sound
  bodies : assembly.BodiesFit
  /-- The bodies of added methods can be read. -/
  added : ∀ entry ∈ assembly.addedBodies, ∃ body instructions,
    MethodBody.read entry.2 = .ok body ∧ Code.decode (body.code entry.2) = .ok instructions
  /-- Added bodies are listed in the order of their rows. -/
  ascending : Ascending assembly.addedBodies
  /-- The heaps of names and blobs begin with an empty entry. -/
  leads : assembly.strings.data.head? = some 0 ∧ assembly.blobs.data.head? = some 0

/-- What becomes of an assembly when a method gets row `row` and its parameters the rows from
`param` on. -/
structure MethodInserted (before : Assembly) (typeDef : Nat) (method : MethodDraft)
    (row param : Nat)
    (after : Assembly) : Prop where
  /-- No other table than the three gets rows. -/
  counts : ∀ table, after.tables.count table = before.tables.count table +
    match table with
    | .methodDef => 1
    | .param => method.params.length
    | .fieldMarshal => (marshalled param method.params).length
    | _ => 0
  /-- The type has its methods and the new one. -/
  run : ∃ start, before.methodRun typeDef = .ok (start, row) ∧
    after.methodRun typeDef = .ok (start, row + 1)
  /-- The other types have the methods that they had. -/
  types : ∀ other, 1 ≤ other → other ≤ before.tables.count .typeDef → other ≠ typeDef →
    ∃ members, before.tables.members .typeDef other TypeDef.methodColumn .methodDef = .ok members ∧
      after.tables.members .typeDef other TypeDef.methodColumn .methodDef =
        .ok (members.map (movedRow row param method.params.length .methodDef))
  /-- The new row has no address yet. -/
  plain : after.tables.value .methodDef row MethodDef.rvaColumn = .ok 0 ∧
    after.tables.value .methodDef row MethodDef.implFlagsColumn = .ok method.implFlags ∧
    after.tables.value .methodDef row MethodDef.flagsColumn = .ok method.flags
  name : ∃ index, after.tables.value .methodDef row MethodDef.nameColumn = .ok index ∧
    after.HoldsName index method.name
  signature : after.columnBlob .methodDef row MethodDef.signatureColumn = .ok method.signature
  paramRun : after.paramRun row = .ok (param, param + method.params.length)
  /-- The parameters are numbered from one on and have their names. -/
  params : ∀ k draft, method.params[k]? = some draft → ∃ index,
    after.tables.row? .param (param + k) =
      some [if draft.marshal.isSome then ParamFlags.hasFieldMarshal else 0, k + 1, index] ∧
    after.HoldsName index draft.name
  /-- The other methods have the parameters that they had. -/
  methods : ∀ other, 1 ≤ other → other ≤ before.tables.count .methodDef →
    ∃ members, before.tables.members .methodDef other MethodDef.paramColumn .param = .ok members ∧
      after.tables.members .methodDef (movedRow row param method.params.length .methodDef other)
          MethodDef.paramColumn .param =
        .ok (members.map (movedRow row param method.params.length .param))
  /-- Every parameter with marshalling gets one row that tells about it. -/
  marshalling : ∃ olds added, after.tables.rows .fieldMarshal = olds ++ added ∧
    olds.length = before.tables.count .fieldMarshal ∧
    List.Forall₂ after.Marshals (marshalled param method.params) added
  /-- The rows that there were go on to mean what they meant. -/
  follow : before.tables.Follow [.methodDef, .param] (movedRow row param method.params.length)
    after.tables
  /-- Every added body stands under the new row of its method, and there is one more. -/
  bodies : Ascending after.addedBodies ∧ (row, method.body) ∈ after.addedBodies ∧
    (∀ entry ∈ before.addedBodies, ∃ body,
      (movedRow row param method.params.length .methodDef entry.1, body) ∈ after.addedBodies ∧
        AddedBodyFollows (fun old new => new = movedToken row old) entry.2 body) ∧
    ∀ entry' ∈ after.addedBodies, entry' = (row, method.body) ∨ ∃ entry ∈ before.addedBodies,
      entry'.1 = movedRow row param method.params.length .methodDef entry.1 ∧
        AddedBodyFollows (fun old new => new = movedToken row old) entry.2 entry'.2

variable {before moved after : Assembly}

/-- Longer heaps of names and blobs leave an assembly sound. -/
theorem Sound.withHeaps (h : before.Sound) {strings : StringHeap} {blobs : BlobHeap}
    (hstrings : before.strings.data <+: strings.data) (hblobs : before.blobs.data <+: blobs.data) :
    ({ before with strings, blobs } : Assembly).Sound where
  tables := h.tables
  bodies := h.bodies.of_subset rfl fun _ hmem => hmem
  added := h.added
  ascending := h.ascending
  leads := ⟨head?_of_grown h.leads.1 hstrings, head?_of_grown h.leads.2 hblobs⟩

/-! ## Two insertions -/

theorem shift_shift (method param count : Nat) (table : Table) (row : Nat) :
    Renumbering.shift .param param count table (Renumbering.shift .methodDef method 1 table row) =
      movedRow method param count table row := by
  unfold movedRow Renumbering.shift
  cases table <;> simp

theorem movedRow_methodDef (method param count : Nat) :
    movedRow method param count .methodDef = Renumbering.shift .methodDef method 1 .methodDef := by
  funext row
  simp [movedRow, Renumbering.shift]

theorem movedRow_param (method param count : Nat) :
    movedRow method param count .param = Renumbering.shift .param param count .param := by
  funext row
  simp [movedRow, Renumbering.shift]

theorem newToken_insertion {oldCount position : Nat} {owner : Option (Table × Nat)}
    (hposition : 1 ≤ position ∧ position ≤ oldCount + 1) {old new : Token}
    (h : (Renumbering.insertion .methodDef oldCount position 1 owner).Renames old new) :
    new = movedToken position old := by
  unfold Renumbering.Renames Renumbering.newToken at h
  rw [Renumbering.newRow_insertion_eq_shift hposition] at h
  rw [movedToken]
  by_cases htable : old.table? = some .methodDef
  · have hnew := (Except.ok.inj ((if_pos htable).symm.trans h)).symm
    rw [if_pos htable, hnew, ← movedRow_methodDef position 0 0]
    rfl
  · rw [if_neg htable]
    exact (Except.ok.inj ((if_neg htable).symm.trans h)).symm

/-! ## The row of the method -/

/-- The parameters of a method end where those of a method put in behind it would begin. -/
theorem paramRun_eq_ok {assembly : Assembly} {method start stop : Nat}
    (hruns : assembly.tables.RunsOrdered) :
    assembly.paramRun method = .ok (start, stop) ↔
      assembly.tables.value .methodDef method MethodDef.paramColumn = .ok start ∧
        firstParam assembly.tables (method + 1) = .ok stop := by
  unfold paramRun firstParam
  rw [hruns.runOf_eq_ok rfl]
  refine and_congr_right fun _ => ?_
  by_cases hlt : method < assembly.tables.count .methodDef
  · rw [if_pos hlt, if_pos (Nat.succ_le_of_lt hlt)]
  · rw [if_neg hlt, if_neg (show ¬method + 1 ≤ _ from hlt)]
    exact ⟨fun h => congrArg Except.ok h.symm, fun h => (Except.ok.inj h).symm⟩

section

variable {typeDef position start param name signature : Nat} {method : MethodDraft}

/-- The table of methods is longer by one row, and no other table is. -/
theorem count_of_methodInsertion
    (hposition : 1 ≤ position ∧ position ≤ before.tables.count .methodDef + 1)
    (h : before.renumber (.insertion .methodDef (before.tables.count .methodDef) position 1
      (some (.typeDef, typeDef))) [methodRow method name signature param] = .ok moved)
    (table : Table) :
    moved.tables.count table = before.tables.count table + if table = .methodDef then 1 else 0 := by
  refine ((movedTo_of_renumber (.insertion _ _ _ _ _ (.inr hposition)) h).counts table).trans ?_
  by_cases htable : table = .methodDef
  · subst htable
    rfl
  · rw [if_neg htable]
    exact if_neg htable

/-- Where the parameters of the new method begin is what its row says, and where those of the others
begin stays as it is. -/
theorem paramColumn_of_methodInsertion (hsound : before.tables.Sound)
    (hcounts : ∀ table, before.tables.count table < Token.rowLimit)
    (hroom : before.tables.count .methodDef + 1 < Token.rowLimit)
    (hposition : 1 ≤ position ∧ position ≤ before.tables.count .methodDef + 1)
    (h : before.renumber (.insertion .methodDef (before.tables.count .methodDef) position 1
      (some (.typeDef, typeDef))) [methodRow method name signature param] = .ok moved) :
    moved.tables.value .methodDef position MethodDef.paramColumn = .ok param ∧
      ∀ row value, before.tables.value .methodDef row MethodDef.paramColumn = .ok value →
        moved.tables.value .methodDef (if position ≤ row then row + 1 else row)
          MethodDef.paramColumn = .ok value := by
  constructor
  · have hrow := row?_of_renumber_inserted (.insertion _ _ _ _ _ (.inr hposition)) rfl h rfl
      (rfl : [methodRow method name signature param][0]? = _)
    exact Tables.value_eq_ok.mpr ⟨_, hrow, rfl⟩
  · intro row value hvalue
    obtain ⟨value', hvalue', hsame⟩ := follow_of_insertion hposition rfl hsound hcounts hroom h
      .methodDef MethodDef.paramColumn (.list .param) row value rfl hvalue
    obtain rfl : value' = value := hsame (by decide)
    rwa [← movedRow_methodDef position 0 0] at hvalue'

/-- Where the parameters of a method at any row would begin stays as it is, too. -/
theorem firstParam_of_methodInsertion (hsound : before.tables.Sound)
    (hcounts : ∀ table, before.tables.count table < Token.rowLimit)
    (hroom : before.tables.count .methodDef + 1 < Token.rowLimit)
    (hposition : 1 ≤ position ∧ position ≤ before.tables.count .methodDef + 1)
    (h : before.renumber (.insertion .methodDef (before.tables.count .methodDef) position 1
      (some (.typeDef, typeDef))) [methodRow method name signature param] = .ok moved)
    {row first : Nat} (hfirst : firstParam before.tables row = .ok first) :
    firstParam moved.tables (if position ≤ row then row + 1 else row) = .ok first := by
  have hmethods : moved.tables.count .methodDef = before.tables.count .methodDef + 1 :=
    count_of_methodInsertion hposition h .methodDef
  have hparams : moved.tables.count .param = before.tables.count .param :=
    count_of_methodInsertion hposition h .param
  unfold firstParam at hfirst ⊢
  rw [hmethods, hparams]
  split at hfirst
  · rename_i hlast
    have hfollow :=
      (paramColumn_of_methodInsertion hsound hcounts hroom hposition h).2 row first hfirst
    rwa [if_pos (by split <;> omega)]
  · rename_i hlast
    have hbehind : position ≤ row := by omega
    rwa [if_pos hbehind, if_neg (by omega)]

/-- The new method has no parameters yet. -/
theorem paramRun_of_methodInsertion (hsound : before.tables.Sound) (hsound' : moved.tables.Sound)
    (hcounts : ∀ table, before.tables.count table < Token.rowLimit)
    (hroom : before.tables.count .methodDef + 1 < Token.rowLimit)
    (hposition : 1 ≤ position ∧ position ≤ before.tables.count .methodDef + 1)
    (hparam : firstParam before.tables position = .ok param)
    (h : before.renumber (.insertion .methodDef (before.tables.count .methodDef) position 1
      (some (.typeDef, typeDef))) [methodRow method name signature param] = .ok moved) :
    moved.paramRun position = .ok (param, param) := by
  have hnext := firstParam_of_methodInsertion hsound hcounts hroom hposition h hparam
  rw [if_pos (Nat.le_refl position)] at hnext
  exact (paramRun_eq_ok hsound'.runs).mpr
    ⟨(paramColumn_of_methodInsertion hsound hcounts hroom hposition h).1, hnext⟩

/-- The other methods keep their parameters. -/
theorem paramRun_follows_methodInsertion (hsound : before.tables.Sound)
    (hsound' : moved.tables.Sound)
    (hcounts : ∀ table, before.tables.count table < Token.rowLimit)
    (hroom : before.tables.count .methodDef + 1 < Token.rowLimit)
    (hposition : 1 ≤ position ∧ position ≤ before.tables.count .methodDef + 1)
    (hparam : firstParam before.tables position = .ok param)
    (h : before.renumber (.insertion .methodDef (before.tables.count .methodDef) position 1
      (some (.typeDef, typeDef))) [methodRow method name signature param] = .ok moved)
    {other : Nat} {run : Nat × Nat} (hrun : before.paramRun other = .ok run) :
    moved.paramRun (if position ≤ other then other + 1 else other) = .ok run := by
  obtain ⟨first, stop⟩ := run
  obtain ⟨hvalue, hstop⟩ := (paramRun_eq_ok hsound.runs).mp hrun
  obtain ⟨hnew, hfollows⟩ := paramColumn_of_methodInsertion hsound hcounts hroom hposition h
  refine (paramRun_eq_ok hsound'.runs).mpr ⟨hfollows other first hvalue, ?_⟩
  have hbehind := firstParam_of_methodInsertion hsound hcounts hroom hposition h hstop
  -- The run ends where that of the next method begins, and the new method may have come between.
  rcases Nat.lt_trichotomy (other + 1) position with hlt | heq | hgt
  · rw [if_neg (by omega)] at hbehind ⊢
    exact hbehind
  · obtain rfl : stop = param := Except.ok.inj (hstop.symm.trans (heq ▸ hparam))
    rw [if_neg (by omega), heq, firstParam, if_pos]
    · exact hnew
    · exact (Tables.bounds_of_value hnew).2
  · rw [if_pos (by omega)] at hbehind ⊢
    exact hbehind

/-- Every added body stands under the new row of its method, and the new one under its row. -/
theorem addedBodies_of_methodInsertion (hascending : Ascending before.addedBodies)
    (hposition : 1 ≤ position ∧ position ≤ before.tables.count .methodDef + 1) {inserted : List Row}
    {owner : Option (Table × Nat)} (data : Bytes) (count : Nat)
    (h : before.renumber (.insertion .methodDef (before.tables.count .methodDef) position 1 owner)
      inserted = .ok moved) :
    Ascending (insertBody position data moved.addedBodies) ∧
      (position, data) ∈ insertBody position data moved.addedBodies ∧
      (∀ entry ∈ before.addedBodies, ∃ body,
        (movedRow position param count .methodDef entry.1, body) ∈
            insertBody position data moved.addedBodies ∧
          AddedBodyFollows (fun old new => new = movedToken position old) entry.2 body) ∧
      ∀ entry' ∈ insertBody position data moved.addedBodies,
        entry' = (position, data) ∨ ∃ entry ∈ before.addedBodies,
          entry'.1 = movedRow position param count .methodDef entry.1 ∧
            AddedBodyFollows (fun old new => new = movedToken position old) entry.2 entry'.2 := by
  have hmade : (Renumbering.insertion .methodDef (before.tables.count .methodDef) position 1
      owner).Made := .insertion _ _ _ _ _ (.inr hposition)
  obtain ⟨hascending', hforth, hback⟩ := addedBodies_of_renumber hmade.lawful hascending h
  have hmem := mem_insertBody position data hascending'
  have hfollows : ∀ {entry entry' : Nat × Bytes},
      (Renumbering.insertion .methodDef (before.tables.count .methodDef) position 1 owner).place
        .methodDef entry.1 = some entry'.1 →
      AddedFollows (.insertion .methodDef (before.tables.count .methodDef) position 1 owner)
        (entry'.1, entry.2) entry' →
      entry'.1 = movedRow position param count .methodDef entry.1 ∧
        AddedBodyFollows (fun old new => new = movedToken position old) entry.2 entry'.2 := by
    rintro entry entry' hplace ⟨-, hbody⟩
    rw [Renumbering.place_insertion hposition] at hplace
    obtain ⟨body, old, new, hread, hread', hdecode, hdecode', hmaps⟩ := hbody
    refine ⟨?_, body, old, new, hread, hread', hdecode, hdecode',
      hmaps.imp fun _ _ hmap => hmap.imp fun _ _ => newToken_insertion hposition⟩
    rw [movedRow_methodDef]
    exact (Option.some.inj hplace).symm
  refine ⟨ascending_insertBody hascending', (hmem _).mpr (.inl rfl), fun entry hentry => ?_,
    fun entry' hentry' => ?_⟩
  · obtain ⟨entry', hentry', hplace, hbody⟩ := hforth entry hentry
    obtain ⟨hrow, hbody⟩ := hfollows hplace hbody
    refine ⟨entry'.2, (hmem _).mpr (.inr ⟨hrow ▸ hentry', ?_⟩), hbody⟩
    rw [movedRow]
    dsimp only
    split <;> omega
  · rcases (hmem entry').mp hentry' with rfl | ⟨hold, -⟩
    · exact .inl rfl
    · obtain ⟨entry, hentry, hplace, hbody⟩ := hback entry' hold
      exact .inr ⟨entry, hentry, hfollows hplace hbody⟩

/-- The parameters of a method leave the columns of methods alone that refer to no parameters. -/
theorem ParamsInserted.methodColumn {params : List ParamDraft}
    (h : ParamsInserted moved position param params after) {c row value : Nat} {kind : ColumnKind}
    (hkind : Table.methodDef.columns[c]? = some kind)
    (hplain : ∀ old new,
      kind.Follows [.param] (Renumbering.shift .param param params.length) old new →
      new = old)
    (hvalue : moved.tables.value .methodDef row c = .ok value) :
    after.tables.value .methodDef row c = .ok value := by
  obtain ⟨new, hnew, hfollows⟩ := h.follow .methodDef c kind row value hkind hvalue
  rwa [hplain value new hfollows, Renumbering.shift,
    if_neg fun hin => absurd hin.1 (by decide)] at hnew

/-- The types keep their methods, where these stand now. -/
theorem types_of_methodInsertion {params : List ParamDraft} (hsound : before.tables.Sound)
    (hsound' : moved.tables.Sound)
    (hposition : 1 ≤ position ∧ position ≤ before.tables.count .methodDef + 1)
    (hrun : before.methodRun typeDef = .ok (start, position))
    (h : before.renumber (.insertion .methodDef (before.tables.count .methodDef) position 1
      (some (.typeDef, typeDef))) [methodRow method name signature param] = .ok moved)
    (hinserted : ParamsInserted moved position param params after) {other : Nat} (hlo : 1 ≤ other)
    (hhi : other ≤ before.tables.count .typeDef) (hne : other ≠ typeDef) :
    ∃ members, before.tables.members .typeDef other TypeDef.methodColumn .methodDef = .ok members ∧
      after.tables.members .typeDef other TypeDef.methodColumn .methodDef =
        .ok (members.map (movedRow position param params.length .methodDef)) := by
  have hkind : Table.typeDef.columns[TypeDef.methodColumn]? = some (.list .methodDef) := rfl
  have hmovedTo := movedTo_of_renumber (.insertion _ _ _ _ _ (.inr hposition)) h
  obtain ⟨members, hmembers, hmoved⟩ := Tables.members_shift_of_insertion
    (hsound.startsFit hkind) hrun (Tables.startsFollow_of_movedTo hmovedTo hkind) hlo hhi
  have hcount : moved.tables.count .typeDef = before.tables.count .typeDef :=
    count_of_methodInsertion hposition h .typeDef
  obtain ⟨first, last, hother, -⟩ := (hsound'.startsFit hkind).exists_runOf hlo (hcount ▸ hhi)
  rw [if_neg hne, List.append_nil, ← movedRow_methodDef position param params.length,
    Tables.members_of_runOf hother] at hmoved
  exact ⟨members, hmembers,
    (Tables.members_of_runOf (hinserted.methods other _ hother)).trans hmoved⟩

/-- The other methods keep their parameters, where these stand now. -/
theorem methods_of_methodInsertion {params : List ParamDraft} (hsound : before.tables.Sound)
    (hsound' : moved.tables.Sound)
    (hcounts : ∀ table, before.tables.count table < Token.rowLimit)
    (hroom : before.tables.count .methodDef + 1 < Token.rowLimit)
    (hposition : 1 ≤ position ∧ position ≤ before.tables.count .methodDef + 1)
    (hparam : firstParam before.tables position = .ok param)
    (h : before.renumber (.insertion .methodDef (before.tables.count .methodDef) position 1
      (some (.typeDef, typeDef))) [methodRow method name signature param] = .ok moved)
    (hinserted : ParamsInserted moved position param params after) {other : Nat} (hlo : 1 ≤ other)
    (hhi : other ≤ before.tables.count .methodDef) :
    ∃ members, before.tables.members .methodDef other MethodDef.paramColumn .param = .ok members ∧
      after.tables.members .methodDef (movedRow position param params.length .methodDef other)
          MethodDef.paramColumn .param =
        .ok (members.map (movedRow position param params.length .param)) := by
  have hkind : Table.methodDef.columns[MethodDef.paramColumn]? = some (.list .param) := rfl
  obtain ⟨first, last, hother, -⟩ := (hsound.startsFit hkind).exists_runOf hlo hhi
  have hmoved := paramRun_follows_methodInsertion hsound hsound' hcounts hroom hposition hparam h
    hother
  have hcount : moved.tables.count .methodDef = before.tables.count .methodDef + 1 :=
    count_of_methodInsertion hposition h .methodDef
  obtain ⟨members, hmembers, hafter⟩ := hinserted.others
    (if position ≤ other then other + 1 else other) (by split <;> omega) (by split <;> omega)
    (by split <;> omega)
  obtain rfl := Except.ok.inj ((Tables.members_of_runOf hmoved).symm.trans hmembers)
  rw [movedRow_param]
  exact ⟨_, Tables.members_of_runOf hother, hafter⟩

/-- The row of the method is put in, its body is kept aside, and its parameters are added. -/
theorem methodInserted_of_renumber (hsound : before.tables.Sound) (hsound' : moved.tables.Sound)
    (hascending : Ascending before.addedBodies)
    (hcounts : ∀ table, before.tables.count table < Token.rowLimit)
    (hroom : before.tables.count .methodDef + 1 < Token.rowLimit)
    (hrun : before.methodRun typeDef = .ok (start, position))
    (hparam : firstParam before.tables position = .ok param)
    (hname : before.strings.Holds name method.name)
    (hsignature : before.blobs.get signature = .ok method.signature)
    (h : before.renumber (.insertion .methodDef (before.tables.count .methodDef) position 1
      (some (.typeDef, typeDef))) [methodRow method name signature param] = .ok moved)
    (hinserted : ParamsInserted (moved.setBody position method.body) position param method.params
      after) : MethodInserted before typeDef method position param after := by
  have htypeKind : Table.typeDef.columns[TypeDef.methodColumn]? = some (.list .methodDef) := rfl
  have hposition : 1 ≤ position ∧ position ≤ before.tables.count .methodDef + 1 := by
    obtain ⟨hlo, hle, hhi⟩ := hsound.runs.bounds_of_runOf htypeKind hrun
    exact ⟨Nat.le_trans hlo hle, hhi⟩
  have hmade : (Renumbering.insertion .methodDef (before.tables.count .methodDef) position 1
      (some (.typeDef, typeDef))).Made := .insertion _ _ _ _ _ (.inr hposition)
  have hmovedTo := movedTo_of_renumber hmade h
  have hcount := count_of_methodInsertion hposition h
  -- Keeping the body aside changes no table.
  have hadded : ParamsInserted moved position param method.params
      { after with addedBodies := moved.addedBodies } := { hinserted with addedBodies := rfl }
  have hrow : (moved.setBody position method.body).tables.row? .methodDef position =
      some (methodRow method name signature param) :=
    row?_of_renumber_inserted hmade rfl h rfl
      (rfl : [methodRow method name signature param][0]? = _)
  have hcolumn : ∀ (c : Nat) kind value, Table.methodDef.columns[c]? = some kind →
      (∀ old new, kind.Follows [.param]
        (Renumbering.shift .param param method.params.length) old new → new = old) →
      (methodRow method name signature param)[c]? = some value →
        after.tables.value .methodDef position c = .ok value :=
    fun c kind value hkind hplain hget =>
      hinserted.methodColumn hkind hplain (Tables.value_eq_ok.mpr ⟨_, hrow, hget⟩)
  have hstrings : before.strings.data <+: after.strings.data := by
    rw [← (heaps_of_renumber h).1]
    exact hinserted.strings
  have hblobs : before.blobs.data <+: after.blobs.data := by
    rw [← (signatures_of_renumber hmade rfl h).1]
    exact hinserted.blobs
  exact {
    counts := fun table => by
      have hafter := hinserted.counts table
      change after.tables.count table = moved.tables.count table + _ at hafter
      rw [hafter, hcount]
      cases table <;> rfl
    run := ⟨start, hrun, hinserted.methods typeDef _
      (runOf_of_insertion htypeKind hsound.runs hsound'.runs hmovedTo hrun)⟩
    types := fun other hlo hhi hne =>
      types_of_methodInsertion hsound hsound' hposition hrun h hadded hlo hhi hne
    plain := ⟨hcolumn _ .u32 _ rfl (fun _ _ => id) rfl, hcolumn _ .u16 _ rfl (fun _ _ => id) rfl,
      hcolumn _ .u16 _ rfl (fun _ _ => id) rfl⟩
    name := ⟨name, hcolumn _ .string _ rfl (fun _ _ => id) rfl, hname.mono hstrings,
      (hname.mono hstrings).get⟩
    signature := by
      rw [columnBlob, hcolumn _ .blob _ rfl (fun _ _ => id) rfl]
      exact BlobHeap.get_of_prefix hblobs hsignature
    paramRun := hinserted.run
    params := fun k draft hget => by
      obtain ⟨index, hindex, hholds⟩ := hinserted.rows k draft hget
      exact ⟨index, hindex, hholds, hholds.get⟩
    methods := fun other hlo hhi =>
      methods_of_methodInsertion hsound hsound' hcounts hroom hposition hparam h hadded hlo hhi
    marshalling := by
      obtain ⟨olds, added, hrows, holds, hmarshals⟩ := hinserted.marshalling
      exact ⟨olds, added, hrows, holds.trans (hcount .fieldMarshal), hmarshals⟩
    follow := by
      have hmoves : (fun table row => Renumbering.shift .param param method.params.length table
          (Renumbering.shift .methodDef position 1 table row)) =
            movedRow position param method.params.length :=
        funext fun table => funext fun row => shift_shift _ _ _ table row
      rw [← hmoves]
      exact (follow_of_insertion hposition rfl hsound hcounts hroom h).trans hinserted.follow
    bodies := by
      rw [hinserted.addedBodies]
      exact addedBodies_of_methodInsertion hascending hposition method.body method.params.length h }

/-- A method can get a row, which makes it the owner of no parameters at first. -/
theorem exists_methodRow_of_sound (hsound : before.Sound)
    (hcounts : ∀ table, before.tables.count table < Token.rowLimit)
    (hposition : 1 ≤ position ∧ position ≤ before.tables.count .methodDef + 1)
    (hparam : firstParam before.tables position = .ok param) :
    ∃ moved, before.renumber (.insertion .methodDef (before.tables.count .methodDef) position 1
        (some (.typeDef, typeDef))) [methodRow method name signature param] = .ok moved ∧
      moved.tables.Sound := by
  obtain ⟨hfirst, hlast, hbetween⟩ := hsound.tables.runs.firstParam_between hparam
  obtain ⟨moved, hmoved⟩ : ∃ moved, before.renumber
      (.insertion .methodDef (before.tables.count .methodDef) position 1 (some (.typeDef, typeDef)))
        [methodRow method name signature param] = .ok moved := by
    refine exists_insertion_of_renumberable ⟨hsound.tables.inRange, hsound.ascending,
      fun _ => ⟨hsound.bodies.found, hsound.bodies.apart⟩, fun _ => hsound.added⟩
      rfl hposition rfl ?_
    intro _ columns hmem
    rw [List.mem_singleton.mp hmem]
    rfl
  refine ⟨moved, hmoved, sound_of_insertion hposition hsound.tables hcounts
    (rowsFit_of_plain (by simp [Table.columns, Tables.InRange]) fun columns hmem => ?_)
    (runsFit_method hfirst hlast hbetween fun columns hmem => ?_) hmoved⟩
  · rw [List.mem_singleton.mp hmem]
    rfl
  · rw [List.mem_singleton.mp hmem]
    rfl

end

/-- Adding a method puts in one method and its parameters, and nothing else. -/
theorem insertMethod_inserts {before : Assembly} {typeDef : Nat} {method : MethodDraft}
    (h : before.Sound) (hcounts : ∀ table, before.tables.count table < Token.rowLimit)
    (hmethods : before.tables.count .methodDef + 1 < Token.rowLimit)
    (hparams : before.tables.count .param + method.params.length < Token.rowLimit)
    (howner : 1 ≤ typeDef ∧ typeDef ≤ before.tables.count .typeDef)
    (hsignature : method.signature.length < Compressed.limit)
    (hmarshalling : ∀ param ∈ method.params, ∀ type, param.marshal = some type →
      type.length < Compressed.limit) :
    ∃ row param after, insertMethod typeDef method before = .ok (row, after) ∧
      MethodInserted before typeDef method row param after := by
  have htypeKind : Table.typeDef.columns[TypeDef.methodColumn]? = some (.list .methodDef) := rfl
  obtain ⟨start, row, hrun, -, -, hlo, hle, hhi⟩ :=
    (h.tables.startsFit htypeKind).exists_runOf howner.1 howner.2
  have hposition : 1 ≤ row ∧ row ≤ before.tables.count .methodDef + 1 := ⟨Nat.le_trans hlo hle, hhi⟩
  obtain ⟨param, hparam⟩ := h.tables.exists_firstParam hposition.1
  have hname := StringHeap.holds_intern h.leads.1 method.name
  have hgrown := StringHeap.intern_prefix before.strings method.name
  have hinterned : internString method.name before = .ok ((before.strings.intern method.name).1,
      { before with strings := (before.strings.intern method.name).2 }) := rfl
  generalize (before.strings.intern method.name).1 = name,
    (before.strings.intern method.name).2 = strings at hname hgrown hinterned
  have hlead : ({ before with strings } : Assembly).blobs.data.head? = some 0 := h.leads.2
  obtain ⟨signature, blobs, hsigned, hgrown', hget, -⟩ := appendBlob_of_lead hlead hsignature
  -- With its name and its signature in the heaps, the method gets its row.
  have hstored := h.withHeaps hgrown hgrown'
  obtain ⟨moved, hmoved, hsound'⟩ := exists_methodRow_of_sound hstored hcounts hposition hparam
  have hmade : (Renumbering.insertion .methodDef (before.tables.count .methodDef) row 1
      (some (.typeDef, typeDef))).Made := .insertion _ _ _ _ _ (.inr hposition)
  have hcount := (movedTo_of_renumber hmade hmoved).counts
  have hempty : moved.paramRun row = .ok (param, param) :=
    paramRun_of_methodInsertion hstored.tables hsound' hcounts hmethods hposition hparam hmoved
  -- Its parameters are added once its body is kept aside.
  obtain ⟨after, hrest, hinserted⟩ := exists_params_of_sound
    (show (moved.setBody row method.body).tables.Sound from hsound')
    (ascending_insertBody (addedBodies_of_renumber hmade.lawful hstored.ascending hmoved).1)
    ⟨(heaps_of_renumber hmoved).1 ▸ hstored.leads.1,
      (signatures_of_renumber hmade rfl hmoved).1 ▸ hstored.leads.2⟩
    (fun table => by
      rw [show (moved.setBody row method.body).tables.count table = _ from hcount table]
      split
      · exact hmethods
      · exact hcounts table)
    (show moved.tables.count .param + method.params.length < Token.rowLimit from
      hcount .param ▸ hparams)
    hmarshalling hempty
  have hdone : MethodInserted { before with strings, blobs } typeDef method row param after :=
    methodInserted_of_renumber hstored.tables hsound' h.ascending hcounts hmethods hrun hparam hname
      hget hmoved hinserted
  refine ⟨row, param, after, ?_, { hdone with }⟩
  exact Edit.bind_eq_ok.mpr ⟨before, before, rfl, Edit.bind_eq_ok.mpr ⟨(start, row), before,
    Edit.lift_eq_ok.mpr ⟨hrun, rfl⟩, Edit.bind_eq_ok.mpr ⟨param, before,
      Edit.lift_eq_ok.mpr ⟨hparam, rfl⟩, Edit.bind_eq_ok.mpr ⟨name, _, hinterned,
        Edit.bind_eq_ok.mpr ⟨signature, _, hsigned, Edit.bind_eq_ok.mpr ⟨(), moved,
          Edit.bind_eq_ok.mpr ⟨_, _, rfl, Edit.bind_eq_ok.mpr ⟨moved, _,
            Edit.lift_eq_ok.mpr ⟨hmoved, rfl⟩, rfl⟩⟩,
          Edit.bind_eq_ok.mpr ⟨(), _, rfl, hrest⟩⟩⟩⟩⟩⟩⟩

/-! ## A type without methods -/

/-- Two types, the second of which has all methods, and a parameter with marshalling. -/
def withEmptyType : Assembly :=
  { withAddedLocals with
    tables := ((withAddedLocals.tables.setRows .typeDef
      [[0, 0, 0, 0, 1, 1], [0, 0, 0, 0, 1, 1]]).setRows .param [[0, 1, 0]]).setRows .fieldMarshal
        [[3, 0]] }

theorem sound_withEmptyType : withEmptyType.Sound where
  tables := {
    arity := by decide
    inRange := fun table columns hmem =>
      Tables.inRange_of_zip ((by decide : ∀ table, ∀ columns ∈ withEmptyType.tables.rows table,
        ∀ entry ∈ table.columns.zip columns, withEmptyType.tables.InRange entry.1 entry.2)
          table columns hmem)
    runs := .of_ones (by decide) }
  bodies := wellFormed_withAddedLocals.bodies.of_subset rfl fun _ hmem => hmem
  added := fun entry hmem =>
    have ⟨body, instructions, hread, hdecode, _⟩ := wellFormed_withAddedLocals.added entry hmem
    ⟨body, instructions, hread, hdecode⟩
  ascending := wellFormed_withAddedLocals.ascending
  leads := ⟨rfl, rfl⟩

/-- A method with two parameters, the second of which is marshalled as a string. -/
def twoParams : MethodDraft where
  flags := 0x96
  implFlags := 0
  name := "M"
  signature := [0, 2, 1, 0x0E, 0x0E]
  params := [⟨"a", none⟩, ⟨"b", some [0x14]⟩]
  body := [0x06, 0x2A]

/-- The first type gets its first method, though the methods of the second type begin at the same
place; these move up by one row, and the parameter of theirs by two. -/
theorem insertMethod_inserts_emptyType :
    withEmptyType.Sound ∧ ∃ param after, insertMethod 1 twoParams withEmptyType = .ok (1, after) ∧
      MethodInserted withEmptyType 1 twoParams 1 param after ∧ after.methodRun 1 = .ok (1, 2) ∧
      after.tables.count .fieldMarshal = 2 := by
  obtain ⟨row, param, after, hafter, hinserted⟩ := insertMethod_inserts sound_withEmptyType
    (by decide) (by decide) (by decide) ⟨Nat.le_refl 1, by decide⟩
    (by decide : twoParams.signature.length < _) (by decide)
  obtain ⟨start, hbefore, hrun⟩ := hinserted.run
  obtain ⟨rfl, rfl⟩ : 1 = start ∧ 1 = row := Prod.mk.inj (Except.ok.inj hbefore)
  exact ⟨sound_withEmptyType, param, after, hafter, hinserted, hrun, hinserted.counts .fieldMarshal⟩

end Assembly

end NativeExports
