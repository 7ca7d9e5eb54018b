import NativeExports.Proofs.Editing.Additions
import NativeExports.Proofs.Editing.Ownership
import NativeExports.Proofs.Renumbering.Insertion

/-!
# What adding parameters does

A method that has no parameters yet gets rows for all of its parameters, in order.  The parameters
of the other methods move behind them or stay in front of them, and their marshalling moves along;
the marshalling of the new parameters is told behind that of the others.
-/

namespace NativeExports

namespace Assembly

/-- The parameters with marshalling among those with rows from `row` on. -/
def marshalled (row : Nat) : List ParamDraft → List (Nat × Bytes)
  | [] => []
  | param :: rest =>
    match param.marshal with
    | some type => (row, type) :: marshalled (row + 1) rest
    | none => marshalled (row + 1) rest

/-- A row tells how a parameter is marshalled. -/
def Marshals (assembly : Assembly) (entry : Nat × Bytes) (columns : Row) : Prop :=
  ∃ parent type, columns = [parent, type] ∧
    CodedKind.hasFieldMarshal.decode parent = .ok (.param, entry.1) ∧
      assembly.blobs.get type = .ok entry.2

/-- What becomes of an assembly when a method without parameters gets some, the first of which has
row `position`. -/
structure ParamsInserted (before : Assembly) (method position : Nat) (params : List ParamDraft)
    (after : Assembly) : Prop where
  counts : ∀ table, after.tables.count table = before.tables.count table +
    if table = .param then params.length
    else if table = .fieldMarshal then (marshalled position params).length else 0
  /-- The rows that there were go on to mean what they meant. -/
  follow : before.tables.Follow [.param] (Renumbering.shift .param position params.length)
    after.tables
  run : after.paramRun method = .ok (position, position + params.length)
  rows : ∀ k param, params[k]? = some param → ∃ name,
    after.tables.row? .param (position + k) =
      some [if param.marshal.isSome then ParamFlags.hasFieldMarshal else 0, k + 1, name] ∧
    after.strings.Holds name param.name
  /-- The other methods have the parameters that they had. -/
  others : ∀ other, 1 ≤ other → other ≤ before.tables.count .methodDef → other ≠ method →
    ∃ members, before.tables.members .methodDef other MethodDef.paramColumn .param = .ok members ∧
      after.tables.members .methodDef other MethodDef.paramColumn .param =
        .ok (members.map (Renumbering.shift .param position params.length .param))
  methods : ∀ typeDef run, before.methodRun typeDef = .ok run → after.methodRun typeDef = .ok run
  /-- Every parameter with marshalling gets one row that tells about it. -/
  marshalling : ∃ olds added, after.tables.rows .fieldMarshal = olds ++ added ∧
    olds.length = before.tables.count .fieldMarshal ∧
    List.Forall₂ after.Marshals (marshalled position params) added
  addedBodies : after.addedBodies = before.addedBodies
  strings : before.strings.data <+: after.strings.data
  blobs : before.blobs.data <+: after.blobs.data

variable {before after : Assembly}

/-! ## Longer heaps and tables -/

/-- Rows behind the last ones leave the meaning of the others alone. -/
theorem Extended.follow {grown : List Table} (h : Extended grown before after)
    (hsound : before.tables.Sound) : before.tables.Follow [] (fun _ row => row) after.tables := by
  intro table c kind row old hkind hvalue
  obtain ⟨new, hnew, hfollows⟩ := hsound.follow_self [] table c kind row old hkind hvalue
  exact ⟨new, h.value hnew, hfollows⟩

theorem Extended.members {grown : List Table} (h : Extended grown before after)
    {source target : Table} (hsource : source ∉ grown) (htarget : target ∉ grown) (row c : Nat) :
    after.tables.members source row c target = before.tables.members source row c target := by
  unfold Tables.members
  rw [h.runOf hsource htarget]

theorem Extended.count {grown : List Table} (h : Extended grown before after) {table : Table}
    (hout : table ∉ grown) : after.tables.count table = before.tables.count table := by
  unfold Tables.count
  rw [h.same table hout]

theorem Marshals.mono {entry : Nat × Bytes} {columns : Row} (h : before.Marshals entry columns)
    (hgrown : before.blobs.data <+: after.blobs.data) : after.Marshals entry columns := by
  obtain ⟨parent, type, hcolumns, hparent, hget⟩ := h
  exact ⟨parent, type, hcolumns, hparent, BlobHeap.get_of_prefix hgrown hget⟩

/-! ## The rows of parameters -/

/-- The rows of parameters tell their numbers and their names. -/
theorem exists_paramRows_of_lead (hlead : before.strings.data.head? = some 0) (sequence : Nat)
    (params : List ParamDraft) :
    ∃ rows strings, paramRows sequence params before = .ok (rows, { before with strings }) ∧
      before.strings.data <+: strings.data ∧ rows.length = params.length ∧
      ∀ k param, params[k]? = some param → ∃ name,
        rows[k]? = some [if param.marshal.isSome then ParamFlags.hasFieldMarshal else 0,
          sequence + k, name] ∧ strings.Holds name param.name := by
  induction params generalizing sequence before with
  | nil => exact ⟨[], before.strings, rfl, List.prefix_refl _, rfl, nofun⟩
  | cons param rest ih =>
      have hgrown := StringHeap.intern_prefix before.strings param.name
      have hnamed : ({ before with strings := (before.strings.intern param.name).2 } :
          Assembly).strings.data.head? = some 0 := head?_of_grown hlead hgrown
      obtain ⟨rows, strings, hrows, hgrown', hlength, hholds⟩ := ih hnamed (sequence + 1)
      refine ⟨_, strings,
        Edit.bind_eq_ok.mpr ⟨_, _, rfl, Edit.bind_eq_ok.mpr ⟨rows, _, hrows, rfl⟩⟩,
        hgrown.trans hgrown', congrArg (· + 1) hlength, fun k other hget => ?_⟩
      cases k with
      | zero =>
          obtain rfl := Option.some.inj hget
          exact ⟨_, rfl, (StringHeap.holds_intern hlead param.name).mono hgrown'⟩
      | succ k =>
          obtain ⟨name, hrow, hname⟩ := hholds k other hget
          exact ⟨name, by rw [List.getElem?_cons_succ, hrow, Nat.succ_add_eq_add_succ], hname⟩

/-- The marshalling of parameters is told behind that of the others. -/
theorem exists_addMarshalling_of_lead (hlead : before.blobs.data.head? = some 0) {row : Nat}
    {params : List ParamDraft} (hroom : row + params.length ≤ Token.rowLimit)
    (hshort : ∀ param ∈ params, ∀ type, param.marshal = some type →
      type.length < Compressed.limit) :
    ∃ after added, addMarshalling row params before = .ok ((), after) ∧
      after.tables.rows .fieldMarshal = before.tables.rows .fieldMarshal ++ added ∧
      List.Forall₂ after.Marshals (marshalled row params) added := by
  induction params generalizing row before with
  | nil => exact ⟨before, [], rfl, (List.append_nil _).symm, .nil⟩
  | cons param rest ih =>
      rw [List.length_cons] at hroom
      have hrest : ∀ param ∈ rest, ∀ type, param.marshal = some type →
          type.length < Compressed.limit := fun other hmem => hshort other (.tail _ hmem)
      unfold addMarshalling marshalled
      cases hmarshal : param.marshal with
      | none => exact ih hlead (by omega) hrest
      | some type =>
          obtain ⟨parent, hparent⟩ := CodedKind.exists_encode
            (rfl : CodedKind.hasFieldMarshal.contains .param = true) row
          have hdecode := CodedKind.decode_encode hparent
          rw [CodedKind.mod_eq_of_lt_rowLimit _ (by omega)] at hdecode
          obtain ⟨blob, blobs, hblob, hgrown, hget, -⟩ :=
            appendBlob_of_lead hlead (hshort param (.head _) type hmarshal)
          have hpushed : (({ before with blobs } : Assembly).withRow .fieldMarshal
              [parent, blob]).blobs.data.head? = some 0 := head?_of_grown hlead hgrown
          have hnext : row + 1 + rest.length ≤ Token.rowLimit := by omega
          obtain ⟨after, added, hafter, hrows, hmarshals⟩ := ih hpushed hnext hrest
          have hextended := addMarshalling_eq_ok hafter
          have hmarshal : (({ before with blobs } : Assembly).withRow .fieldMarshal
              [parent, blob]).Marshals (row, type) [parent, blob] :=
            ⟨parent, blob, rfl, hdecode, hget⟩
          refine ⟨after, [parent, blob] :: added, ?_, ?_,
            .cons (hmarshal.mono hextended.blobs) hmarshals⟩
          · exact Edit.bind_eq_ok.mpr ⟨parent, before, Edit.lift_eq_ok.mpr ⟨hparent, rfl⟩,
              Edit.bind_eq_ok.mpr ⟨blob, _, hblob, Edit.bind_eq_ok.mpr ⟨_, _, rfl, hafter⟩⟩⟩
          · rw [hrows, withRow, Tables.rows_push, if_pos rfl, List.append_assoc]
            rfl

/-! ## All parameters -/

theorem addedBodies_of_renumber_plain {renumbering : Renumbering} {inserted : List Row}
    (hmethod : renumbering.table ≠ .methodDef) (hcode : renumbering.table.isCodeTarget = false)
    (h : before.renumber renumbering inserted = .ok after) :
    after.addedBodies = before.addedBodies := by
  obtain ⟨arranged, renewed, entryPoint, bodies, middle, -, -, -, hrekeyed, hpatched, hresigned⟩ :=
    renumber_eq_ok h
  obtain ⟨tables, blobs, rfl, -⟩ := resigned_eq_ok hresigned
  rw [rekeyed, if_neg hmethod] at hrekeyed
  rw [patched, if_neg (by simp [hcode])] at hpatched
  obtain rfl := Except.ok.inj hrekeyed
  obtain rfl := Except.ok.inj hpatched
  rfl

/-- Rows of a table whose columns refer to no rows always fit. -/
theorem rowsFit_of_plain {table : Table} {inserted : List Row} {tables : Tables}
    (hplain : ∀ kind ∈ table.columns, ∀ value, tables.InRange kind value)
    (hlength : ∀ columns ∈ inserted, columns.length = table.columns.length) :
    RowsFit table inserted tables :=
  fun columns hmem => ⟨hlength columns hmem, fun _ kind value hkind _ =>
    hplain kind (List.mem_of_getElem? hkind) value⟩

/-- Nothing happens for a method that has no parameters. -/
theorem paramsInserted_nil (hsound : before.tables.Sound) {method position : Nat}
    (hrun : before.paramRun method = .ok (position, position)) :
    ParamsInserted before method position [] before where
  counts := fun table => by
    split
    · rfl
    · split <;> rfl
  follow := by
    rw [List.length_nil, Renumbering.shift_zero]
    exact hsound.follow_self _
  run := hrun
  rows := nofun
  others := fun other hlo hhi _ => by
    obtain ⟨start, stop, hother, -⟩ :=
      (hsound.startsFit
        (rfl : Table.methodDef.columns[MethodDef.paramColumn]? = _)).exists_runOf hlo hhi
    have hmembers := Tables.members_of_runOf hother
    refine ⟨_, hmembers, hmembers.trans ?_⟩
    rw [List.length_nil, Renumbering.shift_zero, List.map_id']
  methods := fun _ _ h => h
  marshalling := ⟨_, [], (List.append_nil _).symm, rfl, .nil⟩
  addedBodies := rfl
  strings := List.prefix_refl _
  blobs := List.prefix_refl _

section

variable {moved : Assembly} {method position : Nat} {params : List ParamDraft} {rows : List Row}

/-- The rows of parameters are put in, and then their marshalling is told. -/
theorem paramsInserted_of_renumber (hsound : before.tables.Sound) (hsound' : moved.tables.Sound)
    (hcounts : ∀ table, before.tables.count table < Token.rowLimit)
    (hroom : before.tables.count .param + params.length < Token.rowLimit)
    (hrun : before.paramRun method = .ok (position, position))
    (hholds : ∀ k param, params[k]? = some param → ∃ name,
      rows[k]? = some [if param.marshal.isSome then ParamFlags.hasFieldMarshal else 0,
        k + 1, name] ∧
        before.strings.Holds name param.name)
    (hmoved : before.renumber (.insertion .param (before.tables.count .param) position params.length
      (some (.methodDef, method))) rows = .ok moved)
    (hextended : Extended [.fieldMarshal] moved after)
    (hmarshal : ∃ added, after.tables.rows .fieldMarshal =
      moved.tables.rows .fieldMarshal ++ added ∧
        List.Forall₂ after.Marshals (marshalled position params) added) :
    ParamsInserted before method position params after := by
  have hkind : Table.methodDef.columns[MethodDef.paramColumn]? = some (.list .param) := rfl
  have hposition : 1 ≤ position ∧ position ≤ before.tables.count .param + 1 := by
    obtain ⟨hlo, -, hhi⟩ := hsound.runs.bounds_of_runOf hkind hrun
    exact ⟨hlo, hhi⟩
  have hmade : (Renumbering.insertion .param (before.tables.count .param) position params.length
      (some (.methodDef, method))).Made := .insertion _ _ _ _ _ (.inr hposition)
  have hmovedTo := movedTo_of_renumber hmade hmoved
  have hfollow := follow_of_insertion hposition rfl hsound hcounts hroom hmoved
  have hstrings : before.strings.data <+: after.strings.data := by
    rw [← (heaps_of_renumber hmoved).1]
    exact hextended.strings
  obtain ⟨added, hadded, hmarshals⟩ := hmarshal
  have hmarshalCount : moved.tables.count .fieldMarshal = before.tables.count .fieldMarshal :=
    (hmovedTo.counts .fieldMarshal).trans (if_neg (show Table.fieldMarshal ≠ .param by decide))
  exact {
    counts := fun table => by
      by_cases hmarshal : table = .fieldMarshal
      · subst hmarshal
        rw [if_neg (by decide), if_pos rfl, Tables.count, hadded, List.length_append,
          ← hmarshals.length_eq]
        exact congrArg (· + _) hmarshalCount
      · rw [hextended.count fun hin => hmarshal (List.mem_singleton.mp hin)]
        by_cases hparam : table = .param
        · rw [if_pos hparam, hparam]
          exact (hmovedTo.counts .param).trans (if_pos rfl)
        · rw [if_neg hparam, if_neg hmarshal]
          exact (hmovedTo.counts table).trans (if_neg hparam)
    follow := hfollow.trans (hextended.follow hsound')
    run := by
      rw [paramRun, hextended.runOf (by decide) (by decide)]
      exact runOf_of_insertion hkind hsound.runs hsound'.runs hmovedTo hrun
    rows := fun k param hget => by
      obtain ⟨name, hrow, hname⟩ := hholds k param hget
      exact ⟨name, hextended.row? (row?_of_renumber_inserted hmade rfl hmoved rfl hrow),
        hname.mono hstrings⟩
    others := fun other hlo hhi hne => by
      obtain ⟨members, hmembers, hmembers'⟩ := Tables.members_shift_of_insertion
        (hsound.startsFit hkind) hrun (Tables.startsFollow_of_movedTo hmovedTo hkind) hlo hhi
      rw [if_neg hne, List.append_nil] at hmembers'
      exact ⟨members, hmembers, (hextended.members (by decide) (by decide) _ _).trans hmembers'⟩
    methods := fun typeDef run hold => by
      rw [hextended.methodRun (by decide) (by decide)]
      exact methodRun_of_movedTo hmovedTo (show Table.typeDef ≠ .param by decide)
        (show Table.methodDef ≠ .param by decide) hold
    marshalling := ⟨_, added, hadded, hmarshalCount, hmarshals⟩
    addedBodies := by
      have hbodies : after.addedBodies = moved.addedBodies := by rw [hextended.rest]
      refine hbodies.trans (addedBodies_of_renumber_plain ?_ rfl hmoved)
      exact show Table.param ≠ .methodDef by decide
    strings := hstrings
    blobs := by
      rw [← (signatures_of_renumber hmade rfl hmoved).1]
      exact hextended.blobs }

/-- Parameters can be added to a method that has none. -/
theorem exists_insertParams_of_sound (hsound : before.tables.Sound)
    (hascending : Ascending before.addedBodies)
    (hleads : before.strings.data.head? = some 0 ∧ before.blobs.data.head? = some 0)
    (hcounts : ∀ table, before.tables.count table < Token.rowLimit)
    (hroom : before.tables.count .param + params.length < Token.rowLimit)
    (hshort : ∀ param ∈ params, ∀ type, param.marshal = some type → type.length < Compressed.limit)
    (hrun : before.paramRun method = .ok (position, position)) :
    ∃ after, insertParams method params before = .ok ((), after) ∧
      ParamsInserted before method position params after := by
  have hposition : 1 ≤ position ∧ position ≤ before.tables.count .param + 1 := by
    obtain ⟨hlo, -, hhi⟩ := hsound.runs.bounds_of_runOf
      (rfl : Table.methodDef.columns[MethodDef.paramColumn]? = _) hrun
    exact ⟨hlo, hhi⟩
  obtain ⟨rows, strings, hrows, hgrown, hlength, hholds⟩ :=
    exists_paramRows_of_lead hleads.1 1 params
  have hthree : ∀ columns ∈ rows, columns.length = Table.param.columns.length := by
    intro columns hmem
    obtain ⟨k, hlt, rfl⟩ := List.mem_iff_getElem.mp hmem
    obtain ⟨name, hrow, -⟩ := hholds k _ (List.getElem?_eq_getElem (hlength ▸ hlt))
    rw [List.getElem?_eq_getElem hlt] at hrow
    rw [Option.some.inj hrow]
    rfl
  obtain ⟨moved, hmoved⟩ : ∃ moved, ({ before with strings } : Assembly).renumber
      (.insertion .param (before.tables.count .param) position params.length
        (some (.methodDef, method))) rows = .ok moved :=
    exists_insertion_of_renumberable ⟨hsound.inRange, hascending, nofun, nofun⟩ rfl hposition
      hlength nofun
  have hmade : (Renumbering.insertion .param (before.tables.count .param) position params.length
      (some (.methodDef, method))).Made := .insertion _ _ _ _ _ (.inr hposition)
  have hnamed : ({ before with strings } : Assembly).tables.Sound := hsound
  have hsound' : moved.tables.Sound := by
    refine sound_of_insertion ?_ hnamed hcounts
      (rowsFit_of_plain (by simp [Table.columns, Tables.InRange]) hthree)
      (runsFit_of_plain ?_) hmoved
    · exact hposition
    · exact (by decide : ∀ target, ColumnKind.list target ∉ Table.param.columns)
  have hblobs : moved.blobs = before.blobs := (signatures_of_renumber hmade rfl hmoved).1
  have hlead : moved.blobs.data.head? = some 0 := hblobs ▸ hleads.2
  obtain ⟨after, added, hafter, hmarshals⟩ :=
    exists_addMarshalling_of_lead hlead (by omega : position + params.length ≤ _) hshort
  refine ⟨after, ?_, ?_⟩
  · exact Edit.bind_eq_ok.mpr ⟨before, before, rfl,
      Edit.bind_eq_ok.mpr ⟨(position, position), before,
      Edit.lift_eq_ok.mpr ⟨hrun, rfl⟩, Edit.bind_eq_ok.mpr ⟨rows, _, hrows, Edit.bind_eq_ok.mpr
        ⟨(), moved, Edit.bind_eq_ok.mpr ⟨_, _, rfl, Edit.bind_eq_ok.mpr ⟨moved, _,
          Edit.lift_eq_ok.mpr ⟨hmoved, rfl⟩, rfl⟩⟩, hafter⟩⟩⟩⟩
  · have hinserted : ParamsInserted { before with strings } method position params after :=
      paramsInserted_of_renumber hnamed hsound' hcounts hroom hrun
        (fun k param hget => Nat.add_comm 1 k ▸ hholds k param hget) hmoved
        (addMarshalling_eq_ok hafter) ⟨added, hmarshals⟩
    exact { hinserted with strings := hgrown.trans hinserted.strings }

/-- Parameters are added if there are any. -/
theorem exists_params_of_sound (hsound : before.tables.Sound)
    (hascending : Ascending before.addedBodies)
    (hleads : before.strings.data.head? = some 0 ∧ before.blobs.data.head? = some 0)
    (hcounts : ∀ table, before.tables.count table < Token.rowLimit)
    (hroom : before.tables.count .param + params.length < Token.rowLimit)
    (hshort : ∀ param ∈ params, ∀ type, param.marshal = some type → type.length < Compressed.limit)
    (hrun : before.paramRun method = .ok (position, position)) :
    ∃ after, (if !params.isEmpty then insertParams method params >>= fun _ => pure method
        else pure method : Edit Nat) before = .ok (method, after) ∧
      ParamsInserted before method position params after := by
  by_cases hnone : params = []
  · subst hnone
    exact ⟨before, rfl, paramsInserted_nil hsound hrun⟩
  · obtain ⟨after, hafter, hinserted⟩ :=
      exists_insertParams_of_sound hsound hascending hleads hcounts hroom hshort hrun
    rw [if_pos (by simp [hnone])]
    exact ⟨after, Edit.bind_eq_ok.mpr ⟨(), after, hafter, rfl⟩, hinserted⟩

end

end Assembly

end NativeExports
