import NativeExports.Proofs.Editing.Additions
import NativeExports.Proofs.Editing.Ownership
import NativeExports.Proofs.Editing.Renumbered

/-!
# Adding methods

A method is put in at the end of the run of its type, its parameters at the end of the run that it
gets, and its body is kept aside.  The run of the new method begins where that of the method behind
it does, so all runs stay in order.  Adding a method succeeds if its type exists and if its
signature and its body can be read and lead somewhere.
-/

namespace NativeExports

namespace Assembly

/-- A method that can be added to a type.  Its body holds the tokens that are right once the method
has its row, and tokens can still tell apart the rows of all tables. -/
structure MethodFits (assembly : Assembly) (typeDef : Nat) (method : MethodDraft) : Prop where
  owner : 1 ≤ typeDef ∧ typeDef ≤ assembly.tables.count .typeDef
  signature : assembly.SignatureFits method.signature
  marshalling : ∀ param ∈ method.params, ∀ type, param.marshal = some type →
    type.length < Compressed.limit
  body : ∃ body instructions, MethodBody.read method.body = .ok body ∧
    Code.decode (body.code method.body) = .ok instructions ∧
    ∀ token ∈ body.tokens instructions, token.IsCodeToken ∧
      token.Within (fun table => assembly.tables.count table + if table = .methodDef then 1 else 0)
        assembly.userStrings.length
  methods : assembly.tables.count .methodDef + 1 < Token.rowLimit
  params : assembly.tables.count .param + method.params.length < Token.rowLimit
  marshalled : assembly.tables.count .fieldMarshal +
    method.params.countP (·.marshal.isSome) < Token.rowLimit

variable {before after : Assembly}

/-! ## Runs -/

theorem Consistent.sound (h : before.Consistent) : before.tables.Sound :=
  ⟨h.arity, h.inRange, h.runs⟩

/-- The run of an existing row is part of its table. -/
theorem exists_runOf (h : before.Consistent) {table target : Table} {row c : Nat}
    (hrow : 1 ≤ row ∧ row ≤ before.tables.count table)
    (hkind : table.columns[c]? = some (.list target)) :
    ∃ start stop, before.tables.runOf table row c target = .ok (start, stop) ∧ 1 ≤ stop ∧
      stop ≤ before.tables.count target + 1 := by
  obtain ⟨start, stop, hrun, -, -, hlo, hle, hhi⟩ :=
    (h.sound.startsFit hkind).exists_runOf hrow.1 hrow.2
  exact ⟨start, stop, hrun, Nat.le_trans hlo hle, hhi⟩

/-! ## Insertions -/

/-- Rows that fit can be put in, unless signatures can name rows of the table. -/
theorem exists_insertion (h : before.Consistent) {table : Table} {position count : Nat}
    {owner : Option (Table × Nat)} {inserted : List Row}
    (hinsertable : Insertable before
      (.insertion table (before.tables.count table) position count owner) inserted)
    (hposition : 1 ≤ position ∧ position ≤ before.tables.count table + 1)
    (hlength : inserted.length = count) (hne : inserted ≠ [])
    (hroom : before.tables.count table + count < Token.rowLimit) :
    ∃ after, before.renumber (.insertion table (before.tables.count table) position count owner)
        inserted = .ok after ∧ after.Refines before ∧
      ∀ other, after.tables.count other =
        if other = table then before.tables.count table + count else before.tables.count other := by
  have hmade :
      (Renumbering.insertion table (before.tables.count table) position count owner).Made :=
    .insertion _ _ _ _ _ (.inr hposition)
  obtain ⟨after, hafter⟩ := exists_insertion_of_renumberable (h.renumberable _)
    (hinsertable.plain hne) hposition hlength hinsertable.unaddressed
  refine ⟨after, hafter, ⟨?_, ?_, fun token hnames => ?_⟩,
    (movedTo_of_renumber hmade hafter).counts⟩
  · exact consistent_of_renumber hmade (Renumbering.keepsRuns_insertion _ _ _ _ _) h hinsertable
      hroom hafter
  · exact covers_of_inserted hmade h (hinsertable.none hlength) hafter hne
  · exact .inl ((outerNames_of_renumber hmade h.toWellFormed hafter).mp hnames)

/-- A body can be kept aside for a method without an address. -/
theorem refines_setBody (h : before.Consistent) {method : Nat} {data : Bytes}
    (haddress : before.tables.value .methodDef method MethodDef.rvaColumn = .ok 0)
    (hbody : ∃ body instructions, MethodBody.read data = .ok body ∧
      Code.decode (body.code data) = .ok instructions ∧
        ∀ token ∈ body.tokens instructions, token.IsCodeToken ∧ before.Reaches token) :
    (before.setBody method data).Refines before := by
  obtain ⟨body, instructions, hread, hdecode, htokens⟩ := hbody
  have hmem := mem_insertBody method data h.ascending
  refine ⟨?_, ⟨fun _ => Nat.le_refl _, List.prefix_refl _, List.prefix_refl _, rfl, rfl⟩, ?_⟩
  · exact {
      arity := h.arity
      inRange := h.inRange
      counts := h.counts
      bodies := ⟨h.bodies.found, h.bodies.apart⟩
      bodyTokens := h.bodyTokens
      added := by
        intro entry hentry
        rcases (hmem entry).mp hentry with rfl | ⟨hold, -⟩
        · exact ⟨body, instructions, hread, hdecode, fun token htoken => (htokens token htoken).1⟩
        · exact h.added entry hold
      ascending := ascending_insertBody h.ascending
      rows := fun table columns hcolumns =>
        have hfits := h.rows table columns hcolumns
        ⟨hfits.arity, hfits.inRange, hfits.resolves, hfits.signature⟩
      apart := h.apart
      runs := h.runs
      names := by
        rintro token (hstored | ⟨entry, hentry, body₂, instructions₂, hread₂, hdecode₂, htoken⟩)
        · exact h.names token (.inl hstored)
        · rcases (hmem entry).mp hentry with rfl | ⟨hold, -⟩
          · obtain rfl := Except.ok.inj (hread.symm.trans hread₂)
            obtain rfl := Except.ok.inj (hdecode.symm.trans hdecode₂)
            exact (htokens token (List.mem_append_left _ htoken)).2
          · exact h.names token (.inr ⟨entry, hold, body₂, instructions₂, hread₂, hdecode₂, htoken⟩)
      keys := by
        intro entry hentry
        rcases (hmem entry).mp hentry with rfl | ⟨hold, -⟩
        · exact haddress
        · exact h.keys entry hold
      leads := h.leads }
  · rintro token ⟨entry, hentry, body₂, hread₂, htoken⟩
    rcases (hmem entry).mp hentry with rfl | ⟨hold, -⟩
    · obtain rfl := Except.ok.inj (hread.symm.trans hread₂)
      exact .inr (htokens token (List.mem_append_right _ htoken)).2
    · exact .inl ⟨entry, hold, body₂, hread₂, htoken⟩

/-! ## Parameters -/

theorem exists_paramRows (h : before.Consistent) (sequence : Nat) (params : List ParamDraft) :
    ∃ rows after, paramRows sequence params before = .ok (rows, after) ∧ after.Refines before ∧
      after.tables = before.tables ∧ rows.length = params.length ∧
        ∀ columns ∈ rows, after.RowFits .param columns := by
  induction params generalizing sequence before with
  | nil => exact ⟨[], before, rfl, .refl h, rfl, rfl, nofun⟩
  | cons param rest ih =>
      obtain ⟨index, named, hnamed, hrefines, htables, -, hname⟩ := exists_internString h param.name
      obtain ⟨rows, after, hrows, hrefines', htables', hlength, hfits⟩ :=
        ih hrefines.consistent (sequence + 1)
      refine ⟨_, after, Edit.bind_eq_ok.mpr ⟨index, named, hnamed, Edit.bind_eq_ok.mpr
        ⟨rows, after, hrows, rfl⟩⟩, hrefines.trans hrefines', htables'.trans htables, ?_, ?_⟩
      · rw [List.length_cons, List.length_cons, hlength]
      · intro columns hmem
        rcases List.mem_cons.mp hmem with rfl | hmem
        · have hnone : ∀ site ∈ SignatureColumn.all, site.table ≠ .param := by decide
          refine rowFits_of_zip rfl ?_ fun site hsite htable => absurd htable (hnone site hsite)
          intro entry hentry
          simp only [Table.columns, List.zip_cons_cons, List.zip_nil_left, List.mem_cons,
            List.not_mem_nil, or_false] at hentry
          rcases hentry with rfl | rfl | rfl
          · exact ⟨trivial, trivial⟩
          · exact ⟨trivial, trivial⟩
          · exact ⟨trivial, hrefines'.covers.resolves hname⟩
        · exact hfits columns hmem

/-- Parameters can be added to an existing method. -/
theorem exists_insertParams (h : before.Consistent) {method : Nat} {params : List ParamDraft}
    (hne : params ≠ []) (hmethod : 1 ≤ method ∧ method ≤ before.tables.count .methodDef)
    (hroom : before.tables.count .param + params.length < Token.rowLimit)
    (hmarshalled : before.tables.count .fieldMarshal +
      params.countP (·.marshal.isSome) < Token.rowLimit)
    (hshort : ∀ param ∈ params, ∀ type, param.marshal = some type →
      type.length < Compressed.limit) :
    ∃ after, insertParams method params before = .ok ((), after) ∧ after.Refines before := by
  obtain ⟨start, position, hrun, hlo, hhi⟩ :=
    exists_runOf h hmethod
      (rfl : Table.methodDef.columns[MethodDef.paramColumn]? = some (.list .param))
  obtain ⟨rows, named, hrows, hrefines, htables, hlength, hfits⟩ := exists_paramRows h 1 params
  have hcounts : ∀ table, named.tables.count table = before.tables.count table := fun table => by
    rw [htables]
  have hnone : ∀ site ∈ SignatureColumn.all, site.table ≠ .param := by decide
  have hinsertable : Insertable named (.insertion .param (named.tables.count .param) position
      params.length (some (.methodDef, method))) rows :=
    { fits := hfits
      fresh := fun columns _ site hsite htable => absurd htable (hnone site hsite)
      runs := runsFit_of_plain (by decide : ∀ target, ColumnKind.list target ∉ Table.param.columns)
      plain := fun _ => rfl
      unaddressed := nofun }
  obtain ⟨middle, hmiddle, hrefines', hcounts'⟩ := exists_insertion hrefines.consistent
    hinsertable (hcounts .param ▸ ⟨hlo, hhi⟩) hlength
    (fun hnil => hne (List.length_eq_zero_iff.mp (hlength.symm.trans (hnil ▸ rfl))))
    (hcounts .param ▸ hroom)
  have hparams : middle.tables.count .param = before.tables.count .param + params.length := by
    rw [hcounts', if_pos rfl, hcounts]
  have hmarshals : middle.tables.count .fieldMarshal = before.tables.count .fieldMarshal := by
    rw [hcounts', if_neg (by decide), hcounts]
  have hbehind : position + params.length ≤ middle.tables.count .param + 1 := by omega
  obtain ⟨after, hafter, hrefines''⟩ := exists_addMarshalling hrefines'.consistent hbehind
    (hmarshals ▸ hmarshalled) hshort
  refine ⟨after, ?_, (hrefines.trans hrefines').trans hrefines''⟩
  rw [hcounts] at hmiddle
  exact Edit.bind_eq_ok.mpr ⟨before, before, rfl, Edit.bind_eq_ok.mpr ⟨(start, position), before,
    Edit.lift_eq_ok.mpr ⟨hrun, rfl⟩, Edit.bind_eq_ok.mpr ⟨rows, named, hrows, Edit.bind_eq_ok.mpr
      ⟨(), middle, Edit.bind_eq_ok.mpr ⟨named, named, rfl, Edit.bind_eq_ok.mpr ⟨middle, named,
        Edit.lift_eq_ok.mpr ⟨hmiddle, rfl⟩, rfl⟩⟩, hafter⟩⟩⟩⟩

/-! ## Methods -/

/-- The row of a method can be put in if its name and its signature were added. -/
theorem insertable_methodRow (method : MethodDraft) {name signature param position : Nat}
    {owner : Option (Table × Nat)} (hname : before.Resolves .string name)
    (hget : before.blobs.get signature = .ok method.signature)
    (hreads : before.ReadsAs .signature signature)
    (hfresh : signature ≠ 0 → ∀ form, ¬before.tables.HoldsSignature form signature)
    (hruns : (Renumbering.insertion .methodDef (before.tables.count .methodDef) position 1
      owner).RunsFit [methodRow method name signature param] before.tables) :
    Insertable before (.insertion .methodDef (before.tables.count .methodDef) position 1 owner)
      [methodRow method name signature param] := by
  have hsites : ∀ site ∈ SignatureColumn.all, site.table = .methodDef →
      site = ⟨.methodDef, MethodDef.signatureColumn, .signature⟩ :=
    SignatureColumn.eq_of_table ⟨.methodDef, MethodDef.signatureColumn, .signature⟩ (by decide)
  refine ⟨fun columns hmem => ?_, fun columns hmem => ?_, hruns, fun _ => rfl,
    fun _ columns hmem => ?_⟩
  · rw [List.mem_singleton.mp hmem]
    refine rowFits_of_zip rfl (fun entry hentry => ?_) fun site hsite htable index hindex _ => ?_
    · simp only [Renumbering.insertion, methodRow, Table.columns, List.zip_cons_cons,
        List.zip_nil_left, List.mem_cons, List.not_mem_nil, or_false] at hentry
      rcases hentry with rfl | rfl | rfl | rfl | rfl | rfl
      · exact ⟨trivial, trivial⟩
      · exact ⟨trivial, trivial⟩
      · exact ⟨trivial, trivial⟩
      · exact ⟨trivial, hname⟩
      · exact ⟨trivial, method.signature, hget⟩
      · exact ⟨trivial, trivial⟩
    · obtain rfl := hsites site hsite htable
      obtain rfl := Option.some.inj hindex
      exact hreads
  · intro site hsite htable index hindex hne form _
    obtain rfl := hsites site hsite htable
    rw [List.mem_singleton.mp hmem] at hindex
    obtain rfl := Option.some.inj hindex
    exact hfresh hne form
  · rw [List.mem_singleton.mp hmem]
    rfl

/-- Once a method has its row, its body can be kept aside. -/
theorem exists_methodWithBody (h : before.Consistent) {position param : Nat}
    {owner : Option (Table × Nat)} {method : MethodDraft} {name signature : Nat}
    (hinsertable : Insertable before
      (.insertion .methodDef (before.tables.count .methodDef) position 1 owner)
      [methodRow method name signature param])
    (hposition : 1 ≤ position ∧ position ≤ before.tables.count .methodDef + 1)
    (hroom : before.tables.count .methodDef + 1 < Token.rowLimit)
    (hbody : ∃ body instructions, MethodBody.read method.body = .ok body ∧
      Code.decode (body.code method.body) = .ok instructions ∧
      ∀ token ∈ body.tokens instructions, token.IsCodeToken ∧
        token.Within (fun table => before.tables.count table + if table = .methodDef then 1 else 0)
          before.userStrings.length) :
    ∃ after, before.renumber
        (.insertion .methodDef (before.tables.count .methodDef) position 1 owner)
        [methodRow method name signature param] = .ok after ∧
      (after.setBody position method.body).Refines before ∧
      ∀ table, (after.setBody position method.body).tables.count table =
        before.tables.count table + if table = .methodDef then 1 else 0 := by
  obtain ⟨after, hafter, hrefines, hcounts⟩ :=
    exists_insertion h hinsertable hposition rfl (List.cons_ne_nil _ _) hroom
  have hcount : ∀ table, after.tables.count table =
      before.tables.count table + if table = .methodDef then 1 else 0 := fun table => by
    rw [hcounts]
    split
    · rename_i heq
      rw [heq]
    · rfl
  have haddress : after.tables.value .methodDef position MethodDef.rvaColumn = .ok 0 := by
    have hin : (Renumbering.insertion .methodDef (before.tables.count .methodDef) position 1
        owner).isInserted position = true :=
      (Renumbering.isInserted_insertion _ _ _ _ _ _).mpr ⟨Nat.le_refl _, Nat.lt_succ_self _⟩
    obtain ⟨columns, hmem, hcolumns⟩ :=
      supplied_of_renumber (.insertion _ _ _ _ _ (.inr hposition)) rfl hafter hin
    rw [List.mem_singleton.mp hmem] at hcolumns
    exact Tables.value_eq_ok.mpr ⟨_, hcolumns, rfl⟩
  obtain ⟨body, instructions, hread, hdecode, htokens⟩ := hbody
  refine ⟨after, hafter, hrefines.trans (refines_setBody hrefines.consistent haddress
    ⟨body, instructions, hread, hdecode, fun token hmem => ⟨(htokens token hmem).1, ?_⟩⟩), hcount⟩
  unfold Reaches
  rw [hrefines.covers.literals]
  exact (htokens token hmem).2.mono fun table => Nat.le_of_eq (hcount table).symm

/-- A method that fits can be added. -/
theorem exists_insertMethod (h : before.Consistent) {typeDef : Nat} {method : MethodDraft}
    (hfits : before.MethodFits typeDef method) :
    ∃ row after, insertMethod typeDef method before = .ok (row, after) ∧ after.Refines before := by
  obtain ⟨start, position, hrun, hposition⟩ := exists_runOf h hfits.owner
    (rfl : Table.typeDef.columns[TypeDef.methodColumn]? = some (.list .methodDef))
  obtain ⟨param, hparam⟩ := h.sound.exists_firstParam hposition.1
  obtain ⟨hlo, hhi, hbetween⟩ := h.runs.firstParam_between hparam
  obtain ⟨name, named, hnamed, hnames, htables, -, hname⟩ := exists_internString h method.name
  obtain ⟨signature, signed, hsigned, hsigns, htables', hget, hend⟩ :=
    exists_appendBlob hnames.consistent hfits.signature.short
  have hrefines := hnames.trans hsigns
  have hsame : signed.tables = before.tables := htables'.trans htables
  have hliterals : signed.userStrings = before.userStrings := hrefines.covers.literals
  have hinsertable : Insertable signed (.insertion .methodDef (signed.tables.count .methodDef)
      position 1 (some (.typeDef, typeDef))) [methodRow method name signature param] := by
    refine insertable_methodRow method (hsigns.covers.resolves hname) hget
      (hfits.signature.readsAs hrefines.covers hget) (fun hne form => ?_) ?_
    · rw [htables']
      exact hnames.consistent.not_holdsSignature hne (hend hne)
    · rw [hsame]
      exact runsFit_method hlo hhi hbetween fun columns hmem => List.mem_singleton.mp hmem ▸ rfl
  obtain ⟨middle, hmiddle, hbody, hcounts⟩ := exists_methodWithBody hsigns.consistent hinsertable
    (hsame ▸ hposition) (hsame ▸ hfits.methods) (by rw [hsame, hliterals]; exact hfits.body)
  rw [hsame] at hmiddle hcounts
  obtain ⟨after, hrest, hparams⟩ : ∃ after,
      (if !method.params.isEmpty then
          insertParams position method.params >>= fun _ => pure position
        else pure position : Edit Nat) (middle.setBody position method.body) =
          .ok (position, after) ∧ after.Refines (middle.setBody position method.body) := by
    by_cases hempty : method.params = []
    · rw [hempty]
      exact ⟨_, rfl, .refl hbody.consistent⟩
    · rw [if_pos (by simp [hempty])]
      obtain ⟨after, hafter, hparams⟩ := exists_insertParams hbody.consistent hempty
        ⟨hposition.1, by rw [hcounts]; exact hposition.2⟩ (by rw [hcounts]; exact hfits.params)
        (by rw [hcounts]; exact hfits.marshalled) hfits.marshalling
      exact ⟨after, Edit.bind_eq_ok.mpr ⟨(), after, hafter, rfl⟩, hparams⟩
  refine ⟨position, after, ?_, (hrefines.trans hbody).trans hparams⟩
  exact Edit.bind_eq_ok.mpr ⟨before, before, rfl, Edit.bind_eq_ok.mpr ⟨(start, position), before,
    Edit.lift_eq_ok.mpr ⟨hrun, rfl⟩, Edit.bind_eq_ok.mpr ⟨param, before,
      Edit.lift_eq_ok.mpr ⟨hparam, rfl⟩, Edit.bind_eq_ok.mpr ⟨name, named, hnamed,
        Edit.bind_eq_ok.mpr ⟨signature, signed, hsigned, Edit.bind_eq_ok.mpr ⟨(), middle,
          Edit.bind_eq_ok.mpr ⟨signed, signed, rfl, Edit.bind_eq_ok.mpr ⟨middle, signed,
            Edit.lift_eq_ok.mpr ⟨hmiddle, rfl⟩, rfl⟩⟩,
          Edit.bind_eq_ok.mpr ⟨(), middle.setBody position method.body, rfl, hrest⟩⟩⟩⟩⟩⟩⟩

end Assembly

end NativeExports
