import NativeExports.Proofs.References
import NativeExports.Proofs.Renumbering.Steps
import NativeExports.Proofs.Signature.Replacement

/-!
# Where signatures go

Renumbering looks at one signature after the other and remembers where it has put each blob.  The
invariant of the walk says what is remembered: a blob that was seen is found at its new offset with
its tokens renumbered, and different blobs have gone to different offsets.

A blob is renumbered once, in the form of the first column that holds it.  So a blob is renumbered
right for all columns that hold it if none is a bare type in one row and a signature in another one.
-/

namespace NativeExports

/-- The form of the first of the columns with signatures of which something holds. -/
def BlobForm.Leads (holds : SignatureColumn → Prop) (form : BlobForm) : Prop :=
  ∃ front site back, SignatureColumn.all = front ++ site :: back ∧ site.shape = form ∧
    holds site ∧ ∀ other ∈ front, ¬holds other

theorem BlobForm.Leads.congr {holds holds' : SignatureColumn → Prop} {form : BlobForm}
    (h : form.Leads holds) (hsame : ∀ site ∈ SignatureColumn.all, holds site ↔ holds' site) :
    form.Leads holds' := by
  obtain ⟨front, site, back, hall, hform, hholds, hfirst⟩ := h
  refine ⟨front, site, back, hall, hform, (hsame site ?_).mp hholds, fun other hother hheld => ?_⟩
  · rw [hall]
    exact List.mem_append_right _ (.head _)
  · refine hfirst other hother ((hsame other ?_).mpr hheld)
    rw [hall]
    exact List.mem_append_left _ hother

namespace Tables

/-- Some row holds an offset in the given column. -/
def HoldsAt (tables : Tables) (site : SignatureColumn) (index : Nat) : Prop :=
  ∃ columns ∈ tables.rows site.table, columns[site.column]? = some index

/-- Some row holds a signature of the given form at an offset. -/
def HoldsSignature (tables : Tables) (form : BlobForm) (index : Nat) : Prop :=
  ∃ site ∈ SignatureColumn.all, site.shape = form ∧
    ∃ columns ∈ tables.rows site.table, columns[site.column]? = some index

/-- No blob is used both as a bare type and as a signature. -/
def FormsApart (tables : Tables) : Prop :=
  ∀ index, index ≠ 0 → tables.HoldsSignature .type index → ¬tables.HoldsSignature .signature index

theorem FormsApart.form_eq {tables : Tables} (h : tables.FormsApart) {index : Nat}
    (hindex : index ≠ 0) {form form' : BlobForm} (hform : tables.HoldsSignature form index)
    (hform' : tables.HoldsSignature form' index) : form' = form := by
  cases form <;> cases form'
  · rfl
  · exact absurd hform' (h index hindex hform)
  · exact absurd hform (h index hindex hform')
  · rfl

theorem HoldsSignature.of_leads {tables : Tables} {index : Nat} {form : BlobForm}
    (h : form.Leads fun site => tables.HoldsAt site index) : tables.HoldsSignature form index := by
  obtain ⟨front, site, back, hall, hform, hholds, -⟩ := h
  exact ⟨site, hall ▸ List.mem_append_right _ (.head _), hform, hholds⟩

end Tables

theorem SignatureColumn.nodup_all : all.Nodup := by
  decide

/-- A table has one column with signatures. -/
theorem SignatureColumn.eq_of_table : ∀ site ∈ all, ∀ site' ∈ all, site'.table = site.table →
    site' = site := by
  decide

namespace Assembly

variable {renumbering : Renumbering} {assembly : Assembly}

/-! ## One signature -/

/-- What is remembered of the blobs that were seen.  Where a blob could not be found at first,
nothing is said of it. -/
structure Traced (renumbering : Renumbering) (assembly : Assembly) (state : SignatureRenumbering) :
    Prop where
  grown : Grown assembly.blobs state.blobs
  moved : ∀ index new blob, state.moved.lookup index = some new →
    assembly.blobs.get index = .ok blob →
    (new = index ∨ assembly.blobs.data.length ≤ new ∧ new < state.blobs.data.length) ∧
    ∃ (form : BlobForm) (updated : Bytes),
      (form.Leads fun site => assembly.tables.HoldsAt site index) ∧
      form.mapTokens renumbering.newToken blob = .ok updated ∧ state.blobs.get new = .ok updated ∧
      (new = index ↔ updated = blob)
  apart : ∀ index other new blob blob', assembly.blobs.get index = .ok blob →
    assembly.blobs.get other = .ok blob' → state.moved.lookup index = some new →
    state.moved.lookup other = some new → other = index

theorem lookup_cons_of_fresh {moved : List (Nat × Nat)} {index new other found : Nat}
    (hfresh : moved.lookup index = none) (h : moved.lookup other = some found) :
    ((index, new) :: moved).lookup other = some found := by
  have hne : other ≠ index := by
    rintro rfl
    rw [hfresh] at h
    cases h
  rw [List.lookup_cons, beq_eq_false_iff_ne.mpr hne]
  exact h

theorem lookup_cons_cases {moved : List (Nat × Nat)} {index new other found : Nat}
    (h : ((index, new) :: moved).lookup other = some found) :
    other = index ∧ found = new ∨ other ≠ index ∧ moved.lookup other = some found := by
  by_cases heq : other = index
  · rw [heq, List.lookup_cons_self] at h
    exact .inl ⟨heq, (Option.some.inj h).symm⟩
  · rw [List.lookup_cons, beq_eq_false_iff_ne.mpr heq] at h
    exact .inr ⟨heq, h⟩

/-- Where a blob is put now, no other blob was put before. -/
theorem Traced.lookup_ne {state : SignatureRenumbering} (h : Traced renumbering assembly state)
    {index other new : Nat} {blob blob' : Bytes} (hindex : assembly.blobs.get index = .ok blob)
    (hother : assembly.blobs.get other = .ok blob') (hne : other ≠ index)
    (hplace : new = index ∨ new = state.blobs.data.length) :
    state.moved.lookup other ≠ some new := by
  intro hfound
  have hindexlt := BlobHeap.lt_of_get hindex
  have hotherlt := BlobHeap.lt_of_get hother
  have hstart := h.grown.length_le
  have hold := (h.moved other new blob' hfound hother).1
  rcases hplace with rfl | rfl
  · omega
  · omega

/-- The blob of a column can be remembered where it is, or where its renumbered copy is put. -/
theorem Traced.remember {state : SignatureRenumbering} (h : Traced renumbering assembly state)
    {shape : BlobForm} {index new : Nat} {blob updated : Bytes} {blobs : BlobHeap}
    (hlead : shape.Leads fun site => assembly.tables.HoldsAt site index)
    (hblob : state.blobs.get index = .ok blob)
    (hupdated : shape.mapTokens renumbering.newToken blob = .ok updated)
    (hgrown : Grown state.blobs blobs) (hget : blobs.get new = .ok updated)
    (hplace : new = index ∧ updated = blob ∨ updated ≠ blob ∧ new = state.blobs.data.length) :
    Traced renumbering assembly { state with blobs, moved := (index, new) :: state.moved } where
  grown := h.grown.trans hgrown
  moved := by
    intro other found blob' hfound hother
    have hlt := BlobHeap.lt_of_get hblob
    have hbehind := BlobHeap.lt_of_get hget
    rcases lookup_cons_cases hfound with ⟨rfl, rfl⟩ | ⟨-, hbefore⟩
    · obtain rfl := Except.ok.inj (hblob.symm.trans (h.grown.get hother))
      refine ⟨?_, shape, updated, hlead, hupdated, hget, ?_⟩
      · rcases hplace with ⟨rfl, -⟩ | ⟨-, rfl⟩
        · exact .inl rfl
        · exact .inr ⟨h.grown.length_le, hbehind⟩
      · rcases hplace with ⟨rfl, hsame⟩ | ⟨hchanged, rfl⟩
        · exact iff_of_true rfl hsame
        · exact iff_of_false (Nat.ne_of_gt hlt) hchanged
    · obtain ⟨hbounds, form, updated', hform, hupdated', hget', hsame⟩ :=
        h.moved other found blob' hbefore hother
      refine ⟨?_, form, updated', hform, hupdated', hgrown.get hget', hsame⟩
      exact hbounds.imp_right fun hbounds =>
        ⟨hbounds.1, Nat.lt_of_lt_of_le hbounds.2 hgrown.length_le⟩
  apart := by
    intro first second found blob₁ blob₂ hget₁ hget₂ hfirst hsecond
    have hput : new = index ∨ new = state.blobs.data.length := hplace.imp And.left And.right
    rcases lookup_cons_cases hfirst with ⟨rfl, rfl⟩ | ⟨hne, hbefore⟩ <;>
      rcases lookup_cons_cases hsecond with ⟨rfl, heq⟩ | ⟨hne', hbefore'⟩
    · rfl
    · exact absurd hbefore' (h.lookup_ne hget₁ hget₂ hne' hput)
    · exact absurd (heq ▸ hbefore) (h.lookup_ne hget₂ hget₁ hne hput)
    · exact h.apart first second found _ _ hget₁ hget₂ hbefore hbefore'

/-- A blob is remembered once it is seen, and no other is forgotten. -/
theorem Traced.move {state state' : SignatureRenumbering} (h : Traced renumbering assembly state)
    {shape : BlobForm} {index new : Nat}
    (hlead : state.moved.lookup index = none →
      shape.Leads fun site => assembly.tables.HoldsAt site index)
    (hmove : moveSignature renumbering shape state index = .ok (new, state')) :
    Traced renumbering assembly state' ∧ state'.moved.lookup index = some new ∧
      ∀ other found, state.moved.lookup other = some found →
        state'.moved.lookup other = some found := by
  rcases moveSignature_cases hmove with ⟨hfound, rfl⟩ |
    ⟨blob, updated, blobs, hfresh, hblob, hupdated, rfl, hplace⟩
  · exact ⟨h, hfound, fun _ _ hother => hother⟩
  refine ⟨?_, List.lookup_cons_self, fun other found => lookup_cons_of_fresh hfresh⟩
  rcases hplace with ⟨hsame, rfl, rfl⟩ | ⟨hchanged, happend⟩
  · exact h.remember (hlead hfresh) hblob hupdated (.refl _) (hsame ▸ hblob) (.inl ⟨rfl, hsame⟩)
  · obtain ⟨hbehind, hstarts, hget⟩ :=
      BlobHeap.append_eq_ok (BlobForm.ne_nil_of_mapTokens hupdated) happend
    exact h.remember (hlead hfresh) hblob hupdated (.of_starts hstarts) hget
      (.inr ⟨hchanged, hbehind⟩)

/-! ## All signatures -/

/-- What one step does: it moves the signature of one row and leaves every other row alone. -/
theorem renumberSignature_moves {site : SignatureColumn} {state state' : SignatureRenumbering}
    {row : Nat} (h : renumberSignature renumbering site state row = .ok state') :
    ∃ columns columns' index new, state.tables.row? site.table row = some columns ∧
      columns[site.column]? = some index ∧ state'.tables.row? site.table row = some columns' ∧
      columns'[site.column]? = some new ∧
      (∀ table other, ¬(table = site.table ∧ other = row) →
        state'.tables.row? table other = state.tables.row? table other) ∧
      ((index = 0 ∧ new = 0 ∧ state' = state) ∨ (index ≠ 0 ∧ ∃ moved,
        moveSignature renumbering site.shape state index = .ok (new, moved) ∧
          state' = { moved with tables := state'.tables })) := by
  unfold renumberSignature at h
  obtain ⟨index, hvalue, h⟩ := Outcome.bind_eq_ok.mp h
  obtain ⟨columns, hrow, hindex⟩ := Tables.value_eq_ok.mp hvalue
  split at h
  · rename_i hzero
    obtain rfl := Outcome.pure_eq_ok.mp h
    exact ⟨columns, columns, index, index, hrow, hindex, hrow, hindex, fun _ _ _ => rfl,
      .inl ⟨hzero, hzero, rfl⟩⟩
  rename_i hne
  obtain ⟨⟨new, moved⟩, hmoved, h⟩ := Outcome.bind_eq_ok.mp h
  have htables := moveSignature_eq_ok hmoved
  dsimp only at h
  split at h
  · rename_i hsame
    obtain rfl := Outcome.pure_eq_ok.mp h
    rw [htables]
    exact ⟨columns, columns, index, new, hrow, hindex, hrow, hsame ▸ hindex, fun _ _ _ => rfl,
      .inr ⟨hne, moved, hmoved, by rw [← htables]⟩⟩
  · obtain ⟨tables, hput, h⟩ := Outcome.bind_eq_ok.mp h
    obtain rfl := Outcome.pure_eq_ok.mp h
    rw [htables] at hput
    obtain ⟨columns₂, hrow₂, hlt, rfl⟩ := Tables.put_eq_ok hput
    obtain rfl := Option.some.inj (hrow.symm.trans hrow₂)
    obtain ⟨hlo, hget⟩ := Tables.row?_eq_some.mp hrow
    have hin : row - 1 < (state.tables.rows site.table).length :=
      (List.getElem?_eq_some_iff.mp hget).1
    refine ⟨columns, columns.set site.column new, index, new, hrow, hindex, ?_, ?_,
      fun table other hother => Tables.row?_set_of_ne hlo hother, .inr ⟨hne, moved, hmoved, rfl⟩⟩
    · refine Tables.row?_eq_some.mpr ⟨hlo, ?_⟩
      rw [Tables.rows_setRows_self, List.getElem?_set_self hin]
    · rw [List.getElem?_set_self hlt]

/-- The signature of a row is where it belongs. -/
def Settled (assembly : Assembly) (state : SignatureRenumbering) (site : SignatureColumn)
    (row : Nat) : Prop :=
  ∀ columns, assembly.tables.row? site.table row = some columns →
    ∃ columns' index new, state.tables.row? site.table row = some columns' ∧
      columns[site.column]? = some index ∧ columns'[site.column]? = some new ∧
      (index = 0 → new = 0) ∧ (index ≠ 0 → state.moved.lookup index = some new)

/-- The walk over the signatures of an assembly: some are ahead and the others are settled. -/
structure Progress (renumbering : Renumbering) (assembly : Assembly)
    (ahead : SignatureColumn → Nat → Prop) (state : SignatureRenumbering) : Prop where
  traced : Traced renumbering assembly state
  counts : ∀ table, state.tables.count table = assembly.tables.count table
  same : ∀ site ∈ SignatureColumn.all, ∀ row, ahead site row →
    state.tables.row? site.table row = assembly.tables.row? site.table row
  settled : ∀ site ∈ SignatureColumn.all, ∀ row, ¬ahead site row → Settled assembly state site row

theorem Progress.start (renumbering : Renumbering) (assembly : Assembly) :
    Progress renumbering assembly (fun site _ => site ∈ SignatureColumn.all)
      { tables := assembly.tables, blobs := assembly.blobs, moved := [] } where
  traced := ⟨.refl _, nofun, nofun⟩
  counts := fun _ => rfl
  same := fun _ _ _ _ => rfl
  settled := fun _ hsite _ hnot => absurd hsite hnot

/-- Rows that do not exist are neither ahead nor settled. -/
theorem Progress.mono {state : SignatureRenumbering} {ahead ahead' : SignatureColumn → Nat → Prop}
    (h : Progress renumbering assembly ahead state)
    (hless : ∀ site row, ahead' site row → ahead site row)
    (hrest : ∀ site row columns, ahead site row →
      assembly.tables.row? site.table row = some columns →
      ahead' site row) : Progress renumbering assembly ahead' state where
  traced := h.traced
  counts := h.counts
  same := fun site hsite row hahead => h.same site hsite row (hless site row hahead)
  settled := fun site hsite row hnot columns hrow =>
    h.settled site hsite row (fun hahead => hnot (hrest site row columns hahead hrow)) columns hrow

/-- A blob that was not seen is first held by the column that is visited: the columns in front of it
have been visited. -/
theorem Progress.leads {ahead : SignatureColumn → Nat → Prop} {site : SignatureColumn}
    {state : SignatureRenumbering} {front back : List SignatureColumn}
    (hall : SignatureColumn.all = front ++ site :: back)
    (h : Progress renumbering assembly ahead state) (hfront : ∀ other ∈ front, ∀ n, ¬ahead other n)
    {index : Nat} (hheld : assembly.tables.HoldsAt site index) (hne : index ≠ 0)
    (hfresh : state.moved.lookup index = none) :
    site.shape.Leads fun other => assembly.tables.HoldsAt other index := by
  refine ⟨front, site, back, hall, rfl, hheld, ?_⟩
  rintro other hother ⟨old, hold, hheld⟩
  obtain ⟨n, hn⟩ := Tables.mem_rows.mp hold
  obtain ⟨-, index', found, -, hindex', -, -, hlookup⟩ := h.settled other
    (hall ▸ List.mem_append_left _ hother) n (hfront other hother n) old hn
  obtain rfl := Option.some.inj (hheld.symm.trans hindex')
  rw [hlookup hne] at hfresh
  cases hfresh

theorem Progress.step {ahead : SignatureColumn → Nat → Prop} {site : SignatureColumn} {row : Nat}
    {state state' : SignatureRenumbering} {front back : List SignatureColumn}
    (hall : SignatureColumn.all = front ++ site :: back)
    (h : Progress renumbering assembly ahead state) (hahead : ahead site row)
    (hfront : ∀ other ∈ front, ∀ n, ¬ahead other n)
    (hstep : renumberSignature renumbering site state row = .ok state') :
    Progress renumbering assembly (fun other n => ahead other n ∧ ¬(other = site ∧ n = row))
      state' := by
  have hsite : site ∈ SignatureColumn.all := hall ▸ List.mem_append_right _ (.head _)
  obtain ⟨columns, columns', index, new, hrow, hindex, hrow', hnew, hothers, hmoves⟩ :=
    renumberSignature_moves hstep
  have hbefore := (h.same site hsite row hahead).symm.trans hrow
  have hheld : assembly.tables.HoldsAt site index :=
    ⟨columns, Tables.mem_rows.mpr ⟨row, hbefore⟩, hindex⟩
  obtain ⟨htraced, hlookup, hkept⟩ : Traced renumbering assembly state' ∧
      (index ≠ 0 → state'.moved.lookup index = some new) ∧
      ∀ other found, state.moved.lookup other = some found →
        state'.moved.lookup other = some found := by
    rcases hmoves with ⟨hzero, -, rfl⟩ | ⟨hne, moved, hmoved, hstate⟩
    · exact ⟨h.traced, fun hne => absurd hzero hne, fun _ _ hother => hother⟩
    · obtain ⟨htraced, hown, hkept⟩ := h.traced.move (h.leads hall hfront hheld hne) hmoved
      rw [hstate]
      exact ⟨⟨htraced.grown, htraced.moved, htraced.apart⟩, fun _ => hown, hkept⟩
  have hzero : index = 0 → new = 0 := by
    rcases hmoves with ⟨-, hnew, -⟩ | ⟨hne, -⟩
    · exact fun _ => hnew
    · exact fun heq => absurd heq hne
  refine ⟨htraced, fun table => ?_, fun other hother n hn => ?_, fun other hother n hn => ?_⟩
  · rw [(renumberSignature_eq_ok hsite hstep table).1, h.counts]
  · refine (hothers _ _ ?_).trans (h.same other hother n hn.1)
    rintro ⟨htable, rfl⟩
    exact hn.2 ⟨SignatureColumn.eq_of_table site hsite other hother htable, rfl⟩
  · by_cases hthis : other = site ∧ n = row
    · obtain ⟨rfl, rfl⟩ := hthis
      intro old hold
      obtain rfl := Option.some.inj (hbefore.symm.trans hold)
      exact ⟨columns', index, new, hrow', hindex, hnew, hzero, hlookup⟩
    · intro old hold
      obtain ⟨old', index', new', hold', hindex', hnew', hzero', hlookup'⟩ :=
        h.settled other hother n (fun hin => hn ⟨hin, hthis⟩) old hold
      refine ⟨old', index', new', ?_, hindex', hnew', hzero', fun hne => hkept _ _ (hlookup' hne)⟩
      refine (hothers _ _ ?_).trans hold'
      rintro ⟨htable, rfl⟩
      exact hthis ⟨SignatureColumn.eq_of_table site hsite other hother htable, rfl⟩

/-- What is ahead while the rows of one column are visited: some of its rows, and other columns. -/
def Ahead (site : SignatureColumn) (rows : List Nat) (sites : List SignatureColumn)
    (other : SignatureColumn) (row : Nat) : Prop :=
  other = site ∧ row ∈ rows ∨ other ∈ sites

theorem Progress.step_row {site : SignatureColumn} {row : Nat} {rows : List Nat}
    {sites : List SignatureColumn} {state state' : SignatureRenumbering}
    (hsites : site :: sites <:+ SignatureColumn.all) (hnodup : (row :: rows).Nodup)
    (h : Progress renumbering assembly (Ahead site (row :: rows) sites) state)
    (hstep : renumberSignature renumbering site state row = .ok state') :
    Progress renumbering assembly (Ahead site rows sites) state' := by
  obtain ⟨front, hall⟩ := hsites
  have hdistinct : (front ++ site :: sites).Nodup := hall ▸ SignatureColumn.nodup_all
  obtain ⟨-, hrest, hdisjoint⟩ := List.nodup_append.mp hdistinct
  have hfresh := (List.nodup_cons.mp hrest).1
  have hfront : ∀ other ∈ front, ∀ n, ¬Ahead site (row :: rows) sites other n := by
    rintro other hother n (⟨rfl, -⟩ | hmem)
    · exact hdisjoint _ hother _ (.head _) rfl
    · exact hdisjoint _ hother _ (.tail _ hmem) rfl
  refine (h.step hall.symm (.inl ⟨rfl, .head _⟩) hfront hstep).mono ?_ ?_
  · rintro other n (⟨rfl, hmem⟩ | hmem)
    · exact ⟨.inl ⟨rfl, .tail _ hmem⟩, fun heq => (List.nodup_cons.mp hnodup).1 (heq.2 ▸ hmem)⟩
    · exact ⟨.inr hmem, fun heq => hfresh (heq.1 ▸ hmem)⟩
  · rintro other n columns ⟨⟨rfl, hmem⟩ | hmem, hne⟩ -
    · rcases List.mem_cons.mp hmem with rfl | hmem
      · exact absurd ⟨rfl, rfl⟩ hne
      · exact .inl ⟨rfl, hmem⟩
    · exact .inr hmem

/-- At the start of a column all of its rows are ahead. -/
theorem Progress.enter {site : SignatureColumn} {sites : List SignatureColumn}
    {state : SignatureRenumbering}
    (h : Progress renumbering assembly (fun other _ => other ∈ site :: sites) state) :
    Progress renumbering assembly
      (Ahead site (List.range' 1 (state.tables.count site.table)) sites) state := by
  refine h.mono ?_ ?_
  · rintro other row (⟨rfl, -⟩ | hmem)
    · exact .head _
    · exact .tail _ hmem
  · intro other row columns hmem hrow
    rcases List.mem_cons.mp hmem with rfl | hmem
    · refine .inl ⟨rfl, List.mem_range'_1.mpr ?_⟩
      have hrange := Tables.exists_row?.mp ⟨columns, hrow⟩
      rw [h.counts]
      omega
    · exact .inr hmem

theorem Progress.leave {site : SignatureColumn} {sites : List SignatureColumn}
    {state : SignatureRenumbering} (h : Progress renumbering assembly (Ahead site [] sites) state) :
    Progress renumbering assembly (fun other _ => other ∈ sites) state := by
  refine h.mono (fun other row hmem => .inr hmem) ?_
  rintro other row columns (⟨-, hmem⟩ | hmem) -
  · cases hmem
  · exact hmem

/-- The rows of one column, one after the other. -/
theorem Progress.rows {site : SignatureColumn} {sites : List SignatureColumn}
    {state state' : SignatureRenumbering} (hsites : site :: sites <:+ SignatureColumn.all)
    (h : Progress renumbering assembly (fun other _ => other ∈ site :: sites) state)
    (hrows : (List.range' 1 (state.tables.count site.table)).foldlM
      (renumberSignature renumbering site) state = .ok state') :
    Progress renumbering assembly (fun other _ => other ∈ sites) state' := by
  refine (Outcome.foldlM_induct (motive := fun rows state =>
    rows.Nodup ∧ Progress renumbering assembly (Ahead site rows sites) state) ?_
      ⟨List.nodup_range', h.enter⟩ hrows).2.leave
  rintro row rows before after ⟨hnodup, hprogress⟩ hstep
  exact ⟨(List.nodup_cons.mp hnodup).2, hprogress.step_row hsites hnodup hstep⟩

theorem Progress.all {after : Assembly} (h : renumberSignatures renumbering assembly = .ok after) :
    ∃ moved, Progress renumbering assembly (fun _ _ => False)
      { tables := after.tables, blobs := after.blobs, moved } := by
  obtain ⟨state, hstate, h⟩ := Outcome.bind_eq_ok.mp h
  obtain rfl := Outcome.pure_eq_ok.mp h
  refine ⟨state.moved, ?_⟩
  have hend := Outcome.foldlM_induct (motive := fun sites state =>
    sites <:+ SignatureColumn.all ∧
      Progress renumbering assembly (fun other _ => other ∈ sites) state) ?_
      ⟨List.suffix_refl _, .start renumbering assembly⟩ hstate
  · refine hend.2.mono (fun _ _ => False.elim) ?_
    rintro other row columns hmem -
    cases hmem
  · rintro site sites before after ⟨hsites, hprogress⟩ hrows
    exact ⟨(List.suffix_cons site sites).trans hsites, hprogress.rows hsites hrows⟩

/-! ## Failures -/

/-- A signature can be read and renumbered, up to failures of a kind, and then still be stored. -/
def CanMove (kind : Error → Prop) (renumbering : Renumbering) (shape : BlobForm) (blobs : BlobHeap)
    (index : Nat) : Prop :=
  ∃ blob tokens, blobs.get index = .ok blob ∧ shape.tokens blob = .ok tokens ∧
    Outcome.FailsOnly kind (shape.mapTokens renumbering.newToken blob) ∧
    ∀ updated, shape.mapTokens renumbering.newToken blob = .ok updated →
      updated.length < Compressed.limit

/-- The signatures of all rows can be renumbered, up to failures of a kind. -/
def SignaturesMove (kind : Error → Prop) (renumbering : Renumbering) (assembly : Assembly) : Prop :=
  ∀ site ∈ SignatureColumn.all, ∀ row columns,
    assembly.tables.row? site.table row = some columns →
      ∃ index, columns[site.column]? = some index ∧
        (index ≠ 0 → CanMove kind renumbering site.shape assembly.blobs index)

variable {kind : Error → Prop}

theorem SignaturesMove.fit (h : SignaturesMove kind renumbering assembly) :
    assembly.SignaturesFit := by
  intro site hsite columns hmem index hindex hne
  obtain ⟨row, hrow⟩ := Tables.mem_rows.mp hmem
  obtain ⟨index', hindex', hmove⟩ := h site hsite row columns hrow
  obtain rfl := Option.some.inj (hindex.symm.trans hindex')
  obtain ⟨blob, tokens, hget, htokens, -⟩ := hmove hne
  exact ⟨blob, tokens, hget, htokens⟩

theorem failsOnly_moveSignature {shape : BlobForm} {state : SignatureRenumbering} {index : Nat}
    (hgrown : Grown assembly.blobs state.blobs)
    (h : CanMove kind renumbering shape assembly.blobs index) :
    Outcome.FailsOnly kind (moveSignature renumbering shape state index) := by
  obtain ⟨blob, tokens, hget, -, hfails, hlength⟩ := h
  unfold moveSignature
  split
  · exact .ok _
  · rw [hgrown.get hget, Outcome.ok_bind]
    refine hfails.bind fun updated hupdated => ?_
    split
    · exact .ok _
    · obtain ⟨new, more, happend⟩ : ∃ new more,
          state.blobs.append updated = .ok (new, ⟨state.blobs.data ++ more⟩) :=
        BlobHeap.exists_append (hlength updated hupdated)
      rw [happend]
      exact .ok _

theorem Progress.failsOnly_step {ahead : SignatureColumn → Nat → Prop} {site : SignatureColumn}
    {row : Nat} {state : SignatureRenumbering} (hmove : SignaturesMove kind renumbering assembly)
    (hsite : site ∈ SignatureColumn.all) (h : Progress renumbering assembly ahead state)
    (hahead : ahead site row) (hrow : ∃ columns, state.tables.row? site.table row = some columns) :
    Outcome.FailsOnly kind (renumberSignature renumbering site state row) := by
  obtain ⟨columns, hrow⟩ := hrow
  have hbefore := (h.same site hsite row hahead).symm.trans hrow
  obtain ⟨index, hindex, hcan⟩ := hmove site hsite row columns hbefore
  unfold renumberSignature
  rw [Tables.value_eq_ok.mpr ⟨columns, hrow, hindex⟩, Outcome.ok_bind]
  split
  · exact .ok state
  rename_i hne
  refine (failsOnly_moveSignature h.traced.grown (hcan hne)).bind ?_
  rintro ⟨new, moved⟩ hmoved
  dsimp only
  split
  · exact .ok moved
  · obtain ⟨tables, hput⟩ :=
      Tables.exists_put hrow (List.getElem?_eq_some_iff.mp hindex).1 new
    rw [moveSignature_eq_ok hmoved, hput]
    exact .ok _

/-- Renumbering signatures fails as replacing the tokens of one of them does. -/
theorem failsOnly_renumberSignatures (h : SignaturesMove kind renumbering assembly) :
    Outcome.FailsOnly kind (renumberSignatures renumbering assembly) := by
  refine Outcome.FailsOnly.bind ?_ fun state _ => .ok _
  refine Outcome.FailsOnly.foldlM (motive := fun sites state =>
    sites <:+ SignatureColumn.all ∧
      Progress renumbering assembly (fun other _ => other ∈ sites) state) ?_
      ⟨List.suffix_refl _, .start renumbering assembly⟩
  rintro site sites state ⟨hsites, hprogress⟩
  have hsite : site ∈ SignatureColumn.all := hsites.subset (.head _)
  refine ⟨?_, fun state' hrows => ⟨(List.suffix_cons site sites).trans hsites,
    hprogress.rows hsites hrows⟩⟩
  refine Outcome.FailsOnly.foldlM (motive := fun rows (state : SignatureRenumbering) =>
    rows.Nodup ∧ (∀ row ∈ rows, 1 ≤ row ∧ row ≤ assembly.tables.count site.table) ∧
      Progress renumbering assembly (Ahead site rows sites) state) ?_
      ⟨List.nodup_range', fun row hmem => ?_, hprogress.enter⟩
  · rintro row rows state ⟨hnodup, hrange, hprogress⟩
    obtain ⟨hlo, hhi⟩ := hrange row (.head _)
    rw [← hprogress.counts] at hhi
    refine ⟨hprogress.failsOnly_step h hsite (.inl ⟨rfl, .head _⟩)
      (Tables.exists_row?.mpr ⟨hlo, hhi⟩), fun state' hstep => ?_⟩
    exact ⟨(List.nodup_cons.mp hnodup).2, fun other hmem => hrange other (.tail _ hmem),
      hprogress.step_row hsites hnodup hstep⟩
  · obtain ⟨hlo, hhi⟩ := List.mem_range'_1.mp hmem
    rw [hprogress.counts] at hhi
    omega

/-! ## What becomes of signatures -/

/-- What becomes of the offset of a signature in a row.  The blob is renumbered in the form of the
first of the columns that hold it, and goes elsewhere if that changes it. -/
structure OffsetFollows (renumbering : Renumbering) (holds : SignatureColumn → Prop)
    (blobs blobs' : BlobHeap) (index new : Nat) : Prop where
  null : index = 0 → new = 0
  moved : index ≠ 0 → ∀ blob, blobs.get index = .ok blob → new ≠ 0 ∧
    ∃ (form : BlobForm) (updated : Bytes), form.Leads holds ∧
      form.mapTokens renumbering.newToken blob = .ok updated ∧ blobs'.get new = .ok updated ∧
      (new = index ↔ updated = blob)

theorem offsetFollows_of_renumberSignatures {before after : Assembly}
    (h : renumberSignatures renumbering before = .ok after) {site : SignatureColumn}
    (hsite : site ∈ SignatureColumn.all) {row : Nat} {columns : Row}
    (hrow : before.tables.row? site.table row = some columns) :
    ∃ columns' index new, after.tables.row? site.table row = some columns' ∧
      columns[site.column]? = some index ∧ columns'[site.column]? = some new ∧
      OffsetFollows renumbering (before.tables.HoldsAt · index) before.blobs after.blobs index
        new := by
  obtain ⟨moved, hend⟩ := Progress.all h
  obtain ⟨columns', index, new, hrow', hindex, hnew, hzero, hlookup⟩ :=
    hend.settled site hsite row id columns hrow
  refine ⟨columns', index, new, hrow', hindex, hnew, hzero, fun hne blob hblob => ?_⟩
  obtain ⟨hplace, hmoved⟩ := hend.traced.moved index new blob (hlookup hne) hblob
  have hlt := BlobHeap.lt_of_get hblob
  exact ⟨by omega, hmoved⟩

theorem grown_of_renumberSignatures {before after : Assembly}
    (h : renumberSignatures renumbering before = .ok after) : Grown before.blobs after.blobs := by
  obtain ⟨moved, hend⟩ := Progress.all h
  exact hend.traced.grown

/-- The signatures of an assembly after their tokens are renumbered.  `place` tells where the rows
stand that hold them. -/
structure SignaturesFollow (place : Table → Nat → Option Nat) (renumbering : Renumbering)
    (before after : Assembly) : Prop where
  /-- Every row has a signature if it had one, with the tokens of the old one renumbered. -/
  rows : ∀ site ∈ SignatureColumn.all, ∀ row row' columns,
    before.tables.row? site.table row = some columns → place site.table row = some row' →
    ∃ columns' index new, after.tables.row? site.table row' = some columns' ∧
      columns[site.column]? = some index ∧ columns'[site.column]? = some new ∧
      (index = 0 → new = 0) ∧ (index ≠ 0 → new ≠ 0 ∧ ∃ blob updated,
        before.blobs.get index = .ok blob ∧
        site.shape.mapTokens renumbering.newToken blob = .ok updated ∧
        after.blobs.get new = .ok updated)
  /-- No blob comes to be used in two ways. -/
  apart : after.tables.FormsApart
  /-- The heap has only become longer. -/
  grown : Grown before.blobs after.blobs

theorem signaturesFollow_of_renumberSignatures {before after : Assembly}
    (hfit : before.SignaturesFit) (hapart : before.tables.FormsApart)
    (h : renumberSignatures renumbering before = .ok after) :
    SignaturesFollow (fun _ row => some row) renumbering before after := by
  obtain ⟨moved, hend⟩ := Progress.all h
  have hsettled := fun site hsite row => hend.settled site hsite row id
  have hholds : ∀ form new, after.tables.HoldsSignature form new → new ≠ 0 →
      ∃ index, index ≠ 0 ∧ before.tables.HoldsSignature form index ∧
        moved.lookup index = some new := by
    rintro form new ⟨site, hsite, hform, columns', hmem', hnew⟩ hne
    obtain ⟨row, hrow'⟩ := Tables.mem_rows.mp hmem'
    obtain ⟨columns, hrow⟩ : ∃ columns, before.tables.row? site.table row = some columns := by
      have hcounts : after.tables.count site.table = before.tables.count site.table :=
        hend.counts site.table
      rw [Tables.exists_row?, ← hcounts, ← Tables.exists_row?]
      exact ⟨columns', hrow'⟩
    obtain ⟨columns₂, index, new₂, hrow₂, hindex, hnew₂, hzero, hlookup⟩ :=
      hsettled site hsite row columns hrow
    obtain rfl := Option.some.inj (hrow'.symm.trans hrow₂)
    obtain rfl := Option.some.inj (hnew.symm.trans hnew₂)
    have hindex' : index ≠ 0 := fun heq => hne (hzero heq)
    exact ⟨index, hindex', ⟨site, hsite, hform, columns, Tables.mem_rows.mpr ⟨row, hrow⟩, hindex⟩,
      hlookup hindex'⟩
  refine ⟨fun site hsite row row' columns hrow hplace => ?_, fun new hne htype hsignature => ?_,
    hend.traced.grown⟩
  · obtain rfl := Option.some.inj hplace
    obtain ⟨columns', index, new, hrow', hindex, hnew, hoffset⟩ :=
      offsetFollows_of_renumberSignatures h hsite hrow
    refine ⟨columns', index, new, hrow', hindex, hnew, hoffset.null, fun hne => ?_⟩
    have hmem := Tables.mem_rows.mpr ⟨row, hrow⟩
    obtain ⟨blob, -, hblob, -⟩ := hfit site hsite columns hmem index hindex hne
    obtain ⟨hne', form, updated, hform, hupdated, hget, -⟩ := hoffset.moved hne blob hblob
    obtain rfl : site.shape = form :=
      hapart.form_eq hne (.of_leads hform) ⟨site, hsite, rfl, columns, hmem, hindex⟩
    exact ⟨hne', blob, updated, hblob, hupdated, hget⟩
  · obtain ⟨index, hindex, htype, hfirst⟩ := hholds .type new htype hne
    obtain ⟨index', hindex', hsignature, hsecond⟩ := hholds .signature new hsignature hne
    have hresolves : ∀ form index, index ≠ 0 → before.tables.HoldsSignature form index →
        ∃ blob, before.blobs.get index = .ok blob := by
      rintro form index hne ⟨site, hsite, -, columns, hmem, hheld⟩
      obtain ⟨blob, -, hblob, -⟩ := hfit site hsite columns hmem index hheld hne
      exact ⟨blob, hblob⟩
    obtain ⟨blob, hblob⟩ := hresolves .type index hindex htype
    obtain ⟨blob', hblob'⟩ := hresolves .signature index' hindex' hsignature
    obtain rfl := hend.traced.apart index index' new blob blob' hblob hblob' hfirst hsecond
    exact hapart _ hindex htype hsignature

/-- Signatures are renumbered last, once the tables are new. -/
theorem renumberSignatures_of_renumber {inserted : List Row} {before after : Assembly}
    (htarget : renumbering.table.isSignatureTarget = true)
    (h : before.renumber renumbering inserted = .ok after) :
    ∃ arranged middle, rearrange renumbering before.tables inserted = .ok arranged ∧
      renumbering.newTables arranged = .ok middle.tables ∧ middle.blobs = before.blobs ∧
      renumberSignatures renumbering middle = .ok after := by
  obtain ⟨arranged, renewed, entryPoint, bodies, middle, harranged, hrenewed, -, -, hpatched,
    hresigned⟩ := renumber_eq_ok h
  obtain ⟨image, bodies', rfl, -⟩ := patched_eq_ok hpatched
  rw [resigned, if_pos htarget] at hresigned
  refine ⟨arranged, _, harranged, ?_, ?_, hresigned⟩
  · exact hrenewed
  · rfl

/-- A renumbering of a table that signatures can name renumbers the signatures of all rows. -/
theorem signaturesFollow_of_renumber (hmade : renumbering.Made) {inserted : List Row}
    {before after : Assembly} (hfit : before.SignaturesFit) (hapart : before.tables.FormsApart)
    (htarget : renumbering.table.isSignatureTarget = true) (hnone : renumbering.suppliedCount = 0)
    (h : before.renumber renumbering inserted = .ok after) :
    SignaturesFollow renumbering.place renumbering before after := by
  obtain ⟨arranged, middle, harranged, hrenewed, hblobs, hresigned⟩ :=
    renumberSignatures_of_renumber htarget h
  have hmoved := movedTo_of_newTables hmade harranged hrenewed (.refl _)
  have hbefore : ∀ site ∈ SignatureColumn.all, ∀ columns' ∈ middle.tables.rows site.table,
      ∃ columns ∈ before.tables.rows site.table,
        columns'[site.column]? = columns[site.column]? := by
    intro site hsite columns' hmem
    obtain ⟨row', hrow'⟩ := Tables.mem_rows.mp hmem
    rcases hmoved.origin _ _ _ hrow' with ⟨-, hin⟩ | ⟨row, columns, hrow, hplace⟩
    · rw [Renumbering.isInserted_of_suppliedCount_eq_zero hnone] at hin
      cases hin
    · exact ⟨columns, Tables.mem_rows.mpr ⟨row, hrow⟩,
        signature_of_newTables hmade harranged hrenewed hrow hplace hrow' ⟨site, hsite, rfl, rfl⟩⟩
  have hholds : ∀ form index, middle.tables.HoldsSignature form index →
      before.tables.HoldsSignature form index := by
    rintro form index ⟨site, hsite, hform, columns', hmem', hindex⟩
    obtain ⟨columns, hmem, hsame⟩ := hbefore site hsite columns' hmem'
    exact ⟨site, hsite, hform, columns, hmem, hsame ▸ hindex⟩
  have hfollow := signaturesFollow_of_renumberSignatures
    (fun site hsite columns' hmem' index hindex hne => by
      obtain ⟨columns, hmem, hsame⟩ := hbefore site hsite columns' hmem'
      rw [hblobs]
      exact hfit site hsite columns hmem index (hsame ▸ hindex) hne)
    (fun index hne htype hsignature =>
      hapart index hne (hholds _ _ htype) (hholds _ _ hsignature)) hresigned
  refine ⟨fun site hsite row row' columns hrow hplace => ?_, hfollow.apart,
    hblobs ▸ hfollow.grown⟩
  obtain ⟨columns₂, hmiddle, -⟩ := hmoved.rows _ _ _ _ hrow hplace
  have hsame := signature_of_newTables hmade harranged hrenewed hrow hplace hmiddle
    ⟨site, hsite, rfl, rfl⟩
  obtain ⟨columns', index, new, hrow', hindex, hnew, hmeaning⟩ :=
    hfollow.rows site hsite row' row' columns₂ hmiddle rfl
  rw [hblobs] at hmeaning
  exact ⟨columns', index, new, hrow', hsame ▸ hindex, hnew, hmeaning⟩

end Assembly

end NativeExports
