import NativeExports.Proofs.Editing.Methods
import NativeExports.Proofs.Editing.Sorting
import NativeExports.Proofs.Renumbering.Meaning

/-!
# Edit sessions

In a session, references, types and methods are added, rows are taken out, and tables are sorted, in
any order.  A consistent assembly stays consistent throughout, and whatever is added or sorted
succeeds.  Only the tokens of added bodies outside their code can come to lead nowhere: they stay as
they are, so they do as soon as rows of the tables that they name are taken out and they are beyond
the last row that is left.
-/

namespace NativeExports

namespace Assembly

/-- What can be done to an assembly in a session. -/
inductive Change where
  | typeRef (scope : Table × Nat) (space name : String)
  | typeRefFor (scope : Table × Nat) (space name : String)
  | memberRefFor (parent : Table × Nat) (name : String) (signature : Bytes)
  | typeDef (flags : Nat) (space name : String) (base : Table × Nat)
  | method (owner : Nat) (draft : MethodDraft)
  | removal (table : Table) (rows : List Nat)
  | sort

namespace Change

/-- The assembly after a change. -/
def run (assembly : Assembly) : Change → Except Error Assembly
  | typeRef scope space name => (appendTypeRef scope space name assembly).map Prod.snd
  | typeRefFor scope space name => (Assembly.typeRefFor scope space name assembly).map Prod.snd
  | memberRefFor parent name signature =>
    (Assembly.memberRefFor parent name signature assembly).map Prod.snd
  | typeDef flags space name base => (appendTypeDef flags space name base assembly).map Prod.snd
  | method owner draft => (insertMethod owner draft assembly).map Prod.snd
  | removal table rows =>
    assembly.renumber (.removal table (assembly.tables.count table) rows) []
  | sort => assembly.sortAll.outcome

/-- What a change is given exists and can be read. -/
def Admissible (assembly : Assembly) : Change → Prop
  | typeRef scope _ _ | typeRefFor scope _ _ => assembly.Codable .resolutionScope scope
  | memberRefFor parent _ signature =>
    assembly.Codable .memberRefParent parent ∧ assembly.SignatureFits signature
  | typeDef _ _ _ base => assembly.Codable .typeDefOrRef base
  | method owner draft => assembly.MethodFits owner draft
  | removal _ _ | sort => True

/-- The table that a change takes rows out of. -/
def shrinks? : Change → Option Table
  | removal table _ => some table
  | _ => none

end Change

/-- The assemblies that a session reaches. -/
inductive Session (start : Assembly) : Assembly → Prop
  | start : Session start start
  | step {before after : Assembly} (change : Change) (h : Session start before)
      (hadmissible : change.Admissible before) (hrun : change.run before = .ok after)
      (hcounts : ∀ table, after.tables.count table < Token.rowLimit) : Session start after

/-- The tokens of added bodies outside their code lead somewhere. -/
def OuterReach (assembly : Assembly) : Prop :=
  ∀ token, assembly.OuterNames token → assembly.Reaches token

variable {start before after reached : Assembly}

/-! ## Additions and sorting -/

/-- An addition that is admissible succeeds, and so does sorting. -/
theorem exists_run (h : before.Consistent) {change : Change}
    (hadmissible : change.Admissible before) (hshrinks : change.shrinks? = none) :
    ∃ after, change.run before = .ok after ∧
      ((∀ table, after.tables.count table < Token.rowLimit) → after.Refines before) := by
  cases change with
  | typeRef scope space name =>
      obtain ⟨row, after, hafter, hrefines⟩ := exists_appendTypeRef h space name hadmissible
      exact ⟨after, Outcome.map_eq_ok.mpr ⟨_, hafter, rfl⟩, hrefines⟩
  | typeRefFor scope space name =>
      obtain ⟨row, after, hafter, hrefines⟩ := exists_typeRefFor h space name hadmissible
      exact ⟨after, Outcome.map_eq_ok.mpr ⟨_, hafter, rfl⟩, hrefines⟩
  | memberRefFor parent name signature =>
      obtain ⟨row, after, hafter, hrefines⟩ :=
        exists_memberRefFor h name hadmissible.1 hadmissible.2
      exact ⟨after, Outcome.map_eq_ok.mpr ⟨_, hafter, rfl⟩, hrefines⟩
  | typeDef flags space name base =>
      obtain ⟨row, after, hafter, hrefines⟩ := exists_appendTypeDef h flags space name hadmissible
      exact ⟨after, Outcome.map_eq_ok.mpr ⟨_, hafter, rfl⟩, hrefines⟩
  | method owner draft =>
      obtain ⟨row, after, hafter, hrefines⟩ := exists_insertMethod h hadmissible
      exact ⟨after, Outcome.map_eq_ok.mpr ⟨_, hafter, rfl⟩, fun _ => hrefines⟩
  | sort =>
      obtain ⟨after, hafter, hrefines⟩ := exists_sortAll h
      exact ⟨after, hafter, fun _ => hrefines⟩
  | removal table rows => cases hshrinks

/-- What is added or sorted leaves the tokens of added bodies outside their code alone. -/
theorem Refines.outerReach (h : after.Refines before) (hreach : before.OuterReach) :
    after.OuterReach := by
  intro token hnames
  rcases h.outer token hnames with hold | hreaches
  · exact h.covers.reaches (hreach token hold)
  · exact hreaches

/-! ## Removals -/

section

variable {table : Table} {rows : List Nat}

/-- An assembly stays consistent when rows are taken out. -/
theorem consistent_of_removal (h : before.Consistent)
    (hrun : before.renumber (.removal table (before.tables.count table) rows) [] = .ok after) :
    after.Consistent :=
  consistent_of_renumber (.removal _ _ _) (Renumbering.keepsRuns_removal _ _ _) h
    (insertable_nil before nofun)
    (Nat.lt_of_le_of_lt (Renumbering.newCount_removal_le _ _ _) (h.counts table)) hrun

/-- A token that is left alone leads somewhere unless it names a row beyond the last one. -/
theorem reaches_iff_of_removal {token : Token} (hreaches : before.Reaches token)
    (hrun : before.renumber (.removal table (before.tables.count table) rows) [] = .ok after) :
    after.Reaches token ↔ (token.table? = some table → token.row ≤ after.tables.count table) := by
  have hcounts : ∀ other, other ≠ table →
      after.tables.count other = before.tables.count other := fun other hne =>
    ((movedTo_of_renumber (.removal _ _ _) hrun).counts other).trans (if_neg hne)
  have hliterals := (heaps_of_renumber hrun).2.1
  unfold Reaches at hreaches ⊢
  by_cases htable : token.table? = some table
  · rw [Token.within_of_table htable]
    exact ⟨fun hle _ => hle, fun hle => hle htable⟩
  · refine ⟨fun _ heq => absurd heq htable, fun _ => ?_⟩
    rw [hliterals]
    cases hother : token.table? with
    | some other =>
        have hne : other ≠ table := fun heq => htable (heq ▸ hother)
        rw [Token.within_of_table hother] at hreaches ⊢
        rw [hcounts other hne]
        exact hreaches
    | none =>
        unfold Token.Within at hreaches ⊢
        rw [hother] at hreaches ⊢
        exact hreaches

/-- The tokens of added bodies outside their code still lead somewhere exactly if none of them names
a row beyond the last one that is left. -/
theorem outerReach_iff_of_removal (h : before.Consistent) (hreach : before.OuterReach)
    (hrun : before.renumber (.removal table (before.tables.count table) rows) [] = .ok after) :
    after.OuterReach ↔ ∀ token, before.OuterNames token → token.table? = some table →
      token.row ≤ after.tables.count table := by
  have hnames : ∀ token, after.OuterNames token ↔ before.OuterNames token := fun token =>
    outerNames_of_renumber (.removal _ _ _) h.toWellFormed hrun
  constructor
  · intro hafter token hold
    exact (reaches_iff_of_removal (hreach token hold) hrun).mp
      (hafter token ((hnames token).mpr hold))
  · intro hwithin token hnew
    have hold := (hnames token).mp hnew
    exact (reaches_iff_of_removal (hreach token hold) hrun).mpr (hwithin token hold)

end

/-! ## Sessions -/

/-- A change keeps an assembly consistent, and says what becomes of the tokens of added bodies
outside their code. -/
theorem consistent_of_run (h : before.Consistent) {change : Change}
    (hadmissible : change.Admissible before) (hrun : change.run before = .ok after)
    (hcounts : ∀ table, after.tables.count table < Token.rowLimit) :
    after.Consistent ∧ (before.OuterReach → (after.OuterReach ↔
      ∀ table, change.shrinks? = some table → ∀ token, before.OuterNames token →
        token.table? = some table → token.row ≤ after.tables.count table)) := by
  cases hshrinks : change.shrinks? with
  | none =>
      obtain ⟨after', hafter, hrefines⟩ := exists_run h hadmissible hshrinks
      obtain rfl := Except.ok.inj (hrun.symm.trans hafter)
      have hafter := hrefines hcounts
      exact ⟨hafter.consistent, fun hreach => ⟨fun _ => nofun, fun _ => hafter.outerReach hreach⟩⟩
  | some table =>
      cases change with
      | removal other rows =>
          obtain rfl := Option.some.inj hshrinks
          refine ⟨consistent_of_removal h hrun, fun hreach => ?_⟩
          rw [outerReach_iff_of_removal h hreach hrun]
          exact ⟨fun hwithin _ heq => Option.some.inj heq ▸ hwithin, fun hwithin => hwithin _ rfl⟩
      | _ => cases hshrinks

theorem Session.consistent (h : Session start reached) (hstart : start.Consistent) :
    reached.Consistent := by
  induction h with
  | start => exact hstart
  | step change _ hadmissible hrun hcounts ih =>
      exact (consistent_of_run ih hadmissible hrun hcounts).1

/-- A session reaches consistent assemblies only, and each of its additions and sortings succeeds.
The tokens of added bodies outside their code go on to lead somewhere, except when a removal leaves
fewer rows than one of them asks for. -/
theorem session_keeps_consistent (hstart : start.Consistent) (h : Session start reached) :
    reached.Consistent ∧ ∀ change : Change, change.Admissible reached →
      (change.shrinks? = none → ∃ after, change.run reached = .ok after) ∧
      ∀ after, change.run reached = .ok after →
        (∀ table, after.tables.count table < Token.rowLimit) →
          after.Consistent ∧ (reached.OuterReach → (after.OuterReach ↔
            ∀ table, change.shrinks? = some table → ∀ token, reached.OuterNames token →
              token.table? = some table → token.row ≤ after.tables.count table)) := by
  have hreached := h.consistent hstart
  refine ⟨hreached, fun change hadmissible => ⟨fun hshrinks => ?_, fun after hrun hcounts => ?_⟩⟩
  · obtain ⟨after, hafter, -⟩ := exists_run hreached hadmissible hshrinks
    exact ⟨after, hafter⟩
  · exact consistent_of_run hreached hadmissible hrun hcounts

/-! ## A body whose local variables are taken out -/

theorem consistent_withAddedLocals : withAddedLocals.Consistent := by
  have hzero : ∀ site ∈ SignatureColumn.all, ∀ columns ∈ withAddedLocals.tables.rows site.table,
      columns[site.column]? = some 0 := by decide
  have hlists : ∀ table, ∀ columns ∈ withAddedLocals.tables.rows table,
      ∀ entry ∈ table.columns.zip columns, ∀ target, entry.1 = .list target →
        entry.2 = 1 := by decide
  have hheaps : ∀ table, ∀ columns ∈ withAddedLocals.tables.rows table,
      ∀ entry ∈ table.columns.zip columns,
        entry.1 = .string ∨ entry.1 = .guid ∨ entry.1 = .blob → entry.2 = 0 := by decide
  have hresolves : ∀ kind : ColumnKind, withAddedLocals.Resolves kind 0 := fun kind => by
    cases kind with
    | string => exact ⟨"", by cbv⟩
    | guid => exact Nat.le_refl 0
    | blob => exact ⟨[], by cbv⟩
    | _ => trivial
  have hwf := wellFormed_withAddedLocals
  refine {
    toWellFormed := hwf
    rows := fun table columns hmem => ?_
    apart := ?_
    runs := .of_ones hlists
    names := ?_
    keys := ?_
    leads := ⟨rfl, rfl⟩ }
  · refine ⟨hwf.arity table columns hmem, hwf.inRange table columns hmem, ?_, ?_⟩
    · intro c kind value hkind hvalue
      have hentry : kind = .string ∨ kind = .guid ∨ kind = .blob → value = 0 :=
        hheaps table columns hmem (kind, value)
          (List.mem_of_getElem? (List.getElem?_zip_eq_some.mpr ⟨hkind, hvalue⟩))
      cases kind with
      | string | guid | blob =>
          rw [hentry (by simp)]
          exact hresolves _
      | _ => trivial
    · rintro site hsite rfl index hindex hne
      exact absurd (Option.some.inj (hindex.symm.trans (hzero site hsite columns hmem))) hne
  · rintro index hne ⟨site, hsite, -, columns, hmem, hindex⟩ -
    exact hne (Option.some.inj (hindex.symm.trans (hzero site hsite columns hmem)))
  · rintro token (⟨rva, hrva, offset, body, instructions, hoffset, hbody, hmem⟩ |
      ⟨entry, hentry, body, instructions, hread, hdecode, hmem⟩)
    · rw [bodyRvas_withAddedLocals] at hrva
      obtain rfl := List.mem_singleton.mp hrva
      obtain rfl : 8 = offset := Except.ok.inj hoffset
      obtain ⟨rfl, rfl⟩ := hasBody_withAddedLocals.unique hbody
      cases hmem
    · obtain rfl := List.mem_singleton.mp hentry
      obtain rfl : (⟨1, 12, 0x11000002, 8, true, false, []⟩ : MethodBody) = body :=
        Except.ok.inj (Eq.trans (by cbv) hread)
      obtain rfl : [(⟨0, 1, false, 0x2A, "ret", .none⟩ : Instruction)] = instructions :=
        Except.ok.inj (Eq.trans (by cbv) hdecode)
      cases hmem
  · intro entry hmem
    obtain rfl := List.mem_singleton.mp hmem
    rfl

/-- A row of local variables is taken out, and the added body names one beyond the last. -/
theorem session_drops_added_locals :
    withAddedLocals.Consistent ∧ Session withAddedLocals withAddedLocals ∧
      withAddedLocals.OuterReach ∧ ∃ after,
        (Change.removal .standAloneSig [1]).run withAddedLocals = .ok after ∧
          after.Consistent ∧ ¬after.OuterReach := by
  obtain ⟨-, hchanges⟩ := session_keeps_consistent consistent_withAddedLocals .start
  obtain ⟨-, hstep⟩ := hchanges (.removal .standAloneSig [1]) trivial
  have hread : MethodBody.read [0x03, 0x30, 8, 0, 1, 0, 0, 0, 2, 0, 0, 0x11, 0x2A] =
      .ok ⟨1, 12, 0x11000002, 8, true, false, []⟩ := by cbv
  have hreach : withAddedLocals.OuterReach := by
    rintro token ⟨entry, hentry, body, hbody, hmem⟩
    obtain rfl := List.mem_singleton.mp hentry
    obtain rfl := Except.ok.inj (hread.symm.trans hbody)
    obtain rfl := List.mem_singleton.mp hmem
    have htable : (⟨0x11000002⟩ : Token).table? = some .standAloneSig := rfl
    exact (Token.within_of_table htable).mpr (by decide)
  obtain ⟨after, hafter⟩ : ∃ after,
      (Change.removal .standAloneSig [1]).run withAddedLocals = .ok after := by
    apply Outcome.exists_of_isOk
    cbv
  have hcounts := (movedTo_of_renumber (.removal _ _ _) hafter).counts
  obtain ⟨hconsistent, houter⟩ := hstep after hafter fun table => by
    rw [hcounts]
    split
    · decide
    · exact wellFormed_withAddedLocals.counts table
  refine ⟨consistent_withAddedLocals, .start, hreach, after, hafter, hconsistent, fun hkept => ?_⟩
  have hrow := (houter hreach).mp hkept .standAloneSig rfl ⟨0x11000002⟩
    ⟨_, .head _, _, hread, .head _⟩ rfl
  rw [hcounts] at hrow
  exact absurd hrow (by decide)

end Assembly

end NativeExports
