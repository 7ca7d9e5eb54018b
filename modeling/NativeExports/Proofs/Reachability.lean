import NativeExports.Proofs.References

/-!
# Reachability

Some rows, the candidates, are to be taken out unless something else still needs them.  A candidate
is needed if it is reached from the rows that stay for certain, from method bodies or from the entry
point; from a candidate that is reached the search goes on through what the candidate refers to and
through the attributes attached to it.  The search finds the candidates that are reached, and no
others.
-/

namespace NativeExports.Assembly

/-- A row that stays for certain: it is no candidate, it is not about to be deleted, and it is not
an attribute attached to a candidate. -/
structure IsRoot (assembly : Assembly) (candidates deleted : List Token) (table : Table)
    (row : Nat) :
    Prop where
  other : Token.ofRow table row ∉ candidates
  stays : Token.ofRow table row ∉ deleted
  apart : table = .customAttribute → ∀ parent, assembly.attributeParent row = .ok parent →
    parent ∉ candidates

/-- An attribute that is attached to a candidate and is not about to be deleted. -/
structure IsAttached (assembly : Assembly) (candidates deleted : List Token) (parent : Token)
    (row : Nat) : Prop where
  attached : assembly.attributeParent row = .ok parent
  candidate : parent ∈ candidates
  other : Token.ofRow .customAttribute row ∉ candidates
  stays : Token.ofRow .customAttribute row ∉ deleted

/-- The tokens that can be reached once the deleted rows are gone. -/
inductive Reached (assembly : Assembly) (candidates deleted : List Token) : Token → Prop
  | row {table : Table} {row : Nat} {token : Token}
      (hroot : assembly.IsRoot candidates deleted table row)
      (h : assembly.Refers table row token) : Reached assembly candidates deleted token
  | body {token : Token} (h : assembly.BodiesName token) : Reached assembly candidates deleted token
  | entryPoint : Reached assembly candidates deleted assembly.entryPoint
  | candidate {source token : Token} {table : Table}
      (hsource : Reached assembly candidates deleted source) (hcandidate : source ∈ candidates)
      (htable : source.table? = some table) (h : assembly.Refers table source.row token) :
      Reached assembly candidates deleted token
  | attached {source token : Token} {row : Nat}
      (hsource : Reached assembly candidates deleted source)
      (hattached : assembly.IsAttached candidates deleted source row)
      (h : assembly.Refers .customAttribute row token) : Reached assembly candidates deleted token

/-! ## Roots -/

/-- An attribute that stays for certain is attached to no candidate. -/
theorem IsRoot.not_isAttached {assembly : Assembly} {candidates deleted : List Token} {row : Nat}
    {parent : Token} (h : assembly.IsRoot candidates deleted .customAttribute row) :
    ¬assembly.IsAttached candidates deleted parent row :=
  fun hattached => h.apart rfl parent hattached.attached hattached.candidate

theorem IsAttached.unique {assembly : Assembly} {candidates deleted : List Token} {row : Nat}
    {first second : Token} (hfirst : assembly.IsAttached candidates deleted first row)
    (hsecond : assembly.IsAttached candidates deleted second row) : first = second :=
  Except.ok.inj (hfirst.attached.symm.trans hsecond.attached)

/-- A row is passed over, or set aside as an attribute of a candidate, or what it refers to is
added. -/
theorem addRoot_cases {assembly : Assembly} {candidates deleted : List Token} {table : Table}
    {row : Nat} {roots roots' : Roots}
    (h : assembly.addRoot candidates deleted table roots row = .ok roots') :
    (¬assembly.IsRoot candidates deleted table row ∧
      (table = .customAttribute → ∀ parent, ¬assembly.IsAttached candidates deleted parent row) ∧
        roots' = roots) ∨
    (∃ parent, table = .customAttribute ∧ assembly.IsAttached candidates deleted parent row ∧
      roots' = { roots with attached := roots.attached ++ [(parent, row)] }) ∨
    ∃ found, assembly.IsRoot candidates deleted table row ∧
      assembly.rowTargets table row = .ok found ∧
        roots' = { roots with pending := found.reverse ++ roots.pending } := by
  unfold addRoot at h
  by_cases hskip : (candidates.contains (Token.ofRow table row) ||
      deleted.contains (Token.ofRow table row)) = true
  · rw [if_pos hskip] at h
    rw [Bool.or_eq_true, List.contains_iff_mem, List.contains_iff_mem] at hskip
    refine .inl ⟨fun hroot => hskip.elim hroot.other hroot.stays, ?_,
      (Outcome.pure_eq_ok.mp h).symm⟩
    rintro rfl parent hattached
    exact hskip.elim hattached.other hattached.stays
  rw [if_neg hskip] at h
  rw [Bool.or_eq_true, List.contains_iff_mem, List.contains_iff_mem, not_or] at hskip
  by_cases htable : table = .customAttribute
  · subst htable
    simp only [if_true] at h
    obtain ⟨parent, hparent, h⟩ := Outcome.bind_eq_ok.mp h
    by_cases hin : parent ∈ candidates
    · rw [if_pos (List.contains_iff_mem.mpr hin)] at h
      exact .inr (.inl ⟨parent, rfl, ⟨hparent, hin, hskip.1, hskip.2⟩,
        (Outcome.pure_eq_ok.mp h).symm⟩)
    · rw [if_neg fun hcontains => hin (List.contains_iff_mem.mp hcontains)] at h
      obtain ⟨found, hfound, h⟩ := Outcome.bind_eq_ok.mp h
      refine .inr (.inr ⟨found, ⟨hskip.1, hskip.2, fun _ other hother => ?_⟩, hfound,
        (Outcome.pure_eq_ok.mp h).symm⟩)
      rwa [← Except.ok.inj (hparent.symm.trans hother)]
  · rw [if_neg htable] at h
    obtain ⟨found, hfound, h⟩ := Outcome.bind_eq_ok.mp h
    exact .inr (.inr ⟨found, ⟨hskip.1, hskip.2, fun heq => absurd heq htable⟩, hfound,
      (Outcome.pure_eq_ok.mp h).symm⟩)

/-- What a row adds to the roots. -/
theorem addRoot_eq_ok {assembly : Assembly} {candidates deleted : List Token} {table : Table}
    {row : Nat} {roots roots' : Roots}
    (h : assembly.addRoot candidates deleted table roots row = .ok roots') :
    (∀ token, token ∈ roots'.pending ↔ token ∈ roots.pending ∨
      assembly.IsRoot candidates deleted table row ∧ assembly.Refers table row token) ∧
    ∀ entry, entry ∈ roots'.attached ↔ entry ∈ roots.attached ∨
      table = .customAttribute ∧ entry.2 = row ∧
        assembly.IsAttached candidates deleted entry.1 row := by
  rcases addRoot_cases h with
    ⟨hroot, hfree, rfl⟩ | ⟨parent, rfl, hattached, rfl⟩ | ⟨found, hroot, hfound, rfl⟩
  · refine ⟨fun token => ⟨.inl, fun hor => ?_⟩, fun entry => ⟨.inl, fun hor => ?_⟩⟩
    · exact hor.resolve_right fun hadded => hroot hadded.1
    · exact hor.resolve_right fun hadded => hfree hadded.1 _ hadded.2.2
  · refine ⟨fun token => ⟨.inl, fun hor => ?_⟩, fun entry => ?_⟩
    · exact hor.resolve_right fun hadded => hadded.1.not_isAttached hattached
    · rw [List.mem_append, List.mem_singleton]
      refine or_congr_right ⟨?_, ?_⟩
      · rintro rfl
        exact ⟨rfl, rfl, hattached⟩
      · rintro ⟨-, hrow, hother⟩
        exact Prod.ext (hother.unique hattached) hrow
  · refine ⟨fun token => ?_, fun entry => ⟨.inl, fun hor => ?_⟩⟩
    · rw [List.mem_append, List.mem_reverse, rowTargets_eq_ok hfound, or_comm]
      exact or_congr_right ⟨fun hrefers => ⟨hroot, hrefers⟩, And.right⟩
    · refine hor.resolve_right ?_
      rintro ⟨rfl, -, hattached⟩
      exact hroot.not_isAttached hattached

/-- The search starts from what is reached without passing a candidate. -/
theorem roots_eq_ok {assembly : Assembly} {candidates deleted : List Token} {roots : Roots}
    (h : assembly.roots candidates deleted = .ok roots) :
    (∀ token, token ∈ roots.pending ↔ token = assembly.entryPoint ∨ assembly.BodiesName token ∨
      ∃ table row, assembly.IsRoot candidates deleted table row ∧
        assembly.Refers table row token) ∧
    ∀ entry, entry ∈ roots.attached ↔
      (∃ columns, assembly.tables.row? .customAttribute entry.2 = some columns) ∧
        assembly.IsAttached candidates deleted entry.1 entry.2 := by
  obtain ⟨found, hfound, h⟩ := Outcome.bind_eq_ok.mp h
  obtain ⟨bodies, hbodies, h⟩ := Outcome.bind_eq_ok.mp h
  obtain rfl := Outcome.pure_eq_ok.mp h
  constructor
  · intro token
    have hrows : ∀ table ∈ Table.all, ∀ first second : Roots,
        (assembly.rowNumbers table).foldlM (assembly.addRoot candidates deleted table) first =
          .ok second → (token ∈ second.pending ↔ token ∈ first.pending ∨
            ∃ row ∈ assembly.rowNumbers table, assembly.IsRoot candidates deleted table row ∧
              assembly.Refers table row token) := by
      intro table _ first second hrows
      apply Outcome.foldlM_collects (fun roots : Roots => token ∈ roots.pending) _ hrows
      exact fun row _ before after hstep => (addRoot_eq_ok hstep).1 token
    have hpending := Outcome.foldlM_collects (fun roots : Roots => token ∈ roots.pending)
      hrows hfound
    rw [List.mem_cons, List.mem_append, List.mem_reverse, bodyTargets_eq_ok hbodies, hpending]
    refine or_congr_right (or_congr_right ⟨?_, ?_⟩)
    · rintro (hmem | ⟨table, -, row, -, hroot⟩)
      · exact absurd hmem List.not_mem_nil
      · exact ⟨table, row, hroot⟩
    · rintro ⟨table, row, hroot, hrefers⟩
      obtain ⟨columns, hrow, -⟩ := id hrefers
      exact .inr ⟨table, table.mem_all, row, mem_rowNumbers.mpr ⟨columns, hrow⟩, hroot, hrefers⟩
  · intro entry
    have hrows : ∀ table ∈ Table.all, ∀ first second : Roots,
        (assembly.rowNumbers table).foldlM (assembly.addRoot candidates deleted table) first =
          .ok second → (entry ∈ second.attached ↔ entry ∈ first.attached ∨
            ∃ row ∈ assembly.rowNumbers table, table = .customAttribute ∧ entry.2 = row ∧
              assembly.IsAttached candidates deleted entry.1 row) := by
      intro table _ first second hrows
      apply Outcome.foldlM_collects (fun roots : Roots => entry ∈ roots.attached) _ hrows
      exact fun row _ before after hstep => (addRoot_eq_ok hstep).2 entry
    have hattached := Outcome.foldlM_collects (fun roots : Roots => entry ∈ roots.attached)
      hrows hfound
    rw [hattached]
    constructor
    · rintro (hmem | ⟨table, -, row, hrow, rfl, rfl, hattached⟩)
      · exact absurd hmem List.not_mem_nil
      · exact ⟨mem_rowNumbers.mp hrow, hattached⟩
    · rintro ⟨hrow, hattached⟩
      exact .inr ⟨.customAttribute, Table.mem_all _, entry.2, mem_rowNumbers.mpr hrow, rfl, rfl,
        hattached⟩

/-! ## The search -/

/-- What the search goes on to from a candidate. -/
def LeadsTo (assembly : Assembly) (attached : List (Token × Nat)) (source token : Token) : Prop :=
  ∃ table, source.table? = some table ∧ (assembly.Refers table source.row token ∨
    ∃ row, (source, row) ∈ attached ∧ assembly.Refers .customAttribute row token)

theorem reachedFrom_eq_ok {assembly : Assembly} {attached : List (Token × Nat)}
    {source : Token} {found : List Token} (h : assembly.reachedFrom attached source = .ok found)
    (token : Token) : token ∈ found ↔ assembly.LeadsTo attached source token := by
  unfold reachedFrom at h
  unfold LeadsTo
  split at h
  · rename_i hnone
    obtain rfl := Except.ok.inj h
    simp [hnone]
  · rename_i table htable
    obtain ⟨own, hown, h⟩ := Outcome.bind_eq_ok.mp h
    obtain ⟨others, hothers, h⟩ := Outcome.bind_eq_ok.mp h
    obtain rfl := Outcome.pure_eq_ok.mp h
    replace hothers := Outcome.mapM_eq_ok.mp hothers
    have hrows : ∀ row, row ∈ (attached.filter fun entry => entry.1 == source).map (·.2) ↔
        (source, row) ∈ attached := by
      intro row
      rw [List.mem_map]
      constructor
      · rintro ⟨entry, hmem, rfl⟩
        obtain ⟨hin, hsame⟩ := List.mem_filter.mp hmem
        rw [← eq_of_beq hsame]
        exact hin
      · intro hmem
        exact ⟨(source, row), List.mem_filter.mpr ⟨hmem, beq_self_eq_true source⟩, rfl⟩
    rw [List.mem_append, List.mem_flatten, rowTargets_eq_ok hown]
    constructor
    · rintro (hrefers | ⟨targets, hmem, htoken⟩)
      · exact ⟨table, htable, .inl hrefers⟩
      · obtain ⟨row, hrow, htargets⟩ := Outcome.exists_of_forall₂_right hothers hmem
        exact ⟨table, htable,
          .inr ⟨row, (hrows row).mp hrow, (rowTargets_eq_ok htargets token).mp htoken⟩⟩
    · rintro ⟨table', htable', hrefers | ⟨row, hrow, hrefers⟩⟩
      · rw [htable] at htable'
        obtain rfl := Option.some.inj htable'
        exact .inl hrefers
      · obtain ⟨targets, hmem, htargets⟩ :=
          Outcome.exists_of_forall₂_left hothers ((hrows row).mpr hrow)
        exact .inr ⟨targets, hmem, (rowTargets_eq_ok htargets token).mpr hrefers⟩

/-- The search adds nothing but candidates that are reached. -/
theorem reach_sound {assembly : Assembly} {candidates : List Token}
    {attached : List (Token × Nat)} {live pending found : List Token} {P : Token → Prop}
    (hstep : ∀ source ∈ candidates, P source → ∀ token, assembly.LeadsTo attached source token →
      P token)
    (hlive : ∀ token ∈ live, token ∈ candidates ∧ P token) (hpending : ∀ token ∈ pending, P token)
    (h : assembly.reach candidates attached live pending = .ok found) :
    ∀ token ∈ found, token ∈ candidates ∧ P token := by
  fun_induction reach assembly candidates attached live pending with
  | case1 live =>
      obtain rfl := Except.ok.inj h
      exact hlive
  | case2 live token pending hfresh e herror => cases h
  | case3 live token pending hfresh next hnext ih =>
      have htoken := hpending token (.head _)
      refine ih (fun other hmem => ?_) (fun other hmem => ?_) h
      · rcases List.mem_cons.mp hmem with rfl | hmem
        · exact ⟨hfresh.1, htoken⟩
        · exact hlive other hmem
      · rcases List.mem_append.mp hmem with hmem | hmem
        · exact hstep token hfresh.1 htoken other
            ((reachedFrom_eq_ok hnext other).mp (List.mem_reverse.mp hmem))
        · exact hpending other (.tail _ hmem)
  | case4 live token pending hstale ih =>
      exact ih hlive (fun other hmem => hpending other (.tail _ hmem)) h

/-- The search misses no candidate: it finds those it starts from, and with each one those it leads
to.  In the induction, the rows that a live candidate leads to are live or still pending. -/
theorem reach_complete {assembly : Assembly} {candidates : List Token}
    {attached : List (Token × Nat)} {live pending found : List Token}
    (hlive : ∀ source ∈ live, ∀ token ∈ candidates, assembly.LeadsTo attached source token →
      token ∈ live ∨ token ∈ pending)
    (h : assembly.reach candidates attached live pending = .ok found) :
    (∀ token ∈ live, token ∈ found) ∧ (∀ token ∈ pending, token ∈ candidates → token ∈ found) ∧
      ∀ source ∈ found, ∀ token ∈ candidates, assembly.LeadsTo attached source token →
        token ∈ found := by
  fun_induction reach assembly candidates attached live pending with
  | case1 live =>
      obtain rfl := Except.ok.inj h
      refine ⟨fun _ hmem => hmem, nofun, fun source hmem token hcandidate hleads => ?_⟩
      exact (hlive source hmem token hcandidate hleads).resolve_right nofun
  | case2 live token pending hfresh e herror => cases h
  | case3 live token pending hfresh next hnext ih =>
      obtain ⟨hkeep, hfound, hclosed⟩ := ih (by
        intro source hmem other hcandidate hleads
        rcases List.mem_cons.mp hmem with rfl | hmem
        · exact .inr (List.mem_append_left _
            (List.mem_reverse.mpr ((reachedFrom_eq_ok hnext other).mpr hleads)))
        · rcases hlive source hmem other hcandidate hleads with hin | hin
          · exact .inl (.tail _ hin)
          · rcases List.mem_cons.mp hin with rfl | hin
            · exact .inl (.head _)
            · exact .inr (List.mem_append_right _ hin)) h
      refine ⟨fun other hmem => hkeep other (.tail _ hmem),
        fun other hmem hcandidate => ?_, hclosed⟩
      rcases List.mem_cons.mp hmem with rfl | hmem
      · exact hkeep other (.head _)
      · exact hfound other (List.mem_append_right _ hmem) hcandidate
  | case4 live token pending hstale ih =>
      obtain ⟨hkeep, hfound, hclosed⟩ := ih (by
        intro source hmem other hcandidate hleads
        rcases hlive source hmem other hcandidate hleads with hin | hin
        · exact .inl hin
        · rcases List.mem_cons.mp hin with rfl | hin
          · exact .inl (Decidable.not_not.mp fun hnot => hstale ⟨hcandidate, hnot⟩)
          · exact .inr hin) h
      refine ⟨hkeep, fun other hmem hcandidate => ?_, hclosed⟩
      rcases List.mem_cons.mp hmem with rfl | hmem
      · exact hkeep other (Decidable.not_not.mp fun hnot => hstale ⟨hcandidate, hnot⟩)
      · exact hfound other hmem hcandidate

/-- The search succeeds if it can be continued from every candidate. -/
theorem exists_reach {assembly : Assembly} {candidates : List Token}
    {attached : List (Token × Nat)} {live pending : List Token}
    (hstep : ∀ source ∈ candidates, ∃ found, assembly.reachedFrom attached source = .ok found) :
    ∃ found, assembly.reach candidates attached live pending = .ok found := by
  fun_induction reach assembly candidates attached live pending with
  | case1 live => exact ⟨live, rfl⟩
  | case2 live token pending hfresh e herror =>
      obtain ⟨next, hnext⟩ := hstep token hfresh.1
      rw [herror] at hnext
      cases hnext
  | case3 live token pending hfresh next hnext ih => exact ih
  | case4 live token pending hstale ih => exact ih

/-! ## The candidates that are reached -/

/-- Attributes are attached to rows of known tables. -/
theorem table_of_attributeParent {assembly : Assembly} {row : Nat} {parent : Token}
    (h : assembly.attributeParent row = .ok parent) : ∃ table, parent.table? = some table := by
  obtain ⟨stored, -, h⟩ := Outcome.bind_eq_ok.mp h
  obtain ⟨⟨table, named⟩, -, h⟩ := Outcome.bind_eq_ok.mp h
  obtain rfl := Outcome.pure_eq_ok.mp h
  exact ⟨table, Token.table?_ofRow table named⟩

theorem mem_of_reachableCandidates {assembly : Assembly} {candidates deleted live : List Token}
    (h : assembly.reachableCandidates candidates deleted = .ok live) (token : Token) :
    token ∈ live ↔ token ∈ candidates ∧ assembly.Reached candidates deleted token := by
  obtain ⟨roots, hroots, h⟩ := Outcome.bind_eq_ok.mp h
  obtain ⟨found, hfound, h⟩ := Outcome.bind_eq_ok.mp h
  obtain rfl := Outcome.pure_eq_ok.mp h
  obtain ⟨hpending, hattached⟩ := roots_eq_ok hroots
  rw [List.mem_mergeSort]
  constructor
  · intro hmem
    refine reach_sound (P := assembly.Reached candidates deleted) ?_
      (fun _ hin => absurd hin List.not_mem_nil) ?_ hfound token hmem
    · rintro source hcandidate hsource token ⟨table, htable, hrefers | ⟨row, hrow, hrefers⟩⟩
      · exact .candidate hsource hcandidate htable hrefers
      · exact .attached hsource ((hattached _).mp hrow).2 hrefers
    · intro token hmem
      rcases (hpending token).mp hmem with rfl | hbody | ⟨table, row, hroot, hrefers⟩
      · exact .entryPoint
      · exact .body hbody
      · exact .row hroot hrefers
  · rintro ⟨hcandidate, hreached⟩
    obtain ⟨-, hstart, hclosed⟩ :=
      reach_complete (fun _ hin => absurd hin List.not_mem_nil) hfound
    induction hreached with
    | row hroot h => exact hstart _ ((hpending _).mpr (.inr (.inr ⟨_, _, hroot, h⟩))) hcandidate
    | body h => exact hstart _ ((hpending _).mpr (.inr (.inl h))) hcandidate
    | entryPoint => exact hstart _ ((hpending _).mpr (.inl rfl)) hcandidate
    | candidate hsource hin htable h ih =>
        exact hclosed _ (ih hin) _ hcandidate ⟨_, htable, .inl h⟩
    | attached hsource hentry h ih =>
        have hmem := (hattached (_, _)).mpr ⟨h.imp fun _ hrow => hrow.1, hentry⟩
        obtain ⟨table, htable⟩ := table_of_attributeParent hentry.attached
        exact hclosed _ (ih hentry.candidate) _ hcandidate ⟨table, htable, .inr ⟨_, hmem, h⟩⟩

/-! ## Success -/

theorem exists_attributeParent {assembly : Assembly} (hwf : assembly.WellFormed) {row : Nat}
    {columns : Row} (hrow : assembly.tables.row? .customAttribute row = some columns) :
    ∃ parent, assembly.attributeParent row = .ok parent := by
  obtain ⟨value, target, named, -, hvalue, hdecode, -⟩ :=
    hwf.exists_decode hrow (c := CustomAttribute.parentColumn) rfl
  unfold attributeParent
  rw [hvalue, Outcome.ok_bind, hdecode]
  exact ⟨_, rfl⟩

theorem exists_addRoot {assembly : Assembly} (hwf : assembly.WellFormed)
    (hfit : assembly.SignaturesFit) (candidates deleted : List Token) {table : Table} {row : Nat}
    {columns : Row} (hrow : assembly.tables.row? table row = some columns) (roots : Roots) :
    ∃ roots', assembly.addRoot candidates deleted table roots row = .ok roots' := by
  obtain ⟨targets, htargets⟩ := exists_rowTargets hwf hfit hrow
  unfold addRoot
  by_cases hskip : (candidates.contains (Token.ofRow table row) ||
      deleted.contains (Token.ofRow table row)) = true
  · rw [if_pos hskip]
    exact ⟨roots, rfl⟩
  · rw [if_neg hskip]
    by_cases htable : table = .customAttribute
    · subst htable
      obtain ⟨parent, hparent⟩ := exists_attributeParent hwf hrow
      simp only [if_true]
      rw [hparent, Outcome.ok_bind]
      by_cases hin : candidates.contains parent = true
      · rw [if_pos hin]
        exact ⟨_, rfl⟩
      · rw [if_neg hin, htargets]
        exact ⟨_, rfl⟩
    · rw [if_neg htable, htargets]
      exact ⟨_, rfl⟩

theorem exists_roots {assembly : Assembly} (hwf : assembly.WellFormed)
    (hfit : assembly.SignaturesFit) (candidates deleted : List Token) :
    ∃ roots, assembly.roots candidates deleted = .ok roots := by
  have hrows : ∀ (table : Table) (rows : List Nat) (roots : Roots),
      (∀ row ∈ rows, row ∈ assembly.rowNumbers table) →
      ∃ roots', rows.foldlM (assembly.addRoot candidates deleted table) roots = .ok roots' := by
    intro table rows roots hmem
    obtain ⟨roots', hroots', -⟩ := Outcome.exists_foldlM
      (motive := fun rows _ => ∀ row ∈ rows, row ∈ assembly.rowNumbers table)
      (fun row rest state hstate => by
        obtain ⟨columns, hrow⟩ := mem_rowNumbers.mp (hstate row (.head _))
        obtain ⟨state', hstate'⟩ := exists_addRoot hwf hfit candidates deleted hrow state
        exact ⟨state', hstate', fun other hother => hstate other (.tail _ hother)⟩) hmem
    exact ⟨roots', hroots'⟩
  obtain ⟨found, hfound⟩ : ∃ found, Table.all.foldlM (fun roots table =>
      (assembly.rowNumbers table).foldlM (assembly.addRoot candidates deleted table) roots)
        { pending := [], attached := [] } = .ok found := by
    obtain ⟨found, hfound, -⟩ := Outcome.exists_foldlM (motive := fun _ _ => True)
      (fun table (_ : List Table) roots _ =>
        (hrows table (assembly.rowNumbers table) roots fun _ hmem => hmem).imp
          fun _ h => ⟨h, trivial⟩) trivial
    exact ⟨found, hfound⟩
  obtain ⟨bodies, hbodies⟩ := exists_bodyTargets hwf
  unfold roots
  rw [hfound, Outcome.ok_bind, hbodies]
  exact ⟨_, rfl⟩

/-- The search succeeds in a well-formed assembly if the candidates are rows of it. -/
theorem exists_reachableCandidates {assembly : Assembly} (hwf : assembly.WellFormed)
    (hfit : assembly.SignaturesFit) {candidates : List Token} (deleted : List Token)
    (hcandidates : ∀ token ∈ candidates, ∃ table columns, token.table? = some table ∧
      assembly.tables.row? table token.row = some columns) :
    ∃ live, assembly.reachableCandidates candidates deleted = .ok live := by
  obtain ⟨roots, hroots⟩ := exists_roots hwf hfit candidates deleted
  have hattached := (roots_eq_ok hroots).2
  have hstep : ∀ source ∈ candidates, ∃ found,
      assembly.reachedFrom roots.attached source = .ok found := by
    intro source hmem
    obtain ⟨table, columns, htable, hrow⟩ := hcandidates source hmem
    obtain ⟨own, hown⟩ := exists_rowTargets hwf hfit hrow
    have hothers : ∃ others,
        ((roots.attached.filter fun entry => entry.1 == source).map (·.2)).mapM
          (assembly.rowTargets .customAttribute) = .ok others := by
      apply Outcome.exists_mapM
      intro row hin
      obtain ⟨entry, hentry, rfl⟩ := List.mem_map.mp hin
      obtain ⟨columns, hrow⟩ := ((hattached entry).mp (List.mem_of_mem_filter hentry)).1
      exact exists_rowTargets hwf hfit hrow
    obtain ⟨others, hothers⟩ := hothers
    unfold reachedFrom
    rw [htable]
    dsimp only
    rw [hown, Outcome.ok_bind, hothers]
    exact ⟨_, rfl⟩
  obtain ⟨found, hfound⟩ : ∃ found,
      assembly.reach candidates roots.attached [] roots.pending = .ok found := exists_reach hstep
  unfold reachableCandidates
  rw [hroots, Outcome.ok_bind, hfound]
  exact ⟨_, rfl⟩

end NativeExports.Assembly
