import Mathlib.Logic.Relation
import Mathlib.Order.Bounds.Basic
import NativeExports.Proofs.Reachability
import NativeExports.Proofs.Renumbering.Meaning

/-!
# The live candidates

The candidates that are found live are the least set of candidates that has everything referred to
from outside and, with each of its members, what the member and the attributes attached to it refer
to.  The search for them ends on every graph, whatever its cycles: a step drops a pending token or
takes a candidate that was not taken before.
-/

namespace NativeExports.Assembly

/-! ## The search as a sequence of steps -/

/-- A step of a search over any graph, from the live and the pending tokens before to those after
it.  `next` gives what a token leads to. -/
inductive SearchStep (next : Token → Except Error (List Token)) (candidates : List Token) :
    List Token × List Token → List Token × List Token → Prop
  | take {live pending found : List Token} {token : Token}
      (hfresh : token ∈ candidates ∧ token ∉ live) (h : next token = .ok found) :
      SearchStep next candidates (live, token :: pending) (token :: live, found.reverse ++ pending)
  | drop {live pending : List Token} {token : Token}
      (hstale : ¬(token ∈ candidates ∧ token ∉ live)) :
      SearchStep next candidates (live, token :: pending) (live, pending)

/-- No search goes on for ever. -/
theorem wellFounded_searchStep (next : Token → Except Error (List Token))
    (candidates : List Token) :
    WellFounded fun after before => SearchStep next candidates before after := by
  refine Subrelation.wf (fun {after before} hstep => ?_)
    (InvImage.wf (fun state : List Token × List Token =>
      ((candidates.filter fun c => !state.1.contains c).length, state.2.length))
      (Prod.lex Nat.lt_wfRel Nat.lt_wfRel).wf)
  cases hstep with
  | take hfresh h => exact Prod.Lex.left _ _ (length_filter_lt hfresh.1 hfresh.2)
  | drop hstale => exact Prod.Lex.right _ (Nat.lt_succ_self _)

/-- The search is a sequence of steps, until nothing is pending. -/
theorem reach_eq_ok {assembly : Assembly} {candidates live pending found : List Token}
    {attached : List (Token × Nat)} :
    assembly.reach candidates attached live pending = .ok found ↔
      Relation.ReflTransGen (SearchStep (assembly.reachedFrom attached) candidates) (live, pending)
        (found, []) := by
  constructor
  · intro h
    fun_induction reach assembly candidates attached live pending with
    | case1 live =>
        obtain rfl := Except.ok.inj h
        exact .refl
    | case2 live token pending hfresh e herror => cases h
    | case3 live token pending hfresh next hnext ih => exact (ih h).head (.take hfresh hnext)
    | case4 live token pending hstale ih => exact (ih h).head (.drop hstale)
  · intro h
    generalize hstate : (live, pending) = state at h
    induction h using Relation.ReflTransGen.head_induction_on generalizing live pending with
    | refl =>
        obtain ⟨rfl, rfl⟩ := Prod.mk.inj hstate
        rw [reach]
    | head hstep _ ih =>
        subst hstate
        cases hstep with
        | take hfresh hnext =>
            rw [reach, dif_pos hfresh]
            split
            · rename_i e herror
              rw [hnext] at herror
              cases herror
            · rename_i found' hfound
              obtain rfl := Except.ok.inj (hnext.symm.trans hfound)
              exact ih rfl
        | drop hstale =>
            rw [reach, dif_neg hstale]
            exact ih rfl

/-- No candidate is taken twice. -/
theorem nodup_of_reach {assembly : Assembly} {candidates live pending found : List Token}
    {attached : List (Token × Nat)} (hlive : live.Nodup)
    (h : assembly.reach candidates attached live pending = .ok found) : found.Nodup := by
  fun_induction reach assembly candidates attached live pending with
  | case1 live =>
      obtain rfl := Except.ok.inj h
      exact hlive
  | case2 live token pending hfresh e herror => cases h
  | case3 live token pending hfresh next hnext ih =>
      exact ih (List.nodup_cons.mpr ⟨hfresh.2, hlive⟩) h
  | case4 live token pending hstale ih => exact ih hlive h

/-- The search goes on from everything that it finds. -/
theorem reachedFrom_of_reach {assembly : Assembly} {candidates live pending found : List Token}
    {attached : List (Token × Nat)}
    (hlive : ∀ token ∈ live, ∃ next, assembly.reachedFrom attached token = .ok next)
    (h : assembly.reach candidates attached live pending = .ok found) :
    ∀ token ∈ found, ∃ next, assembly.reachedFrom attached token = .ok next := by
  fun_induction reach assembly candidates attached live pending with
  | case1 live =>
      obtain rfl := Except.ok.inj h
      exact hlive
  | case2 live token pending hfresh e herror => cases h
  | case3 live token pending hfresh next hnext ih =>
      refine ih (fun other hmem => ?_) h
      rcases List.mem_cons.mp hmem with rfl | hmem
      · exact ⟨next, hnext⟩
      · exact hlive other hmem
  | case4 live token pending hstale ih => exact ih hlive h

/-! ## Closed sets -/

/-- A token is among the targets of a row. -/
def Lists (assembly : Assembly) (table : Table) (row : Nat) (token : Token) : Prop :=
  ∃ targets, assembly.rowTargets table row = .ok targets ∧ token ∈ targets

theorem Lists.refers {assembly : Assembly} {table : Table} {row : Nat} {token : Token}
    (h : assembly.Lists table row token) : assembly.Refers table row token := by
  obtain ⟨targets, htargets, hmem⟩ := h
  exact (rowTargets_eq_ok htargets token).mp hmem

theorem Refers.lists {assembly : Assembly} {table : Table} {row : Nat} {token : Token}
    (h : assembly.Refers table row token) {targets : List Token}
    (htargets : assembly.rowTargets table row = .ok targets) : assembly.Lists table row token :=
  ⟨targets, htargets, (rowTargets_eq_ok htargets token).mpr h⟩

/-- A set of candidates is closed if it has the candidates that rows outside, bodies and the entry
point refer to, and those that its own members and the attributes attached to them refer to. -/
structure ClosedUnder (assembly : Assembly) (candidates deleted : List Token) (live : Set Token) :
    Prop where
  subset : ∀ token ∈ live, token ∈ candidates
  rows : ∀ table row, assembly.IsRoot candidates deleted table row → ∀ token ∈ candidates,
    assembly.Lists table row token → token ∈ live
  bodies : ∀ token ∈ candidates, assembly.BodiesName token → token ∈ live
  entryPoint : assembly.entryPoint ∈ candidates → assembly.entryPoint ∈ live
  members : ∀ source ∈ live, ∀ table, source.table? = some table → ∀ token ∈ candidates,
    assembly.Lists table source.row token → token ∈ live
  attributes : ∀ source ∈ live, ∀ row, assembly.attributeParent row = .ok source →
    Token.ofRow .customAttribute row ∉ candidates → Token.ofRow .customAttribute row ∉ deleted →
    ∀ token ∈ candidates, assembly.Lists .customAttribute row token → token ∈ live

section Search

variable {assembly : Assembly} {candidates deleted : List Token}

/-- The targets of every root can be read. -/
theorem exists_rowTargets_of_roots {roots : Roots}
    (h : assembly.roots candidates deleted = .ok roots) {table : Table} {row : Nat} {columns : Row}
    (hrow : assembly.tables.row? table row = some columns)
    (hroot : assembly.IsRoot candidates deleted table row) :
    ∃ targets, assembly.rowTargets table row = .ok targets := by
  obtain ⟨found, hfound, -⟩ := Outcome.bind_eq_ok.mp h
  obtain ⟨before, after, hrows⟩ := Outcome.exists_step_of_foldlM hfound table.mem_all
  obtain ⟨first, second, hstep⟩ :=
    Outcome.exists_step_of_foldlM hrows (mem_rowNumbers.mpr ⟨columns, hrow⟩)
  unfold addRoot at hstep
  have hskip : ¬(candidates.contains (Token.ofRow table row) ||
      deleted.contains (Token.ofRow table row)) = true := by
    rw [Bool.or_eq_true, List.contains_iff_mem, List.contains_iff_mem]
    exact fun hin => hin.elim hroot.other hroot.stays
  rw [if_neg hskip] at hstep
  by_cases htable : table = .customAttribute
  · simp only [if_pos htable] at hstep
    obtain ⟨parent, hparent, hstep⟩ := Outcome.bind_eq_ok.mp hstep
    rw [if_neg fun hin => hroot.apart htable parent hparent (List.contains_iff_mem.mp hin)] at hstep
    obtain ⟨targets, htargets, -⟩ := Outcome.bind_eq_ok.mp hstep
    exact ⟨targets, htargets⟩
  · rw [if_neg htable] at hstep
    obtain ⟨targets, htargets, -⟩ := Outcome.bind_eq_ok.mp hstep
    exact ⟨targets, htargets⟩

/-- The targets of a token that the search goes on from can be read, and so can those of the
attributes attached to it. -/
theorem exists_rowTargets_of_reachedFrom {attached : List (Token × Nat)} {source : Token}
    {found : List Token} (h : assembly.reachedFrom attached source = .ok found) {table : Table}
    (htable : source.table? = some table) :
    (∃ targets, assembly.rowTargets table source.row = .ok targets) ∧
      ∀ row, (source, row) ∈ attached →
        ∃ targets, assembly.rowTargets .customAttribute row = .ok targets := by
  unfold reachedFrom at h
  rw [htable] at h
  obtain ⟨own, hown, h⟩ := Outcome.bind_eq_ok.mp h
  obtain ⟨others, hothers, -⟩ := Outcome.bind_eq_ok.mp h
  refine ⟨⟨own, hown⟩, fun row hmem => ?_⟩
  have hin : row ∈ (attached.filter fun entry => entry.1 == source).map (·.2) :=
    List.mem_map.mpr ⟨(source, row), List.mem_filter.mpr ⟨hmem, beq_self_eq_true source⟩, rfl⟩
  obtain ⟨targets, -, htargets⟩ :=
    Outcome.exists_of_forall₂_left (Outcome.mapM_eq_ok.mp hothers) hin
  exact ⟨targets, htargets⟩

variable {live : List Token}

/-- What is reached is in every closed set. -/
theorem ClosedUnder.mem_of_reached {closed : Set Token}
    (hclosed : assembly.ClosedUnder candidates deleted closed)
    (h : assembly.reachableCandidates candidates deleted = .ok live) {token : Token}
    (hcandidate : token ∈ candidates) (hreached : assembly.Reached candidates deleted token) :
    token ∈ closed := by
  have hlive := mem_of_reachableCandidates h
  obtain ⟨roots, hroots, h⟩ := Outcome.bind_eq_ok.mp h
  obtain ⟨found, hfound, h⟩ := Outcome.bind_eq_ok.mp h
  obtain rfl := Outcome.pure_eq_ok.mp h
  have hattached := (roots_eq_ok hroots).2
  have hnext : ∀ source ∈ candidates, assembly.Reached candidates deleted source →
      ∃ next, assembly.reachedFrom roots.attached source = .ok next := by
    intro source hin hsource
    refine reachedFrom_of_reach (fun _ hmem => absurd hmem List.not_mem_nil) hfound source ?_
    exact List.mem_mergeSort.mp ((hlive source).mpr ⟨hin, hsource⟩)
  induction hreached with
  | row hroot hrefers =>
      obtain ⟨columns, hrow, -⟩ := id hrefers
      obtain ⟨targets, htargets⟩ := exists_rowTargets_of_roots hroots hrow hroot
      exact hclosed.rows _ _ hroot _ hcandidate (hrefers.lists htargets)
  | body hnames => exact hclosed.bodies _ hcandidate hnames
  | entryPoint => exact hclosed.entryPoint hcandidate
  | candidate hsource hin htable hrefers ih =>
      obtain ⟨next, hfrom⟩ := hnext _ hin hsource
      obtain ⟨⟨targets, htargets⟩, -⟩ := exists_rowTargets_of_reachedFrom hfrom htable
      exact hclosed.members _ (ih hin) _ htable _ hcandidate (hrefers.lists htargets)
  | attached hsource hentry hrefers ih =>
      obtain ⟨next, hfrom⟩ := hnext _ hentry.candidate hsource
      obtain ⟨table, htable⟩ := table_of_attributeParent hentry.attached
      have hmem := (hattached (_, _)).mpr ⟨hrefers.imp fun _ hrow => hrow.1, hentry⟩
      obtain ⟨targets, htargets⟩ := (exists_rowTargets_of_reachedFrom hfrom htable).2 _ hmem
      exact hclosed.attributes _ (ih hentry.candidate) _ hentry.attached hentry.other hentry.stays _
        hcandidate (hrefers.lists htargets)

theorem closedUnder_of_reachableCandidates
    (h : assembly.reachableCandidates candidates deleted = .ok live) :
    assembly.ClosedUnder candidates deleted {token | token ∈ live} := by
  have hlive := mem_of_reachableCandidates h
  refine ⟨fun token hmem => ((hlive token).mp hmem).1, ?_, ?_, ?_, ?_, ?_⟩
  · exact fun table row hroot token hin hlists =>
      (hlive token).mpr ⟨hin, .row hroot hlists.refers⟩
  · exact fun token hin hnames => (hlive token).mpr ⟨hin, .body hnames⟩
  · exact fun hin => (hlive _).mpr ⟨hin, .entryPoint⟩
  · intro source hsource table htable token hin hlists
    obtain ⟨hcandidate, hreached⟩ := (hlive source).mp hsource
    exact (hlive token).mpr ⟨hin, .candidate hreached hcandidate htable hlists.refers⟩
  · intro source hsource row hparent hother hstays token hin hlists
    obtain ⟨hcandidate, hreached⟩ := (hlive source).mp hsource
    exact (hlive token).mpr
      ⟨hin, .attached hreached ⟨hparent, hcandidate, hother, hstays⟩ hlists.refers⟩

/-- The candidates found live are listed once each in ascending order, and they are the least closed
set.  They are found by a sequence of steps, and no sequence of steps is endless, over whatever
graph and however it starts. -/
theorem reachableCandidates_isLeast (assembly : Assembly) (candidates deleted : List Token) :
    (∀ next : Token → Except Error (List Token),
      WellFounded fun after before => SearchStep next candidates before after) ∧
    ∀ live, assembly.reachableCandidates candidates deleted = .ok live →
      live.Pairwise (fun a b => a.value < b.value) ∧
      IsLeast {closed | assembly.ClosedUnder candidates deleted closed} {token | token ∈ live} ∧
      ∃ roots found, assembly.roots candidates deleted = .ok roots ∧ found.Perm live ∧
        Relation.ReflTransGen (SearchStep (assembly.reachedFrom roots.attached) candidates)
          ([], roots.pending) (found, []) := by
  refine ⟨fun next => wellFounded_searchStep next candidates, fun live h => ⟨?_, ⟨?_, ?_⟩, ?_⟩⟩
  · obtain ⟨roots, -, h⟩ := Outcome.bind_eq_ok.mp h
    obtain ⟨found, hfound, h⟩ := Outcome.bind_eq_ok.mp h
    obtain rfl := Outcome.pure_eq_ok.mp h
    have hsorted : (found.mergeSort fun a b => a.value ≤ b.value).Pairwise
        fun a b => a.value ≤ b.value := by
      simpa using @List.pairwise_mergeSort Token (fun a b => decide (a.value ≤ b.value))
        (fun a b c hab hbc => by simp at *; omega) (fun a b => by simp; omega) found
    have hnodup : (found.mergeSort fun a b => a.value ≤ b.value).Nodup :=
      (List.mergeSort_perm _ _).nodup_iff.mpr (nodup_of_reach .nil hfound)
    refine hsorted.imp₂ (fun a b hle hne => ?_) hnodup
    have hvalue : a.value ≠ b.value := fun heq => hne (by cases a; cases b; exact congrArg _ heq)
    omega
  · exact closedUnder_of_reachableCandidates h
  · intro closed hclosed token hmem
    obtain ⟨hcandidate, hreached⟩ := (mem_of_reachableCandidates h token).mp hmem
    exact ClosedUnder.mem_of_reached hclosed h hcandidate hreached
  · obtain ⟨roots, hroots, h⟩ := Outcome.bind_eq_ok.mp h
    obtain ⟨found, hfound, h⟩ := Outcome.bind_eq_ok.mp h
    obtain rfl := Outcome.pure_eq_ok.mp h
    exact ⟨roots, found, hroots, (List.mergeSort_perm _ _).symm, reach_eq_ok.mp hfound⟩

/-! ## Types in a cycle -/

/-- Two referenced types each of which is said to be nested in the other, and a third one.  A type
extends the first one. -/
def withNestedTypes : Assembly :=
  { withAddedLocals with
    tables := (Tables.empty.setRows .typeRef [[11, 0, 0], [7, 0, 0], [0, 0, 0]]).setRows .typeDef
      [[0, 0, 0, 5, 1, 1]]
    addedBodies := [] }

/-- The first type is needed, the second one is needed for the first, and the third one is not
needed. -/
theorem nested_types_live :
    withNestedTypes.reachableCandidates [⟨0x01000001⟩, ⟨0x01000002⟩, ⟨0x01000003⟩] [] =
        .ok [⟨0x01000001⟩, ⟨0x01000002⟩] ∧
      IsLeast {closed | withNestedTypes.ClosedUnder
          [⟨0x01000001⟩, ⟨0x01000002⟩, ⟨0x01000003⟩] [] closed}
        {token | token ∈ [(⟨0x01000001⟩ : Token), ⟨0x01000002⟩]} := by
  have hlive : withNestedTypes.reachableCandidates
      [⟨0x01000001⟩, ⟨0x01000002⟩, ⟨0x01000003⟩] [] = .ok [⟨0x01000001⟩, ⟨0x01000002⟩] := by
    cbv
  exact ⟨hlive, ((reachableCandidates_isLeast _ _ _).2 _ hlive).2.1⟩

end Search

end NativeExports.Assembly
