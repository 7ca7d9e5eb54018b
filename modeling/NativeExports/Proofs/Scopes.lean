import Mathlib.Data.Finset.Card
import Mathlib.Order.Interval.Finset.Nat
import NativeExports.Assembly.Basic
import NativeExports.Proofs.Renumbering.Meaning
import NativeExports.Proofs.Tables

/-!
# Where type references are resolved

A type that is nested in another one has that type as its scope, so the scopes of type references
form chains.  A chain ends at a type reference whose scope is none or no type reference, or it runs
in circles.  The search for the end of a chain looks at one type reference more than there are.
That is enough: a chain that ends visits none of them twice.
-/

namespace NativeExports

namespace Tables

/-- The scope of a type reference. -/
def ScopeOf (tables : Tables) (row : Nat) (scope : Table × Nat) : Prop :=
  ∃ stored, tables.value .typeRef row TypeRef.scopeColumn = .ok stored ∧
    CodedKind.resolutionScope.decode stored = .ok scope

/-- The scopes of all type references can be read, and those that are type references exist. -/
def ScopesExist (tables : Tables) : Prop :=
  ∀ row, 1 ≤ row → row ≤ tables.count .typeRef → ∃ scope, tables.ScopeOf row scope ∧
    (scope.1 = .typeRef → scope.2 ≤ tables.count .typeRef)

/-- A type reference has another one as its scope. -/
def NestedIn (tables : Tables) (row next : Nat) : Prop :=
  tables.ScopeOf row (.typeRef, next) ∧ next ≠ 0

/-- A chain of scopes ends at a type reference. -/
def EndsAt (tables : Tables) (row : Nat) (scope : Table × Nat) : Prop :=
  tables.ScopeOf row scope ∧ (scope.2 = 0 ∨ scope.1 ≠ .typeRef)

/-- A number of scopes, one after the other, lead from one type reference to another. -/
inductive LeadsTo (tables : Tables) : Nat → Nat → Nat → Prop
  | here (row : Nat) : LeadsTo tables 0 row row
  | outward {steps row next last : Nat} (h : tables.NestedIn row next)
      (hrest : LeadsTo tables steps next last) : LeadsTo tables (steps + 1) row last

variable {tables : Tables} {row next last start steps : Nat} {scope : Table × Nat}

/-! ## Chains -/

theorem ScopeOf.unique {other : Table × Nat} (h : tables.ScopeOf row scope)
    (h' : tables.ScopeOf row other) : scope = other := by
  obtain ⟨stored, hstored, hdecode⟩ := h
  obtain ⟨stored', hstored', hdecode'⟩ := h'
  obtain rfl := Except.ok.inj (hstored.symm.trans hstored')
  exact Except.ok.inj (hdecode.symm.trans hdecode')

theorem NestedIn.unique {other : Nat} (h : tables.NestedIn row next)
    (h' : tables.NestedIn row other) : next = other :=
  (Prod.mk.inj (h.1.unique h'.1)).2

theorem EndsAt.not_nestedIn (h : tables.EndsAt row scope) : ¬tables.NestedIn row next := by
  rintro ⟨hscope, hne⟩
  obtain rfl := h.1.unique hscope
  exact h.2.elim hne fun htable => htable rfl

/-- A chain goes on to a type reference that exists, or ends. -/
theorem ScopesExist.nestedIn_or_endsAt (hscopes : tables.ScopesExist)
    (hrow : 1 ≤ row ∧ row ≤ tables.count .typeRef) :
    (∃ next, tables.NestedIn row next ∧ 1 ≤ next ∧ next ≤ tables.count .typeRef) ∨
      ∃ scope, tables.EndsAt row scope := by
  obtain ⟨⟨target, next⟩, hscope, hle⟩ := hscopes row hrow.1 hrow.2
  by_cases hzero : next = 0
  · exact .inr ⟨_, hscope, .inl hzero⟩
  · by_cases htarget : target = .typeRef
    · subst htarget
      exact .inl ⟨next, ⟨hscope, hzero⟩, Nat.pos_of_ne_zero hzero, hle rfl⟩
    · exact .inr ⟨_, hscope, .inr htarget⟩

theorem LeadsTo.exists (hscopes : tables.ScopesExist) (h : tables.LeadsTo steps row last)
    (hrow : 1 ≤ row ∧ row ≤ tables.count .typeRef) :
    1 ≤ last ∧ last ≤ tables.count .typeRef := by
  induction h with
  | here row => exact hrow
  | @outward steps row next last hnested _ ih =>
      rcases hscopes.nestedIn_or_endsAt hrow with ⟨other, hother, hrange⟩ | ⟨scope, hends⟩
      · exact ih (hnested.unique hother ▸ hrange)
      · exact absurd hnested hends.not_nestedIn

theorem LeadsTo.unique {other : Nat} (h : tables.LeadsTo steps row last)
    (h' : tables.LeadsTo steps row other) : last = other := by
  induction h with
  | here row =>
      cases h'
      rfl
  | outward hnested _ ih =>
      cases h' with
      | outward hnested' hrest' => exact ih (hnested.unique hnested' ▸ hrest')

/-- A chain can be cut anywhere. -/
theorem leadsTo_add {more : Nat} : tables.LeadsTo (steps + more) row last ↔
    ∃ middle, tables.LeadsTo steps row middle ∧ tables.LeadsTo more middle last := by
  constructor
  · induction steps generalizing row with
    | zero =>
        intro h
        rw [Nat.zero_add] at h
        exact ⟨row, .here row, h⟩
    | succ steps ih =>
        intro h
        rw [Nat.succ_add] at h
        cases h with
        | outward hnested hrest =>
            obtain ⟨middle, hfront, hback⟩ := ih hrest
            exact ⟨middle, .outward hnested hfront, hback⟩
  · rintro ⟨middle, hfront, hback⟩
    induction hfront with
    | here row => rwa [Nat.zero_add]
    | @outward steps row next middle hnested _ ih =>
        rw [Nat.succ_add]
        exact .outward hnested (ih hback)

/-- A chain does not go on behind its end. -/
theorem LeadsTo.le_of_endsAt {more other : Nat} (h : tables.LeadsTo steps row last)
    (hends : tables.EndsAt last scope) (h' : tables.LeadsTo more row other) : more ≤ steps := by
  induction h generalizing more with
  | here row =>
      cases h' with
      | here => exact Nat.le_refl 0
      | outward hnested _ => exact absurd hnested hends.not_nestedIn
  | outward hnested _ ih =>
      cases h' with
      | here => exact Nat.zero_le _
      | outward hnested' hrest' =>
          exact Nat.succ_le_succ (ih hends (hnested.unique hnested' ▸ hrest'))

/-- A chain has one end. -/
theorem LeadsTo.end_unique {steps' last' : Nat} {scope' : Table × Nat}
    (h : tables.LeadsTo steps row last) (hends : tables.EndsAt last scope)
    (h' : tables.LeadsTo steps' row last') (hends' : tables.EndsAt last' scope') :
    steps = steps' ∧ scope = scope' := by
  obtain rfl : steps = steps' :=
    Nat.le_antisymm (h'.le_of_endsAt hends' h) (h.le_of_endsAt hends h')
  obtain rfl := h.unique h'
  exact ⟨rfl, hends.1.unique hends'.1⟩

/-- A chain that ends visits no type reference twice, so it has fewer steps than there are type
references. -/
theorem LeadsTo.lt_of_endsAt (hscopes : tables.ScopesExist)
    (hrow : 1 ≤ row ∧ row ≤ tables.count .typeRef) (h : tables.LeadsTo steps row last)
    (hends : tables.EndsAt last scope) : steps < tables.count .typeRef := by
  by_contra hlong
  have hcut : ∀ n, ∃ visited, n ≤ steps →
      tables.LeadsTo n row visited ∧ tables.LeadsTo (steps - n) visited last := by
    intro n
    by_cases hn : n ≤ steps
    · obtain ⟨visited, hvisited⟩ := leadsTo_add.mp ((Nat.add_sub_of_le hn).symm ▸ h)
      exact ⟨visited, fun _ => hvisited⟩
    · exact ⟨0, fun hle => absurd hle hn⟩
  choose visited hvisited using hcut
  have hcard : (Finset.Icc 1 (tables.count .typeRef)).card < (Finset.range (steps + 1)).card := by
    rw [Nat.card_Icc, Finset.card_range]
    omega
  have hmaps : ∀ n ∈ Finset.range (steps + 1),
      visited n ∈ Finset.Icc 1 (tables.count .typeRef) := by
    intro n hn
    exact Finset.mem_Icc.mpr ((hvisited n (Finset.mem_range_succ_iff.mp hn)).1.exists hscopes hrow)
  obtain ⟨m, hm, n, hn, hne, hsame⟩ := Finset.exists_ne_map_eq_of_card_lt_of_maps_to hcard hmaps
  have hm := Finset.mem_range_succ_iff.mp hm
  have hn := Finset.mem_range_succ_iff.mp hn
  -- From the row that is visited twice, the end would be reached after two numbers of steps.
  obtain ⟨hrest, -⟩ := (hvisited m hm).2.end_unique hends (hsame ▸ (hvisited n hn).2) hends
  omega

/-- A chain that never ends visits a type reference at every step. -/
theorem forall_leadsTo_iff : (∀ steps, ∃ last, tables.LeadsTo steps start last) ↔
    ∃ visited : Nat → Nat, visited 0 = start ∧
      ∀ n, tables.NestedIn (visited n) (visited (n + 1)) := by
  constructor
  · intro h
    choose visited hvisited using h
    refine ⟨visited, ((LeadsTo.here start).unique (hvisited 0)).symm, fun n => ?_⟩
    obtain ⟨middle, hfront, hstep⟩ := leadsTo_add.mp (hvisited (n + 1))
    obtain rfl := hfront.unique (hvisited n)
    cases hstep with
    | outward hnested hrest =>
        cases hrest
        exact hnested
  · rintro ⟨visited, rfl, hnested⟩ steps
    refine ⟨visited steps, ?_⟩
    induction steps with
    | zero => exact .here _
    | succ steps ih => exact leadsTo_add.mpr ⟨_, ih, .outward (hnested steps) (.here _)⟩

/-- A chain ends, or it goes on for any number of steps. -/
theorem ScopesExist.ends_or_goes_on (hscopes : tables.ScopesExist)
    (hstart : 1 ≤ start ∧ start ≤ tables.count .typeRef) :
    (∃ steps last scope, tables.LeadsTo steps start last ∧ tables.EndsAt last scope) ∨
      ∀ steps, ∃ last, tables.LeadsTo steps start last := by
  by_cases hends : ∃ steps last scope, tables.LeadsTo steps start last ∧ tables.EndsAt last scope
  · exact .inl hends
  · refine .inr fun steps => ?_
    induction steps with
    | zero => exact ⟨start, .here start⟩
    | succ steps ih =>
        obtain ⟨last, hlast⟩ := ih
        rcases hscopes.nestedIn_or_endsAt (hlast.exists hscopes hstart) with
          ⟨next, hnested, -⟩ | ⟨scope, hscope⟩
        · exact ⟨next, leadsTo_add.mpr ⟨last, hlast, .outward hnested (.here next)⟩⟩
        · exact absurd ⟨steps, last, scope, hlast, hscope⟩ hends

end Tables

namespace Assembly

open Tables

variable {tables : Tables} {row last start steps : Nat} {scope : Table × Nat}

/-! ## The search -/

/-- The search follows a chain as far as its bound allows. -/
theorem scopeFrom_of_leadsTo (h : tables.LeadsTo steps row last) (more : Nat) :
    scopeFrom tables (steps + more) row = scopeFrom tables more last := by
  induction h with
  | here row => rw [Nat.zero_add]
  | @outward steps row next last hnested _ ih =>
      obtain ⟨⟨stored, hstored, hdecode⟩, hne⟩ := hnested
      rw [Nat.succ_add, scopeFrom, hstored, Outcome.ok_bind, hdecode, Outcome.ok_bind]
      split
      · rename_i heq
        exact absurd (Prod.mk.inj heq).2 hne
      · rename_i heq
        obtain ⟨-, rfl⟩ := Prod.mk.inj heq
        exact ih
      · rename_i hother
        exact absurd rfl (hother next)

/-- What the search finds where a chain ends. -/
theorem scopeFrom_of_endsAt (h : tables.EndsAt row scope) (more : Nat) :
    scopeFrom tables (more + 1) row = .ok (if scope.2 = 0 then none else some scope) := by
  obtain ⟨⟨stored, hstored, hdecode⟩, hend⟩ := h
  rw [scopeFrom, hstored, Outcome.ok_bind, hdecode, Outcome.ok_bind]
  split
  · rfl
  · rename_i next hne
    exact absurd rfl (hend.resolve_left hne)
  · rename_i hne _
    rw [if_neg fun hzero => hne scope.1 (Prod.ext rfl hzero)]
    rfl

/-- A chain that ends is searched to its end. -/
theorem scopeFrom_of_ends (h : tables.LeadsTo steps start last) (hends : tables.EndsAt last scope)
    {bound : Nat} (hbound : steps < bound) :
    scopeFrom tables bound start = .ok (if scope.2 = 0 then none else some scope) := by
  obtain ⟨more, rfl⟩ := Nat.exists_eq_add_of_lt hbound
  rw [Nat.add_assoc, scopeFrom_of_leadsTo h, scopeFrom_of_endsAt hends]

/-- In a chain that goes on, nothing is found. -/
theorem scopeFrom_of_goes_on (h : ∀ steps, ∃ last, tables.LeadsTo steps start last) (bound : Nat) :
    scopeFrom tables bound start = .ok none := by
  obtain ⟨last, hlast⟩ := h bound
  exact scopeFrom_of_leadsTo hlast 0

/-! ## What is found -/

section

variable {assembly : Assembly}

/-- The bound suffices for a chain that ends. -/
theorem resolvingScope_of_ends (hscopes : assembly.tables.ScopesExist)
    (hstart : 1 ≤ start ∧ start ≤ assembly.tables.count .typeRef)
    (h : assembly.tables.LeadsTo steps start last) (hends : assembly.tables.EndsAt last scope) :
    assembly.resolvingScope start = .ok (if scope.2 = 0 then none else some scope) :=
  scopeFrom_of_ends h hends (Nat.lt_succ_of_lt (h.lt_of_endsAt hscopes hstart hends))

theorem resolvingScope_eq_some_iff (hscopes : assembly.tables.ScopesExist)
    (hstart : 1 ≤ start ∧ start ≤ assembly.tables.count .typeRef) :
    assembly.resolvingScope start = .ok (some scope) ↔
      ∃ steps last, assembly.tables.LeadsTo steps start last ∧
        assembly.tables.ScopeOf last scope ∧ scope.2 ≠ 0 ∧ scope.1 ≠ .typeRef := by
  constructor
  · intro h
    rcases hscopes.ends_or_goes_on hstart with ⟨steps, last, found, hlead, hends⟩ | hgoes
    · rw [resolvingScope_of_ends hscopes hstart hlead hends] at h
      have hfound := Except.ok.inj h
      split at hfound
      · cases hfound
      · rename_i hne
        obtain rfl := Option.some.inj hfound
        exact ⟨steps, last, hlead, hends.1, hne, hends.2.resolve_left hne⟩
    · cases (scopeFrom_of_goes_on hgoes _).symm.trans h
  · rintro ⟨steps, last, hlead, hscope, hne, htable⟩
    rw [resolvingScope_of_ends hscopes hstart hlead ⟨hscope, .inr htable⟩, if_neg hne]

theorem resolvingScope_eq_none_iff (hscopes : assembly.tables.ScopesExist)
    (hstart : 1 ≤ start ∧ start ≤ assembly.tables.count .typeRef) :
    assembly.resolvingScope start = .ok none ↔
      (∃ steps last table, assembly.tables.LeadsTo steps start last ∧
        assembly.tables.ScopeOf last (table, 0)) ∨
      ∀ steps, ∃ last, assembly.tables.LeadsTo steps start last := by
  constructor
  · intro h
    rcases hscopes.ends_or_goes_on hstart with ⟨steps, last, found, hlead, hends⟩ | hgoes
    · rw [resolvingScope_of_ends hscopes hstart hlead hends] at h
      have hfound := Except.ok.inj h
      split at hfound
      · rename_i hzero
        exact .inl ⟨steps, last, found.1, hlead, hzero ▸ hends.1⟩
      · cases hfound
    · exact .inr hgoes
  · rintro (⟨steps, last, table, hlead, hscope⟩ | hgoes)
    · exact resolvingScope_of_ends hscopes hstart hlead ⟨hscope, .inl rfl⟩
    · exact scopeFrom_of_goes_on hgoes _

/-- If all scopes can be read and exist, the scopes of a type reference are followed to their end:
what is found is the first scope that is no type reference, and nothing is found exactly if there is
none, since the chain ends at no scope at all or never ends.  The bound cuts no chain off that ends,
and any other bound that reaches the end gives the same. -/
theorem resolvingScope_decides (hscopes : assembly.tables.ScopesExist)
    (hstart : 1 ≤ start ∧ start ≤ assembly.tables.count .typeRef) :
    (∃ found, assembly.resolvingScope start = .ok found) ∧
    (∀ scope, assembly.resolvingScope start = .ok (some scope) ↔
      ∃ steps last, assembly.tables.LeadsTo steps start last ∧
        assembly.tables.ScopeOf last scope ∧ scope.2 ≠ 0 ∧ scope.1 ≠ .typeRef) ∧
    (assembly.resolvingScope start = .ok none ↔
      (∃ steps last table, assembly.tables.LeadsTo steps start last ∧
        assembly.tables.ScopeOf last (table, 0)) ∨
      ∃ visited : Nat → Nat, visited 0 = start ∧
        ∀ n, assembly.tables.NestedIn (visited n) (visited (n + 1))) ∧
    ∀ steps last scope, assembly.tables.LeadsTo steps start last →
      assembly.tables.EndsAt last scope → steps < assembly.tables.count .typeRef ∧
        ∀ bound, steps < bound →
          scopeFrom assembly.tables bound start = assembly.resolvingScope start := by
  refine ⟨?_, fun scope => resolvingScope_eq_some_iff hscopes hstart, ?_, ?_⟩
  · rcases hscopes.ends_or_goes_on hstart with ⟨steps, last, scope, hlead, hends⟩ | hgoes
    · exact ⟨_, resolvingScope_of_ends hscopes hstart hlead hends⟩
    · exact ⟨none, scopeFrom_of_goes_on hgoes _⟩
  · rw [resolvingScope_eq_none_iff hscopes hstart, forall_leadsTo_iff]
  · intro steps last scope hlead hends
    refine ⟨hlead.lt_of_endsAt hscopes hstart hends, fun bound hbound => ?_⟩
    rw [scopeFrom_of_ends hlead hends hbound, resolvingScope_of_ends hscopes hstart hlead hends]

end

/-! ## A chain and a circle -/

/-- The third type is nested in the second one, which is nested in the first one of another
assembly.  The fourth is nested in the fifth, which is nested in the sixth, which is nested in the
fifth. -/
def withScopeCircle : Assembly :=
  { withAddedLocals with
    tables := Tables.empty.setRows .typeRef
      ([6, 7, 11, 23, 27, 23].map fun scope => [scope, 0, 0])
    addedBodies := [] }

/-- The third type is found in the other assembly.  The search from the fourth one finds nothing: it
runs into a circle that the fourth one is not part of. -/
theorem resolvingScope_decides_circle :
    withScopeCircle.tables.ScopesExist ∧
      withScopeCircle.resolvingScope 3 = .ok (some (.assemblyRef, 1)) ∧
      withScopeCircle.resolvingScope 4 = .ok none := by
  have hfirst : withScopeCircle.tables.ScopeOf 1 (.assemblyRef, 1) := ⟨6, rfl, rfl⟩
  have hsecond : withScopeCircle.tables.NestedIn 2 1 := ⟨⟨7, rfl, rfl⟩, by decide⟩
  have hthird : withScopeCircle.tables.NestedIn 3 2 := ⟨⟨11, rfl, rfl⟩, by decide⟩
  have hfourth : withScopeCircle.tables.NestedIn 4 5 := ⟨⟨23, rfl, rfl⟩, by decide⟩
  have hfifth : withScopeCircle.tables.NestedIn 5 6 := ⟨⟨27, rfl, rfl⟩, by decide⟩
  have hsixth : withScopeCircle.tables.NestedIn 6 5 := ⟨⟨23, rfl, rfl⟩, by decide⟩
  have hcount : withScopeCircle.tables.count .typeRef = 6 := rfl
  have hscopes : withScopeCircle.tables.ScopesExist := by
    intro row hlo hhi
    rw [hcount] at hhi ⊢
    obtain rfl | rfl | rfl | rfl | rfl | rfl :
      row = 1 ∨ row = 2 ∨ row = 3 ∨ row = 4 ∨ row = 5 ∨ row = 6 := by omega
    · exact ⟨_, hfirst, by decide⟩
    · exact ⟨_, hsecond.1, by decide⟩
    · exact ⟨_, hthird.1, by decide⟩
    · exact ⟨_, hfourth.1, by decide⟩
    · exact ⟨_, hfifth.1, by decide⟩
    · exact ⟨_, hsixth.1, by decide⟩
  have hthree : 1 ≤ 3 ∧ 3 ≤ withScopeCircle.tables.count .typeRef := by rw [hcount]; decide
  have hfour : 1 ≤ 4 ∧ 4 ≤ withScopeCircle.tables.count .typeRef := by rw [hcount]; decide
  obtain ⟨-, hfound, -⟩ := resolvingScope_decides hscopes hthree
  obtain ⟨-, -, hnone, -⟩ := resolvingScope_decides hscopes hfour
  refine ⟨hscopes, (hfound _).mpr ?_, hnone.mpr (.inr ?_)⟩
  · exact ⟨2, 1, .outward hthird (.outward hsecond (.here 1)), hfirst, by decide, by decide⟩
  · refine ⟨fun n => if n = 0 then 4 else if n % 2 = 1 then 5 else 6, rfl, fun n => ?_⟩
    rcases Nat.eq_zero_or_pos n with rfl | hpos
    · exact hfourth
    · dsimp only
      rw [if_neg (Nat.ne_of_gt hpos), if_neg (Nat.succ_ne_zero n)]
      rcases Nat.mod_two_eq_zero_or_one n with heven | hodd
      · rw [if_neg (by omega), if_pos (by omega)]
        exact hsixth
      · rw [if_pos hodd, if_neg (by omega)]
        exact hfifth

end Assembly

end NativeExports
