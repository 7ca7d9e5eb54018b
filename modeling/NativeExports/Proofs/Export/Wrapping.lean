import NativeExports.Proofs.CodedIndices
import NativeExports.Proofs.Editing.Consistent
import NativeExports.Proofs.Export.Candidates
import NativeExports.Proofs.Export.Forwarding

/-!
# Adding wrappers

The wrappers are added one after the other behind the methods of their class, and each of them moves
the methods behind it.  The invariant is that every candidate still denotes the method that it
denoted when it was found, and that every wrapper so far forwards to the method of its candidate.
-/

namespace NativeExports

namespace Wrapping

theorem bind_eq_ok {α β : Type} {x : StateT Assembly Logged α} {f : α → StateT Assembly Logged β}
    {before : Assembly} {result : β × Assembly} :
    ((x >>= f) before).outcome = .ok result ↔
      ∃ a middle, (x before).outcome = .ok (a, middle) ∧ (f a middle).outcome = .ok result := by
  have hbind : ((x >>= f) before).outcome =
      (x before).outcome >>= fun found => (f found.1 found.2).outcome :=
    Logged.outcome_bind _ _
  rw [hbind, Outcome.bind_eq_ok]
  constructor
  · rintro ⟨⟨a, middle⟩, hx, hf⟩
    exact ⟨a, middle, hx, hf⟩
  · rintro ⟨a, middle, hx, hf⟩
    exact ⟨(a, middle), hx, hf⟩

theorem get_eq_ok {before after found : Assembly}
    (h : ((get : StateT Assembly Logged Assembly) before).outcome = .ok (found, after)) :
    before = found ∧ before = after := by
  obtain ⟨rfl, rfl⟩ := Prod.mk.inj (Except.ok.inj h)
  exact ⟨rfl, rfl⟩

theorem lift_eq_ok {α : Type} {x : Except Error α} {a : α} {before after : Assembly}
    (h : ((liftM x : StateT Assembly Logged α) before).outcome = .ok (a, after)) :
    x = .ok a ∧ before = after := by
  cases x with
  | error e => cases h
  | ok found =>
      obtain ⟨rfl, rfl⟩ := Prod.mk.inj (Except.ok.inj h)
      exact ⟨rfl, rfl⟩

variable {before after : Assembly}

end Wrapping

/-! ## One wrapper after the other -/

/-- A candidate still denotes the method that it denoted when it was found. -/
structure Candidate.Follows (before after : Assembly) (found current : Candidate) : Prop where
  same : current = { found with method := current.method }
  method : ∃ row row', found.method = Token.ofRow .methodDef row ∧
    current.method = Token.ofRow .methodDef row' ∧ before.SameMethod row after row'

/-- A wrapper belongs to the class with the wrappers, and forwards to the method of a candidate. -/
structure Wrapper.Serves (assembly : Assembly) (container : Nat) (candidate : Candidate)
    (wrapper : Wrapper) : Prop where
  entryPoint : wrapper.entryPoint = candidate.entryPoint
  wrapped : candidate.entryPoint.isWrapped = true
  forwards : ∃ row target, wrapper.method = Token.ofRow .methodDef row ∧
    candidate.method = Token.ofRow .methodDef target ∧
    (∃ columns, assembly.tables.row? .methodDef target = some columns) ∧
    assembly.Forwards candidate.entryPoint row target ∧
    ∃ first stop, assembly.methodRun container = .ok (first, stop) ∧ first ≤ row ∧ row < stop

namespace Wrapping

/-- The candidates denote the methods that they denoted at the start, and the wrappers so far serve
them. -/
structure Progress (start : Assembly) (candidates : List Candidate) (context : WrapperContext)
    (wrapping : Wrapping) : Prop where
  runs : wrapping.assembly.tables.RunsOrdered
  ascending : Assembly.Ascending wrapping.assembly.addedBodies
  value_lt : context.append.value < 2 ^ 32
  appends : ∀ candidate ∈ candidates, candidate.entryPoint.appendsText = true →
    wrapping.assembly.Appends context.append
  container : wrapping.assembly.nameOfTypeDef context.container =
    .ok (WrapperClass.space, WrapperClass.name)
  current : List.Forall₂ (Candidate.Follows start wrapping.assembly) candidates wrapping.candidates
  serves : ∀ wrapper ∈ wrapping.wrappers, ∃ candidate ∈ wrapping.candidates,
    wrapper.Serves wrapping.assembly context.container candidate

variable {start : Assembly} {candidates : List Candidate} {context : WrapperContext}
  {wrapping wrapping' : Wrapping}

/-- What adding a wrapper does. -/
theorem addWrapper_eq_ok {candidate : Candidate}
    (h : (addWrapper context wrapping candidate).outcome = .ok wrapping') :
    ∃ run method row, wrapping.assembly.methodRun context.container = .ok run ∧
      Wrapper.draft candidate.entryPoint context.stringBuilder
        (if run.2 ≤ candidate.method.row then Token.ofRow .methodDef (candidate.method.row + 1)
          else candidate.method) context.append = .ok method ∧
      Assembly.insertMethod context.container method wrapping.assembly =
        .ok (row, wrapping'.assembly) ∧
      wrapping'.candidates = wrapping.candidates.map (fun other =>
        { other with method := shift row other.method }) ∧
      wrapping'.wrappers = (wrapping.wrappers.map fun wrapper =>
        { wrapper with method := shift row wrapper.method }) ++
          [⟨candidate.entryPoint, Token.ofRow .methodDef row⟩] := by
  unfold addWrapper at h
  simp only [Logged.outcome_bind, Logged.outcome_monadLift] at h
  obtain ⟨run, hrun, h⟩ := Outcome.bind_eq_ok.mp h
  obtain ⟨-, -, h⟩ := Outcome.bind_eq_ok.mp h
  obtain ⟨method, hmethod, h⟩ := Outcome.bind_eq_ok.mp h
  obtain ⟨⟨row, assembly⟩, hadded, h⟩ := Outcome.bind_eq_ok.mp h
  obtain ⟨-, -, h⟩ := Outcome.bind_eq_ok.mp h
  obtain rfl := Except.ok.inj h
  exact ⟨run, method, row, hrun, hmethod, hadded, rfl, rfl⟩

/-- A wrapper stands for the entry point of its candidate, and no other entry point changes. -/
theorem entryPoints_of_addWrapper {candidate : Candidate}
    (h : (addWrapper context wrapping candidate).outcome = .ok wrapping') :
    wrapping'.candidates.map Candidate.entryPoint = wrapping.candidates.map Candidate.entryPoint ∧
      wrapping'.wrappers.map Wrapper.entryPoint =
        wrapping.wrappers.map Wrapper.entryPoint ++ [candidate.entryPoint] := by
  obtain ⟨run, method, row, -, -, -, hcandidates, hwrappers⟩ := addWrapper_eq_ok h
  rw [hcandidates, hwrappers, List.map_append, List.map_map, List.map_map]
  exact ⟨rfl, rfl⟩

theorem candidates_addWrappers (wrapping : Wrapping) (indices : List Nat) :
    (addWrappers context wrapping indices).1.candidates.map Candidate.entryPoint =
      wrapping.candidates.map Candidate.entryPoint := by
  induction indices generalizing wrapping with
  | nil => rfl
  | cons index rest ih =>
      unfold addWrappers
      cases wrapping.candidates[index]? with
      | none => exact ih _
      | some candidate =>
          dsimp only
          rcases hadd : addWrapper context wrapping candidate with ⟨entries, error | next⟩
          · rfl
          · exact (ih next).trans (entryPoints_of_addWrapper (congrArg Logged.outcome hadd)).1

/-- Adding wrappers adds one for each of the candidates in turn. -/
theorem wrappers_addWrappers (wrapping : Wrapping) {indices : List Nat}
    (hok : (addWrappers context wrapping indices).2.outcome = .ok ()) :
    (addWrappers context wrapping indices).1.wrappers.map Wrapper.entryPoint =
      wrapping.wrappers.map Wrapper.entryPoint ++
        indices.filterMap fun index => (wrapping.candidates.map Candidate.entryPoint)[index]? := by
  induction indices generalizing wrapping with
  | nil => exact (List.append_nil _).symm
  | cons index rest ih =>
      rw [List.filterMap_cons, List.getElem?_map]
      unfold addWrappers at hok ⊢
      cases hcandidate : wrapping.candidates[index]? with
      | none =>
          rw [hcandidate] at hok
          exact ih _ hok
      | some candidate =>
          rw [hcandidate] at hok
          dsimp only [Option.map_some] at hok ⊢
          rcases hadd : addWrapper context wrapping candidate with ⟨entries, error | next⟩
          · rw [hadd] at hok
            cases hok
          · rw [hadd] at hok
            obtain ⟨hcandidates, hwrappers⟩ :=
              entryPoints_of_addWrapper (congrArg Logged.outcome hadd)
            dsimp only at hok ⊢
            rw [ih next hok, hcandidates, hwrappers, List.append_assoc, List.singleton_append]

/-- The indices lead to the entry points that are wrapped. -/
theorem map_wrappedIndices (candidates : List Candidate) :
    (wrappedIndices candidates).filterMap
        (fun index => (candidates.map Candidate.entryPoint)[index]?) =
      (candidates.map Candidate.entryPoint).filter EntryPoint.isWrapped := by
  have hget : ∀ pair ∈ candidates.zipIdx.filter fun pair => pair.1.entryPoint.isWrapped,
      (candidates.map Candidate.entryPoint)[pair.2]? = some pair.1.entryPoint := by
    rintro ⟨candidate, index⟩ hmem
    rw [List.getElem?_map, List.mem_zipIdx_iff_getElem?.mp (List.mem_filter.mp hmem).1]
    rfl
  have hfirst : (candidates.map Candidate.entryPoint) =
      candidates.zipIdx.map fun pair => pair.1.entryPoint := by
    conv_lhs => rw [← List.zipIdx_map_fst 0 candidates, List.map_map]
    rfl
  unfold wrappedIndices
  rw [List.filterMap_map]
  refine (List.filterMap_congr hget).trans ?_
  rw [List.filterMap_eq_map', hfirst, List.filter_map]
  rfl

/-- The candidates stay marked for the entry points that they were marked for. -/
theorem candidates_run (assembly : Assembly) (candidates : List Candidate) :
    (run assembly candidates).1.candidates.map Candidate.entryPoint =
      candidates.map Candidate.entryPoint := by
  unfold run
  split
  · rfl
  · split
    · rfl
    · exact candidates_addWrappers _ _

/-- There is a wrapper for each candidate whose entry point has one, in the order of the
candidates. -/
theorem wrappers_run {assembly : Assembly} {candidates : List Candidate}
    (hok : (run assembly candidates).2.outcome = .ok ()) :
    (run assembly candidates).1.wrappers.map Wrapper.entryPoint =
      (candidates.map Candidate.entryPoint).filter EntryPoint.isWrapped := by
  unfold run at hok ⊢
  split
  · rename_i hnone
    refine (List.filter_eq_nil_iff.mpr ?_).symm
    rintro _ hmem hwrapped
    obtain ⟨candidate, hcandidate, rfl⟩ := List.mem_map.mp hmem
    rw [List.any_eq_true.mpr ⟨candidate, hcandidate, hwrapped⟩] at hnone
    cases hnone
  · rename_i hsome
    rw [if_neg hsome] at hok
    split
    · rename_i hcontext
      rw [hcontext] at hok
      cases hok
    · rename_i hcontext
      rw [hcontext] at hok
      exact (wrappers_addWrappers _ hok).trans (map_wrappedIndices candidates)

end Wrapping

end NativeExports
