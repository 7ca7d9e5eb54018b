import NativeExports.Injection.Injector
import NativeExports.Proofs.Export.Finishing
import NativeExports.Proofs.Host.Output
import NativeExports.Proofs.Image.Headers
import NativeExports.Text.Surrogates

/-!
# Calls of an injector

An injector changes its library in its first call only, and only if there are marked methods.  Tools
run in that call alone, once the library is written, so a failure before that leaves the file as it
was.  What is exported in the end is what was planned before the call.
-/

namespace NativeExports

/-- Entries are numbered from 1. -/
theorem Directive.ordinals_ofEntryPoints (entryPoints : List EntryPoint)
    (architecture : Architecture) :
    (ofEntryPoints entryPoints architecture).map ordinal =
      List.range' 1 (ofEntryPoints entryPoints architecture).length := by
  unfold ofEntryPoints
  rw [List.map_map, List.length_map, List.length_zipIdx, ← List.zipIdx_map_snd 1 entryPoints,
    List.zipIdx_succ, List.map_map]
  rfl

/-- Entries stand in the order of the entry points. -/
theorem Directive.names_ofEntryPoints (entryPoints : List EntryPoint)
    (architecture : Architecture) :
    (ofEntryPoints entryPoints architecture).map name =
      entryPoints.map fun entryPoint => entryPoint.exportName architecture := by
  unfold ofEntryPoints
  conv_rhs => rw [← List.zipIdx_map_fst 0 entryPoints]
  rw [List.map_map, List.map_map]
  rfl

namespace Injector

open Job

variable {injector last : Injector} {host : Host} {disk : Disk} {e : Error}

/-! ## One call -/

/-- The injector with its wrappers added, as far as that went. -/
def wrapped (injector : Injector) : Injector :=
  let wrapping := (Wrapping.run injector.library.assembly injector.candidates).1
  { injector.withInjectionBegun.withAssembly wrapping.assembly with
    candidates := wrapping.candidates }

theorem candidates_wrapped : injector.wrapped.candidates = [] ↔ injector.candidates = [] := by
  have h := congrArg List.length
    (Wrapping.candidates_run injector.library.assembly injector.candidates)
  rw [List.length_map, List.length_map] at h
  rw [← List.length_eq_zero_iff, ← List.length_eq_zero_iff]
  exact Eq.congr h rfl

theorem run_of_unmarked [Utf16.Decoder] (hnone : injector.candidates = []) (host : Host) :
    ∃ entries, injector.run host = (⟨entries, .ok (injector, .ok .nothingToDo)⟩, host) := by
  unfold run
  rw [hnone]
  exact ⟨_, rfl⟩

theorem run_of_injected [Utf16.Decoder] (hsome : injector.candidates ≠ [])
    (hinjected : injector.library.isInjected = true) (host : Host) :
    injector.run host = (⟨[], .ok (injector, .error .alreadyInjected)⟩, host) := by
  unfold run
  rw [List.isEmpty_eq_false_iff.mpr hsome, hinjected]
  rfl

theorem run_of_fresh [Utf16.Decoder] (hsome : injector.candidates ≠ [])
    (hfresh : injector.library.isInjected = false) : injector.run = injector.inject := by
  unfold run
  rw [List.isEmpty_eq_false_iff.mpr hsome, hfresh]
  rfl

/-- An injection fails as soon as adding the wrappers fails. -/
theorem inject_of_unwrapped [Utf16.Decoder]
    (hfails : (Wrapping.run injector.library.assembly injector.candidates).2.outcome = .error e) :
    ∃ entries, ∀ host,
      injector.inject host = (⟨entries, .ok (injector.wrapped, .error e)⟩, host) := by
  unfold inject wrapped
  rcases hrun : Wrapping.run injector.library.assembly injector.candidates with
    ⟨wrapping, entries, outcome⟩
  rw [hrun] at hfails
  obtain rfl : outcome = .error e := hfails
  rw [show Wrapping.run injector.withInjectionBegun.library.assembly
    injector.withInjectionBegun.candidates = _ from hrun]
  exact ⟨_, fun host => rfl⟩

/-- An injection fails as soon as the markers stay or the tables are not put in order. -/
theorem inject_of_unstripped [Utf16.Decoder]
    (hwrapped : (Wrapping.run injector.library.assembly injector.candidates).2.outcome = .ok ())
    (hfails : (strip injector.wrapped.library.assembly).outcome = .error e) :
    ∃ entries, ∀ host,
      injector.inject host = (⟨entries, .ok (injector.wrapped, .error e)⟩, host) := by
  unfold inject
  unfold wrapped at hfails ⊢
  rcases hrun : Wrapping.run injector.library.assembly injector.candidates with
    ⟨wrapping, entries, outcome⟩
  rw [hrun] at hwrapped hfails
  obtain rfl : outcome = .ok () := hwrapped
  rw [show Wrapping.run injector.withInjectionBegun.library.assembly
    injector.withInjectionBegun.candidates = _ from hrun]
  rcases hstrip : strip wrapping.assembly with ⟨others, outcome⟩
  obtain rfl : outcome = .error e := (congrArg Logged.outcome hstrip).symm.trans hfails
  dsimp only
  rw [hstrip]
  exact ⟨_, fun host => rfl⟩

/-- The entry points of the wrappers that an injector adds. -/
def served (injector : Injector) : List EntryPoint :=
  (Wrapping.run injector.library.assembly injector.candidates).1.wrappers.map Wrapper.entryPoint

/-- The last step of an injection, once the assembly has its final form. -/
def rebuilding [Utf16.Decoder] (injector : Injector) (assembly : Assembly) : Job InjectionOutcome :=
  rebuild injector.settings (injector.wrapped.withAssembly assembly).library injector.served

/-- An injection ends with writing the library and having it exported. -/
theorem inject_of_stripped [Utf16.Decoder] {assembly : Assembly}
    (hwrapped : (Wrapping.run injector.library.assembly injector.candidates).2.outcome = .ok ())
    (hstripped : (strip injector.wrapped.library.assembly).outcome = .ok assembly) :
    ∃ entries, ∀ host, injector.inject host =
      (⟨entries ++ (injector.rebuilding assembly host).1.entries,
        .ok (injector.wrapped.withAssembly assembly,
          (injector.rebuilding assembly host).1.outcome)⟩,
        (injector.rebuilding assembly host).2) := by
  unfold inject rebuilding served
  unfold wrapped at hstripped ⊢
  rcases hrun : Wrapping.run injector.library.assembly injector.candidates with
    ⟨wrapping, entries, outcome⟩
  rw [hrun] at hwrapped hstripped
  obtain rfl : outcome = .ok () := hwrapped
  rw [show Wrapping.run injector.withInjectionBegun.library.assembly
    injector.withInjectionBegun.candidates = _ from hrun]
  rcases hstrip : strip wrapping.assembly with ⟨others, outcome⟩
  obtain rfl : outcome = .ok assembly := (congrArg Logged.outcome hstrip).symm.trans hstripped
  dsimp only
  rw [hstrip]
  have hentries : ∀ (entry : LogEntry) (last : List LogEntry),
      entry :: (entries ++ others) ++ last =
      [entry] ++ (entries ++ (others ++ (last ++ []))) := fun entry last => by
    rw [List.cons_append, List.append_assoc, List.append_nil, List.singleton_append]
  refine ⟨⟨.info, s!"Found {injector.candidates.length} export(s). Injecting wrappers..."⟩ ::
    (entries ++ others), fun host => ?_⟩
  rw [hentries]
  rfl

/-- What an injection does when it is run for the first time. -/
theorem run_cases [Utf16.Decoder] (hsome : injector.candidates ≠ [])
    (hfresh : injector.library.isInjected = false) :
    (∃ e entries, ∀ host, injector.run host =
      (⟨entries, .ok (injector.wrapped, .error e)⟩, host)) ∨
    ∃ assembly entries,
      (Wrapping.run injector.library.assembly injector.candidates).2.outcome = .ok () ∧
      (strip injector.wrapped.library.assembly).outcome = .ok assembly ∧
      ∀ host, injector.run host = (⟨entries ++ (injector.rebuilding assembly host).1.entries,
        .ok (injector.wrapped.withAssembly assembly,
          (injector.rebuilding assembly host).1.outcome)⟩,
        (injector.rebuilding assembly host).2) := by
  rw [run_of_fresh hsome hfresh]
  cases hwrapped : (Wrapping.run injector.library.assembly injector.candidates).2.outcome with
  | error e => exact .inl ⟨e, inject_of_unwrapped hwrapped⟩
  | ok done =>
      cases hstripped : (strip injector.wrapped.library.assembly).outcome with
      | error e => exact .inl ⟨e, inject_of_unstripped hwrapped hstripped⟩
      | ok assembly =>
          obtain ⟨entries, hrun⟩ := inject_of_stripped hwrapped hstripped
          exact .inr ⟨assembly, entries, rfl, rfl, hrun⟩

/-- A call returns, and leaves a library behind that an injection was begun for, unless no method is
marked. -/
theorem exists_run [Utf16.Decoder] (injector : Injector) (host : Host) :
    ∃ entries last answer left, injector.run host = (⟨entries, .ok (last, answer)⟩, left) ∧
      (injector.candidates ≠ [] → last.candidates ≠ [] ∧ last.library.isInjected = true) := by
  by_cases hnone : injector.candidates = []
  · obtain ⟨entries, hrun⟩ := run_of_unmarked hnone host
    exact ⟨_, _, _, _, hrun, fun hsome => absurd hnone hsome⟩
  · cases hinjected : injector.library.isInjected with
    | true => exact ⟨_, _, _, _, run_of_injected hnone hinjected host, fun _ => ⟨hnone, hinjected⟩⟩
    | false =>
        obtain ⟨e, entries, hrun⟩ | ⟨assembly, entries, -, -, hrun⟩ := run_cases hnone hinjected
        · exact ⟨_, _, _, _, hrun host, fun _ => ⟨mt candidates_wrapped.mp hnone, rfl⟩⟩
        · exact ⟨_, _, _, _, hrun host, fun _ => ⟨mt candidates_wrapped.mp hnone, rfl⟩⟩

/-! ## Series of calls -/

/-- A call, from the host that it found to the host that it left. -/
structure Call where
  /-- The host in front of the call. -/
  found : Host
  /-- How the call ended. -/
  answer : Except Error InjectionOutcome
  /-- The host behind the call. -/
  left : Host

/-- The injector that a series of calls leads to.  Each call may find any host, so between the calls
anything may happen to files and tools. -/
inductive Calls [Utf16.Decoder] : Injector → List Call → Injector → Prop
  | none (injector : Injector) : Calls injector [] injector
  | more {injector middle last : Injector} {call : Call} {calls : List Call}
      {entries : List LogEntry}
      (hcall : injector.run call.found = (⟨entries, .ok (middle, call.answer)⟩, call.left))
      (hcalls : Calls middle calls last) : Calls injector (call :: calls) last

variable {calls : List Call}

theorem exists_calls [Utf16.Decoder] (injector : Injector) (hosts : List Host) :
    ∃ calls last, calls.map Call.found = hosts ∧ Calls injector calls last := by
  induction hosts generalizing injector with
  | nil => exact ⟨[], injector, rfl, .none injector⟩
  | cons host hosts ih =>
      obtain ⟨entries, middle, answer, left, hrun, -⟩ := exists_run injector host
      obtain ⟨calls, last, hfound, hcalls⟩ := ih middle
      exact ⟨⟨host, answer, left⟩ :: calls, last, by rw [List.map_cons, hfound], .more hrun hcalls⟩

/-- Calls that all end alike and change nothing. -/
theorem Calls.all_same [Utf16.Decoder] (hcalls : Calls injector calls last)
    {answer : Except Error InjectionOutcome} (hrun : ∀ host, ∃ entries,
      injector.run host = (⟨entries, .ok (injector, answer)⟩, host)) :
    last = injector ∧ ∀ call ∈ calls, call.answer = answer ∧ call.left = call.found := by
  induction hcalls with
  | none injector => exact ⟨rfl, fun _ hmem => absurd hmem List.not_mem_nil⟩
  | more hcall hcalls ih =>
      rename_i call calls entries
      obtain ⟨entries, hsame⟩ := hrun call.found
      rw [hsame] at hcall
      obtain ⟨hlogged, hleft⟩ := Prod.mk.inj hcall
      obtain ⟨-, hdone⟩ := Logged.mk.inj hlogged
      obtain ⟨rfl, hanswer⟩ := Prod.mk.inj (Except.ok.inj hdone)
      obtain ⟨hlast, hothers⟩ := ih hrun
      exact ⟨hlast, List.forall_mem_cons.mpr ⟨⟨hanswer.symm, hleft.symm⟩, hothers⟩⟩

/-! ## Early failures -/

/-- An injection fails before a tool is needed: when the wrappers are added, when the markers are
taken out, when the tables are put in order or when the library is written. -/
inductive FailsEarly (injector : Injector) (disk : Disk) (e : Error) : Prop
  | wrapping
      (hfails : (Wrapping.run injector.library.assembly injector.candidates).2.outcome = .error e)
  | removal
      (hwrapped : (Wrapping.run injector.library.assembly injector.candidates).2.outcome = .ok ())
      (hfails : (MarkerRemoval.run injector.wrapped.library.assembly).outcome = .error e)
  | sorting {report : RemovalReport} {unmarked : Assembly}
      (hwrapped : (Wrapping.run injector.library.assembly injector.candidates).2.outcome = .ok ())
      (hremoved : (MarkerRemoval.run injector.wrapped.library.assembly).outcome =
        .ok (report, unmarked))
      (hfails : unmarked.sortAll.outcome = .error e)
  | writing {report : RemovalReport} {unmarked sorted : Assembly} {tools : Location → Tool}
      (hwrapped : (Wrapping.run injector.library.assembly injector.candidates).2.outcome = .ok ())
      (hremoved : (MarkerRemoval.run injector.wrapped.library.assembly).outcome =
        .ok (report, unmarked))
      (hsorted : unmarked.sortAll.outcome = .ok sorted)
      (hfails : (sorted.save injector.library.path ⟨disk, tools⟩).1.outcome = .error e)

theorem outcome_strip (assembly : Assembly) : (strip assembly).outcome =
    (MarkerRemoval.run assembly).outcome >>= fun removed => removed.2.sortAll.outcome := by
  unfold strip
  rw [Logged.outcome_bind, Logged.outcome_bind]
  rfl

/-- A library that cannot be written stays as it was, whatever the tools are. -/
theorem rebuilding_of_unsaved [Utf16.Decoder] {sorted : Assembly} {tools : Location → Tool}
    (hfails : (sorted.save injector.library.path ⟨disk, tools⟩).1.outcome = .error e) :
    ∃ entries disk', disk'.read injector.library.path = disk.read injector.library.path ∧
      ∀ tools, injector.rebuilding sorted ⟨disk, tools⟩ =
        (⟨entries, .error e⟩, ⟨disk', tools⟩) := by
  obtain ⟨entries, outcome, disk', hends, hsave⟩ := sorted.does_save injector.library.path disk
  obtain rfl : outcome = .error e := by
    rw [hsave tools] at hfails
    exact hfails
  refine ⟨[⟨.info, "Writing injected DLL"⟩] ++ entries, disk', Disk.SameBut.read hends,
    fun tools => ?_⟩
  have hsave : (injector.wrapped.withAssembly sorted).library.assembly.save
      (injector.wrapped.withAssembly sorted).library.path ⟨disk, tools⟩ = _ := hsave tools
  unfold rebuilding rebuild
  refine (bind_of_ok rfl).trans ?_
  rw [bind_of_error hsave]

/-- The library is as it was, and no tool has run: with other tools, all would be the same. -/
theorem run_of_failsEarly [Utf16.Decoder] (hsome : injector.candidates ≠ [])
    (hfresh : injector.library.isInjected = false) (hfails : injector.FailsEarly disk e) :
    ∃ entries last disk', disk'.read injector.library.path = disk.read injector.library.path ∧
      ∀ tools, injector.run ⟨disk, tools⟩ = (⟨entries, .ok (last, .error e)⟩, ⟨disk', tools⟩) := by
  rw [run_of_fresh hsome hfresh]
  cases hfails with
  | wrapping hfails =>
      obtain ⟨entries, hrun⟩ := inject_of_unwrapped hfails
      exact ⟨entries, _, disk, rfl, fun tools => hrun _⟩
  | removal hwrapped hfails =>
      have hstrip : (strip injector.wrapped.library.assembly).outcome = .error e := by
        rw [outcome_strip, hfails]
        rfl
      obtain ⟨entries, hrun⟩ := inject_of_unstripped hwrapped hstrip
      exact ⟨entries, _, disk, rfl, fun tools => hrun _⟩
  | sorting hwrapped hremoved hfails =>
      have hstrip : (strip injector.wrapped.library.assembly).outcome = .error e := by
        rw [outcome_strip, hremoved]
        exact hfails
      obtain ⟨entries, hrun⟩ := inject_of_unstripped hwrapped hstrip
      exact ⟨entries, _, disk, rfl, fun tools => hrun _⟩
  | @writing report unmarked sorted tools hwrapped hremoved hsorted hfails =>
      have hstrip : (strip injector.wrapped.library.assembly).outcome = .ok sorted := by
        rw [outcome_strip, hremoved]
        exact hsorted
      obtain ⟨entries, hrun⟩ := inject_of_stripped hwrapped hstrip
      obtain ⟨others, disk', hread, hrebuild⟩ := rebuilding_of_unsaved hfails
      refine ⟨entries ++ others, injector.wrapped.withAssembly sorted, disk', hread,
        fun tools => ?_⟩
      rw [hrun, hrebuild]

/-! ## Exports -/

/-- The entries that an injection leads to are those of the wrappers. -/
theorem yields_rebuild [Utf16.Decoder] (settings : InjectionSettings) (library : Library)
    (entryPoints : List EntryPoint) :
    Yields (fun outcome => ∀ directives intermediate,
      outcome = .exported directives intermediate →
        directives = Directive.ofEntryPoints entryPoints library.architecture)
      (rebuild settings library entryPoints) := by
  refine .bind fun _ => .bind fun _ => .bind fun _ => .bind fun _ => .bind fun _ => .bind fun _ =>
    .bind fun _ => .bind fun found => .bind fun _ => .bind fun intermediate => .bind fun _ => ?_
  refine yields_pure ?_
  rintro directives intermediate ⟨⟩
  rfl

/-- An injection that ends well has exported what was planned. -/
theorem directives_of_run [Utf16.Decoder] {left : Host} {entries : List LogEntry}
    {directives : List Directive}
    {intermediate : Option String} (hfresh : injector.library.isInjected = false)
    (hrun : injector.run host =
      (⟨entries, .ok (last, .ok (.exported directives intermediate))⟩, left)) :
    directives = injector.plan := by
  by_cases hnone : injector.candidates = []
  · obtain ⟨_, hidle⟩ := run_of_unmarked hnone host
    rw [hidle] at hrun
    cases hrun
  · obtain ⟨e, _, hfails⟩ | ⟨assembly, _, hwrapped, -, hrebuilt⟩ := run_cases hnone hfresh
    · rw [hfails] at hrun
      cases hrun
    · rw [hrebuilt] at hrun
      obtain ⟨-, hanswer⟩ := Prod.mk.inj (Except.ok.inj (Logged.mk.inj (Prod.mk.inj hrun).1).2)
      have hentryPoints : injector.served = _ := Wrapping.wrappers_run hwrapped
      rw [yields_rebuild _ _ _ _ _ hanswer _ _ rfl, hentryPoints]
      rfl

/-! ## Injectors -/

theorem yields_load [Image.Parser] (path : String) :
    Yields (fun library : Library => library.isInjected = false) (Library.load path) := by
  unfold Library.load
  -- Every way through the checks ends in the same record.
  repeat' first | refine .bind fun _ => ?_ | split | dsimp only
  all_goals exact yields_pure rfl

/-- The library of a new injector has not been through an injection. -/
theorem yields_prepare [Image.Parser] (settings : InjectionSettings) :
    Yields (fun injector : Injector => injector.library.isInjected = false) (prepare settings) := by
  refine .bind fun _ => .andThen (yields_load settings.target) fun library hfresh => ?_
  exact .bind fun candidates => yields_pure hfresh

/-- An injector injects at most once. -/
structure InjectsOnce [Utf16.Decoder] (injector : Injector) : Prop where
  /-- Every call returns, whatever host it finds. -/
  returns (hosts : List Host) :
    ∃ calls last, calls.map Call.found = hosts ∧ Calls injector calls last
  /-- Unless methods are marked, there is nothing to do, and nothing changes. -/
  idle {calls : List Call} {last : Injector} (hnone : injector.candidates = [])
    (hcalls : Calls injector calls last) :
    last = injector ∧ ∀ call ∈ calls, call.answer = .ok .nothingToDo ∧ call.left = call.found
  /-- Only the first call changes anything, however it ends.  All others are refused. -/
  once {first : Call} {others : List Call} {last : Injector} (hsome : injector.candidates ≠ [])
    (hcalls : Calls injector (first :: others) last) :
    Calls injector [first] last ∧
      ∀ call ∈ others, call.answer = .error .alreadyInjected ∧ call.left = call.found
  /-- If the first call fails early, it fails for that reason, the library is as it was, and no tool
  has run: with other tools, all would be the same. -/
  early {disk : Disk} {e : Error} (hsome : injector.candidates ≠ [])
    (hfails : injector.FailsEarly disk e) :
    ∃ entries last disk', disk'.read injector.library.path = disk.read injector.library.path ∧
      ∀ tools, injector.run ⟨disk, tools⟩ = (⟨entries, .ok (last, .error e)⟩, ⟨disk', tools⟩)
  /-- If the first call ends well, what was planned is exported: an entry for each candidate whose
  entry point has a wrapper, in their order and numbered from 1. -/
  exported {host left : Host} {entries : List LogEntry} {last : Injector}
    {directives : List Directive} {intermediate : Option String}
    (hrun : injector.run host =
      (⟨entries, .ok (last, .ok (.exported directives intermediate))⟩, left)) :
    directives = injector.plan ∧
      directives.map Directive.ordinal = List.range' 1 directives.length ∧
      directives.map Directive.name =
        ((injector.candidates.map Candidate.entryPoint).filter EntryPoint.isWrapped).map
          fun entryPoint => entryPoint.exportName injector.library.architecture

theorem injectsOnce_of_fresh [Utf16.Decoder] (hfresh : injector.library.isInjected = false) :
    injector.InjectsOnce where
  returns := exists_calls injector
  idle hnone hcalls := hcalls.all_same (run_of_unmarked hnone)
  once hsome hcalls := by
    cases hcalls with
    | @more _ middle _ _ _ entries hcall hothers =>
        obtain ⟨_, _, _, _, hrun, hbegun⟩ := exists_run injector _
        rw [hcall] at hrun
        cases hrun
        obtain ⟨hcandidates, hinjected⟩ := hbegun hsome
        obtain ⟨rfl, hrefused⟩ := hothers.all_same
          (fun host => ⟨[], run_of_injected hcandidates hinjected host⟩)
        exact ⟨.more hcall (.none _), hrefused⟩
  early hsome := run_of_failsEarly hsome hfresh
  exported hrun := by
    obtain rfl := directives_of_run hfresh hrun
    exact ⟨rfl, Directive.ordinals_ofEntryPoints _ _, Directive.names_ofEntryPoints _ _⟩

/-- Whatever library it is opened for, an injector injects at most once, with any parser of images
and any decoder of text. -/
theorem injectsOnce_of_prepare [Image.Parser] [Utf16.Decoder] {settings : InjectionSettings}
    {host host' : Host} {entries : List LogEntry}
    (h : prepare settings host = (⟨entries, .ok injector⟩, host')) :
    injector.InjectsOnce :=
  injectsOnce_of_fresh (yields_prepare settings host injector (by rw [h]))

/-- The marked library with the class of the wrappers in front of its method, as a file. -/
def markedFile : Bytes :=
  ((Metadata.build "v4.0.30319" 0 Wrapping.markedBehind.tables
    Wrapping.markedBehind.heaps).toOption.map Image.smallLibrary).getD []

/-- A host with that library and tools that do nothing. -/
def markedHost : Host where
  disk := {
    entries := [(["Library.dll"], .file markedFile false), (["ilasm"], .file [] true),
      (["ildasm"], .file [] true)]
    faults := [] }
  tools := fun _ _ disk => (⟨0, [], []⟩, disk)

/-- An injector can be made for it, and finds the marked method. -/
theorem injectsOnce_marked : ∃ entries injector host',
    prepare ⟨"Library.dll", "ilasm", "ildasm", false⟩ markedHost =
      (⟨entries, .ok injector⟩, host') ∧ injector.candidates = [Wrapping.markedCandidate] ∧
      injector.InjectsOnce := by
  have hcandidates : (prepare ⟨"Library.dll", "ilasm", "ildasm", false⟩
      markedHost).1.outcome.toOption.map Injector.candidates = some [Wrapping.markedCandidate] := by
    decide +kernel
  rcases hprepare : prepare ⟨"Library.dll", "ilasm", "ildasm", false⟩ markedHost with
    ⟨⟨entries, outcome⟩, host'⟩
  rw [hprepare] at hcandidates
  cases outcome with
  | error e => cases hcandidates
  | ok injector =>
      exact ⟨entries, injector, host', rfl, Option.some.inj hcandidates,
        injectsOnce_of_prepare hprepare⟩

end Injector

end NativeExports
