import NativeExports.Assembly.Sorting
import NativeExports.Assembly.Writing
import NativeExports.Export.MarkedMethods
import NativeExports.Export.MarkerRemoval
import NativeExports.Export.Wrapping
import NativeExports.Injection.Tools
import NativeExports.Listing.Directives

/-!
# Injections

An injection adds the wrappers to a library, takes the markers out, and sends the library through
the disassembler and the assembler to have the wrappers exported. The first step that fails ends it,
and nothing is undone: a failure behind the writing of the library leaves it without its exports.

An injector injects once, even if that fails.
-/

namespace NativeExports

/-- A library that is ready for an injection, or has been through one. -/
structure Injector where
  settings : InjectionSettings
  library : Library
  candidates : List Candidate

/-- How an injection ended. -/
inductive InjectionOutcome where
  | nothingToDo
  | exported (directives : List Directive) (intermediate : Option String)
  deriving DecidableEq, Repr

namespace Injector

/-- Opens the library of an injection and looks for its marked methods. Nothing is changed. -/
def prepare [Image.Parser] (settings : InjectionSettings) : Job Injector := do
  settings.validate
  let library ← Library.load settings.target
  let candidates ← markedMethods library.assembly
  return { settings, library, candidates }

/-- The entries that an injection leads to. -/
def plan (injector : Injector) : List Directive :=
  Directive.planned injector.candidates injector.library.architecture

/-- The file for the listing of a library. -/
def listingPath (library : String) : String :=
  library ++ ".il"

/-- The file for the resources of a library. -/
def resourcePath (library : String) : String :=
  library ++ ".res"

/-- Deletes a file that is not needed any more. It is no failure if that is refused. -/
def deleteLeftover (path : String) : Job Unit := do
  if ← Job.pathExists path then
    if let .error fault ← Job.removeFile path then
      Logged.warn s!"Could not delete {path} - {fault.message}"

/-- Keeps the listing, or deletes it together with the resources. -/
def finish (settings : InjectionSettings) (listing resources : String) : Job (Option String) := do
  if settings.keepIntermediate then return some listing
  Logged.info "Cleaning up temporary files"
  deleteLeftover listing
  deleteLeftover resources
  return none

/-- Writes the library and has its wrappers exported. -/
def rebuild [Utf16.Decoder] (settings : InjectionSettings) (library : Library)
    (entryPoints : List EntryPoint) : Job InjectionOutcome := do
  let path := library.path
  let listing := listingPath path
  let resources := resourcePath path
  Logged.info "Writing injected DLL"
  library.assembly.save path
  Logged.info "Disassembling DLL"
  Tools.disassemble settings path listing library.hasDebugInfo
  Logged.info "Adding exports"
  let directives := Directive.ofEntryPoints entryPoints library.architecture
  Listing.insertInFile listing directives
  Logged.info "Assembling DLL"
  let found := if ← Job.isFile resources then some resources else none
  Tools.assemble settings listing path library.architecture library.hasDebugInfo found
  let intermediate ← finish settings listing resources
  directives.forM fun directive => Logged.debug s!"Exported {directive.display}"
  return .exported directives intermediate

/-- Takes the markers out and puts the tables in order. -/
def strip (assembly : Assembly) : Logged Assembly := do
  Logged.info "Removing ArmaDllExport attribute and reference"
  let (_, assembly) ← MarkerRemoval.run assembly
  assembly.sortAll

def withAssembly (injector : Injector) (assembly : Assembly) : Injector :=
  { injector with library := { injector.library with assembly } }

def withInjectionBegun (injector : Injector) : Injector :=
  { injector with library := { injector.library with isInjected := true } }

/-- Injects into the library. The injector afterwards tells how far that got. -/
def inject [Utf16.Decoder] (injector : Injector) : Job
    (Injector × Except Error InjectionOutcome) := do
  let injector := injector.withInjectionBegun
  Logged.info s!"Found {injector.candidates.length} export(s). Injecting wrappers..."
  let (wrapping, x) := Wrapping.run injector.library.assembly injector.candidates
  let injector := { injector.withAssembly wrapping.assembly with
    candidates := wrapping.candidates }
  match ← (Job.ofLogged x).attempt with
  | .error e => return (injector, .error e)
  | .ok () =>
    match ← (Job.ofLogged (strip wrapping.assembly)).attempt with
    | .error e => return (injector, .error e)
    | .ok assembly =>
      let injector := injector.withAssembly assembly
      let entryPoints := wrapping.wrappers.map (·.entryPoint)
      let outcome ← (rebuild injector.settings injector.library entryPoints).attempt
      return (injector, outcome)

/-- Injects into the library unless there is nothing to do or that was done before. -/
def run [Utf16.Decoder] (injector : Injector) : Job (Injector × Except Error InjectionOutcome) := do
  if injector.candidates.isEmpty then
    Logged.info "No export methods found. Did you forget the [ArmaDllExport] attribute?"
    return (injector, .ok .nothingToDo)
  if injector.library.isInjected then return (injector, .error .alreadyInjected)
  injector.inject

end Injector

end NativeExports
