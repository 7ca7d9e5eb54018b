import NativeExports.CommandLine.Options
import NativeExports.Image.Parsing
import NativeExports.Report.Failure
import NativeExports.Report.Injection
import NativeExports.Text.Surrogates

/-!
# The program

A command is a job that ends in a report or in a failure. The program runs the job and prints the
log and the failure in one place and the report in another.
-/

namespace NativeExports.CommandLine

/-- What a run of the program prints, and its exit code. -/
structure Transcript where
  stdout : String
  stderr : String
  exitCode : Nat
  deriving DecidableEq, Repr

/-- A report in both of its forms. -/
structure Output where
  lines : List String
  value : Report.Value

/-- Says what a job was about if it fails. -/
def explain (context : String) (job : Job α) : Job (Except Report.Failure α) := do
  match ← job.attempt with
  | .ok a => return .ok a
  | .error e => return .error ⟨context, e⟩

def inspect [Image.Parser] (path : String) : Job (Except Report.Failure Output) := do
  match ← explain s!"failed to load library: {path}" (Library.load path) with
  | .error failure => return .error failure
  | .ok library =>
    match ← explain s!"invalid export declarations in {path}" (markedMethods library.assembly) with
    | .error failure => return .error failure
    | .ok candidates =>
      let inspection : Report.Inspection := ⟨library, candidates⟩
      return .ok ⟨inspection.lines, inspection.value⟩

def inject [Image.Parser] [Utf16.Decoder] (settings : InjectionSettings) :
    Job (Except Report.Failure Output) := do
  let path := settings.target
  match ← explain s!"cannot export from {path}" (Injector.prepare settings) with
  | .error failure => return .error failure
  | .ok injector =>
    match ← injector.run with
    | (_, .error e) => return .error ⟨s!"export failed for {path}", e⟩
    | (_, .ok outcome) =>
      let injection := Report.Injection.ofOutcome path outcome
      return .ok ⟨injection.lines, injection.value⟩

def perform [Image.Parser] [Utf16.Decoder] : Command → Job (Except Report.Failure Output)
  | .inspect path => inspect path
  | .export settings => inject settings

def printed (lines : List String) : String :=
  String.join (lines.map fun line => line ++ "\n")

def shown (invocation : Invocation) (entries : List LogEntry) : List LogEntry :=
  if invocation.json then []
  else if invocation.verbose then entries
  else entries.filter fun entry => entry.level ≠ .debug

def transcript (invocation : Invocation) (entries : List LogEntry)
    (outcome : Except Report.Failure Output) : Transcript :=
  let log := String.join ((shown invocation entries).map Report.entryText)
  match outcome with
  | .error failure => ⟨"", log ++ printed failure.lines, 1⟩
  | .ok output =>
    let stdout := if invocation.json then [output.value.render] else output.lines
    ⟨printed stdout, log, 0⟩

def usage : String :=
  "Usage: rvexport [--json] [-v] inspect FILE\n" ++
    "       rvexport [--json] [-v] export FILE --ilasm PATH --ildasm PATH [--keep-il]\n"

def run [Image.Parser] [Utf16.Decoder] (args : List String) (host : Host) :
    Transcript × Host :=
  match parse args with
  | none => (⟨"", usage, 2⟩, host)
  | some invocation =>
    let (x, host) := perform invocation.command host
    match x.outcome with
    | .ok outcome => (transcript invocation x.entries outcome, host)
    | .error e => (transcript invocation x.entries (.error ⟨"the command failed", e⟩), host)

end NativeExports.CommandLine
