import NativeExports.Injection.Injector
import NativeExports.Report.Inspection

/-!
# Reports about injections

What an injection led to: the entries that the library exports now, and where the listing is if it
was kept. An injection that had nothing to do leaves nothing to say.
-/

namespace NativeExports.Report

structure Injection where
  library : String
  exported : List Directive
  intermediate : Option String
  deriving DecidableEq, Repr

namespace Injection

def ofOutcome (library : String) : InjectionOutcome → Injection
  | .nothingToDo => ⟨library, [], none⟩
  | .exported directives intermediate => ⟨library, directives, intermediate⟩

def lines (injection : Injection) : List String :=
  if injection.exported.isEmpty then []
  else
    [s!"Exported from {injection.library}:"] ++ indented (directiveGrid injection.exported) ++
      (injection.intermediate.map fun path => s!"IL listing kept at {path}").toList

def value (injection : Injection) : Value :=
  .record <|
    [("library", .text injection.library),
      ("exported", .list (injection.exported.map directiveValue))] ++
    Value.optional "intermediate" injection.intermediate

end Injection

end NativeExports.Report
