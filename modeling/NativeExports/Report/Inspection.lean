import NativeExports.Library
import NativeExports.Report.Value
import NativeExports.Text.Grid

/-!
# Reports about libraries

What is known about a library, its marked methods and the exports that an injection would lead to. A
report has a form for people and a form for programs.
-/

namespace NativeExports.Report

/-- The lines of a table under a heading. -/
def indented (grid : Text.Grid) : List String :=
  grid.lines.map fun line => "  " ++ line

/-- Entries of the export table as a table. -/
def directiveGrid (directives : List Directive) : Text.Grid :=
  ⟨[("Ordinal", .right), ("Symbol", .left)],
    directives.map fun directive => [toString directive.ordinal, directive.name]⟩

def directiveValue (directive : Directive) : Value :=
  .record [("ordinal", .number directive.ordinal), ("name", .text directive.name)]

/-- What is known about a library. -/
structure Inspection where
  library : Library
  candidates : List Candidate

namespace Inspection

/-- The entries that an injection would lead to. -/
def directives (inspection : Inspection) : List Directive :=
  Directive.planned inspection.candidates inspection.library.architecture

/-- The name that a candidate has, or would have, in the export table. -/
def symbol (inspection : Inspection) (candidate : Candidate) : String :=
  candidate.entryPoint.exportName inspection.library.architecture

def candidateRow (inspection : Inspection) (candidate : Candidate) : List String :=
  let symbol := inspection.symbol candidate
  let note := if candidate.entryPoint.isWrapped then symbol else symbol ++ " (not supported)"
  [candidate.method.display, candidate.qualifiedName, toString candidate.entryPoint, note]

def candidateGrid (inspection : Inspection) : Text.Grid :=
  ⟨[("Token", .left), ("Method", .left), ("Export", .left), ("Symbol", .left)],
    inspection.candidates.map inspection.candidateRow⟩

def heading (library : Library) : List String :=
  let debug := if library.hasDebugInfo then "yes" else "no"
  [s!"Library:       {library.path}", s!"Architecture:  {library.architecture}",
    s!"Debug info:    {debug}"] ++
    (library.companion.map fun path => s!"Symbols:       {path}").toList

def candidateLines (inspection : Inspection) : List String :=
  if inspection.candidates.isEmpty then ["", "No methods are marked with [ArmaDllExport]."]
  else
    let planned :=
      if inspection.directives.isEmpty then []
      else ["", "Planned exports:"] ++ indented (directiveGrid inspection.directives)
    ["", "Marked methods:"] ++ indented inspection.candidateGrid ++ planned

def lines (inspection : Inspection) : List String :=
  heading inspection.library ++ inspection.candidateLines

def candidateValue (inspection : Inspection) (candidate : Candidate) : Value :=
  .record [("token", .text candidate.method.display), ("method", .text candidate.qualifiedName),
    ("kind", .text (toString candidate.entryPoint)),
    ("symbol", .text (inspection.symbol candidate)),
    ("wrapped", .flag candidate.entryPoint.isWrapped)]

def value (inspection : Inspection) : Value :=
  let library := inspection.library
  .record <|
    [("library", .text library.path), ("architecture", .text library.architecture.display),
      ("library_kind", .text "library"), ("debug_info", .flag library.hasDebugInfo)] ++
    Value.optional "debug_symbols" library.companion ++
    [("injected", .flag library.isInjected),
      ("candidates", .list (inspection.candidates.map inspection.candidateValue)),
      ("directives", .list (inspection.directives.map directiveValue))]

end Inspection

end NativeExports.Report
