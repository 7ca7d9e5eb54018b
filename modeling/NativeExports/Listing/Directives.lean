import NativeExports.Export.Candidate
import NativeExports.Host.Job
import NativeExports.Listing.Decoding
import NativeExports.Text.Lines

/-!
# Exports in listings

Metadata cannot say that a method is exported, but a listing can: the methods of the class with the
wrappers are exported in their order by directives in front of the first one.
-/

namespace NativeExports.Listing

/-- How the declaration of the class with the wrappers begins. -/
def containerHeader : String :=
  ".class public auto ansi sealed 'Arma3.DllExport'.'DllExportWrapper'"

/-- Whether a line begins with `start` behind white space. -/
def begins (start line : String) : Bool :=
  start.toList.isPrefixOf (line.toList.dropWhile Text.isBlank)

/-- Whether a line opens the class with the wrappers. -/
def opensContainer (line : String) : Bool :=
  begins containerHeader line

def declaresMethod (line : String) : Bool :=
  begins ".method" line

def closesBlock (line : String) : Bool :=
  begins "\x7d" line

def directiveLines (directive : Directive) : List String :=
  let n := directive.ordinal
  [s!"    .vtentry {n} : 1", s!"    .export [{n}] as {directive.name}"]

/-- Lines with a block in front of the first method, unless a block closes before. -/
def insertBeforeMethod (block : List String) : List String → Option (List String)
  | [] => none
  | line :: rest =>
    if declaresMethod line then some (block ++ line :: rest)
    else if closesBlock line then none
    else (insertBeforeMethod block rest).map (line :: ·)

/-- The lines of a listing with directives in front of the first method of the class with the
wrappers. Without directives, the lines stay as they are. -/
def insertInLines (lines : List String) (directives : List Directive) :
    Except Error (List String) :=
  if directives.isEmpty then .ok lines
  else
    match lines.dropWhile fun line => !opensContainer line with
    | [] => .error (.invariant .noContainer)
    | header :: body =>
      match insertBeforeMethod (directives.flatMap directiveLines) body with
      | some body => .ok (lines.takeWhile (fun line => !opensContainer line) ++ header :: body)
      | none => .error (.invariant .noContainerMethod)

/-- A listing with directives in front of the first method of the class with the wrappers. The line
endings stay the same. -/
def insertInText (text : String) (directives : List Directive) : Except Error String := do
  let ending := Text.lineEnding text
  let lines ← insertInLines (Text.lines text) directives
  return ending.intercalate lines ++ if Text.endsLine text then ending else ""

/-- Puts directives into the listing in a file. The file is in UTF-8 afterwards; without directives,
it stays as it is. -/
def insertInFile [Utf16.Decoder] (path : String) (directives : List Directive) : Job Unit := do
  if directives.isEmpty then return
  let text ← decode (← Job.readFile path)
  let patched ← insertInText text directives
  Job.writeFile path (Utf8.encode patched)
  Logged.debug s!"Inserted {directives.length} export directive(s) into {path}"

end NativeExports.Listing
