import NativeExports.Logged
import NativeExports.Text.ControlSequence

/-!
# Messages for the user

The lines of a log and the causes of a failure as the user gets to see them. What spans several
lines is indented from the second line on.
-/

namespace NativeExports.Report

/-- A text whose lines behind the first one have `margin` in front. -/
def indentRest (margin text : String) : String :=
  ("\n" ++ margin).intercalate (text.splitOn "\n")

/-- The name of a level, all of the same width. -/
def levelName : LogLevel → String
  | .debug => "DEBUG"
  | .info => "INFO "
  | .warn => "WARN "

/-- An entry of the log with the line feed behind it. What a terminal would take as a command is
left out, and so is the line feed if a command is open there. -/
def entryText (entry : LogEntry) : String :=
  Text.ControlSequence.strip
    (s!"[{levelName entry.level}] " ++ indentRest "    " entry.text ++ "\n")

/-- Something the user asked for that failed. -/
structure Failure where
  context : String
  error : Error
  deriving DecidableEq, Repr

namespace Failure

def causes (failure : Failure) : List String :=
  failure.error.message :: failure.error.source?.toList

/-- A cause in a list of several. -/
def numberedCause (n : Nat) (cause : String) : String :=
  s!"    {n}: " ++ indentRest "       " cause

def lines (failure : Failure) : List String :=
  let causes :=
    match failure.causes with
    | [cause] => ["    " ++ indentRest "    " cause]
    | causes => causes.zipIdx.map fun (cause, n) => numberedCause n cause
  [s!"Error: {failure.context}", "", "Caused by:"] ++ causes

end Failure

end NativeExports.Report
