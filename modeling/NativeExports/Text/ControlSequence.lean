import NativeExports.Text.Utf8

/-!
# Control sequences

Terminals take some sequences of characters as commands: an escape character opens them, and what
follows it says how far they reach. A log that is written to a file leaves them out, and other
control characters as well, apart from white space.

White space inside a command is shown. So is then everything up to the next control character, but
the command is still open behind that.
-/

namespace NativeExports.Text.ControlSequence

/-- What part of a command was read last. -/
inductive Phase where
  /-- No command is open. -/
  | ground
  /-- The escape character. -/
  | escape
  /-- The middle of a command of a few characters. -/
  | short
  /-- The inside of a command with parameters. -/
  | control
  /-- The opening of a command to the device. -/
  | deviceOpening
  /-- The parameters of a command to the device. -/
  | deviceParameters
  /-- The end of the parameters of a command to the device. -/
  | deviceMiddle
  /-- A text for the device, which a terminator closes. -/
  | payload
  /-- A text for the system, which a bell closes. -/
  | title
  deriving DecidableEq, Repr

/-- Where a scan stands: the command that is open, and whether the last character was shown. -/
structure Scan where
  phase : Phase
  shows : Bool
  deriving DecidableEq, Repr

/-- Whether a control character is white space. -/
def isBlankControl (n : Nat) : Bool :=
  n == 0x09 || n == 0x0A || n == 0x0C || n == 0x0D

/-- Whether a character of seven bits is shown outside of commands. -/
def isShown (n : Nat) : Bool :=
  isBlankControl n || 0x20 ≤ n && n < 0x7F

/-- Whether a character of seven bits is shown in a phase. -/
def Phase.shows (phase : Phase) (n : Nat) : Bool :=
  match phase with
  | .ground => isShown n
  | .escape | .short | .control => isBlankControl n
  | _ => false

/-- The phase behind the character that follows an escape character. -/
def afterEscape (n : Nat) : Phase :=
  match n with
  | 0x50 => .deviceOpening
  | 0x58 | 0x5E | 0x5F => .payload
  | 0x5B => .control
  | 0x5D => .title
  | _ =>
    if 0x20 ≤ n && n < 0x30 then .short
    else if 0x30 ≤ n && n < 0x7F then .ground
    else .escape

/-- The phase behind a character of seven bits that is not shown. -/
def Phase.next (phase : Phase) (n : Nat) : Phase :=
  if n == 0x1B then .escape
  else if n == 0x18 || n == 0x1A then .ground
  else
    match phase with
    | .escape => afterEscape n
    | .short => if 0x30 ≤ n && n < 0x7F then .ground else .short
    | .control => if 0x40 ≤ n && n < 0x7F then .ground else .control
    | .deviceOpening =>
      if 0x20 ≤ n && n < 0x30 then .deviceMiddle
      else if 0x30 ≤ n && n < 0x40 then .deviceParameters
      else if 0x40 ≤ n && n < 0x7F then .payload
      else .deviceOpening
    | .deviceParameters =>
      if 0x20 ≤ n && n < 0x30 then .deviceMiddle
      else if 0x3C ≤ n && n < 0x7F then .payload
      else .deviceParameters
    | .deviceMiddle => if 0x30 ≤ n && n < 0x7F then .payload else .deviceMiddle
    | .title => if n == 0x07 then .ground else .title
    | phase => phase

/-- The byte that closes a payload. -/
def terminator : UInt8 := 0x9C

/-- The phase behind a character of more than seven bits that is not shown. The bytes of the
character count one by one. -/
def Phase.nextWide (phase : Phase) (c : Char) : Phase :=
  match phase with
  | .payload => if (Utf8.encodeChar c).contains terminator then .ground else .payload
  | phase => phase

/-- Whether a character is shown, and where the scan stands behind it. -/
def Scan.step (scan : Scan) (c : Char) : Bool × Scan :=
  let n := c.toNat
  if 0x80 ≤ n then
    if scan.shows || scan.phase == .ground then (true, ⟨.ground, true⟩)
    else (false, ⟨scan.phase.nextWide c, false⟩)
  else if scan.shows then
    if isShown n then (true, scan)
    else
      let phase := if n == 0x1B || n == 0x18 || n == 0x1A then scan.phase.next n else scan.phase
      (false, ⟨phase, false⟩)
  else if scan.phase.shows n then (true, { scan with shows := true })
  else (false, ⟨scan.phase.next n, false⟩)

/-- The characters that are shown. -/
def stripFrom (scan : Scan) : List Char → List Char
  | [] => []
  | c :: rest =>
    let (isKept, scan) := scan.step c
    if isKept then c :: stripFrom scan rest else stripFrom scan rest

/-- A text without its commands and control characters. -/
def strip (text : String) : String :=
  String.ofList (stripFrom ⟨.ground, false⟩ text.toList)

end NativeExports.Text.ControlSequence
