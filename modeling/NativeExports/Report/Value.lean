import NativeExports.Text.Digits

/-!
# Structured reports

Reports for other programs are values made of texts, numbers, flags, lists and records, written down
as JSON with an indentation of two blanks.
-/

namespace NativeExports.Report

inductive Value where
  | text (text : String)
  | number (n : Nat)
  | flag (b : Bool)
  | list (items : List Value)
  | record (fields : List (String × Value))

namespace Value

/-- A character inside quotes. -/
def escapeChar (c : Char) : String :=
  if c = '"' then "\\\""
  else if c = '\\' then "\\\\"
  else if c = '\n' then "\\n"
  else if c = '\r' then "\\r"
  else if c = '\t' then "\\t"
  else if c.toNat = 0x08 then "\\b"
  else if c.toNat = 0x0C then "\\f"
  else if c.toNat < 0x20 then "\\u" ++ Text.lowerHex c.toNat 4
  else c.toString

def quote (text : String) : String :=
  "\"" ++ String.join (text.toList.map escapeChar) ++ "\""

/-- Items between brackets, each on a line of its own; `margin` stands in front of the last line. -/
def bracket (left right margin : String) (items : List String) : String :=
  if items.isEmpty then left ++ right
  else
    let inner := items.map fun item => margin ++ "  " ++ item
    left ++ "\n" ++ ",\n".intercalate inner ++ "\n" ++ margin ++ right

mutual

/-- A value as JSON. `margin` stands in front of every line but the first. -/
def renderWith (margin : String) : Value → String
  | .text content => quote content
  | .number n => toString n
  | .flag b => if b then "true" else "false"
  | .list items => bracket "[" "]" margin (renderItems (margin ++ "  ") items)
  | .record fields => bracket "\x7b" "\x7d" margin (renderFields (margin ++ "  ") fields)

/-- The items of a list as JSON. -/
def renderItems (margin : String) : List Value → List String
  | [] => []
  | item :: rest => renderWith margin item :: renderItems margin rest

/-- The fields of a record as JSON. -/
def renderFields (margin : String) : List (String × Value) → List String
  | [] => []
  | (name, value) :: rest =>
    (quote name ++ ": " ++ renderWith margin value) :: renderFields margin rest

end

def render (value : Value) : String :=
  value.renderWith ""

/-- A text, if there is one, as a field of a record. -/
def optional (name : String) : Option String → List (String × Value)
  | some content => [(name, .text content)]
  | none => []

end Value

end NativeExports.Report
