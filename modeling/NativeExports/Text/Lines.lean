/-!
# Lines of text

A line ends at a line feed, and a carriage return in front of the line feed belongs to the line
ending. What follows the last line feed is a line of its own unless it is empty.
-/

namespace NativeExports.Text

/-- Whether a character is white space. -/
def isBlank (c : Char) : Bool :=
  let n := c.toNat
  (0x09 ≤ n && n ≤ 0x0D) || n == 0x20 || n == 0x85 || n == 0xA0 || n == 0x1680 ||
    (0x2000 ≤ n && n ≤ 0x200A) || n == 0x2028 || n == 0x2029 || n == 0x202F || n == 0x205F ||
    n == 0x3000

/-- A text without the white space at its end. -/
def trimEnd (text : String) : String :=
  String.ofList (text.toList.reverse.dropWhile isBlank).reverse

/-- A line in front of a line feed, given in reverse order. -/
def endLine : List Char → String
  | '\r' :: line => String.ofList line.reverse
  | line => String.ofList line.reverse

/-- The lines of a text behind those of `seen`, which are in reverse order, as the part of the first
line in `line` is. -/
def linesFrom (seen : List String) (line : List Char) : List Char → List String
  | [] => if line.isEmpty then seen.reverse else (String.ofList line.reverse :: seen).reverse
  | '\n' :: rest => linesFrom (endLine line :: seen) [] rest
  | c :: rest => linesFrom seen (c :: line) rest

def lines (text : String) : List String :=
  linesFrom [] [] text.toList

/-- Whether a text has a line feed with a carriage return in front. -/
def hasCarriageReturn : List Char → Bool
  | '\r' :: '\n' :: _ => true
  | _ :: rest => hasCarriageReturn rest
  | [] => false

/-- The line ending of a text that uses the same one throughout. -/
def lineEnding (text : String) : String :=
  if hasCarriageReturn text.toList then "\r\n" else "\n"

def endsLine (text : String) : Bool :=
  text.toList.getLast? == some '\n'

end NativeExports.Text
