import NativeExports.Bytes

/-!
# UTF-8

Encoding of text as bytes and the two ways of reading it back: strictly, where the first ill-formed
sequence is reported with its position, and leniently, where every ill-formed sequence becomes one
replacement character.

A sequence that goes wrong is cut after its longest prefix that could still have become a
character, so that the byte that broke it is read afresh. `Utf8.scan` performs that cut; strict and
lenient decoding only differ in what they do with it.
-/

namespace NativeExports.Utf8

def encodeChar (c : Char) : Bytes :=
  let n := c.toNat
  if n < 0x80 then [.ofNat n]
  else if n < 0x800 then [.ofNat (0xC0 + n / 64), .ofNat (0x80 + n % 64)]
  else if n < 0x10000 then
    [.ofNat (0xE0 + n / 4096), .ofNat (0x80 + n / 64 % 64), .ofNat (0x80 + n % 64)]
  else
    [.ofNat (0xF0 + n / 262144), .ofNat (0x80 + n / 4096 % 64), .ofNat (0x80 + n / 64 % 64),
      .ofNat (0x80 + n % 64)]

def encode (text : String) : Bytes :=
  text.toList.flatMap encodeChar

/-- Why a byte string is not the encoding of a text. -/
inductive Fault where
  /-- The `length` bytes at `start` begin no character and are followed by a byte that breaks
  them. -/
  | broken (start length : Nat)
  /-- The text ends inside the character that begins at `start`. -/
  | cut (start : Nat)
  deriving DecidableEq, Repr

def Fault.message : Fault → String
  | .broken start length =>
    s!"invalid utf-8 sequence of {length} bytes from index {start}"
  | .cut start => s!"incomplete utf-8 byte sequence from index {start}"

/-- What the front of a byte string holds. -/
inductive Front where
  /-- A character, and the bytes behind it. -/
  | scalar (c : Char) (rest : Bytes)
  /-- An ill-formed sequence of `length` bytes, and the bytes behind it. -/
  | broken (length : Nat) (rest : Bytes)
  /-- The beginning of a character that the end of the text cuts off. -/
  | cut

/-- The payload of a continuation byte between `low` and `high`. -/
def continuation? (low high : Nat) (b : UInt8) : Option Nat :=
  if low ≤ b.toNat ∧ b.toNat ≤ high then some (b.toNat - 0x80) else none

/-- Reads a two-byte character with the given payload of its first byte. -/
def front2 (lead : Nat) : Bytes → Front
  | [] => .cut
  | b :: rest =>
    match continuation? 0x80 0xBF b with
    | none => .broken 1 (b :: rest)
    | some x => .scalar (Char.ofNat (lead * 64 + x)) rest

/-- Reads a three-byte character whose second byte lies between `low` and `high`. -/
def front3 (lead low high : Nat) : Bytes → Front
  | [] => .cut
  | b :: rest =>
    match continuation? low high b with
    | none => .broken 1 (b :: rest)
    | some x =>
      match rest with
      | [] => .cut
      | b' :: rest' =>
        match continuation? 0x80 0xBF b' with
        | none => .broken 2 (b' :: rest')
        | some y => .scalar (Char.ofNat (lead * 4096 + x * 64 + y)) rest'

/-- Reads a four-byte character whose second byte lies between `low` and `high`. -/
def front4 (lead low high : Nat) : Bytes → Front
  | [] => .cut
  | b :: rest =>
    match continuation? low high b with
    | none => .broken 1 (b :: rest)
    | some x =>
      match rest with
      | [] => .cut
      | b' :: rest' =>
        match continuation? 0x80 0xBF b' with
        | none => .broken 2 (b' :: rest')
        | some y =>
          match rest' with
          | [] => .cut
          | b'' :: rest'' =>
            match continuation? 0x80 0xBF b'' with
            | none => .broken 3 (b'' :: rest'')
            | some z =>
              .scalar (Char.ofNat (lead * 262144 + x * 4096 + y * 64 + z)) rest''

/-- Reads the front of a byte string that starts with `b`. Overlong forms, surrogates and numbers
beyond the last character are ill-formed, which is what the bounds on the second byte say. -/
def front (b : UInt8) (rest : Bytes) : Front :=
  let n := b.toNat
  if n < 0x80 then .scalar (Char.ofNat n) rest
  else if n < 0xC2 then .broken 1 rest
  else if n < 0xE0 then front2 (n - 0xC0) rest
  else if n = 0xE0 then front3 0 0xA0 0xBF rest
  else if n = 0xED then front3 0xD 0x80 0x9F rest
  else if n < 0xF0 then front3 (n - 0xE0) 0x80 0xBF rest
  else if n = 0xF0 then front4 0 0x90 0xBF rest
  else if n < 0xF4 then front4 (n - 0xF0) 0x80 0xBF rest
  else if n = 0xF4 then front4 4 0x80 0x8F rest
  else .broken 1 rest

/-- A piece of a byte string as `scan` cuts it. -/
inductive Piece where
  | scalar (c : Char)
  | broken (length : Nat)
  | cut
  deriving DecidableEq, Repr

/-- Cuts a byte string into pieces, prepended to `seen` in reverse order. Every piece takes at
least one byte, so as many steps as there are bytes suffice. -/
def scanFrom (seen : List Piece) : Nat → Bytes → List Piece
  | 0, _ => seen
  | _ + 1, [] => seen
  | fuel + 1, b :: rest =>
    match front b rest with
    | .scalar c rest' => scanFrom (.scalar c :: seen) fuel rest'
    | .broken length rest' => scanFrom (.broken length :: seen) fuel rest'
    | .cut => .cut :: seen

/-- The pieces of a byte string, in order. -/
def scan (data : Bytes) : List Piece :=
  (scanFrom [] data.length data).reverse

/-- The text of a list of pieces, or the position of its first ill-formed one; `start` is the
position of the first piece. -/
def textOf (seen : List Char) (start : Nat) : List Piece → Except Fault (List Char)
  | [] => .ok seen.reverse
  | .scalar c :: pieces => textOf (c :: seen) (start + (encodeChar c).length) pieces
  | .broken length :: _ => .error (.broken start length)
  | .cut :: _ => .error (.cut start)

def decode (data : Bytes) : Except Fault String :=
  (textOf [] 0 (scan data)).map String.ofList

/-- The text of a byte string with U+FFFD for every ill-formed sequence. -/
def decodeLossy (data : Bytes) : String :=
  String.ofList <| (scan data).map fun
    | .scalar c => c
    | .broken _ => Char.ofNat 0xFFFD
    | .cut => Char.ofNat 0xFFFD

def size (text : String) : Nat :=
  (encode text).length

end NativeExports.Utf8
