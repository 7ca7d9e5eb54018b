import NativeExports.Bytes

/-!
# UTF-16

A text in UTF-16 is a list of code units of sixteen bits: one for most characters, and a pair of
surrogates for the others. The program is linked with a decoder that finds the text again.
-/

namespace NativeExports.Utf16

def encodeChar (c : Char) : List Nat :=
  if c.toNat < 0x10000 then [c.toNat]
  else [0xD800 + (c.toNat - 0x10000) / 0x400, 0xDC00 + (c.toNat - 0x10000) % 0x400]

def encode (text : String) : List Nat :=
  text.toList.flatMap encodeChar

/-- The decoder of code units that the program is linked with. It says in words why some units are
no text. -/
class Decoder where
  decode : List Nat → Except String String

end NativeExports.Utf16
