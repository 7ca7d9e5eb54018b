import NativeExports.Text.Digits
import NativeExports.Text.Utf16

/-!
# A decoder of UTF-16

A high surrogate must be followed by a low one and a low surrogate must follow a high one; the first
unit that breaks this rule is reported with the number of characters in front of it.
-/

namespace NativeExports.Utf16

/-- A surrogate without its partner, and the number of characters in front of it. -/
structure Fault where
  codeUnit : Nat
  index : Nat
  deriving DecidableEq, Repr

def Fault.message (fault : Fault) : String :=
  s!"unpaired UTF-16 surrogate {Text.lowerHex fault.codeUnit} at index {fault.index}"

/-- Whether a unit opens a surrogate pair. -/
def isHigh (n : Nat) : Bool :=
  0xD800 ≤ n && n < 0xDC00

/-- Whether a unit closes a surrogate pair. -/
def isLow (n : Nat) : Bool :=
  0xDC00 ≤ n && n < 0xE000

/-- The text of some units behind `index` characters, which are those of `seen` in reverse order. -/
def decodeFrom (seen : List Char) (index : Nat) : List Nat → Except Fault (List Char)
  | [] => .ok seen.reverse
  | high :: units =>
    if isHigh high then
      match units with
      | low :: units =>
        if isLow low then
          let c := Char.ofNat (0x10000 + (high - 0xD800) * 0x400 + (low - 0xDC00))
          decodeFrom (c :: seen) (index + 1) units
        else .error ⟨high, index⟩
      | [] => .error ⟨high, index⟩
    else if isLow high then .error ⟨high, index⟩
    else decodeFrom (Char.ofNat high :: seen) (index + 1) units

def decode (units : List Nat) : Except Fault String :=
  (decodeFrom [] 0 units).map String.ofList

instance linkedDecoder : Decoder := ⟨fun units => (decode units).mapError Fault.message⟩

end NativeExports.Utf16
