/-!
# Digits of natural numbers

Hexadecimal numerals as they appear in messages, in token names and in byte dumps: upper or
lower case digits, optionally padded with zeros to a fixed width.
-/

namespace NativeExports.Text

/-- The hexadecimal digit of `d`, for `d < 16`, with letters in lower case. -/
def lowerDigit (d : Nat) : Char :=
  Char.ofNat (if d < 10 then 0x30 + d else 0x57 + d)

/-- The hexadecimal digit of `d`, for `d < 16`, with letters in upper case. -/
def upperDigit (d : Nat) : Char :=
  Char.ofNat (if d < 10 then 0x30 + d else 0x37 + d)

/-- The digits of `n` in base sixteen, most significant first, at least one. -/
def hexDigits (n : Nat) : List Nat :=
  if n < 16 then [n] else hexDigits (n / 16) ++ [n % 16]

/-- `digits` with zeros in front up to `width` digits. -/
def padDigits (width : Nat) (digits : List Nat) : List Nat :=
  List.replicate (width - digits.length) 0 ++ digits

/-- `n` in upper case hexadecimal, with at least `width` digits. -/
def upperHex (n : Nat) (width : Nat := 1) : String :=
  String.ofList ((padDigits width (hexDigits n)).map upperDigit)

/-- `n` in lower case hexadecimal, with at least `width` digits. -/
def lowerHex (n : Nat) (width : Nat := 1) : String :=
  String.ofList ((padDigits width (hexDigits n)).map lowerDigit)

end NativeExports.Text
