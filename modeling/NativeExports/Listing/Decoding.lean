import NativeExports.Error
import NativeExports.Text.Utf16

/-!
# Listings as files

A disassembler writes its listing as UTF-16 with a byte order mark or as UTF-8 with or without one.
-/

namespace NativeExports.Listing

def utf16Mark : Bytes := [0xFF, 0xFE]

def utf8Mark : Bytes := [0xEF, 0xBB, 0xBF]

/-- The code units of a byte string, behind those of `seen` in reverse order. Half a unit at the end
is dropped. -/
def unitsFrom (seen : List Nat) : Bytes → List Nat
  | low :: high :: rest => unitsFrom ((low.toNat + 256 * high.toNat) :: seen) rest
  | _ => seen.reverse

/-- The text of a listing in UTF-16 behind its byte order mark. -/
def decodeUtf16 [Utf16.Decoder] (data : Bytes) : Except Error String :=
  if data.length % 2 ≠ 0 then .error (.malformed (.listingLength (utf16Mark.length + data.length)))
  else
    match Utf16.Decoder.decode (unitsFrom [] data) with
    | .ok text => .ok text
    | .error reason => .error (.malformed (.listingUtf16 reason))

/-- The text of a listing in UTF-8 behind its byte order mark, if it has one. -/
def decodeUtf8 (data : Bytes) : Except Error String :=
  match Utf8.decode data with
  | .ok text => .ok text
  | .error fault => .error (.malformed (.listingUtf8 fault))

def decode [Utf16.Decoder] (data : Bytes) : Except Error String :=
  match utf16Mark.isPrefixOf? data with
  | some rest => decodeUtf16 rest
  | none => decodeUtf8 ((utf8Mark.isPrefixOf? data).getD data)

end NativeExports.Listing
