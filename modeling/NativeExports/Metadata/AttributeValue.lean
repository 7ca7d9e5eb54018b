import NativeExports.Bytes.Reader

/-!
# Attribute values

The arguments of an attribute are a blob that begins with a fixed number (ECMA-335, II.23.3).
Markers have one argument, a signed 32-bit number; whatever follows it is ignored.
-/

namespace NativeExports.AttributeValue

def prolog : Nat := 1

/-- Reads a value with one signed 32-bit argument. -/
def int32 : Reader Int := do
  let start ← Reader.le 2
  if start ≠ prolog then Reader.malformed (.attributeProlog start)
  Reader.signedLe 4

end NativeExports.AttributeValue
