import NativeExports.Error

/-!
# Coded indices

A coded index of 32 bits holds a row number above the tag of its table. Reading one back fails if
the tag is not in use; storing a row fails if the kind has no tag for its table. Row numbers that
do not fit above the tag lose their high bits.
-/

namespace NativeExports.CodedKind

/-- The table and row that a stored coded index names. -/
def decode (kind : CodedKind) (value : Nat) : Except Error (Table × Nat) :=
  match kind.table? (value % 2 ^ kind.tagWidth) with
  | some table => .ok (table, value / 2 ^ kind.tagWidth)
  | none => .error (.malformed (.codedTag (value % 2 ^ kind.tagWidth) kind))

def encode (kind : CodedKind) (table : Table) (row : Nat) : Except Error Nat :=
  match kind.tag? table with
  | some tag => .ok (row * 2 ^ kind.tagWidth % 2 ^ 32 + tag)
  | none => .error (.malformed (.codedTable kind table))

end NativeExports.CodedKind
