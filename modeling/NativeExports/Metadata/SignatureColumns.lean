import NativeExports.Metadata.Column
import NativeExports.Signature.Pieces

/-!
# Columns with signatures

Some blobs are signatures, whose tokens are references to rows. The column that holds a blob tells
which ones, and how the signature begins.
-/

namespace NativeExports

structure SignatureColumn where
  table : Table
  column : Nat
  shape : BlobForm
  deriving DecidableEq, Repr

namespace SignatureColumn

def all : List SignatureColumn :=
  [⟨.field, 2, .signature⟩, ⟨.methodDef, MethodDef.signatureColumn, .signature⟩,
    ⟨.memberRef, MemberRef.signatureColumn, .signature⟩, ⟨.standAloneSig, 0, .signature⟩,
    ⟨.property, 2, .signature⟩, ⟨.typeSpec, 0, .type⟩, ⟨.methodSpec, 1, .signature⟩]

end SignatureColumn

namespace Table

/-- Whether tokens in signatures can name rows of the table. -/
def isSignatureTarget : Table → Bool
  | .typeDef | .typeRef | .typeSpec => true
  | _ => false

/-- Whether tokens in code can name rows of the table. -/
def isCodeTarget : Table → Bool
  | .typeDef | .typeRef | .typeSpec | .field | .methodDef | .memberRef | .methodSpec
  | .standAloneSig => true
  | _ => false

end Table

end NativeExports
