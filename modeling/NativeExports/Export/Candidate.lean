import NativeExports.Export.EntryPoint
import NativeExports.Metadata.Token

/-!
# Exports

A candidate is a method that is marked for export. The wrapped ones among the candidates of a
library become entries of its native export table, numbered in the order of the candidates.
-/

namespace NativeExports

def memberName (space typeName name : String) : String :=
  if space.isEmpty then s!"{typeName}::{name}" else s!"{space}.{typeName}::{name}"

/-- A method marked for export. -/
structure Candidate where
  entryPoint : EntryPoint
  method : Token
  name : String
  typeSpace : String
  typeName : String
  isPublic : Bool
  isStatic : Bool
  deriving DecidableEq, Repr

def Candidate.qualifiedName (candidate : Candidate) : String :=
  memberName candidate.typeSpace candidate.typeName candidate.name

/-- An entry of the native export table. The entries are numbered from 1. -/
structure Directive where
  ordinal : Nat
  name : String
  deriving DecidableEq, Repr

namespace Directive

def display (directive : Directive) : String :=
  s!"@{directive.ordinal} {directive.name}"

def ofEntryPoints (entryPoints : List EntryPoint) (architecture : Architecture) : List Directive :=
  entryPoints.zipIdx.map fun (entryPoint, n) => ⟨n + 1, entryPoint.exportName architecture⟩

/-- The entries that candidates lead to. -/
def planned (candidates : List Candidate) (architecture : Architecture) : List Directive :=
  ofEntryPoints ((candidates.map (·.entryPoint)).filter EntryPoint.isWrapped) architecture

end Directive

end NativeExports
