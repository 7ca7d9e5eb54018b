import NativeExports.Architecture

/-!
# Entry points

The host calls an extension through a fixed set of native entry points. A method is marked with the
number of the entry point it implements; this module knows the numbers, the native names and how
much of the stack the native caller fills, which is part of the name on 32-bit targets.
-/

namespace NativeExports

/-- A native entry point of an extension, in the order of the marker values. -/
inductive EntryPoint where
  | simpleCall
  | versionQuery
  | argsCall
  | registerCallback
  | contextQuery
  deriving DecidableEq, Repr, Inhabited

namespace EntryPoint

/-- Every entry point, in the order of the marker values. -/
def all : List EntryPoint :=
  [.simpleCall, .versionQuery, .argsCall, .registerCallback, .contextQuery]

def value : EntryPoint → Nat
  | .simpleCall => 0
  | .versionQuery => 1
  | .argsCall => 2
  | .registerCallback => 3
  | .contextQuery => 4

def ofValue? : Int → Option EntryPoint
  | .ofNat n => all[n]?
  | .negSucc _ => none

/-- The native name, which is also the name of the wrapper method. -/
def plainName : EntryPoint → String
  | .simpleCall => "RVExtension"
  | .versionQuery => "RVExtensionVersion"
  | .argsCall => "RVExtensionArgs"
  | .registerCallback => "RVExtensionRegisterCallback"
  | .contextQuery => "RVExtensionContext"

/-- The bytes of arguments that a 32-bit caller pushes. -/
def stackBytes : EntryPoint → Nat
  | .simpleCall => 12
  | .versionQuery => 8
  | .argsCall => 20
  | .registerCallback => 4
  | .contextQuery => 8

/-- Whether wrappers are generated for the entry point. The others can be marked, but nothing is
exported for them. -/
def isWrapped : EntryPoint → Bool
  | .simpleCall | .versionQuery | .argsCall => true
  | .registerCallback | .contextQuery => false

/-- The name in the native export table: decorated with the stack size on 32-bit targets, plain
elsewhere. -/
def exportName (entryPoint : EntryPoint) : Architecture → String
  | .x86 => s!"_{entryPoint.plainName}@{entryPoint.stackBytes}"
  | .x64 | .ambiguous => entryPoint.plainName

instance : ToString EntryPoint := ⟨plainName⟩

@[simp]
theorem ofValue?_value (entryPoint : EntryPoint) : ofValue? entryPoint.value = some entryPoint := by
  cases entryPoint <;> rfl

end EntryPoint

end NativeExports
