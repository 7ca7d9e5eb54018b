import NativeExports.Export.Wrapper
import NativeExports.Logged

/-!
# Adding wrappers

Every candidate whose entry point has a wrapper gets one, in a class of its own that is made unless
it is there. Each wrapper goes behind the methods of that class and moves the methods behind it, so
the tokens of candidates and earlier wrappers are kept up to date.
-/

namespace NativeExports

namespace WrapperClass

def space : String := "Arma3.DllExport"

def name : String := "DllExportWrapper"

end WrapperClass

namespace CoreLibrary

/-- The assemblies that may define the basic types, the preferred ones first. -/
def names : List String :=
  ["mscorlib", "System.Runtime", "netstandard", "System.Private.CoreLib"]

/-- Where the basic types are resolved: where the class of all objects is, or else in the first
assembly with one of the known names. -/
def scope (assembly : Assembly) : Except Error (Table × Nat) := do
  let found ←
    match assembly.typeRefNamed? "System" "Object" with
    | some object => assembly.resolvingScope object
    | none => pure none
  match found with
  | some scope => return scope
  | none =>
    match names.findSome? assembly.assemblyRefNamed? with
    | some row => return (.assemblyRef, row)
    | none => throw (.malformed .noCoreLibrary)

end CoreLibrary

/-- An assembly with wrappers, in the order of the candidates, whose methods are up to date. -/
structure Wrapping where
  assembly : Assembly
  candidates : List Candidate
  wrappers : List Wrapper

/-- What the wrappers need besides the methods they call: the class they go to, the class that
collects output, and the method that appends to it, if any of them needs it. -/
structure WrapperContext where
  container : Nat
  stringBuilder : Token
  append : Token

namespace Wrapping

def addContainer (object : Nat) : StateT Assembly Logged Nat := do
  match (← get).typeDefNamed? WrapperClass.space WrapperClass.name with
  | some row =>
    Logged.debug s!"Reusing existing {WrapperClass.space}.{WrapperClass.name}"
    return row
  | none =>
    let (row, assembly) ← Assembly.appendTypeDef TypeFlags.publicSealed WrapperClass.space
      WrapperClass.name (.typeRef, object) (← get)
    set assembly
    return row

/-- Finds or adds the reference to the method that appends to the output. -/
def appendMember (stringBuilder : Token) : Edit Token := do
  let signature : Signature :=
    { SignatureOf.static Convention.managed (.classType stringBuilder) [.primitive .string] with
      hasThis := true }
  let row ← Assembly.memberRefFor (.typeRef, stringBuilder.row) "Append" (← signature.encode)
  return Token.ofRow .memberRef row

/-- Finds or adds everything that the wrappers of some entry points need. -/
def addContext (entryPoints : List EntryPoint) : StateT Assembly Logged WrapperContext := do
  let scope ← CoreLibrary.scope (← get)
  let object ←
    match (← get).typeRefNamed? "System" "Object" with
    | some row => pure row
    | none => edit (Assembly.appendTypeRef scope "System" "Object")
  let container ← addContainer object
  let row ← edit (Assembly.typeRefFor scope "System.Text" "StringBuilder")
  let stringBuilder := Token.ofRow .typeRef row
  let append ←
    if entryPoints.any EntryPoint.appendsText then edit (appendMember stringBuilder) else pure ⟨0⟩
  return ⟨container, stringBuilder, append⟩
where
  /-- An edit as part of a longer change. -/
  edit {α : Type} (change : Edit α) : StateT Assembly Logged α := fun assembly =>
    Logged.ofExcept (change assembly)

/-- Where a method is once another one is put in at row `inserted`. -/
def shift (inserted : Nat) (method : Token) : Token :=
  if method.table? = some .methodDef ∧ inserted ≤ method.row then
    Token.ofRow .methodDef (method.row + 1)
  else method

/-- Fails if the class with the wrappers has a method of a given name. -/
def checkName (assembly : Assembly) (methods : Nat × Nat) (name : String) : Except Error Unit :=
  (List.range' methods.1 (methods.2 - methods.1)).forM fun row => do
    if (← assembly.columnString .methodDef row MethodDef.nameColumn) = name then
      throw (.invariant (.wrapperExists s!"{WrapperClass.space}.{WrapperClass.name}" name))

/-- Adds the wrapper of a candidate. It is put in behind the methods of the class, which may move
the method that it calls. -/
def addWrapper (context : WrapperContext) (wrapping : Wrapping) (candidate : Candidate) :
    Logged Wrapping := do
  let entryPoint := candidate.entryPoint
  let methods ← wrapping.assembly.methodRun context.container
  checkName wrapping.assembly methods entryPoint.plainName
  let target :=
    if methods.2 ≤ candidate.method.row then Token.ofRow .methodDef (candidate.method.row + 1)
    else candidate.method
  let method ← Wrapper.draft entryPoint context.stringBuilder target context.append
  let (row, assembly) ← Assembly.insertMethod context.container method wrapping.assembly
  Logged.debug s!"Added {entryPoint.plainName} forwarding to {target}"
  return {
    assembly
    candidates := wrapping.candidates.map fun other =>
      { other with method := shift row other.method }
    wrappers := (wrapping.wrappers.map fun wrapper =>
      { wrapper with method := shift row wrapper.method }) ++
        [⟨entryPoint, Token.ofRow .methodDef row⟩] }

/-- Adds the wrappers of the candidates at the given positions. If one of them fails, the wrappers
in front of it remain. -/
def addWrappers (context : WrapperContext) (wrapping : Wrapping) :
    List Nat → Wrapping × Logged Unit
  | [] => (wrapping, pure ())
  | index :: rest =>
    match wrapping.candidates[index]? with
    | none => addWrappers context wrapping rest
    | some candidate =>
      match addWrapper context wrapping candidate with
      | ⟨entries, .ok wrapping⟩ =>
        let (wrapping, others) := addWrappers context wrapping rest
        (wrapping, ⟨entries ++ others.entries, others.outcome⟩)
      | ⟨entries, .error e⟩ => (wrapping, ⟨entries, .error e⟩)

/-- Warns about a candidate that gets no wrapper. -/
def warnUnwrapped (candidate : Candidate) : Logged Unit :=
  if candidate.entryPoint.isWrapped then pure ()
  else
    Logged.warn <|
      s!"{candidate.entryPoint} on '{candidate.qualifiedName}' is not supported yet, no export " ++
        "is generated for it"

/-- The positions of the candidates that get a wrapper. -/
def wrappedIndices (candidates : List Candidate) : List Nat :=
  (candidates.zipIdx.filter fun entry => entry.1.entryPoint.isWrapped).map (·.2)

/-- Adds the wrappers of the candidates of an assembly. The result tells what was done, also if
that fails. -/
def run (assembly : Assembly) (candidates : List Candidate) : Wrapping × Logged Unit :=
  let start : Wrapping := ⟨assembly, candidates, []⟩
  let warnings := candidates.forM warnUnwrapped
  if !candidates.any (·.entryPoint.isWrapped) then (start, warnings)
  else
    match addContext (candidates.map (·.entryPoint)) assembly with
    | ⟨entries, .error e⟩ => (start, ⟨warnings.entries ++ entries, .error e⟩)
    | ⟨entries, .ok (context, assembly)⟩ =>
      let (wrapping, x) :=
        addWrappers context { start with assembly } (wrappedIndices candidates)
      (wrapping, ⟨warnings.entries ++ entries ++ x.entries, x.outcome⟩)

end Wrapping

end NativeExports
