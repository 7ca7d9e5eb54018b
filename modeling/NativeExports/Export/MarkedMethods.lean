import NativeExports.Export.Marker
import NativeExports.Metadata.AttributeValue
import NativeExports.Signature.Reading

/-!
# Marked methods

The marked methods of a library are found in the order of types and methods. The first marker of a
method counts. Its argument names the entry point, which no other method may be marked for, and the
method has to be public and static; the first method that is at fault decides the error. A method
whose signature does not suit the wrapper is only warned about.
-/

namespace NativeExports

namespace Candidate

/-- Whether a type is the class that collects the output of a call. -/
def collectsOutput (assembly : Assembly) : SignatureType → Bool
  | .classType type =>
    match Marker.nameOf? assembly type with
    | .ok (some name) => name == ("System.Text", "StringBuilder")
    | _ => false
  | _ => false

/-- Whether a type is a list of texts, as a pointer or as an array. -/
def isTextList : SignatureType → Bool
  | .pointer item | .vector item => item.isPrimitive .string
  | _ => false

/-- The signature that the wrapper of an entry point expects of a method. -/
def expectedSignature? : EntryPoint → Option String
  | .simpleCall => some "string (string)"
  | .versionQuery => some "string ()"
  | .argsCall => some "int (StringBuilder, string, string*, int)"
  | .registerCallback | .contextQuery => none

/-- Whether a method has the signature that its wrapper expects. -/
def suits (assembly : Assembly) (entryPoint : EntryPoint) (signature : Signature) : Bool :=
  match entryPoint, signature.params with
  | .simpleCall, [text] => signature.result.isPrimitive .string && text.isPrimitive .string
  | .versionQuery, [] => signature.result.isPrimitive .string
  | .argsCall, [output, function, list, count] =>
    signature.result.isPrimitive .int32 && collectsOutput assembly output &&
      function.isPrimitive .string && isTextList list && count.isPrimitive .int32
  | _, _ => false

/-- Warns about a method whose signature does not suit its wrapper. -/
def warnUnsuited (assembly : Assembly) (candidate : Candidate) (signature : Bytes) :
    Logged Unit :=
  match Signature.reader.parse signature with
  | .error e =>
    Logged.warn s!"Could not decode the signature of '{candidate.qualifiedName}' - {e.message}"
  | .ok signature =>
    match expectedSignature? candidate.entryPoint with
    | none => pure ()
    | some expected =>
      if suits assembly candidate.entryPoint signature then pure ()
      else
        Logged.warn <|
          s!"'{candidate.qualifiedName}' is exported as {candidate.entryPoint} but does not " ++
            s!"have the signature {expected}"

end Candidate

namespace MarkedMethods

def entryPointOf (assembly : Assembly) (marker : Marker) : Except Error EntryPoint := do
  let blob ← assembly.columnBlob .customAttribute marker.row CustomAttribute.valueColumn
  let value ← AttributeValue.int32.parse blob
  match EntryPoint.ofValue? value with
  | some entryPoint => return entryPoint
  | none => throw (.unknownEntryPoint value)

/-- The candidate that a method is, if it is marked; `found` are the candidates in front of it. -/
def candidate? (assembly : Assembly) (markers : List Marker) (found : List Candidate)
    (type : TypeSummary) (method : MethodSummary) : Except Error (Option Candidate) :=
  match markers.find? fun marker => marker.parent = method.token with
  | none => .ok none
  | some marker => do
    let entryPoint ← entryPointOf assembly marker
    if found.any fun other => other.entryPoint = entryPoint then throw (.duplicateExport entryPoint)
    let candidate : Candidate := {
      entryPoint
      method := method.token
      name := method.name
      typeSpace := type.space
      typeName := type.name
      isPublic := MethodFlags.isPublic method.flags
      isStatic := MethodFlags.isStatic method.flags }
    if !candidate.isPublic || !candidate.isStatic then
      throw (.invalidExport candidate.qualifiedName entryPoint)
    return some candidate

def collectMethod (assembly : Assembly) (markers : List Marker) (type : TypeSummary)
    (found : List Candidate) (method : MethodSummary) : Logged (List Candidate) := do
  match ← candidate? assembly markers found type method with
  | none => return found
  | some candidate =>
    candidate.warnUnsuited assembly method.signature
    Logged.debug s!"Found {candidate.entryPoint} on {candidate.qualifiedName}"
    return found ++ [candidate]

def collectType (assembly : Assembly) (markers : List Marker) (found : List Candidate)
    (type : TypeSummary) : Logged (List Candidate) := do
  (← assembly.methodsOf type).foldlM (collectMethod assembly markers type) found

end MarkedMethods

def markedMethods (assembly : Assembly) : Logged (List Candidate) := do
  let markers ← Marker.all assembly
  (← assembly.types).foldlM (MarkedMethods.collectType assembly markers) []

end NativeExports
