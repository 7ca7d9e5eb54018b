import NativeExports.Assembly.Building
import NativeExports.Export.Candidate
import NativeExports.Signature.Writing

/-!
# Wrappers

A wrapper is a static method with the signature of a native entry point; its body hands the
arguments on to the marked method. For calls that return a text, the wrapper appends it to the
output that the caller provides.
-/

namespace NativeExports

inductive WrapperParam where
  | output
  | outputSize
  | function
  | arguments
  | argumentCount
  deriving DecidableEq, Repr

namespace WrapperParam

def name : WrapperParam → String
  | .output => "output"
  | .outputSize => "outputSize"
  | .function => "function"
  | .arguments => "argv"
  | .argumentCount => "argc"

/-- The type of a parameter; `stringBuilder` is the class that collects output. -/
def type (stringBuilder : Token) : WrapperParam → SignatureType
  | .output => .classType stringBuilder
  | .outputSize | .argumentCount => .primitive .int32
  | .function => .primitive .string
  | .arguments => .pointer (.primitive .string)

def isAnsiText : WrapperParam → Bool
  | .function | .arguments => true
  | _ => false

/-- A parameter as it is added to a method. -/
def draft (param : WrapperParam) : ParamDraft :=
  ⟨param.name, if param.isAnsiText then some [NativeType.ansiText] else none⟩

end WrapperParam

namespace EntryPoint

def wrapperParams : EntryPoint → List WrapperParam
  | .simpleCall => [.output, .outputSize, .function]
  | .versionQuery => [.output, .outputSize]
  | .argsCall => [.output, .outputSize, .function, .arguments, .argumentCount]
  | .registerCallback | .contextQuery => []

/-- Whether the wrapper of an entry point appends a text to the output. -/
def appendsText : EntryPoint → Bool
  | .simpleCall | .versionQuery => true
  | _ => false

def wrapperResult : EntryPoint → SignatureType
  | .argsCall => .primitive .int32
  | _ => .primitive .void

def wrapperSignature (entryPoint : EntryPoint) (stringBuilder : Token) : Signature :=
  .static Convention.standardCall entryPoint.wrapperResult
    (entryPoint.wrapperParams.map (WrapperParam.type stringBuilder))

end EntryPoint

/-- A wrapper method of a library. -/
structure Wrapper where
  entryPoint : EntryPoint
  method : Token
  deriving DecidableEq, Repr

namespace Wrapper

def name (wrapper : Wrapper) : String :=
  wrapper.entryPoint.plainName

def convention (_ : Wrapper) : Nat :=
  Convention.standardCall

def params (wrapper : Wrapper) : List WrapperParam :=
  wrapper.entryPoint.wrapperParams

/-! ## Code -/

def loadOutput : UInt8 := 0x02

def loadFunction : UInt8 := 0x04

def loadArguments : UInt8 := 0x05

def loadNumbered : UInt8 := 0x0E

def call : UInt8 := 0x28

def callVirtual : UInt8 := 0x6F

def pop : UInt8 := 0x26

def ret : UInt8 := 0x2A

def withToken (opcode : UInt8) (token : Token) : Bytes :=
  opcode :: Bytes.leBytes 4 token.value

/-- The code of the wrapper of an entry point. It calls `target`, and appends the result with
`append` where the entry point has its text in the output. Entry points without a wrapper have no
code. -/
def code (entryPoint : EntryPoint) (target append : Token) : Bytes :=
  match entryPoint with
  | .simpleCall =>
    [loadOutput, loadFunction] ++ withToken call target ++ withToken callVirtual append ++
      [pop, ret]
  | .versionQuery =>
    [loadOutput] ++ withToken call target ++ withToken callVirtual append ++ [pop, ret]
  | .argsCall =>
    [loadOutput, loadFunction, loadArguments, loadNumbered, 4] ++ withToken call target ++ [ret]
  | .registerCallback | .contextQuery => []

/-- The attributes of wrappers: public, static, hidden by signature. -/
def methodFlags : Nat := 0x96

def draft (entryPoint : EntryPoint) (stringBuilder target append : Token) :
    Except Error MethodDraft := do
  let signature ← (entryPoint.wrapperSignature stringBuilder).encode
  let body ← MethodBody.tiny (code entryPoint target append)
  return {
    flags := methodFlags
    implFlags := 0
    name := entryPoint.plainName
    signature
    params := entryPoint.wrapperParams.map WrapperParam.draft
    body }

end Wrapper

end NativeExports
