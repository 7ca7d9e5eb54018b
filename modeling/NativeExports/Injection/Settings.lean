import NativeExports.Host.Job

/-!
# Settings of an injection

An injection needs a library and two tools. The tools have to be there before anything is done.
-/

namespace NativeExports

structure InjectionSettings where
  target : String
  assembler : String
  disassembler : String
  keepIntermediate : Bool
  deriving DecidableEq, Repr

namespace InjectionSettings

def tool (settings : InjectionSettings) : ToolKind → String
  | .assembler => settings.assembler
  | .disassembler => settings.disassembler

/-- Fails unless a tool is a file. -/
def checkTool (settings : InjectionSettings) (kind : ToolKind) : Job Unit := do
  let path := settings.tool kind
  if path.isEmpty then Job.fail (.missingToolPath kind)
  if !(← Job.isFile path) then Job.fail (.missingToolPath kind)

/-- Fails unless both tools are there. -/
def validate (settings : InjectionSettings) : Job Unit := do
  settings.checkTool .disassembler
  settings.checkTool .assembler

end InjectionSettings

end NativeExports
