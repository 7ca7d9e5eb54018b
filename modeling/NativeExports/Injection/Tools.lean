import NativeExports.Architecture
import NativeExports.Injection.Settings

/-!
# Tools of an injection

The disassembler turns a library into a listing, and the assembler turns the listing back into a
library.
-/

namespace NativeExports.Tools

def disassemblerArgs (library listing : String) (lineNumbers : Bool) : List String :=
  ["/quoteallnames", "/unicode", "/nobar"] ++ (if lineNumbers then ["/linenum"] else []) ++
    [s!"/out:{listing}", library]

def assemblerArgs (listing library : String) (architecture : Architecture) (debug : Bool)
    (resources : Option String) : List String :=
  ["/nologo", s!"/out:{library}", "/DLL"] ++ (resources.map fun path => s!"/res:{path}").toList ++
    [if debug then "/debug" else "/optimize"] ++ architecture.switch?.toList ++ [listing]

/-- Turns a library into a listing. -/
def disassemble (settings : InjectionSettings) (library listing : String) (lineNumbers : Bool) :
    Job Unit :=
  Job.launch settings.disassembler (disassemblerArgs library listing lineNumbers)

/-- Turns a listing into a library, together with Win32 resources if there are any. -/
def assemble (settings : InjectionSettings) (listing library : String) (architecture : Architecture)
    (debug : Bool) (resources : Option String) : Job Unit :=
  Job.launch settings.assembler (assemblerArgs listing library architecture debug resources)

end NativeExports.Tools
