import NativeExports.Injection.Settings

/-!
# Command lines

A command line names a command, the library it is about, and options. The options that every command
has may stand in front of the command as well as behind it, once in each place. An option with a
value has it as the next argument or behind an equals sign, and what follows two dashes is no
option.
-/

namespace NativeExports.CommandLine

/-- What is asked for. -/
inductive Command where
  | inspect (path : String)
  | export (settings : InjectionSettings)
  deriving DecidableEq, Repr

/-- A command and how it reports. -/
structure Invocation where
  command : Command
  json : Bool
  verbose : Bool
  deriving DecidableEq, Repr

structure Flags where
  json : Bool
  verbose : Bool
  deriving DecidableEq, Repr

namespace Flags

/-- No option is given yet. -/
def start : Flags :=
  ⟨false, false⟩

/-- Notes an option, which may occur once. -/
def set (flags : Flags) (name : String) : Option Flags :=
  match name with
  | "--json" => if flags.json then none else some { flags with json := true }
  | "--verbose" | "-v" => if flags.verbose then none else some { flags with verbose := true }
  | _ => none

/-- The options that are given in at least one of two places. -/
def union (a b : Flags) : Flags :=
  ⟨a.json || b.json, a.verbose || b.verbose⟩

end Flags

/-- What is known of the arguments of a command. -/
structure Draft where
  flags : Flags
  keepListing : Bool
  assembler : Option String
  disassembler : Option String
  names : List String
  deriving DecidableEq, Repr

inductive Argument where
  | flag (name : String)
  | setting (name value : String)
  | openSetting (name : String)
  | endOfOptions
  | name (name : String)
  deriving DecidableEq, Repr

namespace Draft

/-- Nothing is known yet. -/
def start : Draft :=
  ⟨.start, false, none, none, []⟩

/-- Notes an option without a value, which may occur once. -/
def setFlag (draft : Draft) (name : String) : Option Draft :=
  match name with
  | "--keep-il" => if draft.keepListing then none else some { draft with keepListing := true }
  | _ => do return { draft with flags := ← draft.flags.set name }

/-- Notes an option with a value, which may occur once and is not empty. -/
def setOption (draft : Draft) (name value : String) : Option Draft :=
  if value.isEmpty then none
  else
    match name, draft.assembler, draft.disassembler with
    | "--ilasm", none, _ => some { draft with assembler := some value }
    | "--ildasm", _, none => some { draft with disassembler := some value }
    | _, _, _ => none

/-- Notes an argument that is no option. -/
def addName (draft : Draft) (name : String) : Option Draft :=
  if name.isEmpty then none else some { draft with names := draft.names ++ [name] }

end Draft

/-- Whether an argument looks like an option. -/
def isOption (arg : String) : Bool :=
  arg.toList.head? == some '-' && arg != "-"

/-- What an argument is, among the options. -/
def classify (arg : String) : Argument :=
  if arg == "--" then .endOfOptions
  else if !isOption arg then .name arg
  else if arg == "--ilasm" || arg == "--ildasm" then .openSetting arg
  else
    match arg.splitOn "=" with
    | name :: value :: rest => .setting name ("=".intercalate (value :: rest))
    | _ => .flag arg

/-- Reads the arguments of a command behind what is known of them. -/
def readArgs (draft : Draft) : List String → Option Draft
  | [] => some draft
  | arg :: rest =>
    match classify arg with
    | .endOfOptions => rest.foldlM Draft.addName draft
    | .name name => do readArgs (← draft.addName name) rest
    | .flag name => do readArgs (← draft.setFlag name) rest
    | .setting name value => do readArgs (← draft.setOption name value) rest
    | .openSetting name =>
      match rest with
      | [] => none
      | value :: rest =>
        if isOption value then none else do readArgs (← draft.setOption name value) rest

/-- The command of a name. Only an injection has tools and a listing. -/
def Draft.command? (draft : Draft) (name : String) : Option Command :=
  match name, draft.names, draft.assembler, draft.disassembler, draft.keepListing with
  | "inspect", [path], none, none, false => some (.inspect path)
  | "export", [path], some assembler, some disassembler, keepIntermediate =>
    some (.export { target := path, assembler, disassembler, keepIntermediate })
  | _, _, _, _, _ => none

/-- What a command line asks for, if it is well-formed. `flags` holds the options passed so far, all
in front of the command. -/
def parseFrom (flags : Flags) : List String → Option Invocation
  | [] => none
  | arg :: rest =>
    if isOption arg then do parseFrom (← flags.set arg) rest
    else do
      let draft ← readArgs .start rest
      let flags := flags.union draft.flags
      return ⟨← draft.command? arg, flags.json, flags.verbose⟩

/-- What a command line asks for, if it is well-formed. -/
def parse (args : List String) : Option Invocation :=
  parseFrom .start args

end NativeExports.CommandLine
