import NativeExports.CommandLine.Program

/-!
# Entry of the program

Carries the files that a command line is about from the machine into a host, runs the program there
and carries the changed files back. Programs cannot be started from here, so no file counts as one,
and a tool is reported as not permitted.
-/

namespace NativeExports.Main

/-- What stands at a path of the machine. -/
def look (path : String) : IO (Option DiskEntry) := do
  try
    return some (.file (← IO.FS.readBinFile path).toList false)
  catch
    | .noFileOrDirectory .. => return none
    | .inappropriateType .. => return some .directory
    | _ => return none

/-- Puts an entry at the end of a path, which leads through directories from `place` on. -/
def put (entry : DiskEntry) (disk : Disk) (place : Location) : List String → Disk
  | [] => disk.insert place entry
  | step :: rest =>
    let disk := if place.isEmpty then disk else disk.insert place .directory
    if Path.isIdle step then put entry disk place rest
    else if step == ".." then put entry disk place.dropLast rest
    else put entry disk (place ++ [step]) rest

/-- The files that a command works with. -/
def filesOf : CommandLine.Command → List String
  | .inspect path => [path, Path.replaceExtension path "pdb"]
  | .export settings =>
    let path := settings.target
    [settings.assembler, settings.disassembler, path, Path.replaceExtension path "pdb",
      Injector.listingPath path, Injector.resourcePath path]

/-- A host with some files of the machine. -/
def hostOf (paths : List String) : IO Host := do
  let disk ← paths.foldlM
    (fun disk path => do
      match ← look path with
      | some entry => return put entry disk [] (Path.steps path)
      | none => return disk)
    (⟨[], []⟩ : Disk)
  return ⟨disk, fun _ _ disk => (⟨-1, [], []⟩, disk)⟩

/-- Carries a file back to the machine if it changed. -/
def carryBack (before after : Disk) (path : String) : IO Unit := do
  match before.read path, after.read path with
  | .ok old, .ok new => if old ≠ new then IO.FS.writeBinFile path ⟨new.toArray⟩
  | .error _, .ok new => IO.FS.writeBinFile path ⟨new.toArray⟩
  | .ok _, .error _ => IO.FS.removeFile path
  | .error _, .error _ => return

end NativeExports.Main

open NativeExports in
/-- Runs the program with the arguments of the command line. -/
def main (args : List String) : IO UInt32 := do
  let paths := ((CommandLine.parse args).map fun call => Main.filesOf call.command).getD []
  let host ← Main.hostOf paths
  let (transcript, after) := CommandLine.run args host
  paths.forM (Main.carryBack host.disk after.disk)
  (← IO.getStdout).putStr transcript.stdout
  (← IO.getStderr).putStr transcript.stderr
  return UInt32.ofNat transcript.exitCode
