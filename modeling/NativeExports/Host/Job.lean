import NativeExports.Host.Disk
import NativeExports.Logged

/-!
# Jobs

A job works on a host: it reads and writes files and runs tools, and says what it does as it goes.
When it fails, what it did to the host remains.

Tools are foreign programs. Nothing is assumed about them: a tool is any function from its arguments
and the disk to a report and a new disk.
-/

namespace NativeExports

/-- What a tool leaves behind besides its work on the disk. The exit code is -1 if the tool was
killed. -/
structure ToolReport where
  code : Int
  stdout : Bytes
  stderr : Bytes

/-- What a tool does with its arguments and the disk. -/
abbrev Tool := List String → Disk → ToolReport × Disk

/-- A disk and what the programs on it do, by place. -/
structure Host where
  disk : Disk
  tools : Location → Tool

/-- A computation that works on a host and writes a log. -/
def Job (α : Type) := Host → Logged α × Host

namespace Job

def ofLogged (x : Logged α) : Job α :=
  fun host => (x, host)

/-- One job after another. -/
def andThen (job : Job α) (next : α → Job β) : Job β := fun host =>
  match job host with
  | (⟨entries, .ok a⟩, host) =>
    let (y, host) := next a host
    (⟨entries ++ y.entries, y.outcome⟩, host)
  | (⟨entries, .error e⟩, host) => (⟨entries, .error e⟩, host)

instance : Monad Job where
  pure a := ofLogged (pure a)
  bind := andThen

instance : MonadLift Logged Job where
  monadLift := ofLogged

def fail (e : Error) : Job α :=
  ofLogged (throw e)

/-- What a job comes to, as a value: this job does not fail. -/
def attempt (job : Job α) : Job (Except Error α) := fun host =>
  let (x, host) := job host
  (⟨x.entries, .ok x.outcome⟩, host)

/-- A job that is followed by another one if it fails. -/
def orElse (job : Job α) (cleanup : Job Unit) : Job α := do
  match ← job.attempt with
  | .ok a => return a
  | .error e =>
    let _ ← cleanup.attempt
    fail e

/-- Looks at the disk; the answer may be a fault. -/
def query (operation : Disk → Except FileFault α) : Job (Except FileFault α) := fun host =>
  let (answer, disk) := host.disk.query operation
  (pure answer, { host with disk })

/-- Changes the disk; the answer may be a fault. -/
def update (operation : Disk → Except FileFault Disk) : Job (Except FileFault Unit) := fun host =>
  let (answer, disk) := host.disk.update operation
  (pure answer, { host with disk })

/-- Fails if the answer of a file operation is a fault. -/
def orFail (job : Job (Except FileFault α)) : Job α := do
  match ← job with
  | .ok a => return a
  | .error fault => fail (.file fault)

/-- Whether a path leads to something, as far as can be told. -/
def pathExists (path : String) : Job Bool := do
  return (← query fun disk => .ok (disk.exists? path)).toOption.getD false

/-- Whether a path leads to a file, as far as can be told. -/
def isFile (path : String) : Job Bool := do
  return (← query fun disk => .ok (disk.isFile path)).toOption.getD false

def readFile (path : String) : Job Bytes :=
  orFail (query fun disk => disk.read path)

/-- The content of a file that is mapped into memory. -/
def mapFile (path : String) : Job Bytes :=
  orFail (query fun disk => disk.readMapped path)

/-- Stores the content of a file. -/
def writeFile (path : String) (content : Bytes) : Job Unit :=
  orFail (update fun disk => disk.write path content)

/-- Moves a file over another one. -/
def renameFile (source target : String) : Job Unit :=
  orFail (update fun disk => disk.rename source target)

/-- Deletes a file; the answer may be a fault. -/
def removeFile (path : String) : Job (Except FileFault Unit) :=
  update fun disk => disk.remove path

/-- The place of the program at the end of a path. A path without any slash is not looked for where
the job works but among the programs of the system, of which none fits. -/
def program (path : String) (disk : Disk) : Except FileFault Location := do
  if !path.toList.contains '/' then
    throw (if Path.stepLimit < path.utf8ByteSize then .nameTooLong else .notFound)
  match ← disk.find path with
  | (place, .file _ true) => return place
  | _ => throw .permissionDenied

/-- Runs the tool at a place. -/
def execute (place : Location) (args : List String) : Job ToolReport := fun host =>
  let (report, disk) := host.tools place args host.disk
  (pure report, { host with disk })

def toolName (path : String) : String :=
  (Path.lastName? path).getD path

/-- Runs a tool and waits for it. -/
def launch (path : String) (args : List String) : Job Unit := do
  let line := " ".intercalate args
  Logged.debug s!"Running {path} {line}"
  match ← query (program path) with
  | .error fault => fail (.toolSpawn (toolName path) fault)
  | .ok place =>
    let report ← execute place args
    if report.code ≠ 0 then
      fail (.toolFailure (toolName path) report.code (Utf8.decodeLossy report.stdout)
        (Utf8.decodeLossy report.stderr))

end Job

end NativeExports
