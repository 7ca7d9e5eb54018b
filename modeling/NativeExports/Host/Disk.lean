import NativeExports.Error
import NativeExports.Host.Path

/-!
# Files on disk

A disk is a tree of files and directories. Operations name files by path, starting from the top, and
may be refused. Any operation may also fail for reasons that the tree does not show; `faults` lists
what happens to the operations to come, and operations behind its end take their course.
-/

namespace NativeExports

/-- A place on a disk: the names on the way from the top. -/
abbrev Location := List String

/-- What stands at a place. -/
inductive DiskEntry where
  | file (content : Bytes) (isProgram : Bool)
  | directory

/-- A tree of files. Of two entries for one place, the first one counts. `faults` says what happens
to the operations to come: nothing special, or a fault. -/
structure Disk where
  entries : List (Location × DiskEntry)
  faults : List (Option FileFault)

namespace Disk

/-- What stands at a place, if anything. -/
def entry? (disk : Disk) (place : Location) : Option DiskEntry :=
  if place.isEmpty then some .directory else disk.entries.lookup place

def erase (disk : Disk) (place : Location) : Disk :=
  { disk with entries := disk.entries.filter fun entry => entry.1 != place }

def insert (disk : Disk) (place : Location) (entry : DiskEntry) : Disk :=
  { disk with entries := (place, entry) :: (disk.erase place).entries }

/-- Follows the steps of a path. Only directories can be stepped out of, and only names of a limited
length can be stepped to. -/
def walk (disk : Disk) (place : Location) : List String → Except FileFault Location
  | [] => .ok place
  | step :: rest =>
    match disk.entry? place with
    | none => .error .notFound
    | some (.file _ _) => .error .notADirectory
    | some .directory =>
      if Path.isIdle step then walk disk place rest
      else if step == ".." then walk disk place.dropLast rest
      else if Path.stepLimit < step.utf8ByteSize then .error .nameTooLong
      else walk disk (place ++ [step]) rest

/-- The place that a path leads to, which need not hold anything. -/
def locate (disk : Disk) (path : String) : Except FileFault Location :=
  if path.isEmpty then .error .notFound
  else if Path.limit < path.utf8ByteSize then .error .nameTooLong
  else disk.walk [] (Path.steps path)

/-- What stands at the end of a path, with its place. -/
def find (disk : Disk) (path : String) : Except FileFault (Location × DiskEntry) := do
  let place ← disk.locate path
  match disk.entry? place with
  | some entry => return (place, entry)
  | none => throw .notFound

def exists? (disk : Disk) (path : String) : Bool :=
  (disk.find path).toOption.isSome

def isFile (disk : Disk) (path : String) : Bool :=
  match disk.find path with
  | .ok (_, .file _ _) => true
  | _ => false

def read (disk : Disk) (path : String) : Except FileFault Bytes := do
  match ← disk.find path with
  | (_, .file content _) => return content
  | (_, .directory) => throw .isADirectory

/-- The content of the file that a path leads to, mapped into memory. -/
def readMapped (disk : Disk) (path : String) : Except FileFault Bytes := do
  match ← disk.find path with
  | (_, .file content _) => return content
  | (_, .directory) => throw .noDevice

/-- Stores the content of a file, which is made if there is none. -/
def write (disk : Disk) (path : String) (content : Bytes) : Except FileFault Disk := do
  let place ← disk.locate path
  match disk.entry? place with
  | some .directory => throw .isADirectory
  | some (.file _ isProgram) => return disk.insert place (.file content isProgram)
  | none => return disk.insert place (.file content false)

/-- Moves a file to another place, over the file that stands there. -/
def rename (disk : Disk) (source target : String) : Except FileFault Disk := do
  let (place, entry) ← disk.find source
  let goal ← disk.locate target
  match disk.entry? goal with
  | some .directory => throw .isADirectory
  | _ => return (disk.erase place).insert goal entry

def remove (disk : Disk) (path : String) : Except FileFault Disk := do
  match ← disk.find path with
  | (place, .file _ _) => return disk.erase place
  | (_, .directory) => throw .isADirectory

/-- The fault that strikes the next operation, if any, and the disk behind it. -/
def nextFault (disk : Disk) : Option FileFault × Disk :=
  match disk.faults with
  | [] => (none, disk)
  | fault :: faults => (fault, { disk with faults })

/-- An operation that looks at the disk, unless a fault strikes it. -/
def query (disk : Disk) (operation : Disk → Except FileFault α) : Except FileFault α × Disk :=
  match disk.nextFault with
  | (some fault, disk) => (.error fault, disk)
  | (none, disk) => (operation disk, disk)

/-- An operation that changes the disk, unless a fault strikes it. -/
def update (disk : Disk) (operation : Disk → Except FileFault Disk) :
    Except FileFault Unit × Disk :=
  match disk.nextFault with
  | (some fault, disk) => (.error fault, disk)
  | (none, disk) =>
    match operation disk with
    | .ok disk => (.ok (), disk)
    | .error fault => (.error fault, disk)

end Disk

end NativeExports
