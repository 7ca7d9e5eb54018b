import NativeExports.Host.Job

/-!
# Output files

A file is produced next to the file it replaces and moved over it when it is complete, so that the
old file is never half overwritten. A file that is given up is deleted.
-/

namespace NativeExports

/-- A file that is being produced. -/
structure Output where
  target : String
  temporary : String
  content : Bytes

namespace Output

/-- What is added to the name of the target while the file is written. -/
def suffix : String := ".rvexport.tmp"

/-- Where the content of `target` is written at first. -/
def temporaryPath (target : String) : String :=
  Path.replaceName target ((Path.lastName? target).getD "" ++ suffix)

/-- Begins a file of `size` zero bytes. -/
def create (target : String) (size : Nat) : Job Output := do
  let temporary := temporaryPath target
  Job.writeFile temporary []
  let content := Bytes.zeros size
  Job.writeFile temporary content
  return ⟨target, temporary, content⟩

def write (output : Output) (offset : Nat) (data : Bytes) : Except Error Output :=
  match output.content.overwrite? offset data with
  | some content => .ok { output with content }
  | none => .error (.layout (.write data.length offset output.content.length))

/-- Replaces bytes by zeros. -/
def zero (output : Output) (offset count : Nat) : Except Error Output :=
  if offset + count ≤ output.content.length then output.write offset (Bytes.zeros count)
  else .error (.layout (.write count offset output.content.length))

/-- Stores a little-endian number in `width` bytes. -/
def writeLe (output : Output) (width offset value : Nat) : Except Error Output :=
  output.write offset (Bytes.leBytes width value)

/-- Gives the file up. -/
def discard (output : Output) : Job Unit := do
  let _ ← Job.removeFile output.temporary

/-- Stores the content and moves the file over its target. If that fails, the file is given up. -/
def complete (output : Output) : Job Unit :=
  Job.orElse
    (do
      Job.writeFile output.temporary output.content
      Job.renameFile output.temporary output.target)
    output.discard

/-- Produces a file of `size` bytes, filled by `fill`. If that fails, the target stays as it was. -/
def produce (target : String) (size : Nat) (fill : Output → Except Error Output) : Job Unit := do
  let output ← create target size
  match fill output with
  | .ok output => output.complete
  | .error e =>
    output.discard
    Job.fail e

end Output

end NativeExports
