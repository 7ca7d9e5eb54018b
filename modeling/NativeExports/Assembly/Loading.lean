import NativeExports.Assembly.Basic
import NativeExports.Logged

/-!
# Loading assemblies

The CLI header of an image locates the metadata, whose root lists the streams. A stream that occurs
twice counts as it occurs last; streams of unknown purpose are dropped.
-/

namespace NativeExports.Assembly

/-- The streams of the metadata, as far as they are known; the tables only once their stream is
found. -/
structure Streams where
  tables : Option Tables
  strings : StringHeap
  blobs : BlobHeap
  guids : Bytes
  userStrings : Bytes

def readStream (streams : Streams) (name : String) (data : Bytes) : Logged Streams := do
  match name with
  | "#~" => return { streams with tables := some (← Logged.explain (Tables.read data)) }
  | "#Strings" => return { streams with strings := ← StringHeap.ofBytes data }
  | "#Blob" => return { streams with blobs := ← BlobHeap.ofBytes data }
  | "#GUID" => return { streams with guids := data }
  | "#US" => return { streams with userStrings := data }
  | "#-" => Logged.explain (.error (.unsupported .uncompressedTables))
  | name =>
    Logged.warn s!"Dropping unknown metadata stream '{name}'"
    return streams

def readStreams (metadata : Bytes) (streams : Streams) : List StreamHeader → Logged Streams
  | [] => pure streams
  | header :: rest => do
    let data := (metadata.drop header.offset).take header.size
    readStreams metadata (← readStream streams header.name data) rest

def load (image : Image) : Logged Assembly := do
  let cli ← CliHeader.read (← image.bytesAt image.cli.1 CliHeader.size)
  let metadata ← image.bytesAt cli.metadataRva cli.metadataSize
  let root ← Root.read metadata
  let streams ← readStreams metadata ⟨none, ⟨[0]⟩, ⟨[0]⟩, [], []⟩ root.streams
  match streams.tables with
  | none => throw (.malformed .noTables)
  | some tables =>
    return {
      image, cli
      version := root.version
      rootFlags := root.flags
      tables
      strings := streams.strings
      blobs := streams.blobs
      guids := streams.guids
      userStrings := streams.userStrings
      addedBodies := [] }

end NativeExports.Assembly
