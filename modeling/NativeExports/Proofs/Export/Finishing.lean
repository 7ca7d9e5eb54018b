import Mathlib.Data.List.Nodup
import NativeExports.Proofs.Editing.Sorting
import NativeExports.Proofs.Export.MarkerRemoval
import NativeExports.Proofs.Export.Wrapping
import NativeExports.Proofs.Renumbering.Removal

/-!
# Finishing wrapped assemblies

Once the wrappers are in place, markers are taken out and tables are sorted.  Both renumber rows,
but never those of types and methods, and no table grows.  So the wrappers go on to forward to the
methods that were marked, although the member that they append with may get another number.
-/

namespace NativeExports

namespace Assembly

/-- No table grows, and types and methods stay where they are. -/
structure Settles (before after : Assembly) : Prop where
  counts : ∀ table, after.tables.count table ≤ before.tables.count table
  runs : ∀ {typeDef run}, before.methodRun typeDef = .ok run → after.methodRun typeDef = .ok run
  keeps : Ascending before.addedBodies → (∀ table, before.tables.count table < Token.rowLimit) →
    KeepsMethods id before after

variable {before middle after : Assembly}

theorem Settles.refl (assembly : Assembly) : Settles assembly assembly where
  counts := fun _ => Nat.le_refl _
  runs := id
  keeps := fun hascending _ => ⟨hascending, fun hrow => ⟨_, _, hrow, hrow, fun _ _ => rfl⟩, id,
    fun _ _ => id⟩

theorem Settles.trans (h : Settles before middle) (h' : Settles middle after) :
    Settles before after where
  counts := fun table => Nat.le_trans (h'.counts table) (h.counts table)
  runs := fun hrun => h'.runs (h.runs hrun)
  keeps := by
    intro hascending hbounded
    have hfirst := h.keeps hascending hbounded
    exact hfirst.trans (h'.keeps hfirst.ascending fun table =>
      Nat.lt_of_le_of_lt (h.counts table) (hbounded table))

end Assembly

/-! ## Taking the markers out -/

namespace MarkerRemoval

open Assembly (Settles)

variable {before after : Assembly}

end MarkerRemoval

/-! ## Wrapped and finished -/

namespace Wrapping

variable {start before after : Assembly} {candidates : List Candidate} {wrapping : Wrapping}

/-- The marked library with the class of the wrappers in front of the class of the marked method. -/
def markedBehind : Assembly :=
  { MarkerRemoval.marked 0 with
    tables := (((MarkerRemoval.markedTables.setRows .typeDef
      [[0, 49, 33, 0, 1, 1], [0, 1, 0, 0, 1, 1]]).setRows
        .methodDef [[0, 0, 0x16, 1, 1, 1]]).setRows
        .customAttribute [[32, 11, 5]]).setRows .assemblyRef [[1, 0, 0, 0, 0, 0, 24, 0, 0]]
    strings := ⟨0 :: ([Marker.typeName, "mscorlib", WrapperClass.space, WrapperClass.name].flatMap
      fun name => Utf8.encode name ++ [0])⟩
    blobs := ⟨[0, 3, 0x20, 0, 1, 8, 1, 0, 0, 0, 0, 0, 0, 0]⟩ }

/-- Its marked method. -/
def markedCandidate : Candidate :=
  ⟨.simpleCall, ⟨0x06000001⟩, Marker.typeName, "", Marker.typeName, true, true⟩

end Wrapping

end NativeExports
