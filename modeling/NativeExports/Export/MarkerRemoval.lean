import NativeExports.Assembly.References
import NativeExports.Assembly.Renumber
import NativeExports.Export.Marker

/-!
# Removing markers

Once the wrappers are in place, the markers are taken out, and with them everything of the library
that defines them that nothing else refers to: the references to its types and their members, the
attributes attached to those references, and in the end the reference to the library. Whatever is
still in use stays and is reported.
-/

namespace NativeExports

/-- What was taken out, and which references are still in use, with their old tokens. -/
structure RemovalReport where
  attributes : Nat
  memberRefs : Nat
  typeRefs : Nat
  assemblyRef : Bool
  kept : List Token
  deriving DecidableEq, Repr

namespace MarkerRemoval

def libraryName : String := "Arma3.DllExport"

/-- Takes rows out of a table. -/
def takeOut (assembly : Assembly) (table : Table) (rows : List Nat) : Except Error Assembly :=
  if rows.isEmpty then .ok assembly
  else assembly.renumber (Renumbering.removal table (assembly.tables.count table) rows)

/-- The assembly in which the type of a marker is resolved, if it is defined elsewhere. -/
def libraryOf (assembly : Assembly) (marker : Marker) : Except Error (Option Nat) := do
  if marker.type.table? ≠ some .typeRef then return none
  match ← assembly.resolvingScope marker.type.row with
  | some (.assemblyRef, row) => return some row
  | _ => return none

/-- The library that defines the markers: that of the first marker, or else the one with the usual
name. -/
def markerLibrary (assembly : Assembly) (markers : List Marker) : Except Error (Option Nat) := do
  let found ←
    match markers with
    | [] => pure none
    | marker :: _ => libraryOf assembly marker
  match found with
  | some row => return some row
  | none => return assembly.assemblyRefNamed? libraryName

/-- The references to types of a library. -/
def typesOf (assembly : Assembly) (library : Nat) : Except Error (List Nat) :=
  (assembly.rowNumbers .typeRef).filterM fun row => do
    return (← assembly.resolvingScope row) == some (.assemblyRef, library)

/-- The references to members of some types defined elsewhere. -/
def membersOf (assembly : Assembly) (types : List Nat) : Except Error (List Nat) :=
  (assembly.rowNumbers .memberRef).filterM fun row => do
    let stored ← assembly.tables.value .memberRef row MemberRef.parentColumn
    match ← CodedKind.memberRefParent.decode stored with
    | (.typeRef, type) => return types.contains type
    | _ => return false

/-- Everything that belongs to a library, in the order of the tokens. -/
def rowsOfLibrary (assembly : Assembly) (library : Nat) : Except Error (List Token) := do
  let types ← typesOf assembly library
  let members ← membersOf assembly types
  return types.map (Token.ofRow .typeRef) ++ members.map (Token.ofRow .memberRef)

/-- A row as warnings name it. -/
def describe (assembly : Assembly) (token : Token) : String :=
  match token.table? with
  | some .typeRef =>
    match assembly.nameOfTypeRef token.row with
    | .ok (space, name) => s!"type {space}.{name}"
    | .error _ => token.display
  | some .memberRef =>
    match assembly.columnString .memberRef token.row MemberRef.nameColumn with
    | .ok name => s!"member {name}"
    | .error _ => token.display
  | _ => token.display

/-- Warns about a row that stays. -/
def warnKept (assembly : Assembly) (token : Token) : Logged Unit :=
  Logged.warn s!"Keeping {describe assembly token} of {libraryName}, it is still referenced"

/-- The rows of a table among some tokens. -/
def rowsOf (table : Table) (tokens : List Token) : List Nat :=
  (tokens.filter fun token => token.table? = some table).map Token.row

/-- Takes the reference to a library out if nothing uses it. -/
def removeLibrary (assembly : Assembly) (library : Nat) : Logged (Bool × Assembly) := do
  if (← assembly.usesOf (Token.ofRow .assemblyRef library)) = 0 then
    return (true, ← takeOut assembly .assemblyRef [library])
  else
    Logged.warn s!"Keeping the reference to {libraryName}, it is still in use"
    return (false, assembly)

/-- Takes out the markers and what else nothing uses of the library that defines them. -/
def removeFrom (assembly : Assembly) (markers : List Nat) (library : Nat) :
    Logged (RemovalReport × Assembly) := do
  let candidates ← rowsOfLibrary assembly library
  let live ← assembly.reachableCandidates candidates (markers.map (Token.ofRow .customAttribute))
  live.forM (warnKept assembly)
  let dead := candidates.filter fun token => !live.contains token
  let attached ← assembly.attributesOf dead
  let attributes := markers ++ attached.filter fun row => !markers.contains row
  let memberRefs := rowsOf .memberRef dead
  let typeRefs := rowsOf .typeRef dead
  let assembly ← takeOut assembly .customAttribute attributes
  let assembly ← takeOut assembly .memberRef memberRefs
  let assembly ← takeOut assembly .typeRef typeRefs
  let (assemblyRef, assembly) ← removeLibrary assembly library
  let report : RemovalReport :=
    ⟨attributes.length, memberRefs.length, typeRefs.length, assemblyRef, live⟩
  Logged.debug <|
    s!"Removed {report.attributes} attribute(s), {report.memberRefs} member reference(s), " ++
      s!"{report.typeRefs} type reference(s)"
  return (report, assembly)

/-- Takes out the markers, and the library that defines them as far as nothing else uses it. -/
def run (assembly : Assembly) : Logged (RemovalReport × Assembly) := do
  let markers ← Marker.all assembly
  let rows := markers.map (·.row)
  match ← markerLibrary assembly markers with
  | some library => removeFrom assembly rows library
  | none =>
    Logged.debug s!"No reference to {libraryName} found"
    return (⟨rows.length, 0, 0, false, []⟩, ← takeOut assembly .customAttribute rows)

end MarkerRemoval

end NativeExports
