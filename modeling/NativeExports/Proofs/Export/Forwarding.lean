import NativeExports.Export.Wrapping
import NativeExports.Proofs.Editing.Ownership

/-!
# Forwarding methods

A method forwards to another one if its added body decodes to the code of a wrapper that calls that
method, and that appends the result with the right method where the entry point asks for it. A
change of the assembly that moves methods around, but forgets none of them, keeps what forwards to
what.
-/

namespace NativeExports

namespace Instruction

variable {related : Token → Token → Prop} {old new : Instruction}

end Instruction

namespace Wrapper

/-- The instructions of the wrapper of an entry point. -/
def instructions (entryPoint : EntryPoint) (target append : Token) : List Instruction :=
  match entryPoint with
  | .simpleCall =>
    [⟨0, 1, false, 0x02, "ldarg.0", .none⟩, ⟨1, 1, false, 0x04, "ldarg.2", .none⟩,
      ⟨2, 5, false, 0x28, "call", .token target⟩, ⟨7, 5, false, 0x6F, "callvirt", .token append⟩,
      ⟨12, 1, false, 0x26, "pop", .none⟩, ⟨13, 1, false, 0x2A, "ret", .none⟩]
  | .versionQuery =>
    [⟨0, 1, false, 0x02, "ldarg.0", .none⟩, ⟨1, 5, false, 0x28, "call", .token target⟩,
      ⟨6, 5, false, 0x6F, "callvirt", .token append⟩, ⟨11, 1, false, 0x26, "pop", .none⟩,
      ⟨12, 1, false, 0x2A, "ret", .none⟩]
  | .argsCall =>
    [⟨0, 1, false, 0x02, "ldarg.0", .none⟩, ⟨1, 1, false, 0x04, "ldarg.2", .none⟩,
      ⟨2, 1, false, 0x05, "ldarg.3", .none⟩, ⟨3, 2, false, 0x0E, "ldarg.s", .immediate 4⟩,
      ⟨5, 5, false, 0x28, "call", .token target⟩, ⟨10, 1, false, 0x2A, "ret", .none⟩]
  | .registerCallback | .contextQuery => []

end Wrapper

/-! ## Forwarding in an assembly -/

/-- The columns of a method that it has by itself: where its code is, its attributes and its
name. -/
def MethodDef.ownColumns : List Nat :=
  [rvaColumn, implFlagsColumn, flagsColumn, nameColumn]

namespace Assembly

/-- A row of methods is that of a method that another assembly has, too. -/
def SameMethod (before : Assembly) (row : Nat) (after : Assembly) (row' : Nat) : Prop :=
  ∃ columns columns', before.tables.row? .methodDef row = some columns ∧
    after.tables.row? .methodDef row' = some columns' ∧
      ∀ c ∈ MethodDef.ownColumns, columns'[c]? = columns[c]?

/-- A token names the method that appends a text to the output. -/
def Appends (assembly : Assembly) (token : Token) : Prop :=
  token.table? = some .memberRef ∧
    assembly.columnString .memberRef token.row MemberRef.nameColumn = .ok "Append" ∧
      ∃ stored type,
        assembly.tables.value .memberRef token.row MemberRef.parentColumn = .ok stored ∧
        CodedKind.memberRefParent.decode stored = .ok (.typeRef, type) ∧
          assembly.nameOfTypeRef type = .ok ("System.Text", "StringBuilder")

/-- The body kept aside for a method is that of a wrapper that calls another method. -/
def Forwards (assembly : Assembly) (entryPoint : EntryPoint) (method target : Nat) : Prop :=
  ∃ data body append, (method, data) ∈ assembly.addedBodies ∧ MethodBody.read data = .ok body ∧
    Code.decode (body.code data) =
      .ok (Wrapper.instructions entryPoint (Token.ofRow .methodDef target) append) ∧
    (entryPoint.appendsText = true → assembly.Appends append)

variable {before middle after : Assembly}

theorem SameMethod.trans {row row' row'' : Nat} (h : before.SameMethod row middle row')
    (h' : middle.SameMethod row' after row'') : before.SameMethod row after row'' := by
  obtain ⟨columns, columns', hrow, hrow', hsame⟩ := h
  obtain ⟨columns₂, columns'', hrow₂, hrow'', hsame'⟩ := h'
  obtain rfl := Option.some.inj (hrow'.symm.trans hrow₂)
  exact ⟨columns, columns'', hrow, hrow'', fun c hc => (hsame' c hc).trans (hsame c hc)⟩

/-! ### Additions -/

section

variable {grown : List Table}

theorem Extended.sameMethod (h : Extended grown before after) {row : Nat} {columns : Row}
    (hrow : before.tables.row? .methodDef row = some columns) : before.SameMethod row after row :=
  ⟨columns, columns, hrow, h.row? hrow, fun _ _ => rfl⟩

theorem Extended.appends (h : Extended grown before after) {token : Token}
    (happends : before.Appends token) : after.Appends token := by
  obtain ⟨htable, hname, stored, type, hstored, hdecode, htype⟩ := happends
  exact ⟨htable, h.columnString hname, stored, type, h.value hstored, hdecode,
    h.qualifiedName htype⟩

theorem Extended.forwards (h : Extended grown before after) {entryPoint : EntryPoint}
    {method target : Nat} (hforwards : before.Forwards entryPoint method target) :
    after.Forwards entryPoint method target := by
  obtain ⟨data, body, append, hmem, hread, hdecode, happend⟩ := hforwards
  refine ⟨data, body, append, ?_, hread, hdecode, fun htext => h.appends (happend htext)⟩
  rw [h.rest]
  exact hmem

end

/-! ### Renumbering -/

section

variable {renumbering : Renumbering} {inserted : List Row}

end

/-! ## Changes that keep what is forwarded -/

/-- Methods stand where `move` tells, and wrappers call the methods that they called. -/
structure KeepsMethods (move : Nat → Nat) (before after : Assembly) : Prop where
  ascending : Ascending after.addedBodies
  methods : ∀ {row columns}, before.tables.row? .methodDef row = some columns →
    before.SameMethod row after (move row)
  types : ∀ {row name}, before.nameOfTypeDef row = .ok name → after.nameOfTypeDef row = .ok name
  forwards : ∀ {entryPoint method target}, entryPoint.isWrapped = true →
    (∃ columns, before.tables.row? .methodDef target = some columns) →
      before.Forwards entryPoint method target →
        after.Forwards entryPoint (move method) (move target)

theorem KeepsMethods.trans {move move' : Nat → Nat} (h : KeepsMethods move before middle)
    (h' : KeepsMethods move' middle after) : KeepsMethods (move' ∘ move) before after where
  ascending := h'.ascending
  methods := by
    intro row columns hrow
    obtain ⟨_, columns', -, hrow', -⟩ := h.methods hrow
    exact (h.methods hrow).trans (h'.methods hrow')
  types := fun hname => h'.types (h.types hname)
  forwards := by
    rintro entryPoint method target hwrapped ⟨columns, hrow⟩ hforwards
    obtain ⟨_, columns', -, hrow', -⟩ := h.methods hrow
    exact h'.forwards hwrapped ⟨columns', hrow'⟩ (h.forwards hwrapped ⟨columns, hrow⟩ hforwards)

/-- The method that appends to the output stays where it is, too. -/
structure KeepsForwarding (move : Nat → Nat) (before after : Assembly) : Prop
    extends KeepsMethods move before after where
  appends : ∀ {token}, before.Appends token → after.Appends token

theorem KeepsForwarding.trans {move move' : Nat → Nat} (h : KeepsForwarding move before middle)
    (h' : KeepsForwarding move' middle after) : KeepsForwarding (move' ∘ move) before after :=
  ⟨h.toKeepsMethods.trans h'.toKeepsMethods, fun happends => h'.appends (h.appends happends)⟩

theorem Extended.keepsForwarding {grown : List Table} (h : Extended grown before after)
    (hascending : Ascending before.addedBodies) : KeepsForwarding id before after where
  ascending := by
    rw [h.rest]
    exact hascending
  methods := h.sameMethod
  types := h.qualifiedName
  appends := h.appends
  forwards := fun _ _ => h.forwards

/-- An addition that leaves the runs in order, and moves methods as `move` tells. -/
structure Adds (move : Nat → Nat) (before after : Assembly) : Prop where
  counts : ∀ table, before.tables.count table ≤ after.tables.count table
  runs : after.tables.RunsOrdered
  keeps : Ascending before.addedBodies → (∀ table, after.tables.count table < Token.rowLimit) →
    KeepsForwarding move before after

theorem Adds.trans {move move' : Nat → Nat} (h : Adds move before middle)
    (h' : Adds move' middle after) : Adds (move' ∘ move) before after where
  counts := fun table => Nat.le_trans (h.counts table) (h'.counts table)
  runs := h'.runs
  keeps := by
    intro hascending hbounded
    have hfirst := h.keeps hascending fun table =>
      Nat.lt_of_le_of_lt (h'.counts table) (hbounded table)
    exact hfirst.trans (h'.keeps hfirst.ascending hbounded)

theorem Extended.adds {grown : List Table} (h : Extended grown before after)
    (hplain : ∀ table ∈ grown, ∀ target, ColumnKind.list target ∉ table.columns)
    (hruns : before.tables.RunsOrdered) : Adds id before after :=
  ⟨h.count_le, h.runsOrdered hplain hruns, fun hascending _ => h.keepsForwarding hascending⟩

end Assembly

end NativeExports
