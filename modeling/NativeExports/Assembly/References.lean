import NativeExports.Assembly.Basic
import NativeExports.Code.Instruction
import NativeExports.Metadata.SignatureColumns

/-!
# References between rows

A row refers to others through its columns and through the tokens in its signature; method bodies
and the entry point refer to rows as well. `reachableCandidates` tells which of some rows can still
be reached from the rest of the assembly.
-/

namespace NativeExports.Assembly

/-! ## Single rows and bodies -/

/-- The row that a column refers to. A list column refers to the first row of its run. -/
def columnTarget (kind : ColumnKind) (value : Nat) : Except Error (Option Token) :=
  match kind with
  | .index target | .list target =>
    .ok (if value = 0 then none else some (Token.ofRow target value))
  | .coded coded => do
    let (target, row) ← coded.decode value
    return if row = 0 then none else some (Token.ofRow target row)
  | _ => .ok none

/-- The tokens in the signature of a row, if it is one of the given column. -/
def signatureTargets (assembly : Assembly) (table : Table) (row : Row)
    (site : SignatureColumn) : Except Error (List Token) :=
  let index := row.getD site.column 0
  if site.table = table ∧ index ≠ 0 then do site.shape.tokens (← assembly.blobs.get index)
  else .ok []

def rowTargets (assembly : Assembly) (table : Table) (row : Nat) :
    Except Error (List Token) := do
  let columns ← assembly.tables.row table row
  let direct ← (table.columns.zip columns).mapM fun (kind, value) => columnTarget kind value
  let embedded ← SignatureColumn.all.mapM (assembly.signatureTargets table columns)
  return direct.filterMap id ++ embedded.flatten

/-- The types that exception clauses name. -/
def clauseTokens (clauses : List ExceptionClause) : List Token :=
  clauses.filterMap fun clause =>
    if clause.namesType ∧ clause.classOrFilter ≠ 0 then some ⟨clause.classOrFilter⟩ else none

/-- Everything that the body at the front of `data` refers to. -/
def bodyTokens (data : Bytes) : Except Error (List Token) := do
  let body ← MethodBody.read data
  let instructions ← Code.decode (body.code data)
  let locals := if body.isFat ∧ body.localsToken ≠ 0 then [⟨body.localsToken⟩] else []
  return Code.tokensOf instructions ++ clauseTokens body.clauses ++ locals

/-- Everything that the body at a position of the file refers to. -/
def bodyTokensAt (image : Image) (offset : Nat) : Except Error (List Token) :=
  if offset ≤ image.data.length then bodyTokens (image.data.drop offset) else .error .outOfBounds

/-- Everything that method bodies refer to. -/
def bodyTargets (assembly : Assembly) : Except Error (List Token) := do
  let offsets ← assembly.bodyOffsets
  let stored ← offsets.mapM (bodyTokensAt assembly.image)
  let added ← assembly.addedBodies.mapM fun (_, data) => bodyTokens data
  return stored.flatten ++ added.flatten

/-! ## Attributes and columns -/

/-- The row that an attribute is attached to. -/
def attributeParent (assembly : Assembly) (row : Nat) : Except Error Token := do
  let stored ← assembly.tables.value .customAttribute row CustomAttribute.parentColumn
  let (table, row) ← CodedKind.hasCustomAttribute.decode stored
  return Token.ofRow table row

/-- The attributes that are attached to one of `parents`. -/
def attributesOf (assembly : Assembly) (parents : List Token) : Except Error (List Nat) :=
  (assembly.rowNumbers .customAttribute).filterM fun row => do
    return parents.contains (← assembly.attributeParent row)

/-- Whether a column refers to a row. -/
def refersTo (table : Table) (row : Nat) (kind : ColumnKind) (value : Nat) : Except Error Bool :=
  match kind with
  | .index target => .ok (target = table && value == row)
  | .coded coded =>
    if coded.contains table then do return (← coded.decode value) == (table, row) else .ok false
  | _ => .ok false

def countInRow (table : Table) (row : Nat) (source : Table) (columns : Row) : Except Error Nat := do
  let hits ← (source.columns.zip columns).mapM fun (kind, value) => refersTo table row kind value
  return hits.count true

/-- The number of columns that refer to the row of a token. -/
def usesOf (assembly : Assembly) (token : Token) : Except Error Nat :=
  match token.table? with
  | none => .ok 0
  | some table => do
    let counts ← Table.all.mapM fun source => do
      let counts ← (assembly.tables.rows source).mapM (countInRow table token.row source)
      return counts.sum
    return counts.sum

/-! ## Reachability -/

/-- What the search for live rows starts from: the rows that are referred to from outside the
candidates, the last one found first, and the attributes attached to candidates, with the row they
are attached to. -/
structure Roots where
  pending : List Token
  attached : List (Token × Nat)

/-- Adds what a row contributes to the roots. Candidates and rows that are about to be deleted
contribute nothing, and an attribute of a candidate counts only once the candidate is reached. -/
def addRoot (assembly : Assembly) (candidates deleted : List Token) (table : Table) (roots : Roots)
    (row : Nat) : Except Error Roots := do
  let token := Token.ofRow table row
  if candidates.contains token || deleted.contains token then return roots
  if table = .customAttribute then
    let parent ← assembly.attributeParent row
    if candidates.contains parent then
      return { roots with attached := roots.attached ++ [(parent, row)] }
  let found ← assembly.rowTargets table row
  return { roots with pending := found.reverse ++ roots.pending }

/-- What the search for live rows starts from. -/
def roots (assembly : Assembly) (candidates deleted : List Token) : Except Error Roots := do
  let roots ← Table.all.foldlM
    (fun roots table =>
      (assembly.rowNumbers table).foldlM (assembly.addRoot candidates deleted table) roots)
    { pending := [], attached := [] }
  let bodies ← assembly.bodyTargets
  return { roots with pending := assembly.entryPoint :: (bodies.reverse ++ roots.pending) }

/-- What a candidate that is reached refers to, together with what its attributes refer to. -/
def reachedFrom (assembly : Assembly) (attached : List (Token × Nat)) (token : Token) :
    Except Error (List Token) :=
  match token.table? with
  | none => .ok []
  | some table => do
    let own ← assembly.rowTargets table token.row
    let rows := (attached.filter fun entry => entry.1 == token).map (·.2)
    let others ← rows.mapM (assembly.rowTargets .customAttribute)
    return own ++ others.flatten

theorem length_filter_lt {candidates live : List Token} {token : Token}
    (hc : token ∈ candidates) (hl : token ∉ live) :
    (candidates.filter fun c => !(token :: live).contains c).length <
      (candidates.filter fun c => !live.contains c).length := by
  induction candidates with
  | nil => simp at hc
  | cons c rest ih =>
    have hle : (rest.filter fun c => !(token :: live).contains c).length ≤
        (rest.filter fun c => !live.contains c).length := by
      rw [← List.countP_eq_length_filter, ← List.countP_eq_length_filter]
      apply List.countP_mono_left
      intro x _ hx
      simp at hx ⊢
      exact hx.2
    by_cases h : c = token
    · subst h
      simp [hl] at hle ⊢
      omega
    · have hmem : token ∈ rest := by
        rcases List.mem_cons.mp hc with h' | h'
        · exact absurd h'.symm h
        · exact h'
      have := ih hmem
      by_cases hlive : c ∈ live
      · simpa [hlive] using this
      · simp [hlive, h] at this ⊢
        omega

/-- Adds to `live` every candidate that is reached from the pending rows. Each step either drops a
pending row or adds a candidate to the live ones. -/
def reach (assembly : Assembly) (candidates : List Token) (attached : List (Token × Nat))
    (live : List Token) : List Token → Except Error (List Token)
  | [] => .ok live
  | token :: pending =>
    if _fresh : token ∈ candidates ∧ token ∉ live then
      match assembly.reachedFrom attached token with
      | .error e => .error e
      | .ok found =>
        reach assembly candidates attached (token :: live) (found.reverse ++ pending)
    else reach assembly candidates attached live pending
termination_by pending => ((candidates.filter fun c => !live.contains c).length, pending.length)
decreasing_by
  · exact Prod.Lex.left _ _ (length_filter_lt _fresh.1 _fresh.2)
  · exact Prod.Lex.right _ (Nat.lt_succ_self _)

/-- The candidates that can be reached from outside them once the deleted rows are gone, in
ascending order. -/
def reachableCandidates (assembly : Assembly) (candidates deleted : List Token) :
    Except Error (List Token) := do
  let roots ← assembly.roots candidates deleted
  let live ← assembly.reach candidates roots.attached [] roots.pending
  return live.mergeSort fun a b => a.value ≤ b.value

end NativeExports.Assembly
