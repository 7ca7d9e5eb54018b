import NativeExports.Assembly.Renumber
import NativeExports.Proofs.Code.BodyLayout
import NativeExports.Proofs.Code.Replacement

/-!
# Renumbering stored tokens

The tokens of a method body are renumbered where they are stored: first those in the code, then
those of the exception clauses, then that of the local variables.  Each of these writes keeps to its
own bytes, so every token is read before it is written, and none is written twice.
-/

namespace NativeExports

/-! ## Tokens -/

namespace Renumbering

/-- The renumbering makes the new token from the old one. -/
def Renames (renumbering : Renumbering) (old new : Token) : Prop :=
  renumbering.newToken old = .ok new

/-- Renumbered tokens fit where the old ones stood. -/
theorem bounded_newToken (renumbering : Renumbering) : Code.Bounded renumbering.newToken := by
  intro old new h hold
  unfold newToken at h
  split at h
  · split at h
    · obtain rfl := Except.ok.inj h
      exact Token.ofRow_lt ..
    · cases h
  · obtain rfl := Except.ok.inj h
    exact hold

end Renumbering

/-- What becomes of four stored bytes: a related token if they are a token, and otherwise
nothing. -/
def StoredFollows (related : Token → Token → Prop) (isToken : Prop) (old new : Nat) : Prop :=
  (isToken → related ⟨old⟩ ⟨new⟩) ∧ (¬isToken → new = old)

theorem StoredFollows.imp {related related' : Token → Token → Prop} {isToken : Prop} {old new : Nat}
    (h : StoredFollows related isToken old new)
    (himp : ∀ old new, related old new → related' old new) :
    StoredFollows related' isToken old new :=
  ⟨fun htoken => himp _ _ (h.1 htoken), h.2⟩

open Bytes (ChangedOnly SameOn)

namespace Assembly

theorem renumberToken_eq_ok {renumbering : Renumbering} {data data' : Bytes} {position : Nat}
    {token : Token} (hposition : position + 4 ≤ data.length) (htoken : token.value < 2 ^ 32)
    (h : renumberToken renumbering data position token = .ok data') :
    ChangedOnly data data' (fun p => position ≤ p ∧ p < position + 4) ∧
      renumbering.newToken token = .ok ⟨Bytes.field data' position 4⟩ := by
  obtain ⟨new, hnew, h⟩ := Outcome.bind_eq_ok.mp h
  obtain rfl := Outcome.pure_eq_ok.mp h
  have hvalue := renumbering.bounded_newToken token new hnew htoken
  have hlength : (Bytes.leBytes 4 new.value).length = 4 := Bytes.length_leBytes _ _
  refine ⟨?_, ?_⟩
  · have hbound : position + (Bytes.leBytes 4 new.value).length ≤ data.length := by omega
    have hchanged := Bytes.changedOnly_overwrite hbound
    rwa [hlength] at hchanged
  · rw [Bytes.field_overwrite_leBytes hposition hvalue]
    exact hnew

theorem failsOnly_renumberToken {kind : Error → Prop} {renumbering : Renumbering} {token : Token}
    (h : Outcome.FailsOnly kind (renumbering.newToken token)) (data : Bytes) (position : Nat) :
    Outcome.FailsOnly kind (renumberToken renumbering data position token) :=
  h.bind fun _ _ => .ok _

/-! ## Code -/

theorem renumberCode_eq_ok {renumbering : Renumbering} {data data' : Bytes} {start size : Nat}
    (hstart : start + size ≤ data.length)
    (h : renumberCode renumbering data start size = .ok data') :
    ChangedOnly data data' (fun p => start ≤ p ∧ p < start + size) ∧
      ∃ instructions instructions', Code.decode ((data.drop start).take size) = .ok instructions ∧
        Code.decode ((data'.drop start).take size) = .ok instructions' ∧
        List.Forall₂ (Instruction.MapsTo renumbering.Renames) instructions instructions' := by
  obtain ⟨⟨changed, code⟩, hcode, h⟩ := Outcome.bind_eq_ok.mp h
  obtain ⟨instructions, instructions', hdecode, hdecode', hmaps, hlength, hsame⟩ :=
    Code.decode_of_mapTokens renumbering.bounded_newToken hcode
  have hsize : code.length = size := by
    rw [hlength, List.length_take, List.length_drop]
    omega
  have hdata := Outcome.pure_eq_ok.mp h
  split at hdata
  · rename_i hzero
    subst hdata
    rw [hsame hzero] at hdecode'
    exact ⟨.refl _ _, instructions, instructions', hdecode, hdecode', hmaps⟩
  · subst hdata
    have hbound : start + code.length ≤ data.length := by omega
    refine ⟨?_, instructions, instructions', hdecode, ?_, hmaps⟩
    · rw [← hsize]
      exact Bytes.changedOnly_overwrite hbound
    · rw [← hsize, Bytes.take_drop_overwrite hbound]
      exact hdecode'

theorem failsOnly_renumberCode {kind : Error → Prop} {renumbering : Renumbering} {data : Bytes}
    {start size : Nat} {instructions : List Instruction}
    (hdecode : Code.decode ((data.drop start).take size) = .ok instructions)
    (h : ∀ token ∈ Code.tokensOf instructions,
      Outcome.FailsOnly kind (renumbering.newToken token)) :
    Outcome.FailsOnly kind (renumberCode renumbering data start size) :=
  (Code.failsOnly_mapTokens hdecode h).bind fun _ _ => .ok _

/-! ## Exception clauses -/

/-- Whether a clause names a type by the token that stands in `data`. -/
def NamesToken (data : Bytes) (offset : Nat) (clause : ExceptionClause) : Prop :=
  clause.namesType = true ∧
    (⟨Bytes.field data (offset + clause.position) 4⟩ : Token).isNull = false

/-- The bytes of the types that the clauses of the body at `offset` name. -/
def InClauseAt (offset : Nat) (clauses : List ExceptionClause) (p : Nat) : Prop :=
  ∃ clause ∈ clauses, offset + clause.position ≤ p ∧ p < offset + clause.position + 4

theorem renumberClause_eq_ok {renumbering : Renumbering} {offset : Nat} {data data' : Bytes}
    {clause : ExceptionClause} (hposition : offset + clause.position + 4 ≤ data.length)
    (h : renumberClause renumbering offset data clause = .ok data') :
    ChangedOnly data data'
        (fun p => offset + clause.position ≤ p ∧ p < offset + clause.position + 4) ∧
      StoredFollows renumbering.Renames (NamesToken data offset clause)
        (Bytes.field data (offset + clause.position) 4)
        (Bytes.field data' (offset + clause.position) 4) := by
  simp only [renumberClause] at h
  split at h
  · rename_i hnames
    have hvalue : Bytes.field data (offset + clause.position) 4 < 2 ^ 32 := Bytes.field_lt ..
    obtain ⟨hchanged, hnew⟩ := renumberToken_eq_ok hposition hvalue h
    refine ⟨hchanged, fun _ => hnew, fun hnot => (hnot ⟨hnames.1, ?_⟩).elim⟩
    simpa using hnames.2
  · rename_i hnames
    obtain rfl := Except.ok.inj h
    refine ⟨.refl _ _, fun hnot => (hnames ⟨hnot.1, ?_⟩).elim, fun _ => rfl⟩
    simpa using hnot.2

/-- The tokens of clauses that stand one behind the other are renumbered one by one. -/
theorem renumberClauses_eq_ok {renumbering : Renumbering} {offset : Nat} {data data' : Bytes}
    {clauses : List ExceptionClause}
    (hposition : ∀ clause ∈ clauses, offset + clause.position + 4 ≤ data.length)
    (hapart : clauses.Pairwise fun first second => first.position + 4 ≤ second.position)
    (h : clauses.foldlM (renumberClause renumbering offset) data = .ok data') :
    ChangedOnly data data' (InClauseAt offset clauses) ∧
      ∀ clause ∈ clauses, StoredFollows renumbering.Renames (NamesToken data offset clause)
        (Bytes.field data (offset + clause.position) 4)
        (Bytes.field data' (offset + clause.position) 4) := by
  induction clauses generalizing data with
  | nil =>
      obtain rfl := Outcome.pure_eq_ok.mp h
      exact ⟨.refl _ _, nofun⟩
  | cons first rest ih =>
      rw [List.foldlM_cons] at h
      obtain ⟨between, hfirst, h⟩ := Outcome.bind_eq_ok.mp h
      obtain ⟨hchanged, hfollows⟩ := renumberClause_eq_ok (hposition first (.head _)) hfirst
      obtain ⟨hbehind, hapart⟩ := List.pairwise_cons.mp hapart
      obtain ⟨hchanged', hfollows'⟩ := ih
        (fun clause hmem => hchanged.1 ▸ hposition clause (.tail _ hmem)) hapart h
      refine ⟨(hchanged.mono ?_).trans (hchanged'.mono ?_), fun clause hmem => ?_⟩
      · exact fun p hp => ⟨first, .head _, hp⟩
      · exact fun p ⟨clause, hmem, hp⟩ => ⟨clause, .tail _ hmem, hp⟩
      · rcases List.mem_cons.mp hmem with rfl | hmem
        · have hkeep : Bytes.field data' (offset + clause.position) 4 =
              Bytes.field between (offset + clause.position) 4 := by
            refine Bytes.field_eq_of_sameOn (hchanged'.sameOn fun p hlo hhi => ?_)
            rintro ⟨other, hother, hstart, -⟩
            have := hbehind other hother
            omega
          rw [hkeep]
          exact hfollows
        · have hkeep : Bytes.field between (offset + clause.position) 4 =
              Bytes.field data (offset + clause.position) 4 := by
            refine Bytes.field_eq_of_sameOn (hchanged.sameOn fun p hlo hhi hin => ?_)
            have := hbehind clause hmem
            omega
          have hfollow := hfollows' clause hmem
          unfold NamesToken at hfollow ⊢
          rwa [hkeep] at hfollow

theorem failsOnly_renumberClauses {kind : Error → Prop} {renumbering : Renumbering} {offset : Nat}
    {data : Bytes} {clauses : List ExceptionClause}
    (hposition : ∀ clause ∈ clauses, offset + clause.position + 4 ≤ data.length)
    (hapart : clauses.Pairwise fun first second => first.position + 4 ≤ second.position)
    (h : ∀ clause ∈ clauses, NamesToken data offset clause →
      Outcome.FailsOnly kind
        (renumbering.newToken ⟨Bytes.field data (offset + clause.position) 4⟩)) :
    Outcome.FailsOnly kind (clauses.foldlM (renumberClause renumbering offset) data) := by
  induction clauses generalizing data with
  | nil => exact .ok data
  | cons first rest ih =>
      rw [List.foldlM_cons]
      refine Outcome.FailsOnly.bind ?_ fun between hbetween => ?_
      · simp only [renumberClause]
        split
        · rename_i hnames
          exact failsOnly_renumberToken (h first (.head _) ⟨hnames.1, by simpa using hnames.2⟩) _ _
        · exact .ok data
      · obtain ⟨hchanged, -⟩ := renumberClause_eq_ok (hposition first (.head _)) hbetween
        obtain ⟨hbehind, hapart⟩ := List.pairwise_cons.mp hapart
        refine ih (fun clause hmem => hchanged.1 ▸ hposition clause (.tail _ hmem)) hapart ?_
        intro clause hmem hnames
        have hkeep : Bytes.field between (offset + clause.position) 4 =
            Bytes.field data (offset + clause.position) 4 := by
          refine Bytes.field_eq_of_sameOn (hchanged.sameOn fun p hlo hhi hin => ?_)
          have := hbehind clause hmem
          omega
        unfold NamesToken at hnames
        rw [hkeep] at hnames ⊢
        exact h clause (.tail _ hmem) hnames

end Assembly

/-! ## Bodies -/

/-- A clause whose type becomes a related one. -/
structure ExceptionClause.Follows (related : Token → Token → Prop) (old new : ExceptionClause) :
    Prop where
  layout : new = { old with classOrFilter := new.classOrFilter }
  type : StoredFollows related
    (old.namesType = true ∧ (⟨old.classOrFilter⟩ : Token).isNull = false)
    old.classOrFilter new.classOrFilter

/-- A body whose local variables and exception clauses become related ones. -/
structure MethodBody.Follows (related : Token → Token → Prop) (old new : MethodBody) : Prop where
  layout : new = { old with localsToken := new.localsToken, clauses := new.clauses }
  locals : StoredFollows related (old.isFat = true ∧ old.localsToken ≠ 0) old.localsToken
    new.localsToken
  clauses : List.Forall₂ (ExceptionClause.Follows related) old.clauses new.clauses

theorem MethodBody.Follows.imp {related related' : Token → Token → Prop} {old new : MethodBody}
    (h : MethodBody.Follows related old new)
    (himp : ∀ old new, related old new → related' old new) :
    MethodBody.Follows related' old new :=
  ⟨h.layout, h.locals.imp himp, h.clauses.imp fun _ _ hclause =>
    ⟨hclause.layout, hclause.type.imp himp⟩⟩

namespace Assembly

/-- The body at a position of the file, and its instructions. -/
structure HasBody (image : Image) (offset : Nat) (body : MethodBody)
    (instructions : List Instruction) : Prop where
  read : bodyFrom image offset = .ok body
  code : Code.decode (body.code (image.data.drop offset)) = .ok instructions

/-- The positions of the file that the body at `offset` takes. -/
def InBody (image : Image) (offset : Nat) (body : MethodBody) (p : Nat) : Prop :=
  offset ≤ p ∧ p < offset + body.extent (image.data.drop offset)

theorem bodyFrom_eq_ok {image : Image} {offset : Nat} {body : MethodBody} :
    bodyFrom image offset = .ok body ↔
      offset ≤ image.data.length ∧ MethodBody.read (image.data.drop offset) = .ok body := by
  unfold bodyFrom
  split
  · simp_all
  · exact ⟨nofun, fun h => absurd h.1 ‹_›⟩

/-- A body stays where none of its bytes changes. -/
theorem HasBody.of_same {image image' : Image} {offset : Nat} {body : MethodBody}
    {instructions : List Instruction} (h : HasBody image offset body instructions)
    (hlength : image'.data.length = image.data.length)
    (hsame : ∀ p, InBody image offset body p → image'.data[p]? = image.data[p]?) :
    HasBody image' offset body instructions ∧
      body.extent (image'.data.drop offset) = body.extent (image.data.drop offset) := by
  obtain ⟨hoffset, hread⟩ := bodyFrom_eq_ok.mp h.read
  have hdrop : SameOn (image.data.drop offset) (image'.data.drop offset) 0
      (body.extent (image.data.drop offset)) := by
    intro p _ hp
    rw [List.getElem?_drop, List.getElem?_drop]
    exact hsame _ ⟨by omega, by omega⟩
  obtain ⟨hread', hextent⟩ := MethodBody.read_of_sameOn hread (by simp [hlength]) hdrop
  refine ⟨⟨bodyFrom_eq_ok.mpr ⟨hlength ▸ hoffset, hread'⟩, ?_⟩, hextent⟩
  have hsize := (MethodBody.shape_of_read hread).size_le
  have hcode : body.code (image'.data.drop offset) = body.code (image.data.drop offset) :=
    Bytes.take_drop_eq_of_sameOn (hdrop.mono (Nat.zero_le _) hsize)
  rw [hcode]
  exact h.code

/-- Renumbers the token of the local variables of a body. -/
def renumberLocals (renumbering : Renumbering) (offset : Nat) (body : MethodBody) (data : Bytes) :
    Except Error Bytes :=
  if body.isFat ∧ body.localsToken ≠ 0 then
    renumberToken renumbering data (offset + MethodBody.localsOffset) ⟨body.localsToken⟩
  else .ok data

theorem renumberBody_eq (renumbering : Renumbering) (image : Image) (offset : Nat) :
    renumberBody renumbering image offset = (do
      let body ← bodyFrom image offset
      let data ← renumberCode renumbering image.data (offset + body.headerSize) body.codeSize
      let data ← body.clauses.foldlM (renumberClause renumbering offset) data
      let data ← renumberLocals renumbering offset body data
      return { image with data }) := by
  unfold renumberBody renumberLocals
  congr 1
  funext body
  congr 1
  funext code
  congr 1
  funext clauses
  split <;> rfl

/-- The bytes of the token of the local variables of the body at `offset`. -/
def InLocalsAt (offset : Nat) (body : MethodBody) (p : Nat) : Prop :=
  body.isFat = true ∧ offset + MethodBody.localsOffset ≤ p ∧
    p < offset + MethodBody.localsOffset + 4

theorem renumberLocals_eq_ok {renumbering : Renumbering} {offset : Nat} {body : MethodBody}
    {data data' : Bytes} (hlimit : body.isFat = true → offset + 12 ≤ data.length)
    (hvalue : body.localsToken < 2 ^ 32)
    (h : renumberLocals renumbering offset body data = .ok data') :
    ChangedOnly data data' (InLocalsAt offset body) ∧
      (body.isFat = true ∧ body.localsToken ≠ 0 → renumbering.newToken ⟨body.localsToken⟩ =
        .ok ⟨Bytes.field data' (offset + MethodBody.localsOffset) 4⟩) ∧
      (¬(body.isFat = true ∧ body.localsToken ≠ 0) → data' = data) := by
  unfold renumberLocals at h
  split at h
  · rename_i hlocals
    have hposition : offset + MethodBody.localsOffset + 4 ≤ data.length := by
      have := hlimit hlocals.1
      unfold MethodBody.localsOffset
      omega
    obtain ⟨hchanged, hnew⟩ := renumberToken_eq_ok hposition hvalue h
    exact ⟨hchanged.mono fun p hp => ⟨hlocals.1, hp⟩, fun _ => hnew,
      fun hnot => (hnot hlocals).elim⟩
  · rename_i hlocals
    obtain rfl := Except.ok.inj h
    exact ⟨.refl _ _, fun hnot => (hlocals hnot).elim, fun _ => rfl⟩

/-- What renumbering the body at `offset` writes. -/
structure BodyWrites (renumbering : Renumbering) (offset : Nat) (body : MethodBody)
    (data data' : Bytes) : Prop where
  changed : ChangedOnly data data' fun p => offset ≤ p ∧ body.IsSite (p - offset)
  code : ∃ instructions instructions',
    Code.decode ((data.drop (offset + body.headerSize)).take body.codeSize) = .ok instructions ∧
    Code.decode ((data'.drop (offset + body.headerSize)).take body.codeSize) = .ok instructions' ∧
    List.Forall₂ (Instruction.MapsTo renumbering.Renames) instructions instructions'
  locals : body.isFat = true → StoredFollows renumbering.Renames (body.localsToken ≠ 0)
    (Bytes.field data (offset + MethodBody.localsOffset) 4)
    (Bytes.field data' (offset + MethodBody.localsOffset) 4)
  clauses : ∀ clause ∈ body.clauses,
    StoredFollows renumbering.Renames (NamesToken data offset clause)
    (Bytes.field data (offset + clause.position) 4)
    (Bytes.field data' (offset + clause.position) 4)

/-- Writes to the clauses leave alone what stands in front of them. -/
theorem sameOn_of_clauseWrites {data data' : Bytes} {offset limit start stop : Nat}
    {clauses : List ExceptionClause} (hchanged : ChangedOnly data data' (InClauseAt offset clauses))
    (hbehind : ∀ clause ∈ clauses, limit ≤ clause.position) (hstop : stop ≤ offset + limit) :
    SameOn data data' start stop := by
  refine hchanged.sameOn fun p _ hhi => ?_
  rintro ⟨clause, hmem, hlo, -⟩
  have := hbehind clause hmem
  omega

/-- A write to the token of the local variables leaves alone what stands behind the header. -/
theorem sameOn_of_localsWrite {data data' : Bytes} {offset start stop : Nat} {body : MethodBody}
    (hchanged : ChangedOnly data data' (InLocalsAt offset body))
    (hheader : body.isFat = true → MethodBody.localsOffset + 4 ≤ body.headerSize)
    (hstart : offset + body.headerSize ≤ start) : SameOn data data' start stop := by
  refine hchanged.sameOn fun p hlo _ => ?_
  rintro ⟨hfat, -, hhi⟩
  have := hheader hfat
  omega

/-- The three writes are all inside the sites of the body. -/
theorem changedOnly_sites {data first second third : Bytes} {offset : Nat} {body : MethodBody}
    (hcode : ChangedOnly data first fun p =>
      offset + body.headerSize ≤ p ∧ p < offset + body.headerSize + body.codeSize)
    (hclauses : ChangedOnly first second (InClauseAt offset body.clauses))
    (hlocals : ChangedOnly second third (InLocalsAt offset body)) :
    ChangedOnly data third fun p => offset ≤ p ∧ body.IsSite (p - offset) := by
  refine ((hcode.mono fun p hp => ?_).trans (hclauses.mono fun p hp => ?_)).trans
    (hlocals.mono fun p hp => ?_)
  · refine ⟨by omega, .inl ⟨by omega, ?_⟩⟩
    unfold MethodBody.size
    omega
  · obtain ⟨clause, hmem, hlo, hhi⟩ := hp
    exact ⟨by omega, .inr (.inr ⟨clause, hmem, by omega, by omega⟩)⟩
  · obtain ⟨hfat, hlo, hhi⟩ := hp
    exact ⟨by omega, .inr (.inl ⟨hfat, by omega, by omega⟩)⟩

theorem bodyWrites_of_renumberBody {renumbering : Renumbering} {image image' : Image}
    {offset : Nat} {body : MethodBody} (hbody : bodyFrom image offset = .ok body)
    (h : renumberBody renumbering image offset = .ok image') :
    image' = { image with data := image'.data } ∧
      BodyWrites renumbering offset body image.data image'.data := by
  obtain ⟨hoffset, hread⟩ := bodyFrom_eq_ok.mp hbody
  have hshape := MethodBody.shape_of_read hread
  rw [renumberBody_eq, hbody, Outcome.ok_bind] at h
  obtain ⟨first, hcode, h⟩ := Outcome.bind_eq_ok.mp h
  obtain ⟨second, hclauses, h⟩ := Outcome.bind_eq_ok.mp h
  obtain ⟨third, hlocals, h⟩ := Outcome.bind_eq_ok.mp h
  obtain rfl := Outcome.pure_eq_ok.mp h
  have hsize : body.headerSize + body.codeSize ≤ body.extent (image.data.drop offset) :=
    hshape.size_le
  have hextent : offset + body.extent (image.data.drop offset) ≤ image.data.length := by
    have := hshape.extent_le
    rw [List.length_drop] at this
    omega
  have hstart : ∀ clause ∈ body.clauses, body.headerSize + body.codeSize ≤ clause.position :=
    hshape.clauses.start_le
  have hheader : body.isFat = true → MethodBody.localsOffset + 4 ≤ body.headerSize :=
    hshape.header_le
  -- The three writes, each with the bytes it keeps to.
  obtain ⟨hchanged₁, instructions, instructions', hdecode, hdecode', hmaps⟩ :=
    renumberCode_eq_ok (by omega) hcode
  obtain ⟨hchanged₂, hfollows⟩ := renumberClauses_eq_ok (fun clause hmem => by
    have := hshape.clauses.le_stop clause hmem
    rw [hchanged₁.1]
    omega) hshape.clauses.apart hclauses
  obtain ⟨hchanged₃, hnew, hkeep⟩ := renumberLocals_eq_ok (fun hfat => by
    have := hshape.header_le hfat
    rw [hchanged₂.1, hchanged₁.1]
    omega) (MethodBody.localsToken_lt hread) hlocals
  refine ⟨rfl, changedOnly_sites hchanged₁ hchanged₂ hchanged₃,
    ⟨instructions, instructions', hdecode, ?_, hmaps⟩, fun hfat => ?_, fun clause hmem => ?_⟩
  · have hsame : SameOn first third (offset + body.headerSize)
        (offset + body.headerSize + body.codeSize) :=
      (sameOn_of_clauseWrites hchanged₂ hstart (by omega)).trans
        (sameOn_of_localsWrite hchanged₃ hheader (Nat.le_refl _))
    rw [Bytes.take_drop_eq_of_sameOn hsame]
    exact hdecode'
  · have hfront := hheader hfat
    have hbefore : Bytes.field second (offset + MethodBody.localsOffset) 4 =
        Bytes.field image.data (offset + MethodBody.localsOffset) 4 :=
      Bytes.field_eq_of_sameOn ((hchanged₁.sameOn fun p hlo hhi hin => by omega).trans
        (sameOn_of_clauseWrites hchanged₂ hstart (by omega)))
    have hstored : Bytes.field image.data (offset + MethodBody.localsOffset) 4 =
        body.localsToken := by
      rw [hshape.locals hfat, Bytes.field_drop]
    refine ⟨fun hne => ?_, fun hzero => ?_⟩
    · rw [hstored]
      exact hnew ⟨hfat, hne⟩
    · rw [hkeep fun hlocals => hzero hlocals.2]
      exact hbefore
  · have hbehind := hstart clause hmem
    have hbefore : Bytes.field first (offset + clause.position) 4 =
        Bytes.field image.data (offset + clause.position) 4 :=
      Bytes.field_eq_of_sameOn (hchanged₁.sameOn fun p hlo hhi hin => by omega)
    have hafter : Bytes.field third (offset + clause.position) 4 =
        Bytes.field second (offset + clause.position) 4 :=
      Bytes.field_eq_of_sameOn (sameOn_of_localsWrite hchanged₃ hheader (by omega))
    have hfollow := hfollows clause hmem
    unfold NamesToken at hfollow ⊢
    rw [hbefore] at hfollow
    rwa [hafter]

/-- Renumbering a body changes the tokens in it that name rows, and nothing else. -/
theorem renumberBody_eq_ok {renumbering : Renumbering} {image image' : Image} {offset : Nat}
    {body : MethodBody} (hbody : bodyFrom image offset = .ok body)
    (h : renumberBody renumbering image offset = .ok image') :
    image' = { image with data := image'.data } ∧
      ChangedOnly image.data image'.data (InBody image offset body) ∧
      ∃ body' instructions instructions', HasBody image offset body instructions ∧
        HasBody image' offset body' instructions' ∧ body.Follows renumbering.Renames body' ∧
        List.Forall₂ (Instruction.MapsTo renumbering.Renames) instructions instructions' ∧
        body'.extent (image'.data.drop offset) = body.extent (image.data.drop offset) := by
  obtain ⟨himage, hwrites⟩ := bodyWrites_of_renumberBody hbody h
  obtain ⟨hoffset, hread⟩ := bodyFrom_eq_ok.mp hbody
  have hshape := MethodBody.shape_of_read hread
  obtain ⟨instructions, instructions', hdecode, hdecode', hmaps⟩ := hwrites.code
  have hlength := hwrites.changed.1
  have hcode : ∀ data : Bytes, body.code (data.drop offset) =
      (data.drop (offset + body.headerSize)).take body.codeSize := fun data => by
    rw [MethodBody.code, List.drop_drop]
  have hdrop : (image'.data.drop offset).length = (image.data.drop offset).length := by
    simp [hlength]
  obtain ⟨hread', hextent⟩ := MethodBody.read_congr hread hdrop fun p hp hnot => by
    rw [List.getElem?_drop, List.getElem?_drop]
    refine hwrites.changed.2 _ fun hin => hnot ?_
    simpa using hin.2
  refine ⟨himage, hwrites.changed.mono fun p hp => ⟨hp.1, ?_⟩,
    body.reread (image'.data.drop offset), instructions, instructions', ⟨hbody, ?_⟩, ⟨?_, ?_⟩,
    ⟨rfl, ?_, ?_⟩, hmaps, hextent⟩
  · have := hshape.lt_extent hp.2
    omega
  · rw [hcode]
    exact hdecode
  · exact bodyFrom_eq_ok.mpr ⟨hlength ▸ hoffset, hread'⟩
  · change Code.decode (body.code _) = _
    rw [hcode]
    exact hdecode'
  · by_cases hfat : body.isFat = true
    · have hfollows := hwrites.locals hfat
      have hstored := hshape.locals hfat
      rw [Bytes.field_drop] at hstored
      rw [← hstored, ← Bytes.field_drop image'.data] at hfollows
      simpa [MethodBody.reread, hfat, StoredFollows] using hfollows
    · simp [MethodBody.reread, hfat, StoredFollows]
  · refine List.forall₂_map_right_iff.mpr (List.forall₂_same.mpr fun clause hmem => ⟨rfl, ?_⟩)
    have hfollows := hwrites.clauses clause hmem
    have hself := congrArg ExceptionClause.classOrFilter (hshape.clauses.reread clause hmem)
    change Bytes.field (image.data.drop offset) clause.position 4 = clause.classOrFilter at hself
    rw [Bytes.field_drop] at hself
    unfold NamesToken at hfollows
    rw [hself, ← Bytes.field_drop image'.data] at hfollows
    exact hfollows

end Assembly

end NativeExports
