import NativeExports.Proofs.Code.BodyLayout

/-!
# Patching method bodies

The sections behind the code are read by a loop that the data alone controls: their sizes say where
the next one stands, and a flag says whether there is one.  Every round moves on by at least four
bytes that lie inside the data, so the loop ends, and within the number of rounds that is provided
for it.  What was read tells where tokens can be written: the positions lie inside the data and
apart from one another, and after any number of writes the body is the one that was read with the
written tokens.
-/

namespace NativeExports.MethodBody

/-! ## The loop over the sections -/

/-- What one round of the loop finds at `cursor`: the clauses of the section, and where the next
section stands if there is one. -/
def round (data : Bytes) (cursor : Nat) : Except Error (List ExceptionClause × Option Nat) :=
  if data.length < cursor + 4 then .error .outOfBounds
  else if !(Bytes.field data cursor 1).testBit exceptionTableBit then
    .error (.malformed (.bodySection (sectionFlags (Bytes.field data cursor 1))))
  else if sectionSize data cursor < 4 ∨ data.length < cursor + sectionSize data cursor then
    .error .outOfBounds
  else
    .ok (clausesOfSection data cursor,
      if (Bytes.field data cursor 1).testBit moreBit then
        some (Bytes.ceil4 (cursor + sectionSize data cursor))
      else none)

/-- What the loop comes to from `cursor` on, and in how many rounds.  Nothing limits the rounds. -/
inductive Loop (data : Bytes) : Nat → Nat → Except Error (List ExceptionClause) → Prop where
  /-- A section is refused. -/
  | refused {cursor : Nat} {e : Error} (h : round data cursor = .error e) :
      Loop data cursor 1 (.error e)
  /-- A section is the last one. -/
  | last {cursor : Nat} {clauses : List ExceptionClause}
      (h : round data cursor = .ok (clauses, none)) : Loop data cursor 1 (.ok clauses)
  /-- Another section follows. -/
  | more {cursor next rounds : Nat} {clauses : List ExceptionClause}
      {result : Except Error (List ExceptionClause)}
      (h : round data cursor = .ok (clauses, some next)) (rest : Loop data next rounds result) :
      Loop data cursor (rounds + 1) ((clauses ++ ·) <$> result)

variable {data : Bytes} {body : MethodBody}

/-- A round that goes on has moved over four bytes of the data. -/
theorem le_of_round_some {cursor next : Nat} {clauses : List ExceptionClause}
    (h : round data cursor = .ok (clauses, some next)) :
    cursor + 4 ≤ data.length ∧ cursor + 4 ≤ next := by
  unfold round at h
  split at h
  · cases h
  split at h
  · cases h
  split at h
  · cases h
  rename_i hcursor _ hsize
  obtain ⟨-, hnext⟩ := Prod.mk.inj (Except.ok.inj h)
  split at hnext
  · obtain rfl := Option.some.inj hnext
    have hceil := (Bytes.le_ceil4 (cursor + sectionSize data cursor)).1
    omega
  · cases hnext

theorem readSections_succ_of_round (data : Bytes) (fuel cursor : Nat) :
    readSections data data.length (fuel + 1) cursor =
      match round data cursor with
      | .error e => .error e
      | .ok (clauses, none) => .ok clauses
      | .ok (clauses, some next) =>
        (clauses ++ ·) <$> readSections data data.length fuel next := by
  rw [readSections_succ, round]
  by_cases hcursor : data.length < cursor + 4
  · rw [if_pos hcursor, if_pos hcursor]
  rw [if_neg hcursor, if_neg hcursor]
  by_cases htable : (!(Bytes.field data cursor 1).testBit exceptionTableBit) = true
  · rw [if_pos htable, if_pos htable]
  rw [if_neg htable, if_neg htable]
  by_cases hsize : sectionSize data cursor < 4 ∨ data.length < cursor + sectionSize data cursor
  · rw [if_pos hsize, if_pos hsize]
  rw [if_neg hsize, if_neg hsize]
  by_cases hmore : (Bytes.field data cursor 1).testBit moreBit = true
  · rw [if_pos hmore, if_pos hmore]
    rfl
  · rw [if_neg hmore, if_neg hmore]

/-- The loop ends, since every round but the last moves over four bytes of the data. -/
theorem exists_loop (data : Bytes) (cursor : Nat) :
    ∃ rounds result, Loop data cursor rounds result ∧
      4 * rounds ≤ (data.length - cursor) + 4 := by
  induction hleft : data.length - cursor using Nat.strongRecOn generalizing cursor with
  | ind left ih =>
      cases hround : round data cursor with
      | error e => exact ⟨1, _, .refused hround, by omega⟩
      | ok found =>
          obtain ⟨clauses, _ | next⟩ := found
          · exact ⟨1, _, .last hround, by omega⟩
          · obtain ⟨hlimit, hnext⟩ := le_of_round_some hround
            obtain ⟨rounds, result, hrest, hrounds⟩ := ih _ (by omega) next rfl
            exact ⟨rounds + 1, _, .more hround hrest, by omega⟩

/-- The sections are read as the loop reads them, if as many rounds are provided for. -/
theorem Loop.readSections_eq {cursor rounds fuel : Nat}
    {result : Except Error (List ExceptionClause)} (h : Loop data cursor rounds result)
    (hfuel : rounds ≤ fuel) : readSections data data.length fuel cursor = result := by
  induction h generalizing fuel with
  | refused hround =>
      obtain ⟨fuel, rfl⟩ := Nat.exists_eq_succ_of_ne_zero (by omega : fuel ≠ 0)
      rw [readSections_succ_of_round, hround]
  | last hround =>
      obtain ⟨fuel, rfl⟩ := Nat.exists_eq_succ_of_ne_zero (by omega : fuel ≠ 0)
      rw [readSections_succ_of_round, hround]
  | more hround _ ih =>
      obtain ⟨fuel, rfl⟩ := Nat.exists_eq_succ_of_ne_zero (by omega : fuel ≠ 0)
      rw [readSections_succ_of_round, hround, ← ih (Nat.le_of_succ_le_succ hfuel)]

theorem Loop.rounds_unique {cursor rounds rounds' : Nat}
    {result result' : Except Error (List ExceptionClause)} (h : Loop data cursor rounds result)
    (h' : Loop data cursor rounds' result') : rounds' = rounds := by
  induction h generalizing rounds' result' with
  | refused hround => cases h' <;> simp_all
  | last hround => cases h' <;> simp_all
  | more hround _ ih =>
      cases h' with
      | refused hround' => simp_all
      | last hround' => simp_all
      | more hround' hrest' =>
          rw [hround] at hround'
          obtain ⟨-, hnext⟩ := Prod.mk.inj (Except.ok.inj hround')
          obtain rfl := Option.some.inj hnext
          rw [ih hrest']

/-! ## Reading as a run -/

/-- The header of `data` is that of a large body with sections behind its code. -/
def ReachesSections (data : Bytes) : Prop :=
  (data ≠ [] ∧ Bytes.field data 0 1 % 4 = fatFormat) ∧ 12 ≤ data.length ∧
    12 ≤ (fatBody data []).headerSize ∧ (fatBody data []).size ≤ data.length ∧
    hasSections data = true

/-- What reading `data` comes to, and how many sections it looks at on the way.  Nothing limits
their number. -/
inductive Runs (data : Bytes) : Nat → Except Error MethodBody → Prop where
  /-- The loop over the sections is not reached. -/
  | straight (h : ¬ReachesSections data) : Runs data 0 (read data)
  /-- The loop over the sections begins behind the code. -/
  | sections {rounds : Nat} {clauses : Except Error (List ExceptionClause)}
      (h : ReachesSections data)
      (loop : Loop data (Bytes.ceil4 (fatBody data []).size) rounds clauses) :
      Runs data rounds (fatBody data <$> clauses)

theorem read_eq_of_reachesSections (h : ReachesSections data) :
    read data = fatBody data <$>
      readSections data data.length data.length (Bytes.ceil4 (fatBody data []).size) := by
  obtain ⟨⟨hnil, hformat⟩, hlength, hheader, hsize, hsections⟩ := h
  have hread : read data = readFat data := by
    cases data with
    | nil => exact absurd rfl hnil
    | cons lead rest =>
        have hlead : Bytes.field (lead :: rest) 0 1 = lead.toNat := by
          simp [Bytes.field, Bytes.leValue]
        rw [hlead] at hformat
        rw [read, hformat, if_neg (by decide), if_pos rfl]
  rw [hread, readFat_eq, if_neg (by omega), if_neg (by omega), if_neg (by omega), if_pos hsections]

/-- Reading has exactly one run, which looks at no more sections than a quarter of the bytes. -/
theorem exists_runs (data : Bytes) :
    ∃ rounds, 4 * rounds ≤ data.length ∧
      ∀ rounds' result, Runs data rounds' result ↔ rounds' = rounds ∧ result = read data := by
  by_cases hreaches : ReachesSections data
  · obtain ⟨rounds, clauses, hloop, hrounds⟩ :=
      exists_loop data (Bytes.ceil4 (fatBody data []).size)
    have hbound : 4 * rounds ≤ data.length := by
      have hsize : 12 ≤ (fatBody data []).size := by
        have := hreaches.2.2.1
        unfold size
        omega
      have hceil := (Bytes.le_ceil4 (fatBody data []).size).1
      have := hreaches.2.1
      omega
    -- The rounds of any run fit into what is provided for them, so its result is what is read.
    have hresult : ∀ {clauses' : Except Error (List ExceptionClause)},
        Loop data (Bytes.ceil4 (fatBody data []).size) rounds clauses' →
          fatBody data <$> clauses' = read data := by
      intro clauses' hloop'
      rw [read_eq_of_reachesSections hreaches, hloop'.readSections_eq (by omega)]
    refine ⟨rounds, hbound, fun rounds' result => ⟨?_, ?_⟩⟩
    · intro hruns
      cases hruns with
      | straight hnot => exact absurd hreaches hnot
      | sections _ hloop' =>
          obtain rfl := hloop.rounds_unique hloop'
          exact ⟨rfl, hresult hloop'⟩
    · rintro ⟨rfl, rfl⟩
      rw [← hresult hloop]
      exact .sections hreaches hloop
  · refine ⟨0, Nat.zero_le _, fun rounds' result => ⟨?_, ?_⟩⟩
    · intro hruns
      cases hruns with
      | straight => exact ⟨rfl, rfl⟩
      | sections h => exact absurd h hreaches
    · rintro ⟨rfl, rfl⟩
      exact .straight hreaches

/-! ## Positions -/

/-- The tokens of a body are where it says they are: inside the data, and apart from the header,
from the code and from one another. -/
structure Patchable (data : Bytes) (body : MethodBody) : Prop where
  code_inside : body.size ≤ data.length
  locals_in_header : body.isFat = true → localsOffset + 4 ≤ body.headerSize
  locals_token : body.isFat = true → Bytes.le? data 4 localsOffset = some body.localsToken
  clause_inside : ∀ clause ∈ body.clauses, clause.position + 4 ≤ data.length
  clause_token : ∀ clause ∈ body.clauses,
    Bytes.le? data 4 clause.position = some clause.classOrFilter
  clause_behind_header : ∀ clause ∈ body.clauses, body.headerSize ≤ clause.position
  clause_behind_code : ∀ clause ∈ body.clauses, body.size ≤ clause.position
  clauses_apart : body.clauses.Pairwise fun first second => first.position + 4 ≤ second.position

theorem Shape.patchable (h : Shape data body) : Patchable data body := by
  have hsize := h.size_le
  have hextent := h.extent_le
  have hbehind := h.clauses.start_le
  have hinside : ∀ clause ∈ body.clauses, clause.position + 4 ≤ data.length :=
    fun clause hmem => Nat.le_trans (h.clauses.le_stop clause hmem) hextent
  have hlocals : body.isFat = true → localsOffset + 4 ≤ body.headerSize := h.header_le
  refine ⟨by omega, hlocals, fun hfat => ?_, hinside, fun clause hmem => ?_, fun clause hmem => ?_,
    hbehind, h.clauses.apart⟩
  · have hheader := hlocals hfat
    rw [h.locals hfat, Bytes.le?_eq_field]
    unfold size at hsize
    omega
  · rw [Bytes.le?_eq_field (hinside clause hmem)]
    exact congrArg (some ·.classOrFilter) (h.clauses.reread clause hmem)
  · exact Nat.le_trans (Nat.le_add_right _ _) (hbehind clause hmem)

/-! ## Writes -/

/-- A write to one of the sites of a body. -/
inductive SiteWrite where
  /-- Bytes from an offset in the code on. -/
  | code (offset : Nat) (content : Bytes)
  /-- Another token of the local variables. -/
  | locals (token : UInt32)
  /-- Another type, or another start of the filter, of the clause with an index. -/
  | clause (index : Nat) (token : UInt32)
  deriving DecidableEq, Repr

namespace SiteWrite

/-- The body has the site that is written. -/
def Fits (body : MethodBody) : SiteWrite → Prop
  | .code offset content => offset + content.length ≤ body.codeSize
  | .locals _ => body.isFat = true
  | .clause index _ => index < body.clauses.length

/-- The data with what is written at the site of the body. -/
def store (body : MethodBody) (data : Bytes) : SiteWrite → Bytes
  | .code offset content => data.overwrite (body.headerSize + offset) content
  | .locals token => data.overwrite localsOffset (Bytes.leBytes 4 token.toNat)
  | .clause index token =>
    match body.clauses[index]? with
    | some found => data.overwrite found.position (Bytes.leBytes 4 token.toNat)
    | none => data

/-- The body with the token that is written; the code is not part of the layout. -/
def updated (body : MethodBody) : SiteWrite → MethodBody
  | .code _ _ => body
  | .locals token => { body with localsToken := token.toNat }
  | .clause index token =>
    { body with
      clauses := body.clauses.modify index fun found =>
        { found with classOrFilter := token.toNat } }

variable {write : SiteWrite}

/-- A clause stands where it stood after another type was written to some clause. -/
theorem position_updated (write : SiteWrite) (index : Nat) :
    (write.updated body).clauses[index]?.map (·.position) =
      body.clauses[index]?.map (·.position) := by
  cases write with
  | code | locals => rfl
  | clause written token =>
      simp only [updated, List.getElem?_modify]
      cases body.clauses[index]? with
      | none => rfl
      | some found =>
          simp only [Option.map_eq_map, Option.map_some]
          split <;> rfl

/-- A write does not move the sites. -/
theorem store_updated (write other : SiteWrite) (data : Bytes) :
    other.store (write.updated body) data = other.store body data := by
  cases other with
  | code => cases write <;> rfl
  | locals => rfl
  | clause index token =>
      have hposition : (write.updated body).clauses[index]?.map (·.position) =
          body.clauses[index]?.map (·.position) := position_updated write index
      simp only [store]
      generalize (write.updated body).clauses[index]? = found at hposition ⊢
      generalize body.clauses[index]? = found' at hposition ⊢
      cases found <;> cases found' <;> simp_all

theorem fits_updated (write other : SiteWrite) :
    other.Fits (write.updated body) ↔ other.Fits body := by
  cases write <;> cases other <;> simp [Fits, updated]

end SiteWrite

/-- The bytes at the sites are the only ones that a write can change. -/
theorem changedOnly_store (h : Patchable data body) {write : SiteWrite} (hfits : write.Fits body) :
    Bytes.ChangedOnly data (write.store body data) (IsSite body) := by
  have hcode := h.code_inside
  have hsize : body.size = body.headerSize + body.codeSize := rfl
  cases write with
  | code offset content =>
      have hend : offset + content.length ≤ body.codeSize := hfits
      refine (Bytes.changedOnly_overwrite (by omega)).mono fun p hp => .inl ?_
      omega
  | locals token =>
      have hheader := h.locals_in_header hfits
      refine (Bytes.changedOnly_overwrite ?_).mono fun p hp => .inr (.inl ⟨hfits, ?_⟩)
      · rw [Bytes.length_leBytes]
        omega
      · rwa [Bytes.length_leBytes] at hp
  | clause index token =>
      have hindex : index < body.clauses.length := hfits
      have hmem := List.getElem_mem hindex
      have hinside := h.clause_inside _ hmem
      rw [SiteWrite.store, List.getElem?_eq_getElem hindex]
      refine (Bytes.changedOnly_overwrite ?_).mono fun p hp => .inr (.inr ⟨_, hmem, ?_⟩)
      · rwa [Bytes.length_leBytes]
      · rwa [Bytes.length_leBytes] at hp

/-- A written token leaves alone what it is apart from. -/
theorem sameOn_overwrite_token {at' start stop : Nat} (token : UInt32) (h : at' + 4 ≤ data.length)
    (hapart : stop ≤ at' ∨ at' + 4 ≤ start) :
    Bytes.SameOn data (data.overwrite at' (Bytes.leBytes 4 token.toNat)) start stop := by
  have hlength : (Bytes.leBytes 4 token.toNat).length = 4 := Bytes.length_leBytes _ _
  exact Bytes.sameOn_overwrite (by rwa [hlength]) (by rwa [hlength])

/-- Of the clauses, the one whose type was written has another type. -/
theorem reread_store_clause (h : Shape data body) {index : Nat} {token : UInt32}
    (hindex : index < body.clauses.length) :
    body.clauses.map (·.reread ((SiteWrite.clause index token).store body data)) =
      body.clauses.modify index fun clause => { clause with classOrFilter := token.toNat } := by
  have hpatchable := h.patchable
  have hinside := hpatchable.clause_inside _ (List.getElem_mem hindex)
  have hapart := List.pairwise_iff_getElem.mp hpatchable.clauses_apart
  rw [SiteWrite.store, List.getElem?_eq_getElem hindex]
  refine List.ext_getElem (by simp) fun other hother _ => ?_
  rw [List.length_map] at hother
  rw [List.getElem_map, List.getElem_modify]
  split
  · rename_i heq
    subst heq
    rw [ExceptionClause.reread, Bytes.field_overwrite_leBytes hinside token.toNat_lt]
  · rename_i hne
    refine ExceptionClause.reread_of_sameOn (h.clauses.reread _ (List.getElem_mem hother))
      (sameOn_overwrite_token token hinside ?_)
    rcases Nat.lt_or_gt_of_ne hne with hlt | hlt
    · exact .inr (hapart _ _ hindex hother hlt)
    · exact .inl (hapart _ _ hother hindex hlt)

/-- One write changes the token it writes, and nothing else of the body. -/
theorem read_store {write : SiteWrite} (h : read data = .ok body) (hfits : write.Fits body) :
    read (write.store body data) = .ok (write.updated body) := by
  have hshape := shape_of_read h
  have hpatchable := hshape.patchable
  have hchanged := changedOnly_store hpatchable hfits
  have hread := (read_congr h hchanged.1 fun p _ hp => hchanged.2 p hp).1
  have hcode := hpatchable.code_inside
  have hsize : body.size = body.headerSize + body.codeSize := rfl
  suffices hupdated : body.reread (write.store body data) = write.updated body by
    rw [hread, hupdated]
  cases write with
  | code offset content =>
      have hend : offset + content.length ≤ body.codeSize := hfits
      refine reread_eq_self hshape (fun hfat => ?_) fun clause hmem => ?_
      · have := hpatchable.locals_in_header hfat
        exact Bytes.sameOn_overwrite (by omega) (by omega)
      · have := hpatchable.clause_behind_code clause hmem
        exact Bytes.sameOn_overwrite (by omega) (by omega)
  | locals token =>
      have hfat : body.isFat = true := hfits
      have hheader := hpatchable.locals_in_header hfat
      have hclauses : body.clauses.map (·.reread ((SiteWrite.locals token).store body data)) =
          body.clauses := by
        refine (List.map_congr_left fun clause hmem => ?_).trans (List.map_id _)
        have hbehind := hpatchable.clause_behind_header clause hmem
        exact ExceptionClause.reread_of_sameOn (hshape.clauses.reread clause hmem)
          (sameOn_overwrite_token token (by omega) (by omega))
      rw [reread, hclauses, if_pos hfat, SiteWrite.store,
        Bytes.field_overwrite_leBytes (by omega) token.toNat_lt]
      rfl
  | clause index token =>
      have hindex : index < body.clauses.length := hfits
      have hinside := hpatchable.clause_inside _ (List.getElem_mem hindex)
      have hbehind := hpatchable.clause_behind_header _ (List.getElem_mem hindex)
      rw [reread, reread_store_clause hshape hindex, SiteWrite.updated]
      split
      · rename_i hfat
        have hheader := hpatchable.locals_in_header hfat
        rw [SiteWrite.store, List.getElem?_eq_getElem hindex,
          Bytes.field_eq_of_sameOn (sameOn_overwrite_token token hinside (by omega)),
          ← hshape.locals hfat]
      · rfl

/-- After any number of writes the body is the one that was read, with the written tokens. -/
theorem read_stores {writes : List SiteWrite} (h : read data = .ok body)
    (hfits : ∀ write ∈ writes, write.Fits body) :
    read (writes.foldl (SiteWrite.store body) data) =
      .ok (writes.foldl SiteWrite.updated body) := by
  induction writes generalizing data body with
  | nil => exact h
  | cons write writes ih =>
      have hstep := read_store h (hfits write (List.mem_cons_self ..))
      have hrest := ih hstep fun other hmem =>
        (SiteWrite.fits_updated write other).mpr (hfits other (List.mem_cons_of_mem _ hmem))
      -- The positions are those of the body before the writes, as they are never read anew.
      have hsites : SiteWrite.store (write.updated body) = SiteWrite.store body := by
        funext data other
        exact SiteWrite.store_updated write other data
      rwa [hsites] at hrest

/-- Reading a body ends on every byte string: it has one run, and the data bounds how many sections
that looks at.  If there is a body, its tokens are where it says, and after any writes to its code
and its tokens the same body is read with the written tokens. -/
theorem read_patchable (data : Bytes) :
    (∃ rounds, 4 * rounds ≤ data.length ∧
      ∀ rounds' result, Runs data rounds' result ↔ rounds' = rounds ∧ result = read data) ∧
    ∀ body, read data = .ok body →
      Patchable data body ∧
      ∀ writes : List SiteWrite, (∀ write ∈ writes, write.Fits body) →
        read (writes.foldl (SiteWrite.store body) data) =
          .ok (writes.foldl SiteWrite.updated body) :=
  ⟨exists_runs data, fun _ h => ⟨(shape_of_read h).patchable, fun _ hfits => read_stores h hfits⟩⟩

/-- Six bytes of code, with a section of short clauses and one of long clauses behind them. -/
def guardedBody : Bytes :=
  [0x1B, 0x30, 0x02, 0x00, 0x06, 0x00, 0x00, 0x00, 0x01, 0x00, 0x00, 0x11,
    0x00, 0x00, 0xDE, 0x02, 0x26, 0x2A, 0x00, 0x00,
    0x81, 0x10, 0x00, 0x00, 0x00, 0x00, 0x00, 0x00, 0x02, 0x02, 0x00, 0x02, 0x05, 0x00, 0x00, 0x01,
    0x41, 0x1C, 0x00, 0x00, 0x00, 0x00, 0x00, 0x00, 0x00, 0x00, 0x00, 0x00, 0x02, 0x00, 0x00, 0x00,
    0x04, 0x00, 0x00, 0x00, 0x01, 0x00, 0x00, 0x00, 0x07, 0x00, 0x00, 0x01]

/-- Of two clauses the second is given another type, twice, and so are the local variables; the code
is overwritten in between. -/
theorem read_patchable_guardedBody :
    read guardedBody = .ok ⟨6, 12, 0x11000001, 2, true, true,
        [⟨0, 0, 2, 2, 2, 0x01000005, 32⟩, ⟨0, 0, 2, 4, 1, 0x01000007, 60⟩]⟩ ∧
      (∃ rounds, 4 * rounds ≤ 64 ∧ Runs guardedBody rounds (read guardedBody)) ∧
      ∃ body, read guardedBody = .ok body ∧ Patchable guardedBody body ∧
        read ([.clause 1 0x02000003, .code 2 [0x17, 0x58, 0x26], .locals 0x11000002,
            .clause 1 0x02000004].foldl (SiteWrite.store body) guardedBody) =
          .ok ⟨6, 12, 0x11000002, 2, true, true,
            [⟨0, 0, 2, 2, 2, 0x01000005, 32⟩, ⟨0, 0, 2, 4, 1, 0x02000004, 60⟩]⟩ := by
  have hread : read guardedBody = .ok ⟨6, 12, 0x11000001, 2, true, true,
      [⟨0, 0, 2, 2, 2, 0x01000005, 32⟩, ⟨0, 0, 2, 4, 1, 0x01000007, 60⟩]⟩ := by decide +kernel
  obtain ⟨⟨rounds, hrounds, hruns⟩, hpatch⟩ := read_patchable guardedBody
  obtain ⟨hpatchable, hwrites⟩ := hpatch _ hread
  refine ⟨hread, ⟨rounds, hrounds, (hruns _ _).mpr ⟨rfl, rfl⟩⟩, _, hread, hpatchable, ?_⟩
  refine hwrites _ fun write hmem => ?_
  simp only [List.mem_cons, List.not_mem_nil, or_false] at hmem
  rcases hmem with rfl | rfl | rfl | rfl <;> simp [SiteWrite.Fits]

end NativeExports.MethodBody
