import NativeExports.Code.MethodBody
import NativeExports.Proofs.Outcome
import NativeExports.Proofs.Windows

/-!
# Where the tokens of a method body stand

A body is read from a byte string.  Three kinds of bytes in it do not bear on its layout: the code,
the token of the local variables, and the types that exception clauses name.  These are the sites
of a body.  Whatever is written there, reading again gives the same layout with the tokens that now
stand at the sites.  The sites do not overlap one another.
-/

namespace NativeExports

/-- The clause with the type that `data` holds at its position. -/
def ExceptionClause.reread (data : Bytes) (clause : ExceptionClause) : ExceptionClause :=
  { clause with classOrFilter := Bytes.field data clause.position 4 }

/-- A clause keeps its type if the bytes that hold it stay. -/
theorem ExceptionClause.reread_of_sameOn {data other : Bytes} {clause : ExceptionClause}
    (hself : clause.reread data = clause)
    (h : Bytes.SameOn data other clause.position (clause.position + 4)) :
    clause.reread other = clause := by
  rw [reread] at hself ⊢
  rw [Bytes.field_eq_of_sameOn h]
  exact hself

namespace MethodBody

/-! ## Exception clauses -/

/-- The size of a clause in a section. -/
def clauseSize (fat : Bool) : Nat :=
  if fat then 24 else 12

/-- The clause of a section that stands at `start`. -/
def clauseAt (data : Bytes) (fat : Bool) (start : Nat) : ExceptionClause :=
  if fat then fatClause data start else smallClause data start

theorem sectionClauses_eq (data : Bytes) (fat : Bool) (cursor size : Nat) :
    sectionClauses data fat cursor size =
      (List.range ((size - 4) / clauseSize fat)).map fun n =>
        clauseAt data fat (cursor + 4 + n * clauseSize fat) := by
  cases fat <;> rfl

/-- A clause ends with the type it names. -/
theorem position_clauseAt (data : Bytes) (fat : Bool) (start : Nat) :
    (clauseAt data fat start).position + 4 = start + clauseSize fat := by
  cases fat <;> rfl

theorem reread_clauseAt (data : Bytes) (fat : Bool) (start : Nat) :
    (clauseAt data fat start).reread data = clauseAt data fat start := by
  cases fat <;> rfl

theorem clauseAt_of_sameOn {data other : Bytes} {fat : Bool} {start : Nat}
    (h : Bytes.SameOn data other start (clauseAt data fat start).position) :
    clauseAt other fat start = (clauseAt data fat start).reread other := by
  cases fat with
  | true =>
      have hfield : ∀ at' width, start ≤ at' → at' + width ≤ start + 20 →
          Bytes.field other at' width = Bytes.field data at' width :=
        fun at' width hlo hhi => Bytes.field_eq_of_sameOn (h.mono hlo hhi)
      simp only [clauseAt, if_true, fatClause, ExceptionClause.reread]
      rw [hfield start 2, hfield (start + 4) 4, hfield (start + 8) 4, hfield (start + 12) 4,
        hfield (start + 16) 4] <;> omega
  | false =>
      have hfield : ∀ at' width, start ≤ at' → at' + width ≤ start + 8 →
          Bytes.field other at' width = Bytes.field data at' width :=
        fun at' width hlo hhi => Bytes.field_eq_of_sameOn (h.mono hlo hhi)
      simp only [clauseAt, Bool.false_eq_true, if_false, smallClause, ExceptionClause.reread]
      rw [hfield start 2, hfield (start + 2) 2, hfield (start + 4) 1, hfield (start + 5) 2,
        hfield (start + 7) 1] <;> omega

/-! ## Sections -/

/-- The size that a section announces. -/
def sectionSize (data : Bytes) (cursor : Nat) : Nat :=
  if (Bytes.field data cursor 1).testBit fatSectionBit then Bytes.field data (cursor + 1) 3
  else Bytes.field data (cursor + 1) 1

/-- Where the sections from `cursor` on end. -/
def sectionsEnd (data : Bytes) : Nat → Nat → Nat
  | 0, cursor => cursor
  | fuel + 1, cursor =>
    if (Bytes.field data cursor 1).testBit moreBit then
      sectionsEnd data fuel (Bytes.ceil4 (cursor + sectionSize data cursor))
    else cursor + sectionSize data cursor

/-- The clauses that the section at `cursor` holds. -/
def clausesOfSection (data : Bytes) (cursor : Nat) : List ExceptionClause :=
  sectionClauses data ((Bytes.field data cursor 1).testBit fatSectionBit) cursor
    (sectionSize data cursor)

theorem readSections_succ (data : Bytes) (limit fuel cursor : Nat) :
    readSections data limit (fuel + 1) cursor =
      if limit < cursor + 4 then .error .outOfBounds
      else if !(Bytes.field data cursor 1).testBit exceptionTableBit then
        .error (.malformed (.bodySection (sectionFlags (Bytes.field data cursor 1))))
      else if sectionSize data cursor < 4 ∨ limit < cursor + sectionSize data cursor then
        .error .outOfBounds
      else if (Bytes.field data cursor 1).testBit moreBit then do
        let rest ← readSections data limit fuel (Bytes.ceil4 (cursor + sectionSize data cursor))
        return clausesOfSection data cursor ++ rest
      else .ok (clausesOfSection data cursor) := by
  rw [readSections]
  by_cases hcursor : limit < cursor + 4
  · rw [if_pos hcursor, if_pos hcursor]
    rfl
  rw [if_neg hcursor, if_neg hcursor]
  by_cases htable : (!(Bytes.field data cursor 1).testBit exceptionTableBit) = true
  · simp only [if_pos htable]
    rfl
  simp only [if_neg htable]
  by_cases hsize : sectionSize data cursor < 4 ∨ limit < cursor + sectionSize data cursor
  · rw [if_pos hsize]
    exact if_pos hsize
  · rw [if_neg hsize]
    exact if_neg hsize

/-- Sections are read one after the other. -/
theorem readSections_eq_ok {data : Bytes} {limit fuel cursor : Nat}
    {clauses : List ExceptionClause} :
    readSections data limit (fuel + 1) cursor = .ok clauses ↔
      cursor + 4 ≤ limit ∧ (Bytes.field data cursor 1).testBit exceptionTableBit = true ∧
      4 ≤ sectionSize data cursor ∧ cursor + sectionSize data cursor ≤ limit ∧
      ∃ rest, clauses = clausesOfSection data cursor ++ rest ∧
        (((Bytes.field data cursor 1).testBit moreBit = true ∧
          readSections data limit fuel
            (Bytes.ceil4 (cursor + sectionSize data cursor)) = .ok rest) ∨
        ((Bytes.field data cursor 1).testBit moreBit = false ∧ rest = [])) := by
  rw [readSections_succ]
  constructor
  · intro h
    split at h
    · cases h
    split at h
    · cases h
    split at h
    · cases h
    rename_i hcursor htable hsize
    refine ⟨by omega, by simpa using htable, by omega, by omega, ?_⟩
    split at h
    · rename_i hmore
      obtain ⟨rest, hrest, h⟩ := Outcome.bind_eq_ok.mp h
      exact ⟨rest, (Outcome.pure_eq_ok.mp h).symm, .inl ⟨hmore, hrest⟩⟩
    · rename_i hmore
      exact ⟨[], by simpa using h.symm, .inr ⟨by simpa using hmore, rfl⟩⟩
  · rintro ⟨hcursor, htable, hsize, hlimit, rest, rfl, ⟨hmore, hrest⟩ | ⟨hlast, rfl⟩⟩
    · rw [if_neg (by omega), if_neg (by simp [htable]), if_neg (by omega), if_pos hmore, hrest]
      rfl
    · rw [if_neg (by omega), if_neg (by simp [htable]), if_neg (by omega), if_neg (by simp [hlast]),
        List.append_nil]

/-- Clauses that were read from the bytes of `data` between `start` and `stop`, one behind the
other. -/
structure ReadBetween (data : Bytes) (start stop : Nat)
    (clauses : List ExceptionClause) : Prop where
  reread : ∀ clause ∈ clauses, clause.reread data = clause
  start_le : ∀ clause ∈ clauses, start ≤ clause.position
  le_stop : ∀ clause ∈ clauses, clause.position + 4 ≤ stop
  apart : clauses.Pairwise fun first second => first.position + 4 ≤ second.position

theorem ReadBetween.nil (data : Bytes) (start stop : Nat) : ReadBetween data start stop [] :=
  ⟨nofun, nofun, nofun, .nil⟩

theorem ReadBetween.append {data : Bytes} {start mid mid' stop : Nat}
    {clauses others : List ExceptionClause} (h : ReadBetween data start mid clauses)
    (h' : ReadBetween data mid' stop others) (hstart : start ≤ mid) (hmid : mid ≤ mid')
    (hstop : mid' ≤ stop) : ReadBetween data start stop (clauses ++ others) where
  reread := by
    intro clause hmem
    rcases List.mem_append.mp hmem with hmem | hmem
    · exact h.reread clause hmem
    · exact h'.reread clause hmem
  start_le := by
    intro clause hmem
    rcases List.mem_append.mp hmem with hmem | hmem
    · exact h.start_le clause hmem
    · have := h'.start_le clause hmem
      omega
  le_stop := by
    intro clause hmem
    rcases List.mem_append.mp hmem with hmem | hmem
    · have := h.le_stop clause hmem
      omega
    · exact h'.le_stop clause hmem
  apart := by
    refine List.pairwise_append.mpr ⟨h.apart, h'.apart, fun first hfirst second hsecond => ?_⟩
    have := h.le_stop first hfirst
    have := h'.start_le second hsecond
    omega

theorem readBetween_clausesOfSection (data : Bytes) (cursor : Nat) :
    ReadBetween data (cursor + 4) (cursor + sectionSize data cursor)
      (clausesOfSection data cursor) := by
  rw [clausesOfSection, sectionClauses_eq]
  generalize (Bytes.field data cursor 1).testBit fatSectionBit = fat
  generalize sectionSize data cursor = size
  have hposition : ∀ n, (clauseAt data fat (cursor + 4 + n * clauseSize fat)).position + 4 =
      cursor + 4 + n * clauseSize fat + clauseSize fat := fun n => position_clauseAt ..
  have hwidth : 4 ≤ clauseSize fat := by
    cases fat <;> decide
  refine ⟨?_, ?_, ?_, ?_⟩
  · intro clause hmem
    obtain ⟨n, -, rfl⟩ := List.mem_map.mp hmem
    exact reread_clauseAt ..
  · intro clause hmem
    obtain ⟨n, -, rfl⟩ := List.mem_map.mp hmem
    have := hposition n
    omega
  · intro clause hmem
    obtain ⟨n, hn, rfl⟩ := List.mem_map.mp hmem
    have hlast : (n + 1) * clauseSize fat ≤ size - 4 :=
      Nat.le_trans (Nat.mul_le_mul_right _ (List.mem_range.mp hn)) (Nat.div_mul_le_self _ _)
    rw [Nat.succ_mul] at hlast
    have := hposition n
    omega
  · refine List.pairwise_map.mpr (List.pairwise_lt_range.imp fun {n m} hlt => ?_)
    have hnext : (n + 1) * clauseSize fat ≤ m * clauseSize fat := Nat.mul_le_mul_right _ hlt
    rw [Nat.succ_mul] at hnext
    have := hposition n
    have := hposition m
    omega

theorem readBetween_of_readSections {data : Bytes} {limit fuel cursor : Nat}
    {clauses : List ExceptionClause} (h : readSections data limit fuel cursor = .ok clauses) :
    cursor + 4 ≤ sectionsEnd data fuel cursor ∧ sectionsEnd data fuel cursor ≤ limit ∧
      ReadBetween data (cursor + 4) (sectionsEnd data fuel cursor) clauses := by
  induction fuel generalizing cursor clauses with
  | zero => cases h
  | succ fuel ih =>
      obtain ⟨-, -, hsize, hlimit, rest, rfl, hmore | hlast⟩ := readSections_eq_ok.mp h
      · obtain ⟨hmore, hrest⟩ := hmore
        obtain ⟨hstart, hstop, hread⟩ := ih hrest
        have hceil := (Bytes.le_ceil4 (cursor + sectionSize data cursor)).1
        rw [sectionsEnd, if_pos hmore]
        refine ⟨by omega, hstop, ?_⟩
        exact (readBetween_clausesOfSection data cursor).append hread (by omega) (by omega) hstart
      · obtain ⟨hlast, rfl⟩ := hlast
        rw [sectionsEnd, if_neg (by simp [hlast]), List.append_nil]
        exact ⟨by omega, hlimit, readBetween_clausesOfSection data cursor⟩

/-- The first section ends no later than all sections do. -/
theorem section_le_sectionsEnd {data : Bytes} {limit fuel cursor : Nat}
    {clauses : List ExceptionClause} (h : readSections data limit (fuel + 1) cursor = .ok clauses) :
    cursor + sectionSize data cursor ≤ sectionsEnd data (fuel + 1) cursor := by
  obtain ⟨-, -, -, -, rest, -, ⟨hmore, hrest⟩ | ⟨hlast, -⟩⟩ := readSections_eq_ok.mp h
  · have hceil := (Bytes.le_ceil4 (cursor + sectionSize data cursor)).1
    have hstart := (readBetween_of_readSections hrest).1
    rw [sectionsEnd, if_pos hmore]
    omega
  · exact Nat.le_of_eq (by rw [sectionsEnd, if_neg (by simp [hlast])])

/-- A position that holds a byte of the type of a clause. -/
def InClause (clauses : List ExceptionClause) (p : Nat) : Prop :=
  ∃ clause ∈ clauses, clause.position ≤ p ∧ p < clause.position + 4

theorem not_inClause_append {clauses others : List ExceptionClause} {p : Nat}
    (h : ¬InClause clauses p) (h' : ¬InClause others p) : ¬InClause (clauses ++ others) p := by
  rintro ⟨clause, hmem, hin⟩
  rcases List.mem_append.mp hmem with hmem | hmem
  · exact h ⟨clause, hmem, hin⟩
  · exact h' ⟨clause, hmem, hin⟩

theorem ReadBetween.not_inClause_of_lt {data : Bytes} {start stop p : Nat}
    {clauses : List ExceptionClause} (h : ReadBetween data start stop clauses) (hp : p < start) :
    ¬InClause clauses p := by
  rintro ⟨clause, hmem, hlo, -⟩
  have := h.start_le clause hmem
  omega

theorem ReadBetween.not_inClause_of_le {data : Bytes} {start stop p : Nat}
    {clauses : List ExceptionClause} (h : ReadBetween data start stop clauses) (hp : stop ≤ p) :
    ¬InClause clauses p := by
  rintro ⟨clause, hmem, -, hhi⟩
  have := h.le_stop clause hmem
  omega

/-- In front of its type, a clause holds nothing of the type of another clause. -/
theorem not_inClause_of_lt {data : Bytes} {cursor n p : Nat}
    (hn : n < (sectionSize data cursor - 4) /
      clauseSize ((Bytes.field data cursor 1).testBit fatSectionBit))
    (hlo : cursor + 4 + n * clauseSize ((Bytes.field data cursor 1).testBit fatSectionBit) ≤ p)
    (hhi : p < (clauseAt data ((Bytes.field data cursor 1).testBit fatSectionBit)
      (cursor + 4 + n * clauseSize ((Bytes.field data cursor 1).testBit fatSectionBit))).position) :
    ¬InClause (clausesOfSection data cursor) p := by
  rw [clausesOfSection, sectionClauses_eq]
  generalize (Bytes.field data cursor 1).testBit fatSectionBit = fat at *
  rintro ⟨clause, hmem, hstart, hstop⟩
  obtain ⟨m, hm, rfl⟩ := List.mem_map.mp hmem
  have hposition : ∀ n, (clauseAt data fat (cursor + 4 + n * clauseSize fat)).position + 4 =
      cursor + 4 + n * clauseSize fat + clauseSize fat := fun n => position_clauseAt ..
  have hat := hposition n
  have hat' := hposition m
  rcases Nat.lt_trichotomy m n with hlt | rfl | hlt
  · have hnext : (m + 1) * clauseSize fat ≤ n * clauseSize fat := Nat.mul_le_mul_right _ hlt
    rw [Nat.succ_mul] at hnext
    omega
  · omega
  · have hnext : (n + 1) * clauseSize fat ≤ m * clauseSize fat := Nat.mul_le_mul_right _ hlt
    rw [Nat.succ_mul] at hnext
    have hwidth : 4 ≤ clauseSize fat := by
      cases fat <;> decide
    omega

theorem sectionHead_congr {data other : Bytes} {cursor : Nat}
    (h : Bytes.SameOn data other cursor (cursor + 4)) :
    Bytes.field other cursor 1 = Bytes.field data cursor 1 ∧
      sectionSize other cursor = sectionSize data cursor := by
  have hflags : Bytes.field other cursor 1 = Bytes.field data cursor 1 :=
    Bytes.field_eq_of_sameOn (h.mono (by omega) (by omega))
  refine ⟨hflags, ?_⟩
  rw [sectionSize, sectionSize, hflags,
    Bytes.field_eq_of_sameOn (h.mono (Nat.le_succ _) (by omega : cursor + 1 + 3 ≤ _)),
    Bytes.field_eq_of_sameOn (h.mono (Nat.le_succ _) (by omega : cursor + 1 + 1 ≤ _))]

theorem clausesOfSection_congr {data other : Bytes} {cursor : Nat}
    (hhead : Bytes.SameOn data other cursor (cursor + 4))
    (hagree : ∀ p, cursor ≤ p → p < cursor + sectionSize data cursor →
      ¬InClause (clausesOfSection data cursor) p → other[p]? = data[p]?) :
    clausesOfSection other cursor = (clausesOfSection data cursor).map (·.reread other) := by
  obtain ⟨hflags, hsize⟩ := sectionHead_congr hhead
  have hbetween := readBetween_clausesOfSection data cursor
  rw [clausesOfSection, hflags, hsize, sectionClauses_eq]
  conv_rhs => rw [clausesOfSection, sectionClauses_eq, List.map_map]
  refine List.map_congr_left fun n hn => ?_
  rw [List.mem_range] at hn
  refine clauseAt_of_sameOn fun p hlo hhi => hagree p (by omega) ?_ (not_inClause_of_lt hn hlo hhi)
  have hmem : clauseAt data ((Bytes.field data cursor 1).testBit fatSectionBit)
      (cursor + 4 + n * clauseSize ((Bytes.field data cursor 1).testBit fatSectionBit)) ∈
        clausesOfSection data cursor := by
    rw [clausesOfSection, sectionClauses_eq]
    exact List.mem_map.mpr ⟨n, List.mem_range.mpr hn, rfl⟩
  have := hbetween.le_stop _ hmem
  omega

/-- Sections are found where they were when the types of their clauses change. -/
theorem readSections_congr {data other : Bytes} {limit fuel cursor : Nat}
    {clauses : List ExceptionClause} (h : readSections data limit fuel cursor = .ok clauses)
    (hagree : ∀ p, cursor ≤ p → p < sectionsEnd data fuel cursor → ¬InClause clauses p →
      other[p]? = data[p]?) :
    readSections other limit fuel cursor = .ok (clauses.map (·.reread other)) ∧
      sectionsEnd other fuel cursor = sectionsEnd data fuel cursor := by
  induction fuel generalizing cursor clauses with
  | zero => cases h
  | succ fuel ih =>
      obtain ⟨hstart, -, hread⟩ := readBetween_of_readSections h
      have hstop := section_le_sectionsEnd h
      have hfirst := readBetween_clausesOfSection data cursor
      have hceil := (Bytes.le_ceil4 (cursor + sectionSize data cursor)).1
      have hhead : Bytes.SameOn data other cursor (cursor + 4) := fun p hlo hhi =>
        hagree p hlo (by omega) (hread.not_inClause_of_lt hhi)
      obtain ⟨hflags, hsize⟩ := sectionHead_congr hhead
      obtain ⟨hcursor, htable, hfour, hlimit, rest, rfl, hrest⟩ := readSections_eq_ok.mp h
      have hbehind : ∀ p, p < cursor + sectionSize data cursor → ¬InClause rest p := by
        intro p hp
        rcases hrest with ⟨-, hrest⟩ | ⟨-, rfl⟩
        · exact (readBetween_of_readSections hrest).2.2.not_inClause_of_lt (by omega)
        · exact (ReadBetween.nil data (p + 1) 0).not_inClause_of_lt (Nat.lt_succ_self p)
      have hsection : clausesOfSection other cursor =
          (clausesOfSection data cursor).map (·.reread other) :=
        clausesOfSection_congr hhead fun p hlo hhi hnot =>
          hagree p hlo (by omega) (not_inClause_append hnot (hbehind p hhi))
      rw [readSections_eq_ok, sectionsEnd, sectionsEnd, hflags, hsize, hsection, List.map_append]
      rcases hrest with ⟨hmore, hrest⟩ | ⟨hlast, rfl⟩
      · rw [sectionsEnd, if_pos hmore] at hagree hstop
        obtain ⟨hreads, hends⟩ := ih hrest fun p hlo hhi hnot =>
          hagree p (by omega) hhi (not_inClause_append (hfirst.not_inClause_of_le (by omega)) hnot)
        rw [if_pos hmore, if_pos hmore]
        exact ⟨⟨hcursor, htable, hfour, hlimit, _, rfl, .inl ⟨hmore, hreads⟩⟩, hends⟩
      · rw [if_neg (by simp [hlast]), if_neg (by simp [hlast])]
        exact ⟨⟨hcursor, htable, hfour, hlimit, _, rfl, .inr ⟨hlast, rfl⟩⟩, rfl⟩

/-! ## Bodies -/

/-- Whether exception clauses stand behind the code of a body with a large header. -/
def hasSections (data : Bytes) : Bool :=
  (Bytes.field data 0 2).testBit moreSectionsBit

/-- How many bytes of `data` the body takes that it begins with. -/
def extent (data : Bytes) (body : MethodBody) : Nat :=
  if body.isFat ∧ hasSections data then sectionsEnd data data.length (Bytes.ceil4 body.size)
  else body.size

theorem readTiny_eq_ok {data : Bytes} {lead : Nat} {body : MethodBody} :
    readTiny data lead = .ok body ↔
      lead / 4 + 1 ≤ data.length ∧ body = ⟨lead / 4, 1, 0, 8, false, false, []⟩ := by
  unfold readTiny
  simp only [List.length_take]
  constructor
  · intro h
    split at h
    · cases h
    · exact ⟨by omega, (Except.ok.inj h).symm⟩
  · rintro ⟨hlength, rfl⟩
    rw [if_neg (by omega)]

/-- The layout of a body with a large header, given its exception clauses. -/
def fatBody (data : Bytes) (clauses : List ExceptionClause) : MethodBody :=
  ⟨Bytes.field data 4 4, Bytes.field data 0 2 / 0x1000 * 4, Bytes.field data localsOffset 4,
    Bytes.field data 2 2, true, (Bytes.field data 0 2).testBit initLocalsBit, clauses⟩

theorem readFat_eq (data : Bytes) :
    readFat data =
      if data.length < 12 then .error .outOfBounds
      else if (fatBody data []).headerSize < 12 then
        .error (.malformed (.bodyHeaderSize (fatBody data []).headerSize))
      else if data.length < (fatBody data []).size then .error .outOfBounds
      else if hasSections data then
        fatBody data <$>
          readSections data data.length data.length (Bytes.ceil4 (fatBody data []).size)
      else .ok (fatBody data []) := by
  rw [readFat]
  by_cases hlimit : data.length < 12
  · rw [if_pos hlimit, if_pos hlimit]
    rfl
  rw [if_neg hlimit, if_neg hlimit]
  by_cases hheader : (fatBody data []).headerSize < 12
  · rw [if_pos hheader]
    exact if_pos hheader
  rw [if_neg hheader]
  have hsize : (fatBody data []).size =
      Bytes.field data 0 2 / 0x1000 * 4 + Bytes.field data 4 4 := rfl
  by_cases hlength : data.length < (fatBody data []).size
  · rw [if_pos hlength]
    refine (if_neg hheader).trans (if_pos ?_)
    omega
  rw [if_neg hlength]
  refine (if_neg hheader).trans ((if_neg ?_).trans ?_)
  · omega
  by_cases hsections : hasSections data
  · rw [if_pos hsections]
    simp only [pure_bind]
    rw [if_pos (by exact hsections)]
    rfl
  · rw [if_neg hsections]
    simp only [pure_bind]
    rw [if_neg (by exact hsections)]
    rfl

theorem readFat_eq_ok {data : Bytes} {body : MethodBody} :
    readFat data = .ok body ↔
      12 ≤ data.length ∧ ∃ clauses, body = fatBody data clauses ∧ 12 ≤ body.headerSize ∧
        body.size ≤ data.length ∧
        ((hasSections data = true ∧
          readSections data data.length data.length (Bytes.ceil4 body.size) = .ok clauses) ∨
        (hasSections data = false ∧ clauses = [])) := by
  rw [readFat_eq]
  constructor
  · intro h
    split at h
    · cases h
    split at h
    · cases h
    split at h
    · cases h
    rename_i hlimit hheader hlength
    refine ⟨by omega, ?_⟩
    split at h
    · rename_i hsections
      obtain ⟨clauses, hclauses, rfl⟩ := Outcome.map_eq_ok.mp h
      exact ⟨clauses, rfl, Nat.le_of_not_lt hheader, Nat.le_of_not_lt hlength,
        .inl ⟨hsections, hclauses⟩⟩
    · rename_i hsections
      obtain rfl := Except.ok.inj h
      exact ⟨[], rfl, Nat.le_of_not_lt hheader, Nat.le_of_not_lt hlength,
        .inr ⟨by simpa using hsections, rfl⟩⟩
  · rintro ⟨hlimit, clauses, rfl, hheader, hlength, hsections⟩
    have hheader' : ¬(fatBody data []).headerSize < 12 := Nat.not_lt.mpr hheader
    have hlength' : ¬data.length < (fatBody data []).size := Nat.not_lt.mpr hlength
    rw [if_neg (Nat.not_lt.mpr hlimit), if_neg hheader', if_neg hlength']
    rcases hsections with ⟨hsections, hclauses⟩ | ⟨hsections, rfl⟩
    · rw [if_pos hsections]
      exact Outcome.map_eq_ok.mpr ⟨clauses, hclauses, rfl⟩
    · rw [if_neg (by simp [hsections])]

theorem read_eq_ok {data : Bytes} {body : MethodBody} :
    read data = .ok body ↔
      (data ≠ [] ∧ Bytes.field data 0 1 % 4 = tinyFormat ∧
        readTiny data (Bytes.field data 0 1) = .ok body) ∨
      (data ≠ [] ∧ Bytes.field data 0 1 % 4 = fatFormat ∧ readFat data = .ok body) := by
  cases data with
  | nil => simp [read]
  | cons lead rest =>
      have hlead : Bytes.field (lead :: rest) 0 1 = lead.toNat := by
        simp [Bytes.field, Bytes.leValue]
      rw [hlead, read]
      by_cases htiny : lead.toNat % 4 = tinyFormat
      · rw [if_pos htiny, htiny]
        simp [tinyFormat, fatFormat]
      · rw [if_neg htiny]
        by_cases hfat : lead.toNat % 4 = fatFormat
        · rw [if_pos hfat, hfat]
          simp [tinyFormat, fatFormat]
        · rw [if_neg hfat]
          simp [htiny, hfat]

/-- How the parts of the body that `data` begins with lie. -/
structure Shape (data : Bytes) (body : MethodBody) : Prop where
  header_pos : 0 < body.headerSize
  header_le : body.isFat = true → 12 ≤ body.headerSize
  locals : body.isFat = true → body.localsToken = Bytes.field data localsOffset 4
  size_le : body.size ≤ extent data body
  extent_le : extent data body ≤ data.length
  clauses : ReadBetween data body.size (extent data body) body.clauses

theorem shape_of_read {data : Bytes} {body : MethodBody} (h : read data = .ok body) :
    Shape data body := by
  rcases read_eq_ok.mp h with ⟨-, -, h⟩ | ⟨-, -, h⟩
  · obtain ⟨hlength, rfl⟩ := readTiny_eq_ok.mp h
    refine ⟨Nat.one_pos, nofun, nofun, Nat.le_refl _, ?_, .nil ..⟩
    change 1 + Bytes.field data 0 1 / 4 ≤ data.length
    omega
  · obtain ⟨-, clauses, rfl, hheader, hsize, ⟨hsections, hclauses⟩ | ⟨hsections, rfl⟩⟩ :=
      readFat_eq_ok.mp h
    · have hextent : extent data (fatBody data clauses) =
          sectionsEnd data data.length (Bytes.ceil4 (fatBody data clauses).size) :=
        if_pos ⟨rfl, hsections⟩
      have hceil := (Bytes.le_ceil4 (fatBody data clauses).size).1
      obtain ⟨hstart, hstop, hread⟩ := readBetween_of_readSections hclauses
      refine ⟨by omega, fun _ => hheader, fun _ => rfl, by omega, by omega, ?_⟩
      rw [hextent]
      exact (ReadBetween.nil data _ _).append hread (Nat.le_refl _) (by omega) hstart
    · have hextent : extent data (fatBody data []) = (fatBody data []).size :=
        if_neg (by simp [hsections])
      rw [← hextent] at hsize
      exact ⟨by omega, fun _ => hheader, fun _ => rfl, by omega, hsize, .nil ..⟩

theorem localsToken_lt {data : Bytes} {body : MethodBody} (h : read data = .ok body) :
    body.localsToken < 2 ^ 32 := by
  rcases read_eq_ok.mp h with ⟨-, -, h⟩ | ⟨-, -, h⟩
  · obtain ⟨-, rfl⟩ := readTiny_eq_ok.mp h
    exact Nat.two_pow_pos 32
  · obtain ⟨-, clauses, rfl, -⟩ := readFat_eq_ok.mp h
    exact Bytes.field_lt ..

/-- A position of a body that does not bear on its layout: in the code, in the token of the local
variables, or in the type that an exception clause names. -/
def IsSite (body : MethodBody) (p : Nat) : Prop :=
  (body.headerSize ≤ p ∧ p < body.size) ∨
    (body.isFat = true ∧ localsOffset ≤ p ∧ p < localsOffset + 4) ∨ InClause body.clauses p

theorem Shape.lt_extent {data : Bytes} {body : MethodBody} (h : Shape data body) {p : Nat}
    (hp : IsSite body p) : p < extent data body := by
  have hsize := h.size_le
  rcases hp with ⟨-, hhi⟩ | ⟨hfat, -, hhi⟩ | ⟨clause, hmem, -, hhi⟩
  · omega
  · have := h.header_le hfat
    unfold size at hsize
    unfold localsOffset at hhi
    omega
  · have := h.clauses.le_stop clause hmem
    omega

/-- The layout of a body with the tokens that `data` holds. -/
def reread (data : Bytes) (body : MethodBody) : MethodBody :=
  { body with
    localsToken := if body.isFat then Bytes.field data localsOffset 4 else body.localsToken
    clauses := body.clauses.map (·.reread data) }

theorem not_isSite_of_lt {data : Bytes} {body : MethodBody} (h : Shape data body) {p : Nat}
    (hp : p < body.headerSize) (hlocals : body.isFat = true → p < localsOffset ∨
      localsOffset + 4 ≤ p) : ¬IsSite body p := by
  rintro (⟨hlo, -⟩ | ⟨hfat, hlo, hhi⟩ | ⟨clause, hmem, hlo, -⟩)
  · omega
  · have := hlocals hfat
    omega
  · have := h.clauses.start_le clause hmem
    unfold size at this
    omega

/-- A field of the header in front of the local variables is no site. -/
theorem Shape.field_congr {data other : Bytes} {body : MethodBody} (h : Shape data body)
    (hagree : ∀ p, p < extent data body → ¬IsSite body p → other[p]? = data[p]?) {start width : Nat}
    (hheader : start + width ≤ body.headerSize) (hlocals : start + width ≤ localsOffset) :
    Bytes.field other start width = Bytes.field data start width := by
  have hsize : body.size = body.headerSize + body.codeSize := rfl
  have hextent := h.size_le
  refine Bytes.field_eq_of_sameOn fun p _ hp => hagree p (by omega) ?_
  exact not_isSite_of_lt h (by omega) fun _ => .inl (by omega)

theorem reread_fatBody {data other : Bytes} (clauses : List ExceptionClause)
    (hfields : ∀ start width, start + width ≤ localsOffset →
      Bytes.field other start width = Bytes.field data start width) :
    (fatBody data clauses).reread other = fatBody other (clauses.map (·.reread other)) := by
  simp only [reread, fatBody, if_true]
  rw [hfields 4 4 (by decide), hfields 0 2 (by decide), hfields 2 2 (by decide)]

/-- A body with a large header keeps its layout when its sites change. -/
theorem readFat_congr {data other : Bytes} {body : MethodBody} (h : readFat data = .ok body)
    (hshape : Shape data body) (hlength : other.length = data.length)
    (hagree : ∀ p, p < extent data body → ¬IsSite body p → other[p]? = data[p]?) :
    readFat other = .ok (body.reread other) ∧
      extent other (body.reread other) = extent data body := by
  obtain ⟨htwelve, clauses, rfl, hheader, hlimit, hsections⟩ := readFat_eq_ok.mp h
  have hfields : ∀ start width, start + width ≤ localsOffset →
      Bytes.field other start width = Bytes.field data start width := fun start width hbound =>
    hshape.field_congr hagree (Nat.le_trans hbound (Nat.le_trans (by decide) hheader)) hbound
  have hreread := reread_fatBody clauses hfields
  have hbit : hasSections other = hasSections data := by
    rw [hasSections, hasSections, hfields 0 2 (by decide)]
  have hsize : (fatBody other (clauses.map (·.reread other))).size =
      (fatBody data clauses).size := by
    rw [← hreread]
    rfl
  have hheader' : 12 ≤ (fatBody other (clauses.map (·.reread other))).headerSize := by
    rw [← hreread]
    exact hheader
  rw [hreread]
  rcases hsections with ⟨hsections, hclauses⟩ | ⟨hsections, rfl⟩
  · have hstop : extent data (fatBody data clauses) =
        sectionsEnd data data.length (Bytes.ceil4 (fatBody data clauses).size) :=
      if_pos ⟨rfl, hsections⟩
    have hceil := (Bytes.le_ceil4 (fatBody data clauses).size).1
    have hcode : (fatBody data clauses).size =
        (fatBody data clauses).headerSize + (fatBody data clauses).codeSize := rfl
    -- Behind the code, only the types of exception clauses are sites.
    obtain ⟨hreads, hends⟩ := readSections_congr hclauses fun p hlo hhi hnot => by
      refine hagree p (by omega) ?_
      rintro (⟨-, hin⟩ | ⟨-, -, hin⟩ | hin)
      · omega
      · unfold localsOffset at hin
        omega
      · exact hnot hin
    constructor
    · rw [readFat_eq_ok, hlength, hsize, hbit]
      exact ⟨htwelve, _, rfl, hheader', hlimit, .inl ⟨hsections, hreads⟩⟩
    · rw [extent, if_pos ⟨rfl, hbit.trans hsections⟩, hsize, hlength, hends, hstop]
  · have hstop : extent data (fatBody data []) = (fatBody data []).size :=
      if_neg (by simp [hsections])
    constructor
    · rw [readFat_eq_ok, hlength, hsize, hbit]
      exact ⟨htwelve, _, rfl, hheader', hlimit, .inr ⟨hsections, rfl⟩⟩
    · rw [extent, if_neg (by simp [hbit, hsections]), hsize, hstop]

/-- A body whose sites change keeps its layout. -/
theorem read_congr {data other : Bytes} {body : MethodBody} (h : read data = .ok body)
    (hlength : other.length = data.length)
    (hagree : ∀ p, p < extent data body → ¬IsSite body p → other[p]? = data[p]?) :
    read other = .ok (body.reread other) ∧ extent other (body.reread other) = extent data body := by
  have hshape := shape_of_read h
  have hlead : Bytes.field other 0 1 = Bytes.field data 0 1 :=
    hshape.field_congr hagree hshape.header_pos (by decide)
  have hne : data ≠ [] → other ≠ [] := fun hne => by
    rw [← List.length_pos_iff_ne_nil] at hne ⊢
    omega
  rcases read_eq_ok.mp h with ⟨hnil, hformat, h⟩ | ⟨hnil, hformat, h⟩
  · obtain ⟨hlimit, rfl⟩ := readTiny_eq_ok.mp h
    refine ⟨read_eq_ok.mpr (.inl ⟨hne hnil, hlead ▸ hformat, ?_⟩), rfl⟩
    rw [hlead, readTiny_eq_ok, hlength]
    exact ⟨hlimit, rfl⟩
  · obtain ⟨hread, hextent⟩ := readFat_congr h hshape hlength hagree
    exact ⟨read_eq_ok.mpr (.inr ⟨hne hnil, hlead ▸ hformat, hread⟩), hextent⟩

/-- A body keeps its tokens if the bytes that hold them stay. -/
theorem reread_eq_self {data other : Bytes} {body : MethodBody} (h : Shape data body)
    (hlocals : body.isFat = true → Bytes.SameOn data other localsOffset (localsOffset + 4))
    (hclauses : ∀ clause ∈ body.clauses,
      Bytes.SameOn data other clause.position (clause.position + 4)) :
    body.reread other = body := by
  have hsame : body.clauses.map (·.reread other) = body.clauses := by
    refine (List.map_congr_left fun clause hmem => ?_).trans (List.map_id _)
    exact ExceptionClause.reread_of_sameOn (h.clauses.reread clause hmem) (hclauses clause hmem)
  rw [reread, hsame]
  split
  · rename_i hfat
    rw [Bytes.field_eq_of_sameOn (hlocals hfat), ← h.locals hfat]
  · rfl

/-- A body is found again where all of its bytes are. -/
theorem read_of_sameOn {data other : Bytes} {body : MethodBody} (h : read data = .ok body)
    (hlength : other.length = data.length)
    (hsame : Bytes.SameOn data other 0 (extent data body)) :
    read other = .ok body ∧ extent other body = extent data body := by
  have hshape := shape_of_read h
  have hreread : body.reread other = body := by
    refine reread_eq_self hshape (fun hfat => hsame.mono (Nat.zero_le _) ?_) fun clause hmem =>
      hsame.mono (Nat.zero_le _) (hshape.clauses.le_stop clause hmem)
    have htwelve := hshape.header_le hfat
    have hsize := hshape.size_le
    unfold size at hsize
    unfold localsOffset
    omega
  have hread := read_congr h hlength fun p hp _ => hsame p (Nat.zero_le _) hp
  rwa [hreread] at hread

end MethodBody

end NativeExports
