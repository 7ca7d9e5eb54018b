import NativeExports.Proofs.Renumbering.StoredTokens

/-!
# Renumbering all bodies

The bodies of an assembly are renumbered one after the other.  Since different bodies share no
bytes, each of them is still what it was when its turn comes, and stays what it became.  The bodies
of added methods are byte strings of their own; only their code is renumbered.
-/

namespace NativeExports.Assembly

open Bytes (ChangedOnly SameOn)

/-- The bodies at two positions of the file share no byte. -/
def Apart (image : Image) (offset offset' : Nat) : Prop :=
  ∀ body body', bodyFrom image offset = .ok body → bodyFrom image offset' = .ok body' →
    ∀ p, InBody image offset body p → ¬InBody image offset' body' p

/-- The body at `offset` of the new image is that of the old image with related tokens. -/
def BodyFollows (related : Token → Token → Prop) (image image' : Image) (offset : Nat) : Prop :=
  ∃ body body' instructions instructions', HasBody image offset body instructions ∧
    HasBody image' offset body' instructions' ∧ body.Follows related body' ∧
    List.Forall₂ (Instruction.MapsTo related) instructions instructions' ∧
    body'.extent (image'.data.drop offset) = body.extent (image.data.drop offset)

/-- A position of the file in one of some bodies. -/
def InSomeBody (image : Image) (offsets : List Nat) (p : Nat) : Prop :=
  ∃ offset ∈ offsets, ∃ body, bodyFrom image offset = .ok body ∧ InBody image offset body p

theorem HasBody.bodyFrom_eq {image : Image} {offset : Nat} {body other : MethodBody}
    {instructions : List Instruction} (h : HasBody image offset body instructions)
    (hother : bodyFrom image offset = .ok other) : other = body := by
  have := h.read
  rw [hother] at this
  exact Except.ok.inj this

/-- At a position of the file there is one body. -/
theorem HasBody.unique {image : Image} {offset : Nat} {body body' : MethodBody}
    {instructions instructions' : List Instruction} (h : HasBody image offset body instructions)
    (h' : HasBody image offset body' instructions') :
    body' = body ∧ instructions' = instructions := by
  obtain rfl := h.bodyFrom_eq h'.read
  have hcode := h.code
  rw [h'.code] at hcode
  exact ⟨rfl, Except.ok.inj hcode⟩

/-- The body at a position is the same in both images, and takes the same positions. -/
def SameBody (image image' : Image) (offset : Nat) : Prop :=
  ∀ body instructions, HasBody image offset body instructions →
    HasBody image' offset body instructions ∧
      body.extent (image'.data.drop offset) = body.extent (image.data.drop offset)

theorem SameBody.bodyFrom_eq {image image' : Image} {offset : Nat} {body : MethodBody}
    (h : SameBody image image' offset)
    (hbody : ∃ body instructions, HasBody image offset body instructions)
    (hread : bodyFrom image' offset = .ok body) :
    bodyFrom image offset = .ok body ∧ ∀ p, InBody image' offset body p ↔
      InBody image offset body p := by
  obtain ⟨body', instructions, hbody⟩ := hbody
  obtain ⟨hbody', hextent⟩ := h body' instructions hbody
  obtain rfl := hbody'.bodyFrom_eq hread
  refine ⟨hbody.read, fun p => ?_⟩
  rw [InBody, InBody, hextent]

/-- Changes in one body leave the bodies alone that are apart from it. -/
theorem sameBody_of_apart {image image' : Image} {first offset : Nat} {body : MethodBody}
    (hread : bodyFrom image first = .ok body)
    (hchanged : ChangedOnly image.data image'.data (InBody image first body))
    (hfar : Apart image first offset) : SameBody image image' offset := by
  intro body' instructions hbody'
  refine hbody'.of_same hchanged.1 fun p hp => hchanged.2 p fun hin => ?_
  exact hfar body body' hread hbody'.read p hin hp

theorem Apart.of_sameBody {image image' : Image} {offset offset' : Nat}
    (h : Apart image offset offset') (hsame : SameBody image image' offset)
    (hsame' : SameBody image image' offset')
    (hbody : ∃ body instructions, HasBody image offset body instructions)
    (hbody' : ∃ body instructions, HasBody image offset' body instructions) :
    Apart image' offset offset' := by
  intro body body' hread hread' p hp hp'
  obtain ⟨hold, hin⟩ := hsame.bodyFrom_eq hbody hread
  obtain ⟨hold', hin'⟩ := hsame'.bodyFrom_eq hbody' hread'
  exact h body body' hold hold' p ((hin p).mp hp) ((hin' p).mp hp')

/-- Bodies that are renumbered one after the other are renumbered each. -/
theorem foldlM_renumberBody {renumbering : Renumbering} {image image' : Image}
    {offsets : List Nat}
    (hbodies : ∀ offset ∈ offsets, ∃ body instructions, HasBody image offset body instructions)
    (hapart : offsets.Pairwise (Apart image))
    (h : offsets.foldlM (renumberBody renumbering) image = .ok image') :
    image' = { image with data := image'.data } ∧
      ChangedOnly image.data image'.data (InSomeBody image offsets) ∧
      ∀ offset ∈ offsets, BodyFollows renumbering.Renames image image' offset := by
  induction offsets generalizing image with
  | nil =>
      obtain rfl := Outcome.pure_eq_ok.mp h
      exact ⟨rfl, .refl _ _, nofun⟩
  | cons first rest ih =>
      rw [List.foldlM_cons] at h
      obtain ⟨between, hfirst, h⟩ := Outcome.bind_eq_ok.mp h
      obtain ⟨body, instructions, hbody⟩ := hbodies first (.head _)
      obtain ⟨hbetween, hchanged, body', old, new, hold, hnew, hfollows, hmaps, hextent⟩ :=
        renumberBody_eq_ok hbody.read hfirst
      obtain ⟨hfar, hapart⟩ := List.pairwise_cons.mp hapart
      -- The other bodies are not touched by the first step.
      have hsame : ∀ offset ∈ rest, SameBody image between offset := fun offset hmem =>
        sameBody_of_apart hbody.read hchanged (hfar offset hmem)
      have hexists : ∀ offset ∈ rest, ∃ body instructions,
          HasBody image offset body instructions := fun offset hmem => hbodies offset (.tail _ hmem)
      obtain ⟨himage', hchanged', hrest⟩ := ih
        (fun offset hmem => by
          obtain ⟨body₂, instructions₂, hbody₂⟩ := hexists offset hmem
          exact ⟨body₂, instructions₂, (hsame offset hmem _ _ hbody₂).1⟩)
        (hapart.imp_of_mem fun hmem hmem' hpair => hpair.of_sameBody (hsame _ hmem) (hsame _ hmem')
          (hexists _ hmem) (hexists _ hmem'))
        h
      refine ⟨by rw [himage', hbetween], ?_, fun offset hmem => ?_⟩
      · refine (hchanged.mono fun p hp => ⟨first, .head _, body, hbody.read, hp⟩).trans
          (hchanged'.mono fun p => ?_)
        rintro ⟨offset, hmem, body₂, hread, hp⟩
        obtain ⟨hread', hin⟩ := (hsame offset hmem).bodyFrom_eq (hexists offset hmem) hread
        exact ⟨offset, .tail _ hmem, body₂, hread', (hin p).mp hp⟩
      · rcases List.mem_cons.mp hmem with rfl | hmem
        · -- The later steps do not touch the first body.
          obtain ⟨hlast, hextent'⟩ := hnew.of_same hchanged'.1 fun p hp => by
            refine hchanged'.2 p ?_
            rintro ⟨offset, hmem, body₂, hread, hp₂⟩
            obtain ⟨hread', hin⟩ := (hsame offset hmem).bodyFrom_eq (hexists offset hmem) hread
            rw [InBody, hextent] at hp
            exact hfar offset hmem body body₂ hbody.read hread' p hp ((hin p).mp hp₂)
          exact ⟨body, body', old, new, hold, hlast, hfollows, hmaps, hextent'.trans hextent⟩
        · obtain ⟨body₂, body₃, old₂, new₂, hold₂, hnew₂, hfollows₂, hmaps₂, hextent₂⟩ :=
            hrest offset hmem
          obtain ⟨body₄, instructions₄, hbody₄⟩ := hexists offset hmem
          obtain ⟨hbody₄', hextent₄⟩ := hsame offset hmem _ _ hbody₄
          obtain ⟨rfl, rfl⟩ := hold₂.unique hbody₄'
          exact ⟨_, body₃, _, new₂, hbody₄, hnew₂, hfollows₂, hmaps₂, hextent₂.trans hextent₄⟩

/-! ## The bodies of an image -/

theorem mem_dropRepeats {n : Nat} {numbers : List Nat} :
    n ∈ dropRepeats numbers ↔ n ∈ numbers := by
  fun_induction dropRepeats numbers with
  | case1 => rfl
  | case2 => rfl
  | case3 m rest ih =>
      rw [ih, List.mem_cons, List.mem_cons, List.mem_cons]
      exact ⟨.inr, fun h => h.elim .inl id⟩
  | case4 m k rest hne ih => rw [List.mem_cons, ih, List.mem_cons (b := m)]

theorem pairwise_dropRepeats {numbers : List Nat} (h : numbers.Pairwise (· ≤ ·)) :
    (dropRepeats numbers).Pairwise (· < ·) := by
  fun_induction dropRepeats numbers with
  | case1 => exact .nil
  | case2 n => exact List.pairwise_singleton _ n
  | case3 m rest ih => exact ih (List.pairwise_cons.mp h).2
  | case4 m n rest hne ih =>
      obtain ⟨hle, hrest⟩ := List.pairwise_cons.mp h
      refine List.pairwise_cons.mpr ⟨fun k hk => ?_, ih hrest⟩
      have hfirst := hle n (.head _)
      rcases List.mem_cons.mp (mem_dropRepeats.mp hk) with rfl | hmem
      · omega
      · have := (List.pairwise_cons.mp hrest).1 k hmem
        omega

theorem mem_bodyRvas {assembly : Assembly} {rva : Nat} :
    rva ∈ assembly.bodyRvas ↔
      ∃ columns ∈ assembly.tables.rows .methodDef, bodyRva? columns = some rva := by
  rw [bodyRvas, mem_dropRepeats, List.mem_mergeSort, List.mem_filterMap]

/-- Whether a method has a body depends on two of its columns. -/
theorem bodyRva?_congr {columns columns' : Row}
    (hrva : columns'[MethodDef.rvaColumn]? = columns[MethodDef.rvaColumn]?)
    (hflags : columns'[MethodDef.implFlagsColumn]? = columns[MethodDef.implFlagsColumn]?) :
    bodyRva? columns' = bodyRva? columns := by
  simp only [bodyRva?, List.getD_eq_getElem?_getD, hrva, hflags]

/-- Every address of a body is listed once. -/
theorem pairwise_bodyRvas (assembly : Assembly) : assembly.bodyRvas.Pairwise (· < ·) := by
  refine pairwise_dropRepeats ?_
  have hsorted : (((assembly.tables.rows .methodDef).filterMap bodyRva?).mergeSort
      fun a b => decide (a ≤ b)).Pairwise fun a b => decide (a ≤ b) = true :=
    List.pairwise_mergeSort (fun a b c hab hbc => by simp at *; omega)
      (fun a b => by simp; omega) _
  exact hsorted.imp fun h => by simpa using h

/-- The bodies can be found at their addresses, and different ones share no byte. -/
structure BodiesFit (assembly : Assembly) : Prop where
  found : ∀ rva ∈ assembly.bodyRvas, ∃ offset body instructions,
    assembly.image.offsetOf rva = .ok offset ∧ HasBody assembly.image offset body instructions
  apart : ∀ rva ∈ assembly.bodyRvas, ∀ rva' ∈ assembly.bodyRvas, rva ≠ rva' →
    ∀ offset offset', assembly.image.offsetOf rva = .ok offset →
      assembly.image.offsetOf rva' = .ok offset' → Apart assembly.image offset offset'

/-- The body of an added method whose code gets related tokens. Its exception clauses and the token
of its local variables stay. -/
def AddedBodyFollows (related : Token → Token → Prop) (data data' : Bytes) : Prop :=
  ∃ body instructions instructions', MethodBody.read data = .ok body ∧
    MethodBody.read data' = .ok body ∧ Code.decode (body.code data) = .ok instructions ∧
    Code.decode (body.code data') = .ok instructions' ∧
    List.Forall₂ (Instruction.MapsTo related) instructions instructions'

theorem renumberAddedBody_eq_ok {renumbering : Renumbering} {added added' : Nat × Bytes}
    (h : renumberAddedBody renumbering added = .ok added') :
    added'.1 = added.1 ∧ AddedBodyFollows renumbering.Renames added.2 added'.2 := by
  obtain ⟨body, hread, h⟩ := Outcome.bind_eq_ok.mp h
  obtain ⟨data, hcode, h⟩ := Outcome.bind_eq_ok.mp h
  obtain rfl := Outcome.pure_eq_ok.mp h
  refine ⟨rfl, ?_⟩
  have hshape := MethodBody.shape_of_read hread
  have hsize : body.headerSize + body.codeSize ≤ added.2.length :=
    Nat.le_trans hshape.size_le hshape.extent_le
  obtain ⟨hchanged, instructions, instructions', hdecode, hdecode', hmaps⟩ :=
    renumberCode_eq_ok hsize hcode
  refine ⟨body, instructions, instructions', hread, ?_, hdecode, hdecode', hmaps⟩
  obtain ⟨hread', -⟩ := MethodBody.read_congr hread hchanged.1 fun p _ hnot =>
    hchanged.2 p fun hin => hnot (.inl hin)
  rw [hread']
  congr 1
  -- The types of the clauses and the token of the local variables lie outside the code.
  refine MethodBody.reread_eq_self hshape (fun hfat => hchanged.sameOn fun p hlo hhi hin => ?_)
    fun clause hmem => hchanged.sameOn fun p hlo hhi hin => ?_
  · have htwelve := hshape.header_le hfat
    unfold MethodBody.localsOffset at hhi
    omega
  · have hstart : body.headerSize + body.codeSize ≤ clause.position :=
      hshape.clauses.start_le clause hmem
    omega

/-- The positions of the bodies are those of their addresses. -/
theorem bodyOffsets_eq_ok {assembly : Assembly} {offsets : List Nat}
    (h : assembly.bodyOffsets = .ok offsets) :
    List.Forall₂ (fun rva offset => assembly.image.offsetOf rva = .ok offset)
      assembly.bodyRvas offsets :=
  Outcome.mapM_eq_ok.mp h

theorem pairwise_of_forall₂ {α β : Type} {R : α → β → Prop} {P : α → α → Prop} {Q : β → β → Prop}
    {as : List α} {bs : List β} (h : List.Forall₂ R as bs) (hpairs : as.Pairwise P)
    (himp : ∀ a ∈ as, ∀ a' ∈ as, P a a' → ∀ b b', R a b → R a' b' → Q b b') : bs.Pairwise Q := by
  induction h with
  | nil => exact .nil
  | @cons a b as bs hab hrest ih =>
      obtain ⟨hfirst, hpairs⟩ := List.pairwise_cons.mp hpairs
      refine List.pairwise_cons.mpr ⟨fun b' hmem => ?_,
        ih hpairs fun a ha a' ha' => himp a (.tail _ ha) a' (.tail _ ha')⟩
      obtain ⟨a', ha', hab'⟩ := Outcome.exists_of_forall₂_right hrest hmem
      exact himp a (.head _) a' (.tail _ ha') (hfirst a' ha') b b' hab hab'

theorem renumberBodies_eq_ok {renumbering : Renumbering} {assembly assembly' : Assembly}
    (h : renumberBodies renumbering assembly = .ok assembly') :
    ∃ image addedBodies, assembly' = { assembly with image, addedBodies } ∧
      List.Forall₂ (fun added added' : Nat × Bytes =>
        added'.1 = added.1 ∧ AddedBodyFollows renumbering.Renames added.2 added'.2)
        assembly.addedBodies addedBodies ∧
      ∃ offsets, assembly.bodyOffsets = .ok offsets ∧
        offsets.foldlM (renumberBody renumbering) assembly.image = .ok image := by
  obtain ⟨offsets, hoffsets, h⟩ := Outcome.bind_eq_ok.mp h
  obtain ⟨image, himage, h⟩ := Outcome.bind_eq_ok.mp h
  obtain ⟨addedBodies, hadded, h⟩ := Outcome.bind_eq_ok.mp h
  obtain rfl := Outcome.pure_eq_ok.mp h
  exact ⟨image, addedBodies, rfl,
    (Outcome.mapM_eq_ok.mp hadded).imp fun _ _ =>
      renumberAddedBody_eq_ok, offsets, hoffsets, himage⟩

/-- Renumbering the bodies of an image renumbers each. -/
theorem bodiesFollow_of_renumberBodies {renumbering : Renumbering} {assembly assembly' : Assembly}
    (hfit : assembly.BodiesFit) (h : renumberBodies renumbering assembly = .ok assembly') :
    assembly'.image = { assembly.image with data := assembly'.image.data } ∧
      assembly'.image.data.length = assembly.image.data.length ∧
      ∀ rva ∈ assembly.bodyRvas, ∀ offset, assembly.image.offsetOf rva = .ok offset →
        BodyFollows renumbering.Renames assembly.image assembly'.image offset := by
  obtain ⟨image, addedBodies, rfl, -, offsets, hoffsets, himage⟩ := renumberBodies_eq_ok h
  have hoffsets := bodyOffsets_eq_ok hoffsets
  have hbodies : ∀ offset ∈ offsets, ∃ body instructions,
      HasBody assembly.image offset body instructions := by
    intro offset hmem
    obtain ⟨rva, hrva, hat⟩ := Outcome.exists_of_forall₂_right hoffsets hmem
    obtain ⟨offset', body, instructions, hat', hbody⟩ := hfit.found rva hrva
    rw [hat] at hat'
    obtain rfl := Except.ok.inj hat'
    exact ⟨body, instructions, hbody⟩
  have hapart : offsets.Pairwise (Apart assembly.image) :=
    pairwise_of_forall₂ hoffsets (pairwise_bodyRvas assembly)
      fun rva hmem rva' hmem' hlt offset offset' hat hat' =>
        hfit.apart rva hmem rva' hmem' (Nat.ne_of_lt hlt) offset offset' hat hat'
  obtain ⟨hdata, hchanged, hfollows⟩ := foldlM_renumberBody hbodies hapart himage
  refine ⟨hdata, hchanged.1, fun rva hmem offset hat => ?_⟩
  obtain ⟨offset', hmem', hat'⟩ := Outcome.exists_of_forall₂_left hoffsets hmem
  rw [hat] at hat'
  obtain rfl := Except.ok.inj hat'
  exact hfollows offset hmem'

end NativeExports.Assembly
