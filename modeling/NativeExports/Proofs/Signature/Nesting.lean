import NativeExports.Proofs.Signature.Cutting
import NativeExports.Proofs.Signature.Levels

/-!
# Signatures that nest too deeply

Reading into trees, writing trees and walking over the stored form bound the nesting by the same
number, but they do not count alike.  Reading skips modifiers and marks without taking a level;
writing takes two levels for a function pointer; and a walk takes a level for every modifier and
every mark.  So a signature that can be read may be refused by the other two.

The main statement, `refused_for_nesting_only`, says that this is all that can be wrong with a
signature that can be read, and which levels decide.
-/

namespace NativeExports

/-! ## Walks with more room -/

namespace Walk

variable {α β : Type} {walk roomier : Walk α}

/-- A walk ends as one with more room does, unless it runs out of levels. -/
def Within (walk roomier : Walk α) : Prop :=
  ∀ data, walk data = roomier data ∨
    ∃ pieces, walk data = (pieces, .error (.malformed .signatureNesting)) ∧
      ∀ piece ∈ pieces, piece.Fits

theorem Within.refl (walk : Walk α) : walk.Within walk :=
  fun _ => .inl rfl

/-- The pieces in front of a failure have been cut as well as any others. -/
theorem Within.bind {next next' : α → Walk β} (h : walk.Within roomier) (hcuts : roomier.Cuts)
    (h' : ∀ a, (next a).Within (next' a)) : (walk >>= next).Within (roomier >>= next') := by
  intro data
  simp only [Bind.bind]
  rcases h data with hsame | ⟨pieces, hfails, hfits⟩
  · rw [hsame]
    rcases hwalk : roomier data with ⟨pieces, e | ⟨a, rest⟩⟩
    · exact .inl rfl
    · rcases h' a rest with hnext | ⟨more, hfails, hfits⟩
      · simp only [hnext, true_or]
      · refine .inr ⟨pieces ++ more, by simp only [hfails], ?_⟩
        intro piece hmem
        rcases List.mem_append.mp hmem with hmem | hmem
        · exact (hcuts _ _ _ _ hwalk).2 piece hmem
        · exact hfits piece hmem
  · rw [hfails]
    exact .inr ⟨pieces, rfl, hfits⟩

theorem Within.times {walk roomier : Walk Unit} (h : walk.Within roomier) (hcuts : roomier.Cuts)
    (count : Nat) : (Walk.times walk count).Within (Walk.times roomier count) := by
  induction count with
  | zero => exact .refl _
  | succ count ih => exact h.bind hcuts fun _ => ih

theorem Within.method {type type' : Walk Unit} (h : type.Within type') (hcuts : type'.Cuts) :
    (Walk.method type).Within (Walk.method type') := by
  refine (Within.refl _).bind .byte fun lead => ?_
  have hrest : Within (do
      let count ← Walk.number
      type
      Walk.times type count) (do
      let count ← Walk.number
      type'
      Walk.times type' count) :=
    (Within.refl _).bind .number fun count => h.bind hcuts fun _ => h.times hcuts count
  dsimp only
  split
  · exact (Within.refl _).bind .number fun _ => hrest
  · exact hrest

theorem Within.body {inner inner' : Walk Unit} (h : inner.Within inner') (hcuts : inner'.Cuts)
    (lead : Nat) : (Walk.body inner lead).Within (Walk.body inner' lead) := by
  unfold Walk.body
  rcases ElementType.ofByte? (.ofNat lead) with - | element
  · exact .refl _
  · cases element with
    | primitive | valueType | classType | typeParameter | methodParameter => exact .refl _
    | pointer | reference | vector | pinned | sentinel => exact h
    | requiredModifier | optionalModifier => exact (Within.refl _).bind .token fun _ => h
    | array => exact h.bind hcuts fun _ => .refl _
    | functionPointer => exact h.method hcuts
    | genericInstance =>
        refine (Within.refl _).bind .byte fun base => ?_
        have hrest : Within (do
            Walk.token
            let count ← Walk.number
            Walk.times inner count) (do
            Walk.token
            let count ← Walk.number
            Walk.times inner' count) :=
          (Within.refl _).bind .token fun _ => (Within.refl _).bind .number fun count =>
            h.times hcuts count
        dsimp only
        split
        · exact (Within.refl _).bind (.malformed _) fun _ => hrest
        · exact hrest

/-- The induction is on the smaller room. -/
theorem within_type {room room' : Nat} (hroom : room ≤ room') :
    (Walk.type room).Within (Walk.type room') := by
  induction room generalizing room' with
  | zero => exact fun _ => .inr ⟨[], rfl, nofun⟩
  | succ room ih =>
      obtain ⟨room', rfl⟩ : ∃ n, room' = n + 1 := ⟨room' - 1, by omega⟩
      have hinner : (Walk.type room).Within (Walk.type room') := ih (Nat.le_of_succ_le_succ hroom)
      exact (Within.refl _).bind .byte fun lead => hinner.body (.type room') lead

theorem Within.signature {type type' : Walk Unit} (h : type.Within type') (hcuts : type'.Cuts) :
    (Walk.signature type).Within (Walk.signature type') := by
  refine (Within.refl _).bind .peek fun lead => ?_
  split
  · exact (Within.refl _).bind .byte fun _ => h
  · split
    · exact (Within.refl _).bind .byte fun _ => (Within.refl _).bind .number fun count =>
        h.times hcuts count
    · split
      · exact (Within.refl _).bind .byte fun _ => (Within.refl _).bind .number fun count =>
          h.bind hcuts fun _ => h.times hcuts count
      · exact h.method hcuts

end Walk

/-! ## Tokens that stay -/

/-- A token that was cut can be written again. -/
theorem Piece.exists_mapToken_ok {piece : Piece} (h : piece.Fits) :
    ∃ bytes, piece.mapToken .ok = .ok bytes := by
  cases piece with
  | raw data => exact ⟨data, rfl⟩
  | token named stored => exact Compressed.TokenForm.exists_encodeToken h rfl

theorem Grammar.Signed.mono {part part' : List Piece → Prop} {lead : Nat} {pieces : List Piece}
    (h : Signed part lead pieces) (himp : ∀ pieces, part pieces → part' pieces) :
    Signed part' lead pieces := by
  unfold Signed at h ⊢
  split_ifs at h ⊢
  · exact himp _ h
  · exact h.mono himp
  · exact h.mono himp
  · exact h.mono himp

/-- A signature that is walked over with some room can have its tokens written again exactly if it
is walked over with the room that there is. -/
theorem BlobForm.mapTokens_ok_succeedsIff {room : Nat} {lead : UInt8} {pieces : List Piece}
    {rest blob : Bytes} (hsigned : Grammar.Signed (Grammar.Typed room) lead.toNat pieces)
    (hblob : blob = (.raw [lead] :: pieces : List Piece).flatMap Piece.bytes ++ rest) :
    Outcome.SucceedsIff (.malformed .signatureNesting)
      (BlobForm.signature.Grammar (.raw [lead] :: pieces))
      (BlobForm.signature.mapTokens .ok blob) := by
  -- With room for both the blob is cut into these pieces, and the walk with the room that there is
  -- ends alike or runs out of levels.
  have hroomy : Walk.signature (Walk.type (max room signatureRoom)) blob =
      (.raw [lead] :: pieces, .ok ((), rest)) := by
    apply ((Walk.passes_type _).signature _ _ _ _).mpr
    refine ⟨hblob, lead, pieces, hsigned.mono fun _ htyped => ?_, rfl⟩
    exact htyped.mono (Nat.le_max_left _ _)
  have hwalk : BlobForm.signature.walk.Within
      (Walk.signature (Walk.type (max room signatureRoom))) :=
    (Walk.within_type (Nat.le_max_right _ _)).signature (.type _)
  have hwrite : ∀ {passed : List Piece}, (∀ piece ∈ passed, piece.Fits) →
      ∃ mapped, passed.mapM (Piece.mapToken .ok) = .ok mapped := by
    intro passed hfits
    exact Outcome.exists_mapM fun piece hmem => Piece.exists_mapToken_ok (hfits piece hmem)
  unfold BlobForm.mapTokens
  rcases hwalk blob with hsame | ⟨passed, hfails, hfits⟩
  · rw [hroomy] at hsame
    obtain ⟨mapped, hmapped⟩ := hwrite (BlobForm.signature.cuts_walk _ _ _ _ hsame).2
    have hgrammar := ((BlobForm.passes_walk .signature _ _ _ _).mp hsame).2
    refine .inl ⟨hgrammar, mapped.flatten ++ rest, ?_⟩
    simp only [hsame, hmapped]
    rfl
  · obtain ⟨mapped, hmapped⟩ := hwrite hfits
    refine .inr ⟨fun hgrammar => ?_, ?_⟩
    · have hpassed := (BlobForm.passes_walk .signature _ _ () rest).mpr ⟨hblob, hgrammar⟩
      rw [hfails] at hpassed
      cases (Prod.mk.inj hpassed).2
    · simp only [hfails, hmapped]
      rfl

/-! ## How many levels a walk takes -/

namespace Piece

/-- The bytes of modifiers and marks, by themselves. -/
def levelMarks : List Piece :=
  [.raw [ElementType.requiredModifier.byte], .raw [ElementType.optionalModifier.byte],
    .raw [ElementType.sentinel.byte]]

/-- The number of pieces that may be a modifier or a mark. -/
def marks (pieces : List Piece) : Nat :=
  pieces.countP (· ∈ levelMarks)

theorem marks_append (pieces others : List Piece) :
    marks (pieces ++ others) = marks pieces + marks others :=
  List.countP_append

theorem marks_le_cons (piece : Piece) (pieces : List Piece) :
    marks pieces ≤ marks (piece :: pieces) := by
  unfold marks
  rw [List.countP_cons]
  exact Nat.le_add_right _ _

theorem marks_cons_of_mem {piece : Piece} (h : piece ∈ levelMarks) (pieces : List Piece) :
    marks (piece :: pieces) = marks pieces + 1 :=
  List.countP_cons_of_pos (decide_eq_true h)

end Piece

namespace Spelling

open Piece (marks marks_append marks_le_cons marks_cons_of_mem)

variable {pieces : List Piece} {room : Nat}

/-- A walk takes at most one level more than reading does for every modifier and every mark. -/
def Marked (type : SignatureType) (pieces : List Piece) : Prop :=
  ∀ room, type.levels 1 + marks pieces ≤ room → Grammar.Typed room pieces

theorem Modifiers.typed {rest : List Piece} {levels : Nat} (h : Modifiers pieces)
    (hrest : ∀ room, levels + marks rest ≤ room → Grammar.Typed room rest) :
    ∀ room, levels + marks (pieces ++ rest) ≤ room → Grammar.Typed room (pieces ++ rest) := by
  induction h with
  | nil => exact hrest
  | @cons element token more helement htoken _ ih =>
      intro room hroom
      have hmark : Piece.raw [element.byte] ∈ Piece.levelMarks := by
        fin_cases helement <;> decide
      -- The level that the modifier takes is the one that its mark stands for.
      have htoken' := marks_le_cons token (more ++ rest)
      rw [List.cons_append, List.cons_append, marks_cons_of_mem hmark] at hroom
      obtain ⟨room, rfl⟩ : ∃ n, room = n + 1 := ⟨room - 1, by omega⟩
      exact ⟨element, _, .modified helement htoken (ih room (by omega)), rfl⟩

variable {spells : SignatureType → List Piece → Prop} {levels : Nat}

theorem Sequence.typed {items : List SignatureType} (h : Sequence spells items pieces)
    (hspells : ∀ t pieces, spells t pieces → Marked t pieces)
    (hitems : ∀ t ∈ items, t.levels 1 ≤ levels) (hroom : levels + marks pieces ≤ room) :
    Grammar.Times (Grammar.Typed room) items.length pieces := by
  induction h with
  | nil => exact .nil
  | cons hfirst _ ih =>
      obtain ⟨hitem, hothers⟩ := List.forall_mem_cons.mp hitems
      rw [marks_append] at hroom
      exact .cons (hspells _ _ hfirst room (by omega)) (ih hothers (by omega))

theorem Parameters.typed {marked : Bool} {params varargs : List SignatureType}
    (h : Parameters spells marked params varargs pieces)
    (hspells : ∀ t pieces, spells t pieces → Marked t pieces)
    (hparams : ∀ t ∈ params, t.levels 1 ≤ levels) (hvarargs : ∀ t ∈ varargs, t.levels 1 ≤ levels)
    (hroom : levels + marks pieces ≤ room) :
    Grammar.Times (Grammar.Typed room) (params.length + varargs.length) pieces := by
  induction h with
  | nil => exact .nil
  | declared hfirst _ ih =>
      obtain ⟨hparam, hothers⟩ := List.forall_mem_cons.mp hparams
      rw [marks_append] at hroom
      rw [List.length_cons, Nat.succ_add]
      exact .cons (hspells _ _ hfirst room (by omega)) (ih hothers hvarargs (by omega))
  | @marked _ param varargs first rest hfirst _ ih =>
      obtain ⟨hparam, hothers⟩ := List.forall_mem_cons.mp hvarargs
      rw [marks_cons_of_mem (by decide), marks_append] at hroom
      have hpos := @SignatureType.levels_pos 1 (by decide) param
      obtain ⟨room, rfl⟩ : ∃ n, room = n + 1 := ⟨room - 1, by omega⟩
      have hmark : Grammar.Typed (room + 1) (.raw [ElementType.sentinel.byte] :: first) :=
        ⟨_, _, .wrapped (by decide) (hspells _ _ hfirst room (by omega)), rfl⟩
      simpa using Grammar.Times.cons hmark (ih hparams hothers (by omega))
  | behind hfirst _ ih =>
      obtain ⟨hparam, hothers⟩ := List.forall_mem_cons.mp hvarargs
      rw [marks_append] at hroom
      simpa using
        Grammar.Times.cons (hspells _ _ hfirst room (by omega)) (ih hparams hothers (by omega))

theorem Method.typed {signature : Signature} (h : Method spells signature pieces)
    (hspells : ∀ t pieces, spells t pieces → Marked t pieces) :
    ∃ (lead : UInt8) (rest : List Piece), pieces = .raw [lead] :: rest ∧
      ∀ room, signature.levels 1 + marks rest ≤ room →
        Grammar.Method (Grammar.Typed room) lead.toNat rest := by
  obtain ⟨-, harity, hcount, hresult, hparams⟩ := h
  rename_i lead arity result params count
  refine ⟨lead, _, rfl, fun room hroom => ?_⟩
  obtain ⟨hresult', hparams', hvarargs'⟩ :=
    Signature.levels_le.mp (Nat.le_refl (signature.levels 1))
  have hcount' := marks_le_cons count (result ++ params)
  rw [marks_append] at hroom hcount'
  have hcall := Grammar.Call.mk hcount (hspells _ _ hresult room (by omega))
    (hparams.typed hspells hparams' hvarargs' (by omega))
  generalize signature.genericCount = n at harity
  cases harity with
  | plain hplain => exact .plain hplain hcall
  | generic hgeneric hn =>
      obtain ⟨hnumber⟩ := hn
      exact .generic hgeneric hnumber hcall

theorem Spelled.typed {front : List Piece → Prop} {t : SignatureType}
    (hfront : ∀ pieces, front pieces → Modifiers pieces) (h : Spelled front room t pieces) :
    Marked t pieces := by
  induction room generalizing t pieces with
  | zero => exact h.elim
  | succ room ih =>
      obtain ⟨before, element, rest, hbefore, hcontents, rfl⟩ := h
      apply (hfront _ hbefore).typed
      intro room' hroom
      have hrest := marks_le_cons (.raw [element.byte]) rest
      have hpos := @SignatureType.levels_pos 1 (by decide) t
      -- One level goes to the type itself, and what is inside has all of its marks in `rest`.
      obtain ⟨room', rfl⟩ : ∃ n, room' = n + 1 := ⟨room' - 1, by omega⟩
      refine ⟨element, rest, ?_, rfl⟩
      cases hcontents with
      | primitive kind => exact .primitive kind
      | pointer h | reference h | vector h | pinned h =>
          rw [SignatureType.levels] at hroom
          exact .wrapped (by decide) (ih h room' (by omega))
      | valueType h | classType h =>
          obtain ⟨piece, htoken, rfl⟩ := h.isToken
          exact .named (by decide) htoken
      | typeParameter h | methodParameter h => exact .parameter (by decide) h.number
      | array hitem hrank hsizes hbounds =>
          rw [SignatureType.levels] at hroom
          rw [marks_append] at hrest
          exact .array (ih hitem room' (by omega)) hrank.number hsizes.numbers hbounds.numbers
      | @genericInstance base args kind name _ hkind hbase hargs =>
          obtain ⟨token, hnamed, -⟩ := hbase.named hkind hfront
          obtain ⟨piece, htoken, rfl⟩ := hnamed.isToken
          obtain ⟨hcount, hitems⟩ := hargs
          rename_i count arguments
          have harguments : marks arguments ≤
              marks (.raw [kind.byte] :: ([piece] ++ count :: arguments)) := by
            apply Nat.le_trans _ (marks_le_cons _ _)
            exact Nat.le_trans (marks_le_cons count _) (marks_le_cons piece _)
          rw [SignatureType.levels] at hroom
          have hlevels := Nat.le_max_right (base.levels 1) (SignatureType.levelsOfAll 1 args)
          exact .genericInstance hkind htoken (.mk hcount (hitems.typed (fun _ _ => ih)
            (SignatureType.levelsOfAll_le.mp (Nat.le_refl _)) (by omega)))
      | functionPointer h =>
          obtain ⟨lead, more, rfl, hmethod⟩ := h.typed fun _ _ => ih
          have hmore := marks_le_cons (.raw [lead]) more
          rw [SignatureType.levels] at hroom
          exact .functionPointer (hmethod room' (by omega))

end Spelling

/-! ## Signatures that can be read -/

namespace Signature

/-- A signature that can be read is refused for its nesting only.  It can be written exactly if it
fits with two levels for each function pointer, and its tokens can be mapped exactly if the walk
over it fits.  For the walk one level more than for reading is enough for every piece that may be a
modifier or a mark. -/
theorem refused_for_nesting_only {lead : UInt8} {behind rest : Bytes} {signature : Signature}
    (hlead : lead.toNat % 16 ≤ 5)
    (hread : Signature.reader (lead :: behind) = .ok signature rest) :
    signature.levels 1 ≤ signatureRoom ∧
    Outcome.SucceedsIff (.malformed .signatureNesting) (signature.levels 2 ≤ signatureRoom)
      signature.encode ∧
    ∃ pieces, lead :: behind = pieces.flatMap Piece.bytes ++ rest ∧
      Outcome.SucceedsIff (.malformed .signatureNesting) (BlobForm.signature.Grammar pieces)
        (BlobForm.signature.mapTokens .ok (lead :: behind)) ∧
      (signature.levels 1 + Piece.marks pieces ≤ signatureRoom →
        BlobForm.signature.Grammar pieces) := by
  obtain ⟨hlevels, hencode⟩ := encode_of_reader hread
  obtain ⟨_, hdata, hmethod⟩ := (parses_reader _ _ _).mp hread
  obtain ⟨lead', pieces, rfl, htyped⟩ :=
    hmethod.typed fun _ _ => Spelling.Spelled.typed fun _ hmodifiers => hmodifiers
  obtain rfl : lead = lead' := (List.cons.inj hdata).1
  have hsigned : ∀ room, signature.levels 1 + Piece.marks pieces ≤ room →
      Grammar.Signed (Grammar.Typed room) lead.toNat pieces := by
    intro room hroom
    exact (Grammar.signed_iff_method hlead).mpr (htyped room hroom)
  refine ⟨hlevels, hencode, _, hdata, ?_, ?_⟩
  · exact BlobForm.mapTokens_ok_succeedsIff (hsigned _ (Nat.le_refl _)) hdata
  · intro hroom
    have hmarks := Piece.marks_le_cons (.raw [lead]) pieces
    exact ⟨lead, pieces, hsigned _ (by omega), rfl⟩

/-- A pointer to a function that returns such a pointer, and so on, down to one that returns
nothing. -/
def pointers : Nat → SignatureType
  | 0 => .primitive .void
  | count + 1 => .functionPointer (.static Convention.managed (pointers count) [])

/-- A method that returns twenty-five pointers inside each other.  There are forty-nine modifiers in
front of the innermost type. -/
def deepBlob : Bytes :=
  [0x00, 0x00] ++ (List.replicate 25 [0x1B, 0x00, 0x00]).flatten ++
    (List.replicate 49 [0x20, 0x05]).flatten ++ [0x01]

set_option maxRecDepth 8000 in
/-- Only reading counts few enough levels: writing counts every pointer twice, and the walk counts
the modifiers. -/
theorem refused_deepBlob :
    ∃ signature, Signature.reader deepBlob = .ok signature [] ∧ signature.levels 1 = 26 ∧
      signature.levels 2 = 51 ∧ signature.encode = .error (.malformed .signatureNesting) ∧
        BlobForm.signature.mapTokens .ok deepBlob = .error (.malformed .signatureNesting) := by
  have hread : Signature.reader deepBlob =
      .ok (.static Convention.managed (pointers 25) []) [] := by
    rfl
  have hlevels : Signature.levels 2 (.static Convention.managed (pointers 25) []) = 51 := by
    decide +kernel
  have hwalk : (BlobForm.signature.mapTokens .ok deepBlob).toOption = none := by
    decide +kernel
  obtain ⟨-, hencode, pieces, -, hmap, -⟩ := refused_for_nesting_only (by decide) hread
  refine ⟨_, hread, by decide +kernel, hlevels, hencode.eq_error ?_, ?_⟩
  · rw [hlevels]
    decide
  · rcases hmap with ⟨-, mapped, hmapped⟩ | ⟨-, hfails⟩
    · have hsome : BlobForm.signature.mapTokens .ok deepBlob = .ok mapped := hmapped
      rw [hsome] at hwalk
      cases hwalk
    · exact hfails

end Signature

end NativeExports
