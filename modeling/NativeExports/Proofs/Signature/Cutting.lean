import NativeExports.Proofs.Signature.Spelling

/-!
# Where signatures are cut

The spelling of a tree consists of the pieces that a walk over it passes.  A walk takes a level of
nesting for every modifier and every mark as well, so it may need more room than the tree; how much
does not matter, as room decides only whether a walk succeeds and never where it cuts.
-/

namespace NativeExports

namespace Grammar

variable {part part' : List Piece → Prop} {pieces : List Piece}

/-! ## More room -/

theorem Times.mono {count : Nat} (h : Times part count pieces)
    (himp : ∀ pieces, part pieces → part' pieces) : Times part' count pieces := by
  induction h with
  | nil => exact .nil
  | cons hfirst _ ih => exact .cons (himp _ hfirst) ih

theorem Listed.mono (h : Listed part pieces) (himp : ∀ pieces, part pieces → part' pieces) :
    Listed part' pieces := by
  obtain ⟨hcount, hparts⟩ := h
  exact .mk hcount (hparts.mono himp)

theorem Call.mono (h : Call part pieces) (himp : ∀ pieces, part pieces → part' pieces) :
    Call part' pieces := by
  obtain ⟨hcount, hresult, hparams⟩ := h
  exact .mk hcount (himp _ hresult) (hparams.mono himp)

theorem Method.mono {lead : Nat} (h : Method part lead pieces)
    (himp : ∀ pieces, part pieces → part' pieces) : Method part' lead pieces := by
  cases h with
  | plain hlead hcall => exact .plain hlead (hcall.mono himp)
  | generic hlead harity hcall => exact .generic hlead harity (hcall.mono himp)

theorem Body.mono {element : ElementType} (h : Body part element pieces)
    (himp : ∀ pieces, part pieces → part' pieces) : Body part' element pieces := by
  cases h with
  | primitive kind => exact .primitive kind
  | wrapped hmem hinner => exact .wrapped hmem (himp _ hinner)
  | named hmem htoken => exact .named hmem htoken
  | parameter hmem hnumber => exact .parameter hmem hnumber
  | modified hmem htoken hinner => exact .modified hmem htoken (himp _ hinner)
  | array htype hrank hsizes hbounds => exact .array (himp _ htype) hrank hsizes hbounds
  | genericInstance hbase htoken harguments =>
      exact .genericInstance hbase htoken (harguments.mono himp)
  | functionPointer hmethod => exact .functionPointer (hmethod.mono himp)

theorem Typed.mono {room room' : Nat} (h : Typed room pieces) (hroom : room ≤ room') :
    Typed room' pieces := by
  induction room generalizing room' pieces with
  | zero => exact h.elim
  | succ room ih =>
      obtain ⟨room', rfl⟩ : ∃ n, room' = n + 1 := ⟨room' - 1, by omega⟩
      obtain ⟨element, rest, hbody, rfl⟩ := h
      exact ⟨element, rest,
        hbody.mono fun _ hinner => ih hinner (Nat.le_of_succ_le_succ hroom), rfl⟩

/-- Below the first bytes of the other kinds of signatures stand those of methods. -/
theorem signed_iff_method {lead : Nat} (h : lead % 16 ≤ 5) :
    Signed part lead pieces ↔ Method part lead pieces := by
  have hfield : lead ≠ SignatureLead.field := by
    rintro rfl
    exact absurd h (by decide)
  have hlisted : ¬(lead = SignatureLead.locals ∨ lead = SignatureLead.methodInstance) := by
    rintro (rfl | rfl) <;> exact absurd h (by decide)
  have hproperty : lead % 16 ≠ SignatureLead.property := fun heq => by
    rw [heq] at h
    exact absurd h (by decide)
  rw [Signed, if_neg hfield, if_neg hlisted, if_neg hproperty]

end Grammar

namespace Walk

/-- Bytes are cut in one way only. -/
theorem Passes.unique {walk : Walk Unit} {part : List Piece → Prop} (h : walk.Passes part)
    {pieces others : List Piece} {rest rest' : Bytes} (hpart : part pieces) (hother : part others)
    (heq : pieces.flatMap Piece.bytes ++ rest = others.flatMap Piece.bytes ++ rest') :
    pieces = others ∧ rest = rest' := by
  have hwalk := (h _ _ () rest).mpr ⟨rfl, hpart⟩
  rw [heq, (h _ _ () _).mpr ⟨rfl, hother⟩] at hwalk
  obtain ⟨hpieces, hrest⟩ := Prod.mk.inj hwalk
  exact ⟨hpieces.symm, (Prod.mk.inj (Except.ok.inj hrest)).2.symm⟩

end Walk

/-! ## Spellings as pieces -/

namespace Spelling

variable {pieces : List Piece} {room : Nat}

/-- With as many levels as there are pieces, the pieces are those of a type. -/
def Fits (pieces : List Piece) : Prop :=
  ∀ room, pieces.length ≤ room → Grammar.Typed room pieces

theorem Named.isToken {token : Token} (h : Named token pieces) :
    ∃ piece : Piece, piece.IsToken ∧ pieces = [piece] := by
  obtain ⟨hform⟩ := h
  exact ⟨_, ⟨_, _, rfl, hform⟩, rfl⟩

theorem Numeral.number {n : Nat} (h : Numeral n pieces) : Grammar.Number pieces := by
  obtain ⟨hn⟩ := h
  exact .mk hn

theorem Sequence.times {α : Type} {item : α → List Piece → Prop} {part : List Piece → Prop}
    {items : List α} (h : Sequence item items pieces)
    (hitem : ∀ a first, first.length ≤ pieces.length → item a first → part first) :
    Grammar.Times part items.length pieces := by
  induction h with
  | nil => exact .nil
  | cons hfirst _ ih =>
      simp only [List.length_append] at hitem
      exact .cons (hitem _ _ (by omega) hfirst) (ih fun a first hle => hitem a first (by omega))

theorem Listed.listed {α : Type} {item : α → List Piece → Prop} {part : List Piece → Prop}
    {items : List α} (h : Listed item items pieces)
    (hitem : ∀ a first, first.length ≤ pieces.length → item a first → part first) :
    Grammar.Listed part pieces := by
  obtain ⟨hcount, hitems⟩ := h
  simp only [List.length_cons] at hitem
  exact .mk hcount (hitems.times fun a first hle => hitem a first (by omega))

theorem Listed.numbers {items : List Nat} (h : Listed Numeral items pieces) :
    Grammar.Listed Grammar.Number pieces :=
  h.listed fun _ _ _ => Numeral.number

/-- Modifiers add to the pieces of a type. -/
theorem Modifiers.fits {rest : List Piece} (h : Modifiers pieces) (hrest : Fits rest) :
    Fits (pieces ++ rest) := by
  induction h with
  | nil => exact hrest
  | @cons element token more helement htoken _ ih =>
      intro room hroom
      simp only [List.cons_append, List.length_cons] at hroom
      obtain ⟨room, rfl⟩ : ∃ n, room = n + 1 := ⟨room - 1, by omega⟩
      exact ⟨element, _, .modified helement htoken (ih room (by omega)), rfl⟩

variable {type : SignatureType → List Piece → Prop}

theorem Parameters.times {marked : Bool} {params varargs : List SignatureType}
    (h : Parameters type marked params varargs pieces)
    (htype : ∀ t pieces, type t pieces → Fits pieces)
    (hroom : pieces.length ≤ room) :
    Grammar.Times (Grammar.Typed room) (params.length + varargs.length) pieces := by
  induction h with
  | nil => exact .nil
  | declared hfirst _ ih =>
      rw [List.length_append] at hroom
      rw [List.length_cons, Nat.succ_add]
      exact .cons (htype _ _ hfirst room (by omega)) (ih (by omega))
  | @marked _ param varargs first rest hfirst _ ih =>
      simp only [List.length_cons, List.length_append] at hroom
      obtain ⟨room, rfl⟩ : ∃ n, room = n + 1 := ⟨room - 1, by omega⟩
      have hmark : Grammar.Typed (room + 1) (.raw [ElementType.sentinel.byte] :: first) :=
        ⟨_, _, .wrapped (by decide) (htype _ _ hfirst room (by omega)), rfl⟩
      simpa using Grammar.Times.cons hmark (ih (by omega))
  | behind hfirst _ ih =>
      rw [List.length_append] at hroom
      simpa using Grammar.Times.cons (htype _ _ hfirst room (by omega)) (ih (by omega))

theorem Method.grammar {signature : Signature} (h : Method type signature pieces)
    (htype : ∀ t pieces, type t pieces → Fits pieces) :
    ∃ (lead : UInt8) (rest : List Piece), pieces = .raw [lead] :: rest ∧
      ∀ room, rest.length ≤ room → Grammar.Method (Grammar.Typed room) lead.toNat rest := by
  obtain ⟨-, harity, hcount, hresult, hparams⟩ := h
  rename_i lead arity result params count
  refine ⟨lead, _, rfl, fun room hroom => ?_⟩
  simp only [List.length_cons, List.length_append] at hroom
  have hcall := Grammar.Call.mk hcount (htype _ _ hresult room (by omega))
    (hparams.times htype (by omega))
  generalize signature.genericCount = n at harity
  cases harity with
  | plain hplain => exact .plain hplain hcall
  | generic hgeneric hn =>
      obtain ⟨hnumber⟩ := hn
      exact .generic hgeneric hnumber hcall

theorem Spelled.fits {front : List Piece → Prop} {t : SignatureType}
    (hfront : ∀ pieces, front pieces → Modifiers pieces) (h : Spelled front room t pieces) :
    Fits pieces := by
  induction room generalizing t pieces with
  | zero => exact h.elim
  | succ room ih =>
      obtain ⟨before, element, rest, hbefore, hcontents, rfl⟩ := h
      refine (hfront _ hbefore).fits fun room' hroom => ?_
      simp only [List.length_cons] at hroom
      obtain ⟨room', rfl⟩ : ∃ n, room' = n + 1 := ⟨room' - 1, by omega⟩
      refine ⟨element, rest, ?_, rfl⟩
      cases hcontents with
      | primitive kind => exact .primitive kind
      | pointer h | reference h | vector h | pinned h =>
          exact .wrapped (by decide) (ih h room' (by omega))
      | valueType h | classType h =>
          obtain ⟨piece, htoken, rfl⟩ := h.isToken
          exact .named (by decide) htoken
      | typeParameter h | methodParameter h => exact .parameter (by decide) h.number
      | array hitem hrank hsizes hbounds =>
          simp only [List.length_append] at hroom
          exact .array (ih hitem room' (by omega)) hrank.number hsizes.numbers hbounds.numbers
      | genericInstance hkind hbase hargs =>
          obtain ⟨token, hnamed, -⟩ := hbase.named hkind hfront
          obtain ⟨piece, htoken, rfl⟩ := hnamed.isToken
          simp only [List.length_cons, List.length_append] at hroom
          exact .genericInstance hkind htoken
            (hargs.listed fun _ first hle hfirst => ih hfirst room' (by omega))
      | functionPointer h =>
          obtain ⟨lead, more, rfl, hmethod⟩ := h.grammar fun _ _ => ih
          exact .functionPointer (hmethod room' (by simp only [List.length_cons] at hroom; omega))

end Spelling

end NativeExports
