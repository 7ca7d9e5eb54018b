import NativeExports.Proofs.Signature.RoundTrip

/-!
# Levels of nesting

How deeply the types in a tree are nested, for any price of a function pointer.  What is read nests
no deeper than there was room for if a function pointer takes one level.  What was read is written
exactly if it nests no deeper with two levels for each function pointer, as writing takes a level
for the pointer and another one for its signature.
-/

namespace NativeExports

mutual

/-- The levels of types inside each other, of which a function pointer takes `price` more. -/
def SignatureType.levels (price : Nat) : SignatureType → Nat
  | .primitive _ | .valueType _ | .classType _ | .typeParameter _ | .methodParameter _ => 1
  | .pointer type | .reference type | .vector type | .pinned type => type.levels price + 1
  | .array item _ _ _ => item.levels price + 1
  | .genericInstance base args => max (base.levels price) (SignatureType.levelsOfAll price args) + 1
  | .functionPointer signature => Signature.levels price signature + price

/-- The levels of the deepest of some types. -/
def SignatureType.levelsOfAll (price : Nat) : List SignatureType → Nat
  | [] => 0
  | type :: types => max (type.levels price) (SignatureType.levelsOfAll price types)

/-- The levels of the deepest type in a signature. -/
def Signature.levels (price : Nat) : Signature → Nat
  | ⟨_, _, _, _, result, params, varargs⟩ =>
    max (result.levels price)
      (max (SignatureType.levelsOfAll price params) (SignatureType.levelsOfAll price varargs))

end

variable {price room : Nat}

theorem SignatureType.levelsOfAll_le {types : List SignatureType} :
    levelsOfAll price types ≤ room ↔ ∀ type ∈ types, type.levels price ≤ room := by
  induction types with
  | nil => simp [levelsOfAll]
  | cons type types ih => rw [levelsOfAll, Nat.max_le, ih, List.forall_mem_cons]

theorem Signature.levels_le {signature : Signature} :
    signature.levels price ≤ room ↔ signature.result.levels price ≤ room ∧
      (∀ type ∈ signature.params, type.levels price ≤ room) ∧
        ∀ type ∈ signature.varargs, type.levels price ≤ room := by
  cases signature
  rw [Signature.levels, Nat.max_le, Nat.max_le, SignatureType.levelsOfAll_le,
    SignatureType.levelsOfAll_le]

theorem SignatureType.levels_pos (hprice : 0 < price) (type : SignatureType) :
    0 < type.levels price := by
  cases type <;> simp only [SignatureType.levels] <;> omega

theorem Signature.levels_pos (hprice : 0 < price) (signature : Signature) :
    0 < signature.levels price := by
  cases signature
  rw [Signature.levels]
  have hresult := SignatureType.levels_pos hprice
  exact Nat.lt_of_lt_of_le (hresult _) (Nat.le_max_left _ _)

namespace Spelling

variable {front : List Piece → Prop} {type : SignatureType} {pieces : List Piece}

/-! ## Reading -/

theorem Method.levels_le {spells : SignatureType → List Piece → Prop} {signature : Signature}
    (h : Method spells signature pieces)
    (hspells : ∀ t pieces, spells t pieces → t.levels price ≤ room) :
    signature.levels price ≤ room := by
  obtain ⟨-, -, -, hresult, hparams⟩ := h
  rw [Signature.levels_le]
  exact ⟨hspells _ _ hresult, hparams.forall_mem hspells⟩

/-- A type is spelled with room for all of its levels, a function pointer being one. -/
theorem Spelled.levels_le (h : Spelled front room type pieces) : type.levels 1 ≤ room := by
  induction room generalizing type pieces with
  | zero => exact h.elim
  | succ room ih =>
      obtain ⟨before, element, rest, -, hcontents, rfl⟩ := h
      cases hcontents with
      | primitive | valueType | classType | typeParameter | methodParameter =>
          simp [SignatureType.levels]
      | pointer h | reference h | vector h | pinned h | array h =>
          simp only [SignatureType.levels]
          exact Nat.succ_le_succ (ih h)
      | genericInstance hkind hbase hargs =>
          obtain ⟨-, hargs⟩ := hargs
          simp only [SignatureType.levels]
          apply Nat.succ_le_succ
          rw [Nat.max_le, SignatureType.levelsOfAll_le]
          exact ⟨ih hbase, hargs.forall_mem fun _ _ => ih⟩
      | functionPointer h =>
          simp only [SignatureType.levels]
          exact Nat.succ_le_succ (h.levels_le fun _ _ => ih)

/-! ## Writing -/

theorem Numeral.exists_encode {n : Nat} (h : Numeral n pieces) :
    ∃ stored, Compressed.encode n = .ok stored := by
  obtain ⟨_, -, hform⟩ := h
  exact Compressed.exists_encode hform.lt_limit

theorem Named.exists_encodeToken {token : Token} (h : Named token pieces) :
    ∃ stored, Compressed.encodeToken token = .ok stored := by
  obtain ⟨hform⟩ := h
  exact hform.exists_encodeToken rfl

theorem Listed.exists_numbers {items : List Nat} (h : Listed Numeral items pieces) :
    ∃ stored, SignatureWriter.numbers items = .ok stored := by
  have hcount := Compressed.exists_encode h.length_lt
  obtain ⟨-, hitems⟩ := h
  have hall : ∃ parts, items.mapM Compressed.encode = .ok parts :=
    Outcome.exists_mapM (hitems.forall_mem fun _ _ => Numeral.exists_encode)
  exact Outcome.exists_bind hcount fun _ _ => Outcome.exists_bind hall fun _ _ => ⟨_, rfl⟩

end Spelling

namespace SignatureWriter

open Spelling

theorem type_succ (room : Nat) :
    SignatureWriter.type (room + 1) =
      typeOver (SignatureWriter.type room) (SignatureWriter.type (room - 1)) := by
  cases room <;> rfl

/-- What was read is refused for its levels only: a writer takes types of at most `room` levels. -/
def Takes (writer : TypeWriter) (room : Nat) (spells : SignatureType → List Piece → Prop) : Prop :=
  ∀ t pieces, spells t pieces →
    Outcome.SucceedsIff (.malformed .signatureNesting) (t.levels 2 ≤ room) (writer t)

variable {writer inner deep : TypeWriter} {spells : SignatureType → List Piece → Prop}
  {pieces : List Piece}

theorem Takes.types (h : Takes writer room spells) {items : List SignatureType}
    (hitems : ∀ t ∈ items, ∃ pieces, spells t pieces) :
    Outcome.SucceedsIff (.malformed .signatureNesting) (∀ t ∈ items, t.levels 2 ≤ room)
      (types writer items) := by
  apply Outcome.SucceedsIff.bind_pure
  apply Outcome.SucceedsIff.mapM
  intro t hmem
  obtain ⟨pieces, hspells⟩ := hitems t hmem
  exact h t pieces hspells

theorem Takes.method (h : Takes writer room spells) {signature : Signature}
    (hsignature : Method spells signature pieces) :
    Outcome.SucceedsIff (.malformed .signatureNesting) (signature.levels 2 ≤ room)
      (method writer signature) := by
  obtain ⟨-, harity, ⟨_, -, hform⟩, hresult, hparams⟩ := hsignature
  have hgeneric : ∃ stored, (if 0 < signature.genericCount then
      Compressed.encode signature.genericCount else pure [] : Except Error Bytes) = .ok stored := by
    generalize signature.genericCount = n at harity ⊢
    split
    · cases harity with
      | plain => exact Compressed.exists_encode (by decide)
      | generic _ hn => exact hn.exists_encode
    · exact ⟨[], rfl⟩
  obtain ⟨hdeclared, hothers⟩ : (∀ t ∈ signature.params, ∃ pieces, spells t pieces) ∧
      ∀ t ∈ signature.varargs, ∃ pieces, spells t pieces :=
    hparams.forall_mem fun t pieces ht => ⟨pieces, ht⟩
  rw [method_eq]
  apply Outcome.SucceedsIff.after hgeneric
  intro generic
  apply Outcome.SucceedsIff.after (Compressed.exists_encode hform.lt_limit)
  intro count
  apply ((h _ _ hresult).bind fun _ _ => (h.types hdeclared).bind fun _ _ =>
    (h.types hothers).bind_pure).congr
  exact Signature.levels_le.symm

/-- What stands behind the first byte of a type is written if there is room for the types inside. -/
theorem Takes.body (h : Takes inner room spells) (hdeep : Takes deep (room - 1) spells)
    {t : SignatureType} {element : ElementType} (hcontents : Contents spells t element pieces) :
    Outcome.SucceedsIff (.malformed .signatureNesting) (t.levels 2 ≤ room + 1)
      (body inner deep t) := by
  have hleast : True ↔ 1 ≤ room + 1 := by
    simp
  cases hcontents with
  | primitive kind => exact (Outcome.SucceedsIff.of_exists ⟨_, rfl⟩).congr hleast
  | pointer hinner | reference hinner | vector hinner | pinned hinner =>
      apply (h _ _ hinner).bind_pure.congr
      simp [SignatureType.levels]
  | valueType hnamed | classType hnamed =>
      exact (Outcome.SucceedsIff.of_exists hnamed.exists_encodeToken).bind_pure.congr hleast
  | typeParameter hn | methodParameter hn =>
      exact (Outcome.SucceedsIff.of_exists hn.exists_encode).bind_pure.congr hleast
  | array hitem hrank hsizes hbounds =>
      apply ((h _ _ hitem).bind fun _ _ => .after hrank.exists_encode fun _ =>
        .after hsizes.exists_numbers fun _ => .after hbounds.exists_numbers fun _ =>
          .of_exists ⟨_, rfl⟩).congr
      simp [SignatureType.levels]
  | genericInstance hkind hbase hargs =>
      have hcount := Compressed.exists_encode hargs.length_lt
      obtain ⟨-, hargs⟩ := hargs
      have hall : ∀ t ∈ _, ∃ pieces, spells t pieces :=
        hargs.forall_mem fun t pieces ht => ⟨pieces, ht⟩
      apply ((h _ _ hbase).bind fun _ _ => .after hcount fun _ => (h.types hall).bind_pure).congr
      rw [SignatureType.levels, Nat.succ_le_succ_iff, Nat.max_le, SignatureType.levelsOfAll_le]
  | functionPointer hmethod =>
      -- The signature is written by `deep`, which has lost a level to the pointer already.
      rename_i signature
      apply (hdeep.method hmethod).bind_pure.congr
      have hpos := @Signature.levels_pos 2 (by decide) signature
      rw [SignatureType.levels]
      omega

/-- The induction is on the levels that were left for reading. -/
theorem takes_spelled (front : List Piece → Prop) (read room : Nat) :
    Takes (SignatureWriter.type room) room (Spelled front read) := by
  induction read generalizing room with
  | zero => exact fun _ _ h => h.elim
  | succ read ih =>
      intro t pieces h
      obtain ⟨before, element, rest, -, hcontents, rfl⟩ := h
      cases room with
      | zero =>
          have hpos := @SignatureType.levels_pos 2 (by decide) t
          exact .inr ⟨by omega, rfl⟩
      | succ room =>
          rw [type_succ]
          exact ((ih room).body (ih (room - 1)) hcontents).bind_pure

end SignatureWriter

namespace Signature

/-- What was read can be written exactly if it nests no deeper than there is room, with two levels
for each function pointer. -/
theorem encode_of_reader {blob rest : Bytes} {signature : Signature}
    (h : Signature.reader blob = .ok signature rest) :
    signature.levels 1 ≤ signatureRoom ∧
      Outcome.SucceedsIff (.malformed .signatureNesting) (signature.levels 2 ≤ signatureRoom)
        signature.encode := by
  obtain ⟨pieces, -, hmethod⟩ := (parses_reader _ _ _).mp h
  have hread : signature.levels 1 ≤ signatureRoom :=
    hmethod.levels_le fun _ _ => Spelling.Spelled.levels_le
  exact ⟨hread, (SignatureWriter.takes_spelled _ _ _).method hmethod⟩

end Signature

end NativeExports
