import NativeExports.Proofs.Signature.Cutting
import NativeExports.Proofs.Signature.RoundTrip

/-!
# The tokens of a signature

A signature is looked at in two ways: as a tree, which is without the modifiers, and as pieces,
which keep every byte.  Both follow one grammar, so they cut a signature at the same places.  The
tokens of the tree are the tokens among the pieces that follow the byte of a class or of a value
type; every other token follows the byte of a modifier.
-/

namespace NativeExports

/-! ## The tokens of a tree -/

mutual

/-- The tokens of the classes and value types in a type, from left to right. -/
def SignatureType.tokens : SignatureType → List Token
  | .primitive _ | .typeParameter _ | .methodParameter _ => []
  | .pointer type | .reference type | .vector type | .pinned type => type.tokens
  | .valueType token | .classType token => [token]
  | .array item _ _ _ => item.tokens
  | .genericInstance base args => base.tokens ++ SignatureType.tokensOfAll args
  | .functionPointer signature => Signature.tokens signature

/-- The tokens in types, one type after the other. -/
def SignatureType.tokensOfAll : List SignatureType → List Token
  | [] => []
  | type :: types => type.tokens ++ SignatureType.tokensOfAll types

/-- The tokens in a signature: in the result, in the parameters, and in the arguments behind
them. -/
def Signature.tokens : Signature → List Token
  | ⟨_, _, _, _, result, params, varargs⟩ =>
    result.tokens ++ (SignatureType.tokensOfAll params ++ SignatureType.tokensOfAll varargs)

end

theorem Signature.tokens_eq (signature : Signature) :
    signature.tokens = signature.result.tokens ++
      (SignatureType.tokensOfAll signature.params ++
        SignatureType.tokensOfAll signature.varargs) := by
  cases signature
  rw [Signature.tokens]

/-! ## The tokens among pieces -/

namespace Piece

/-- The tokens among pieces, each with the byte in front of it. -/
def announced : Option UInt8 → List Piece → List (Option UInt8 × Token)
  | _, [] => []
  | before, .raw data :: rest => announced (data.getLast?.or before) rest
  | before, .token named stored :: rest =>
    (before, named) :: announced (stored.getLast?.or before) rest

/-- The last byte of pieces that stand behind some byte. -/
def lastByte (before : Option UInt8) (pieces : List Piece) : Option UInt8 :=
  (pieces.flatMap bytes).getLast?.or before

theorem announced_append (before : Option UInt8) (pieces others : List Piece) :
    announced before (pieces ++ others) =
      announced before pieces ++ announced (lastByte before pieces) others := by
  induction pieces generalizing before with
  | nil => rfl
  | cons piece pieces ih =>
      have hlast : lastByte (piece.bytes.getLast?.or before) pieces =
          lastByte before (piece :: pieces) := by
        rw [lastByte, lastByte, List.flatMap_cons, List.getLast?_append, Option.or_assoc]
      cases piece with
      | raw data =>
          rw [List.cons_append, announced, announced, ih]
          exact congrArg (_ ++ announced · _) hlast
      | token named stored =>
          rw [List.cons_append, announced, announced, ih, List.cons_append]
          exact congrArg (fun last => _ :: (_ ++ announced last _)) hlast

theorem map_snd_announced (before : Option UInt8) (pieces : List Piece) :
    (announced before pieces).map Prod.snd = pieces.filterMap token? := by
  induction pieces generalizing before with
  | nil => rfl
  | cons piece pieces ih =>
      cases piece with
      | raw data => exact ih _
      | token named stored => exact congrArg (named :: ·) (ih _)

/-- The bytes in front of the tokens that are part of the tree. -/
def typeBytes : List (Option UInt8) :=
  [some ElementType.classType.byte, some ElementType.valueType.byte]

/-- The bytes in front of the tokens that are not. -/
def modifierBytes : List (Option UInt8) :=
  [some ElementType.requiredModifier.byte, some ElementType.optionalModifier.byte]

/-- Among pieces, exactly some tokens belong to types.  All others stand behind certain bytes. -/
structure Announces (others : List (Option UInt8)) (pieces : List Piece) (tokens : List Token) :
    Prop where
  types : ∀ before,
    ((announced before pieces).filter (·.1 ∈ typeBytes)).map Prod.snd = tokens
  rest : ∀ before, ∀ mark ∈ announced before pieces, mark.1 ∈ typeBytes ∨ mark.1 ∈ others

namespace Announces

variable {others : List (Option UInt8)} {pieces more : List Piece} {tokens tokens' : List Token}

theorem nil (others : List (Option UInt8)) : Announces others [] [] :=
  ⟨fun _ => rfl, fun _ => nofun⟩

theorem append (h : Announces others pieces tokens) (h' : Announces others more tokens') :
    Announces others (pieces ++ more) (tokens ++ tokens') := by
  refine ⟨fun before => ?_, fun before mark hmem => ?_⟩
  · rw [announced_append, List.filter_append, List.map_append, h.types, h'.types]
  · rw [announced_append] at hmem
    rcases List.mem_append.mp hmem with hmem | hmem
    · exact h.rest _ mark hmem
    · exact h'.rest _ mark hmem

theorem raw (data : Bytes) (h : Announces others pieces tokens) :
    Announces others (.raw data :: pieces) tokens :=
  ⟨fun _ => h.types _, fun _ => h.rest _⟩

end Announces

end Piece

namespace Spelling

open Piece (Announces announced typeBytes modifierBytes)

variable {others : List (Option UInt8)} {pieces : List Piece}

theorem Named.announces {element : ElementType} {token : Token}
    (helement : element ∈ [.classType, .valueType]) (h : Named token pieces) :
    Announces others (.raw [element.byte] :: pieces) [token] := by
  obtain ⟨hform⟩ := h
  have hbyte : some element.byte ∈ typeBytes := by
    fin_cases helement <;> decide
  refine ⟨fun before => ?_, fun before mark hmem => ?_⟩
  · simp [announced, hbyte]
  · obtain rfl := List.mem_singleton.mp hmem
    exact .inl hbyte

theorem Numeral.announces {n : Nat} (h : Numeral n pieces) : Announces others pieces [] := by
  obtain ⟨_, rfl, -⟩ := h
  exact .raw _ (.nil others)

theorem Modifiers.announces (h : Modifiers pieces) : Announces modifierBytes pieces [] := by
  induction h with
  | nil => exact .nil _
  | @cons element token rest helement htoken _ ih =>
      obtain ⟨named, stored, rfl, -⟩ := htoken
      have hbyte : some element.byte ∈ modifierBytes ∧ some element.byte ∉ typeBytes := by
        fin_cases helement <;> decide
      refine ⟨fun before => ?_, fun before mark hmem => ?_⟩
      · have hrest := ih.types (stored.getLast?.or (some element.byte))
        simpa [announced, hbyte.2] using hrest
      · rcases List.mem_cons.mp hmem with rfl | hmem
        · exact .inr hbyte.1
        · exact ih.rest _ mark hmem

theorem Sequence.announces {items : List SignatureType} {type : SignatureType → List Piece → Prop}
    (h : Sequence type items pieces)
    (htype : ∀ t pieces, type t pieces → Announces others pieces t.tokens) :
    Announces others pieces (SignatureType.tokensOfAll items) := by
  induction h with
  | nil => exact .nil others
  | cons hfirst _ ih => exact (htype _ _ hfirst).append ih

theorem Sequence.announces_numerals {items : List Nat} (h : Sequence Numeral items pieces) :
    Announces others pieces [] := by
  induction h with
  | nil => exact .nil others
  | cons hfirst _ ih => exact hfirst.announces.append ih

theorem Listed.announces_numerals {items : List Nat} (h : Listed Numeral items pieces) :
    Announces others pieces [] := by
  obtain ⟨⟨_, rfl, -⟩, hitems⟩ := h
  exact .raw _ hitems.announces_numerals

variable {type : SignatureType → List Piece → Prop}

theorem Parameters.announces {marked : Bool} {params varargs : List SignatureType}
    (h : Parameters type marked params varargs pieces)
    (htype : ∀ t pieces, type t pieces → Announces others pieces t.tokens) :
    Announces others pieces
      (SignatureType.tokensOfAll params ++ SignatureType.tokensOfAll varargs) := by
  induction h with
  | nil => exact .nil others
  | declared hfirst _ ih =>
      rw [SignatureType.tokensOfAll, List.append_assoc]
      exact (htype _ _ hfirst).append ih
  | marked hfirst _ ih => exact .raw _ ((htype _ _ hfirst).append ih)
  | behind hfirst _ ih => exact (htype _ _ hfirst).append ih

theorem Arity.announces {lead n : Nat} (h : Arity lead n pieces) : Announces others pieces [] := by
  cases h with
  | plain => exact .nil others
  | generic _ hn => exact hn.announces

theorem Method.announces {signature : Signature} (h : Method type signature pieces)
    (htype : ∀ t pieces, type t pieces → Announces others pieces t.tokens) :
    Announces others pieces signature.tokens := by
  obtain ⟨-, harity, ⟨_, rfl, -⟩, hresult, hparams⟩ := h
  rw [Signature.tokens_eq]
  exact .raw _ (harity.announces.append
    (.raw _ ((htype _ _ hresult).append (hparams.announces htype))))

theorem Contents.announces {t : SignatureType} {element : ElementType}
    (h : Contents type t element pieces)
    (htype : ∀ t pieces, type t pieces → Announces others pieces t.tokens) :
    Announces others (.raw [element.byte] :: pieces) t.tokens := by
  cases h with
  | primitive kind => exact .raw _ (.nil others)
  | pointer h | reference h | vector h | pinned h =>
      rw [SignatureType.tokens]
      exact .raw _ (htype _ _ h)
  | valueType h | classType h => exact h.announces (by decide)
  | typeParameter h | methodParameter h => exact .raw _ h.announces
  | array hitem hrank hsizes hbounds =>
      have hnumbers : Announces others _ [] :=
        hrank.announces.append (hsizes.announces_numerals.append hbounds.announces_numerals)
      have hall := (htype _ _ hitem).append hnumbers
      rw [List.append_nil] at hall
      rw [SignatureType.tokens]
      exact .raw _ hall
  | genericInstance hkind hbase hargs =>
      obtain ⟨⟨_, rfl, -⟩, hargs⟩ := hargs
      rw [SignatureType.tokens]
      exact .raw _ ((htype _ _ hbase).append (.raw _ (hargs.announces htype)))
  | functionPointer h =>
      rw [SignatureType.tokens]
      exact .raw _ (h.announces htype)

theorem Spelled.announces {front : List Piece → Prop} {room : Nat} {t : SignatureType}
    (hfront : ∀ pieces, front pieces → Announces others pieces [])
    (h : Spelled front room t pieces) : Announces others pieces t.tokens := by
  induction room generalizing t pieces with
  | zero => exact h.elim
  | succ room ih =>
      obtain ⟨before, element, rest, hbefore, hcontents, rfl⟩ := h
      exact (hfront _ hbefore).append (hcontents.announces fun _ _ => ih)

end Spelling

/-! ## Both views -/

/-- What the tokens among the pieces of a signature have to do with its tree. -/
structure Signature.NamedBy (signature : Signature) (pieces : List Piece) (tokens : List Token) :
    Prop where
  all : (Piece.announced none pieces).map Prod.snd = tokens
  types : ((Piece.announced none pieces).filter (·.1 ∈ Piece.typeBytes)).map Prod.snd =
    signature.tokens
  modifiers : ∀ mark ∈ Piece.announced none pieces, mark.1 ∉ Piece.typeBytes →
    mark.1 ∈ Piece.modifierBytes
  sublist : signature.tokens.Sublist tokens

namespace Signature

open Spelling

variable {signature : Signature} {pieces : List Piece} {tokens : List Token}

theorem namedBy_of_announces (h : Piece.Announces Piece.modifierBytes pieces signature.tokens)
    (htokens : pieces.filterMap Piece.token? = tokens) : signature.NamedBy pieces tokens := by
  have hall : (Piece.announced none pieces).map Prod.snd = tokens :=
    (Piece.map_snd_announced none pieces).trans htokens
  refine ⟨hall, h.types none, fun mark hmem => (h.rest none mark hmem).resolve_left, ?_⟩
  rw [← hall, ← h.types none]
  exact List.filter_sublist.map Prod.snd

/-- Without modifiers all tokens belong to the tree. -/
theorem tokens_of_announces (h : Piece.Announces [] pieces signature.tokens) :
    pieces.filterMap Piece.token? = signature.tokens := by
  rw [← Piece.map_snd_announced none pieces, ← h.types none]
  refine congrArg (List.map Prod.snd) (List.filter_eq_self.mpr fun mark hmem => ?_).symm
  exact decide_eq_true ((h.rest none mark hmem).resolve_right nofun)

/-- A signature of a method that is spelled in bytes is cut there as any walk cuts it, and the walk
leaves the same bytes. -/
theorem cut_of_spelled {front : List Piece → Prop} {lead : UInt8} {passed : List Piece}
    {rest left : Bytes} {room room' : Nat} (hfront : ∀ pieces, front pieces → Modifiers pieces)
    (h : Method (Spelled front room) signature pieces)
    (hpassed : Grammar.Method (Grammar.Typed room') lead.toNat passed)
    (heq : pieces.flatMap Piece.bytes ++ rest =
      (.raw [lead] :: passed : List Piece).flatMap Piece.bytes ++ left) :
    pieces = .raw [lead] :: passed ∧ rest = left := by
  obtain ⟨lead', first, rfl, hgrammar⟩ := h.grammar fun _ _ => Spelled.fits hfront
  -- With the greater of the two rooms, one walk passes both.
  have hwalk := (Walk.passes_type (max first.length room')).method
  refine hwalk.unique ⟨lead', first, hgrammar _ (Nat.le_max_left _ _), rfl⟩
    ⟨lead, passed, hpassed.mono fun _ ht => ?_, rfl⟩ heq
  exact ht.mono (Nat.le_max_right _ _)

/-- The tree of a signature and its pieces end at the same byte and agree on the tokens: those of
the tree are the ones behind the byte of a class or of a value type, and all others stand behind the
byte of a modifier.  What is written for the tree has no others. -/
theorem tree_agrees_with_pieces {lead : UInt8} {behind rest : Bytes} {signature : Signature}
    {tokens : List Token} (hlead : lead.toNat % 16 ≤ 5)
    (hread : Signature.reader (lead :: behind) = .ok signature rest)
    (htokens : BlobForm.signature.tokens (lead :: behind) = .ok tokens) :
    (∃ pieces, BlobForm.signature.walk (lead :: behind) = (pieces, .ok ((), rest)) ∧
      lead :: behind = pieces.flatMap Piece.bytes ++ rest ∧ signature.NamedBy pieces tokens) ∧
    (signature.encode = .ok (lead :: behind) → tokens = signature.tokens) := by
  obtain ⟨passed, left, hwalk, hfilter, -⟩ := BlobForm.tokens_eq_ok htokens
  obtain ⟨hblob, lead', more, hsigned, rfl⟩ := (BlobForm.passes_walk .signature _ _ () _).mp hwalk
  obtain rfl : lead = lead' := (List.cons.inj hblob).1
  have hpassed := (Grammar.signed_iff_method hlead).mp hsigned
  -- What is read, and what is written again, is spelled by pieces; they are the ones passed.
  constructor
  · obtain ⟨pieces, hdata, hspelled⟩ := (parses_reader _ _ _).mp hread
    have hannounces := hspelled.announces fun _ _ => Spelled.announces fun _ => Modifiers.announces
    obtain ⟨rfl, rfl⟩ := cut_of_spelled (fun _ h => h) hspelled hpassed (hdata.symm.trans hblob)
    exact ⟨_, hwalk, hblob, namedBy_of_announces hannounces hfilter⟩
  · intro hencode
    obtain ⟨pieces, hdata, hspelled⟩ := spelled_of_encode (storable_of_reader hread) hencode
    have hannounces : Piece.Announces [] pieces signature.tokens :=
      hspelled.announces fun _ _ => Spelled.announces fun _ hplain => hplain ▸ .nil []
    have hstored : pieces.flatMap Piece.bytes ++ [] = lead :: behind := by
      rw [List.append_nil, hdata]
    obtain ⟨rfl, -⟩ := cut_of_spelled (fun _ => SignatureWriter.modifiers_of_plain) hspelled hpassed
      (hstored.trans hblob)
    rw [← hfilter, tokens_of_announces hannounces]

/-- A call with an argument behind the mark; two types have modifiers, and a byte follows. -/
def modifiedCall : Bytes :=
  [0x05, 0x02, 0x20, 0x05, 0x12, 0x15, 0x15, 0x12, 0x09, 0x01, 0x11, 0x0D, 0x41, 0x1F, 0x11, 0x0F,
    0x01, 0x2A]

/-- The same call without modifiers and without anything behind. -/
def plainCall : Bytes :=
  [0x05, 0x02, 0x12, 0x15, 0x15, 0x12, 0x09, 0x01, 0x11, 0x0D, 0x41, 0x0F, 0x01]

/-- Of five tokens three belong to the tree, and they are all there is without modifiers. -/
theorem tree_agrees_with_pieces_modifiedCall :
    ∃ signature, Signature.reader modifiedCall = .ok signature [0x2A] ∧
      signature.tokens = [⟨0x01000005⟩, ⟨0x01000002⟩, ⟨0x01000003⟩] ∧
      (∃ pieces, BlobForm.signature.walk modifiedCall = (pieces, .ok ((), [0x2A])) ∧
        modifiedCall = pieces.flatMap Piece.bytes ++ [0x2A] ∧ signature.NamedBy pieces
          [⟨0x01000001⟩, ⟨0x01000005⟩, ⟨0x01000002⟩, ⟨0x01000003⟩, ⟨0x01000004⟩]) ∧
      signature.encode = .ok plainCall ∧
        BlobForm.signature.tokens plainCall = .ok signature.tokens := by
  have htokens : BlobForm.signature.tokens modifiedCall = .ok
      [⟨0x01000001⟩, ⟨0x01000005⟩, ⟨0x01000002⟩, ⟨0x01000003⟩, ⟨0x01000004⟩] := by decide +kernel
  have hplain : BlobForm.signature.tokens plainCall = .ok
      [⟨0x01000005⟩, ⟨0x01000002⟩, ⟨0x01000003⟩] := by decide +kernel
  refine ⟨⟨false, false, 5, 0, .classType ⟨0x01000005⟩,
    [.genericInstance (.classType ⟨0x01000002⟩) [.valueType ⟨0x01000003⟩]],
    [.pointer (.primitive .void)]⟩, rfl, rfl,
    (tree_agrees_with_pieces (by decide) rfl htokens).1, by decide +kernel, ?_⟩
  have hsame := (tree_agrees_with_pieces (by decide) rfl hplain).2 (by decide +kernel)
  exact hplain.trans (congrArg Except.ok hsame)

end Signature

end NativeExports
