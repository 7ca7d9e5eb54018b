import NativeExports.Proofs.Signature.Reading
import NativeExports.Signature.Writing

/-!
# Reading undoes writing

What is written for a signature spells it, with nothing in front of any type, so it is read as that
signature.  Writing counts a function pointer as two levels of nesting and reading counts it as one,
so there is room for reading whatever could be written.
-/

namespace NativeExports

mutual

/-- A type whose parts have room in their stored forms, and whose generic instances are instances of
classes and value types. -/
inductive SignatureType.Storable : SignatureType → Prop where
  | primitive (kind : PrimitiveType) : SignatureType.Storable (.primitive kind)
  | pointer {target : SignatureType} (h : SignatureType.Storable target) :
      SignatureType.Storable (.pointer target)
  | reference {target : SignatureType} (h : SignatureType.Storable target) :
      SignatureType.Storable (.reference target)
  | vector {item : SignatureType} (h : SignatureType.Storable item) :
      SignatureType.Storable (.vector item)
  | pinned {inside : SignatureType} (h : SignatureType.Storable inside) :
      SignatureType.Storable (.pinned inside)
  | valueType {token : Token} (h : token.value < 2 ^ 32) : SignatureType.Storable (.valueType token)
  | classType {token : Token} (h : token.value < 2 ^ 32) : SignatureType.Storable (.classType token)
  | typeParameter (number : Nat) : SignatureType.Storable (.typeParameter number)
  | methodParameter (number : Nat) : SignatureType.Storable (.methodParameter number)
  | array {item : SignatureType} {rank : Nat} {sizes lowerBounds : List Nat}
      (hitem : SignatureType.Storable item) (hsizes : sizes.length < Compressed.limit)
      (hbounds : lowerBounds.length < Compressed.limit) :
      SignatureType.Storable (.array item rank sizes lowerBounds)
  | genericInstance {base : SignatureType} {args : List SignatureType}
      (hkind : ∃ token, base = .classType token ∨ base = .valueType token)
      (hbase : SignatureType.Storable base) (hcount : args.length < Compressed.limit)
      (hargs : ∀ arg ∈ args, SignatureType.Storable arg) :
      SignatureType.Storable (.genericInstance base args)
  | functionPointer {signature : Signature} (h : Signature.Storable signature) :
      SignatureType.Storable (.functionPointer signature)

/-- A signature whose parts have room in their stored forms, wherever they stand. -/
inductive Signature.Storable : Signature → Prop where
  | mk {signature : Signature} (hconvention : signature.convention < 16)
      (hparams : signature.params.length < Compressed.limit)
      (hvarargs : signature.varargs.length < Compressed.limit)
      (hresult : SignatureType.Storable signature.result)
      (hparam : ∀ param ∈ signature.params, SignatureType.Storable param)
      (hvararg : ∀ param ∈ signature.varargs, SignatureType.Storable param) :
      Signature.Storable signature

end

/-! ## What is read is storable -/

namespace Spelling

variable {type : SignatureType → List Piece → Prop}

theorem Sequence.forall_mem {α : Type} {item : α → List Piece → Prop} {p : α → Prop}
    {items : List α} {pieces : List Piece} (h : Sequence item items pieces)
    (hitem : ∀ a pieces, item a pieces → p a) :
    ∀ a ∈ items, p a := by
  induction h with
  | nil => exact nofun
  | cons hfirst _ ih => exact List.forall_mem_cons.mpr ⟨hitem _ _ hfirst, ih⟩

theorem Parameters.forall_mem {p : SignatureType → Prop} {marked : Bool}
    {params varargs : List SignatureType} {pieces : List Piece}
    (h : Parameters type marked params varargs pieces) (htype : ∀ t pieces, type t pieces → p t) :
    (∀ t ∈ params, p t) ∧ ∀ t ∈ varargs, p t := by
  induction h with
  | nil => exact ⟨nofun, nofun⟩
  | declared hfirst _ ih => exact ⟨List.forall_mem_cons.mpr ⟨htype _ _ hfirst, ih.1⟩, ih.2⟩
  | marked hfirst _ ih => exact ⟨nofun, List.forall_mem_cons.mpr ⟨htype _ _ hfirst, ih.2⟩⟩
  | behind hfirst _ ih => exact ⟨nofun, List.forall_mem_cons.mpr ⟨htype _ _ hfirst, ih.2⟩⟩

theorem Listed.length_lt {α : Type} {item : α → List Piece → Prop} {items : List α}
    {pieces : List Piece} (h : Listed item items pieces) : items.length < Compressed.limit := by
  obtain ⟨⟨_, -, hform⟩, -⟩ := h
  exact hform.lt_limit

theorem Method.storable {signature : Signature} {pieces : List Piece}
    (h : Method type signature pieces) (htype : ∀ t pieces, type t pieces → t.Storable) :
    signature.Storable := by
  obtain ⟨hlead, -, ⟨_, -, hform⟩, hresult, hparams⟩ := h
  have hcount := hform.lt_limit
  obtain ⟨hparam, hvararg⟩ := hparams.forall_mem htype
  refine .mk ?_ (by omega) (by omega) (htype _ _ hresult) hparam hvararg
  rw [hlead.convention]
  exact Nat.mod_lt _ (by decide)

theorem Named.value_lt {token : Token} {pieces : List Piece} (h : Named token pieces) :
    token.value < 2 ^ 32 := by
  obtain ⟨n, table, -, -, rfl⟩ := h
  exact Token.ofRow_lt table (n / 4)

theorem Spelled.storable {room : Nat} {t : SignatureType} {pieces : List Piece}
    (h : Spelled Modifiers room t pieces) : t.Storable := by
  induction room generalizing t pieces with
  | zero => exact h.elim
  | succ room ih =>
      obtain ⟨before, element, rest, -, hcontents, rfl⟩ := h
      cases hcontents with
      | primitive kind => exact .primitive kind
      | pointer h => exact .pointer (ih h)
      | reference h => exact .reference (ih h)
      | vector h => exact .vector (ih h)
      | pinned h => exact .pinned (ih h)
      | valueType h => exact .valueType h.value_lt
      | classType h => exact .classType h.value_lt
      | typeParameter => exact .typeParameter _
      | methodParameter => exact .methodParameter _
      | array hitem _ hsizes hbounds => exact .array (ih hitem) hsizes.length_lt hbounds.length_lt
      | genericInstance hkind hbase hargs =>
          obtain ⟨token, -, htype⟩ := hbase.named hkind fun _ h => h
          have hcount := hargs.length_lt
          obtain ⟨-, hargs⟩ := hargs
          refine .genericInstance ⟨token, ?_⟩ (ih hbase) hcount (hargs.forall_mem fun _ _ => ih)
          exact htype.imp And.right And.right
      | functionPointer h => exact .functionPointer (h.storable fun _ _ => ih)

end Spelling

/-! ## What is written -/

namespace SignatureWriter

open Spelling

/-- What is written for something storable spells it. -/
def Writes (writer : TypeWriter) (spells : SignatureType → List Piece → Prop) : Prop :=
  ∀ t stored, t.Storable → writer t = .ok stored →
    ∃ pieces, stored = pieces.flatMap Piece.bytes ∧ spells t pieces

theorem numeral_of_encode {n : Nat} {stored : Bytes} (h : Compressed.encode n = .ok stored) :
    Numeral n [.raw stored] :=
  .mk ⟨stored, rfl, Compressed.encode_form h⟩

theorem named_of_encodeToken {token : Token} {stored : Bytes} (hvalue : token.value < 2 ^ 32)
    (h : Compressed.encodeToken token = .ok stored) : Named token [.token token stored] :=
  .mk (Compressed.encodeToken_form hvalue h)

/-- The low bits of the first byte hold the convention, and each flag has a bit of its own. -/
theorem flags_of_lead {convention : Nat} (h : convention < 16)
    (generic hasThis explicitThis : Bool) :
    let lead := convention + (if hasThis = true then 2 ^ SignatureLead.hasThisBit else 0) +
      (if explicitThis = true then 2 ^ SignatureLead.explicitThisBit else 0) +
      (if generic = true then 2 ^ SignatureLead.genericBit else 0)
    lead < 256 ∧ lead % 16 = convention ∧ lead.testBit SignatureLead.genericBit = generic ∧
      lead.testBit SignatureLead.hasThisBit = hasThis ∧
        lead.testBit SignatureLead.explicitThisBit = explicitThis := by
  simp only [SignatureLead.genericBit, SignatureLead.hasThisBit, SignatureLead.explicitThisBit,
    Nat.testBit_eq_decide_div_mod_eq]
  cases generic <;> cases hasThis <;> cases explicitThis <;> simp <;> omega

theorem leads_lead {signature : Signature} (h : signature.convention < 16) :
    Leads (lead signature).toNat signature ∧
      (lead signature).toNat.testBit SignatureLead.genericBit =
        decide (0 < signature.genericCount) := by
  obtain ⟨hlt, hconvention, hgeneric, hthis, hexplicit⟩ := flags_of_lead h
    (decide (0 < signature.genericCount)) signature.hasThis signature.explicitThis
  simp only [decide_eq_true_eq] at hlt hconvention hgeneric hthis hexplicit
  rw [lead, Nat.mod_eq_of_lt h, UInt8.toNat_ofNat', Nat.mod_eq_of_lt hlt]
  exact ⟨⟨hthis.symm, hexplicit.symm, hconvention.symm⟩, hgeneric⟩

theorem arity_of_encode {signature : Signature} {stored : Bytes}
    (hconvention : signature.convention < 16)
    (h : (if 0 < signature.genericCount then Compressed.encode signature.genericCount
      else pure []) = .ok stored) :
    ∃ pieces, stored = pieces.flatMap Piece.bytes ∧
      Arity (lead signature).toNat signature.genericCount pieces := by
  have hbit := (leads_lead hconvention).2
  split at h
  · rename_i hgeneric
    exact ⟨[.raw stored], by simp [Piece.bytes],
      .generic (by simpa [hgeneric] using hbit) (numeral_of_encode h)⟩
  · rename_i hplain
    obtain rfl := Outcome.pure_eq_ok.mp h
    have hzero : signature.genericCount = 0 := by omega
    rw [hzero] at hbit ⊢
    exact ⟨[], rfl, .plain (by simpa using hbit)⟩

theorem sequence_of_mapM {α : Type} {item : α → Except Error Bytes} {spells : α → List Piece → Prop}
    {items : List α} {parts : List Bytes}
    (hitem : ∀ a ∈ items, ∀ stored, item a = .ok stored →
      ∃ pieces, stored = pieces.flatMap Piece.bytes ∧ spells a pieces)
    (h : items.mapM item = .ok parts) :
    ∃ pieces, parts.flatten = pieces.flatMap Piece.bytes ∧ Sequence spells items pieces := by
  replace h := Outcome.mapM_eq_ok.mp h
  induction h with
  | nil => exact ⟨[], rfl, .nil⟩
  | @cons a stored items parts ha _ ih =>
      obtain ⟨hfirst, hrest⟩ := List.forall_mem_cons.mp hitem
      obtain ⟨first, rfl, hspells⟩ := hfirst _ ha
      obtain ⟨rest, hparts, hsequence⟩ := ih hrest
      exact ⟨first ++ rest, by rw [List.flatten_cons, hparts, List.flatMap_append],
        .cons hspells hsequence⟩

theorem listed_of_numbers {items : List Nat} {stored : Bytes} (h : numbers items = .ok stored) :
    ∃ pieces, stored = pieces.flatMap Piece.bytes ∧ Listed Numeral items pieces := by
  obtain ⟨count, hcount, h⟩ := Outcome.bind_eq_ok.mp h
  obtain ⟨parts, hparts, h⟩ := Outcome.bind_eq_ok.mp h
  obtain rfl := Outcome.pure_eq_ok.mp h
  have hitem : ∀ n ∈ items, ∀ stored, Compressed.encode n = .ok stored →
      ∃ pieces, stored = pieces.flatMap Piece.bytes ∧ Numeral n pieces :=
    fun n _ stored hn => ⟨[.raw stored], by simp [Piece.bytes], numeral_of_encode hn⟩
  obtain ⟨pieces, hpieces, hsequence⟩ := sequence_of_mapM hitem hparts
  refine ⟨.raw count :: pieces, ?_, .mk ⟨count, rfl, Compressed.encode_form hcount⟩ hsequence⟩
  rw [List.flatMap_cons, Piece.bytes, hpieces]

section

variable {type : TypeWriter} {spells : SignatureType → List Piece → Prop}

theorem sequence_of_types (h : Writes type spells) {items : List SignatureType} {stored : Bytes}
    (hitems : ∀ t ∈ items, t.Storable) (hstored : types type items = .ok stored) :
    ∃ pieces, stored = pieces.flatMap Piece.bytes ∧ Sequence spells items pieces := by
  obtain ⟨parts, hparts, hflat⟩ := Outcome.bind_eq_ok.mp hstored
  obtain rfl := Outcome.pure_eq_ok.mp hflat
  exact sequence_of_mapM (fun t hmem stored => h t stored (hitems t hmem)) hparts

/-- Declared parameters stand in front of the arguments behind the mark. -/
theorem declare_of_sequence {params varargs : List SignatureType} {first rest : List Piece}
    (h : Sequence spells params first) (hrest : Parameters spells false [] varargs rest) :
    Parameters spells false params varargs (first ++ rest) := by
  induction h with
  | nil => exact hrest
  | cons hfirst _ ih => exact List.append_assoc .. ▸ .declared hfirst ih

theorem behind_of_sequence {varargs : List SignatureType} {pieces : List Piece}
    (h : Sequence spells varargs pieces) : Parameters spells true [] varargs pieces := by
  induction h with
  | nil => exact .nil true
  | cons hfirst _ ih => exact .behind hfirst ih

theorem marked_of_sequence {varargs : List SignatureType} {pieces : List Piece}
    (h : Sequence spells varargs pieces) :
    Parameters spells false [] varargs
      ((if varargs.isEmpty then [] else [.raw [ElementType.sentinel.byte]]) ++ pieces) := by
  cases h with
  | nil => exact .nil false
  | @cons param varargs first rest hfirst hrest =>
      change Parameters spells false [] _ (.raw [ElementType.sentinel.byte] :: (first ++ rest))
      exact .marked hfirst (behind_of_sequence hrest)

theorem method_eq (type : TypeWriter) (signature : Signature) : method type signature = (do
    let genericCount ← (if 0 < signature.genericCount then
      Compressed.encode signature.genericCount else pure [] : Except Error Bytes)
    let count ← Compressed.encode (signature.params.length + signature.varargs.length)
    let result ← type signature.result
    let params ← types type signature.params
    let varargs ← types type signature.varargs
    pure ([lead signature] ++ genericCount ++ count ++ result ++ params ++
      (if signature.varargs.isEmpty then [] else [ElementType.sentinel.byte]) ++ varargs)) := by
  unfold method
  by_cases hgeneric : 0 < signature.genericCount
  · simp only [if_pos hgeneric]
  · simp only [if_neg hgeneric]

/-- What is written for a signature spells it. -/
theorem method_writes (h : Writes type spells) {signature : Signature} {stored : Bytes}
    (hstorable : signature.Storable) (hstored : method type signature = .ok stored) :
    ∃ pieces, stored = pieces.flatMap Piece.bytes ∧ Method spells signature pieces := by
  obtain ⟨hconvention, -, -, hresult, hparam, hvararg⟩ := hstorable
  rw [method_eq] at hstored
  obtain ⟨genericCount, hgeneric, hstored⟩ := Outcome.bind_eq_ok.mp hstored
  obtain ⟨count, hcount, hstored⟩ := Outcome.bind_eq_ok.mp hstored
  obtain ⟨result, hwritten, hstored⟩ := Outcome.bind_eq_ok.mp hstored
  obtain ⟨params, hparams, hstored⟩ := Outcome.bind_eq_ok.mp hstored
  obtain ⟨varargs, hvarargs, hstored⟩ := Outcome.bind_eq_ok.mp hstored
  obtain rfl := Outcome.pure_eq_ok.mp hstored
  obtain ⟨arity, rfl, harity⟩ := arity_of_encode hconvention hgeneric
  obtain ⟨first, rfl, hfirst⟩ := h _ _ hresult hwritten
  obtain ⟨declared, rfl, hdeclared⟩ := sequence_of_types h hparam hparams
  obtain ⟨others, rfl, hothers⟩ := sequence_of_types h hvararg hvarargs
  refine ⟨_, ?_, .mk (leads_lead hconvention).1 harity ⟨count, rfl, Compressed.encode_form hcount⟩
    hfirst (declare_of_sequence hdeclared (marked_of_sequence hothers))⟩
  cases signature.varargs.isEmpty <;> simp [Piece.bytes]

theorem announced_eq_ok {announced element : ElementType} {written : Except Error Bytes}
    {stored : Bytes} (h : (do let rest ← written; pure (announced, rest)) = .ok (element, stored)) :
    announced = element ∧ written = .ok stored := by
  obtain ⟨rest, hrest, hpair⟩ := Outcome.bind_eq_ok.mp h
  obtain ⟨rfl, rfl⟩ := Prod.mk.inj (Outcome.pure_eq_ok.mp hpair)
  exact ⟨rfl, hrest⟩

/-- What is written behind the first byte of a type. -/
theorem body_writes {inner deep : TypeWriter} (hinner : Writes inner spells)
    (hdeep : Writes deep spells)
    (hnamed : ∀ t pieces, (∃ token, t = .classType token ∨ t = .valueType token) → spells t pieces →
      ∃ kind ∈ [ElementType.classType, .valueType], ∃ name, pieces = .raw [kind.byte] :: name)
    {t : SignatureType} {element : ElementType} {stored : Bytes} (hstorable : t.Storable)
    (hstored : body inner deep t = .ok (element, stored)) :
    ∃ pieces, stored = pieces.flatMap Piece.bytes ∧ Contents spells t element pieces := by
  cases hstorable with
  | primitive kind =>
      obtain ⟨rfl, rfl⟩ := Prod.mk.inj (Outcome.pure_eq_ok.mp hstored)
      exact ⟨[], rfl, .primitive kind⟩
  | pointer h =>
      obtain ⟨rfl, hwritten⟩ := announced_eq_ok hstored
      exact (hinner _ _ h hwritten).imp fun _ hpieces => hpieces.imp_right .pointer
  | reference h =>
      obtain ⟨rfl, hwritten⟩ := announced_eq_ok hstored
      exact (hinner _ _ h hwritten).imp fun _ hpieces => hpieces.imp_right .reference
  | vector h =>
      obtain ⟨rfl, hwritten⟩ := announced_eq_ok hstored
      exact (hinner _ _ h hwritten).imp fun _ hpieces => hpieces.imp_right .vector
  | pinned h =>
      obtain ⟨rfl, hwritten⟩ := announced_eq_ok hstored
      exact (hinner _ _ h hwritten).imp fun _ hpieces => hpieces.imp_right .pinned
  | valueType h =>
      obtain ⟨rfl, hwritten⟩ := announced_eq_ok hstored
      exact ⟨_, by simp [Piece.bytes], .valueType (named_of_encodeToken h hwritten)⟩
  | classType h =>
      obtain ⟨rfl, hwritten⟩ := announced_eq_ok hstored
      exact ⟨_, by simp [Piece.bytes], .classType (named_of_encodeToken h hwritten)⟩
  | typeParameter =>
      obtain ⟨rfl, hwritten⟩ := announced_eq_ok hstored
      exact ⟨_, by simp [Piece.bytes], .typeParameter (numeral_of_encode hwritten)⟩
  | methodParameter =>
      obtain ⟨rfl, hwritten⟩ := announced_eq_ok hstored
      exact ⟨_, by simp [Piece.bytes], .methodParameter (numeral_of_encode hwritten)⟩
  | array hitem =>
      obtain ⟨_, hinside, hstored⟩ := Outcome.bind_eq_ok.mp hstored
      obtain ⟨number, hrank, hstored⟩ := Outcome.bind_eq_ok.mp hstored
      obtain ⟨_, hsizes, hstored⟩ := Outcome.bind_eq_ok.mp hstored
      obtain ⟨_, hbounds, hpair⟩ := Outcome.bind_eq_ok.mp hstored
      obtain ⟨rfl, rfl⟩ := Prod.mk.inj (Outcome.pure_eq_ok.mp hpair)
      obtain ⟨inside, rfl, hspelled⟩ := hinner _ _ hitem hinside
      obtain ⟨extents, rfl, hextents⟩ := listed_of_numbers hsizes
      obtain ⟨lowest, rfl, hlowest⟩ := listed_of_numbers hbounds
      exact ⟨_, by simp [Piece.bytes], .array hspelled (numeral_of_encode hrank) hextents hlowest⟩
  | genericInstance hkind hbase _ hargs =>
      obtain ⟨_, hwritten, hstored⟩ := Outcome.bind_eq_ok.mp hstored
      obtain ⟨count, hcount, hstored⟩ := Outcome.bind_eq_ok.mp hstored
      obtain ⟨_, hothers, hpair⟩ := Outcome.bind_eq_ok.mp hstored
      obtain ⟨rfl, rfl⟩ := Prod.mk.inj (Outcome.pure_eq_ok.mp hpair)
      obtain ⟨first, rfl, hfirst⟩ := hinner _ _ hbase hwritten
      obtain ⟨others, rfl, hsequence⟩ := sequence_of_types hinner hargs hothers
      obtain ⟨kind, hmem, name, rfl⟩ := hnamed _ _ hkind hfirst
      exact ⟨_, by simp [Piece.bytes], .genericInstance hmem hfirst
        (.mk ⟨count, rfl, Compressed.encode_form hcount⟩ hsequence)⟩
  | functionPointer h =>
      obtain ⟨rfl, hwritten⟩ := announced_eq_ok hstored
      exact (method_writes hdeep h hwritten).imp fun _ hpieces => hpieces.imp_right .functionPointer

end

/-- Nothing stands in front of a type that is written. -/
def Plain (pieces : List Piece) : Prop :=
  pieces = []

theorem modifiers_of_plain {pieces : List Piece} (h : Plain pieces) : Modifiers pieces := by
  rw [h]
  exact .nil

theorem kind_of_spelled {room : Nat} {t : SignatureType} {pieces : List Piece}
    (hkind : ∃ token, t = .classType token ∨ t = .valueType token)
    (h : Spelled Plain room t pieces) :
    ∃ kind ∈ [ElementType.classType, .valueType], ∃ name, pieces = .raw [kind.byte] :: name := by
  cases room with
  | zero => exact h.elim
  | succ room =>
      obtain ⟨_, element, rest, rfl, hcontents, rfl⟩ := h
      obtain ⟨token, rfl | rfl⟩ := hkind
      · cases hcontents
        exact ⟨.classType, by decide, rest, rfl⟩
      · cases hcontents
        exact ⟨.valueType, by decide, rest, rfl⟩

theorem typeOver_writes {inner deep : TypeWriter} {room : Nat}
    (hinner : Writes inner (Spelled Plain room)) (hdeep : Writes deep (Spelled Plain room)) :
    Writes (typeOver inner deep) (Spelled Plain (room + 1)) := by
  intro t stored hstorable hstored
  obtain ⟨⟨element, rest⟩, hbody, hstored⟩ := Outcome.bind_eq_ok.mp hstored
  obtain rfl := Outcome.pure_eq_ok.mp hstored
  obtain ⟨pieces, rfl, hcontents⟩ := body_writes hinner hdeep (fun _ _ => kind_of_spelled)
    hstorable hbody
  exact ⟨_, rfl, [], element, pieces, rfl, hcontents, rfl⟩

theorem tooDeep_writes (spells : SignatureType → List Piece → Prop) : Writes tooDeep spells :=
  fun _ _ _ => nofun

/-- A function pointer takes two levels where it is written, and one where it is spelled. -/
theorem type_writes : ∀ room, Writes (SignatureWriter.type room) (Spelled Plain room)
  | 0 => tooDeep_writes _
  | 1 => typeOver_writes (tooDeep_writes _) (tooDeep_writes _)
  | room + 2 => by
    -- The types inside a function pointer are written with one level less than they may take.
    refine typeOver_writes (type_writes (room + 1)) fun t stored hstorable hstored => ?_
    obtain ⟨pieces, rfl, hspelled⟩ := type_writes room t stored hstorable hstored
    exact ⟨pieces, rfl, hspelled.mono (Nat.le_succ room) fun _ => id⟩

end SignatureWriter

namespace Signature

/-- What is written for a signature spells it. -/
theorem spelled_of_encode {signature : Signature} {stored : Bytes} (hstorable : signature.Storable)
    (h : signature.encode = .ok stored) :
    ∃ pieces, stored = pieces.flatMap Piece.bytes ∧
      Spelling.Method (Spelling.Spelled SignatureWriter.Plain signatureRoom) signature pieces :=
  SignatureWriter.method_writes (SignatureWriter.type_writes signatureRoom) hstorable h

/-- What is read can be stored, as far as its convention, its lists and its bases go. -/
theorem storable_of_reader {blob rest : Bytes} {signature : Signature}
    (h : Signature.reader blob = .ok signature rest) : signature.Storable := by
  obtain ⟨_, -, hmethod⟩ := (parses_reader _ _ _).mp h
  exact hmethod.storable fun _ _ => Spelling.Spelled.storable

/-- A stored signature is read again, whatever follows it. -/
theorem reader_of_encode {signature : Signature} {stored : Bytes} (hstorable : signature.Storable)
    (h : signature.encode = .ok stored) (rest : Bytes) :
    Signature.reader (stored ++ rest) = .ok signature rest := by
  obtain ⟨pieces, rfl, hmethod⟩ := spelled_of_encode hstorable h
  refine (parses_reader _ _ _).mpr ⟨pieces, rfl, hmethod.mono fun _ _ hspelled => ?_⟩
  exact hspelled.mono (Nat.le_refl _) fun _ => SignatureWriter.modifiers_of_plain

theorem parse_of_reader {blob rest : Bytes} {signature : Signature}
    (h : Signature.reader blob = .ok signature rest) :
    Reader.parse Signature.reader blob = .ok signature := by
  rw [Reader.parse, h]

/-- Reading a signature undoes writing it, whatever follows.  So what is written for a signature
that was read from some blob is another blob for it, and from then on reading and writing change
nothing. -/
theorem reader_undoes_encode :
    (∀ (signature : Signature) (stored rest : Bytes), signature.Storable →
      signature.encode = .ok stored → Signature.reader (stored ++ rest) = .ok signature rest) ∧
    ∀ (blob stored : Bytes) (signature : Signature),
      Reader.parse Signature.reader blob = .ok signature → signature.encode = .ok stored →
        Reader.parse Signature.reader stored = .ok signature ∧
          (Reader.parse Signature.reader stored >>= Signature.encode) = .ok stored := by
  refine ⟨fun _ _ rest hstorable h => reader_of_encode hstorable h rest, ?_⟩
  intro blob stored signature hparse hencode
  have hread : Reader.parse Signature.reader stored = .ok signature := by
    unfold Reader.parse at hparse
    split at hparse
    · rename_i hblob
      obtain rfl := Except.ok.inj hparse
      have hstored := reader_of_encode (storable_of_reader hblob) hencode []
      rw [List.append_nil] at hstored
      exact parse_of_reader hstored
    · cases hparse
  exact ⟨hread, by rw [hread]; exact hencode⟩

/-- A method with variable arguments that takes a pointer to a function and yields an instance of a
generic class. -/
def takesCallback : Signature :=
  { hasThis := true, explicitThis := false, convention := 5, genericCount := 1
    result := .genericInstance (.classType ⟨0x01000005⟩)
      [.methodParameter 0, .pointer (.primitive .int32)]
    params := [.functionPointer (.static Convention.standardCall (.primitive .void)
      [.array (.valueType ⟨0x02000002⟩) 2 [3] [0]])]
    varargs := [.primitive .string, .vector (.primitive .uint8)] }

/-- A signature with a modifier, and with a number that takes more bytes than it needs. -/
def looselyStored : Bytes :=
  [0x30, 0x01, 0x80, 0x01, 0x20, 0x09, 0x1D, 0x1E, 0x00, 0x12, 0x15]

theorem storable_takesCallback : takesCallback.Storable := by
  refine .mk (by decide) (by decide) (by decide) ?_ ?_ ?_
  · exact .genericInstance ⟨_, .inl rfl⟩ (.classType (by decide)) (by decide)
      (List.forall_mem_cons.mpr ⟨.methodParameter 0,
        List.forall_mem_singleton.mpr (.pointer (.primitive .int32))⟩)
  · refine List.forall_mem_singleton.mpr (.functionPointer ?_)
    exact .mk (by decide) (by decide) (by decide) (.primitive .void)
      (List.forall_mem_singleton.mpr
        (.array (.valueType (by decide)) (by decide) (by decide))) nofun
  · exact List.forall_mem_cons.mpr ⟨.primitive .string,
      List.forall_mem_singleton.mpr (.vector (.primitive .uint8))⟩

/-- The modifier is lost and the number is shortened, once. -/
theorem reader_undoes_encode_takesCallback :
    (∃ stored, takesCallback.encode = .ok stored ∧
      Signature.reader (stored ++ [0xFF]) = .ok takesCallback [0xFF]) ∧
    ∃ signature, Reader.parse Signature.reader looselyStored = .ok signature ∧
      signature.encode = .ok [0x30, 0x01, 0x01, 0x1D, 0x1E, 0x00, 0x12, 0x15] ∧
        (Reader.parse Signature.reader [0x30, 0x01, 0x01, 0x1D, 0x1E, 0x00, 0x12, 0x15] >>=
          Signature.encode) = .ok [0x30, 0x01, 0x01, 0x1D, 0x1E, 0x00, 0x12, 0x15] := by
  obtain ⟨hundoes, hagain⟩ := reader_undoes_encode
  have hencode : takesCallback.encode =
      .ok [0x35, 0x01, 0x03, 0x15, 0x12, 0x15, 0x02, 0x1E, 0x00, 0x0F,
        0x08, 0x1B, 0x02, 0x01, 0x01, 0x14, 0x11, 0x08, 0x02, 0x01, 0x03, 0x01, 0x00, 0x41,
        0x0E, 0x1D, 0x05] := by decide +kernel
  have hloose : Reader.parse Signature.reader looselyStored = .ok ⟨true, false, 0, 1,
      .vector (.methodParameter 0), [.classType ⟨0x01000005⟩], []⟩ := by rfl
  have hshort : encode ⟨true, false, 0, 1, .vector (.methodParameter 0), [.classType ⟨0x01000005⟩],
      []⟩ = .ok [0x30, 0x01, 0x01, 0x1D, 0x1E, 0x00, 0x12, 0x15] := by decide +kernel
  exact ⟨⟨_, hencode, hundoes _ _ _ storable_takesCallback hencode⟩, _, hloose, hshort,
    (hagain _ _ _ hloose hshort).2⟩

end Signature

end NativeExports
