import Mathlib.Tactic.FinCases
import NativeExports.Proofs.Signature.Replacement

/-!
# The grammar of signatures

What the pieces of a signature are, said without reading it: which bytes announce which parts, how
many parts follow a count, and where the tokens stand.  A walk over a byte string succeeds exactly
if the grammar has the pieces that it passes, at any depth that the room for nested types allows.
-/

namespace NativeExports

namespace Piece

/-- The piece is a number in one of its compressed forms. -/
def IsNumber (n : Nat) (piece : Piece) : Prop :=
  ∃ stored, piece = .raw stored ∧ Compressed.Form stored n

/-- The piece is a token in one of its compressed forms. -/
def IsToken (piece : Piece) : Prop :=
  ∃ named stored, piece = .token named stored ∧ Compressed.TokenForm stored named

end Piece

/-! ## The grammar -/

namespace Grammar

/-- A number of parts of one kind. -/
inductive Times (part : List Piece → Prop) : Nat → List Piece → Prop
  | nil : Times part 0 []
  | cons {count : Nat} {first rest : List Piece} (hfirst : part first)
      (hrest : Times part count rest) :
      Times part (count + 1) (first ++ rest)

/-- A number by itself. -/
inductive Number : List Piece → Prop
  | mk {n : Nat} {piece : Piece} (h : piece.IsNumber n) : Number [piece]

/-- A count and as many parts. -/
inductive Listed (part : List Piece → Prop) : List Piece → Prop
  | mk {n : Nat} {count : Piece} {parts : List Piece} (hcount : count.IsNumber n)
      (hparts : Times part n parts) : Listed part (count :: parts)

/-- A count, the type of a result and the types of as many parameters. -/
inductive Call (type : List Piece → Prop) : List Piece → Prop
  | mk {n : Nat} {count : Piece} {result params : List Piece} (hcount : count.IsNumber n)
      (hresult : type result) (hparams : Times type n params) :
      Call type (count :: (result ++ params))

/-- What follows the first byte of the signature of a method: if that byte says so, a number of
generic parameters stands before the rest. -/
inductive Method (type : List Piece → Prop) (lead : Nat) : List Piece → Prop
  | plain {pieces : List Piece} (hlead : lead.testBit SignatureLead.genericBit = false)
      (hcall : Call type pieces) : Method type lead pieces
  | generic {n : Nat} {arity : Piece} {pieces : List Piece}
      (hlead : lead.testBit SignatureLead.genericBit = true) (harity : arity.IsNumber n)
      (hcall : Call type pieces) : Method type lead (arity :: pieces)

/-- What follows the first byte of a type; `inner` tells what the types inside are. -/
inductive Body (inner : List Piece → Prop) : ElementType → List Piece → Prop
  | primitive (kind : PrimitiveType) : Body inner (.primitive kind) []
  | wrapped {element : ElementType} {pieces : List Piece}
      (h : element ∈ [.pointer, .reference, .vector, .pinned, .sentinel]) (hinner : inner pieces) :
      Body inner element pieces
  | named {element : ElementType} {token : Piece} (h : element ∈ [.valueType, .classType])
      (htoken : token.IsToken) : Body inner element [token]
  | parameter {element : ElementType} {pieces : List Piece}
      (h : element ∈ [.typeParameter, .methodParameter]) (hnumber : Number pieces) :
      Body inner element pieces
  | modified {element : ElementType} {token : Piece} {pieces : List Piece}
      (h : element ∈ [.requiredModifier, .optionalModifier]) (htoken : token.IsToken)
      (hinner : inner pieces) : Body inner element (token :: pieces)
  | array {type rank sizes bounds : List Piece} (htype : inner type) (hrank : Number rank)
      (hsizes : Listed Number sizes) (hbounds : Listed Number bounds) :
      Body inner .array (type ++ (rank ++ (sizes ++ bounds)))
  | genericInstance {base : ElementType} {token : Piece} {arguments : List Piece}
      (hbase : base ∈ [.classType, .valueType]) (htoken : token.IsToken)
      (harguments : Listed inner arguments) :
      Body inner .genericInstance (.raw [base.byte] :: token :: arguments)
  | functionPointer {lead : UInt8} {pieces : List Piece}
      (hmethod : Method inner lead.toNat pieces) :
      Body inner .functionPointer (.raw [lead] :: pieces)

section

variable {inner : List Piece → Prop} {element : ElementType} {pieces : List Piece}

theorem body_wrapped (h : element ∈ [.pointer, .reference, .vector, .pinned, .sentinel]) :
    Body inner element pieces ↔ inner pieces := by
  refine ⟨fun hbody => ?_, .wrapped h⟩
  fin_cases h <;> cases hbody <;> simp_all

theorem body_named (h : element ∈ [.valueType, .classType]) :
    Body inner element pieces ↔ ∃ token : Piece, token.IsToken ∧ pieces = [token] := by
  refine ⟨fun hbody => ?_, fun ⟨token, htoken, hpieces⟩ => hpieces ▸ .named h htoken⟩
  fin_cases h <;> cases hbody <;> simp_all

theorem body_parameter (h : element ∈ [.typeParameter, .methodParameter]) :
    Body inner element pieces ↔ Number pieces := by
  refine ⟨fun hbody => ?_, .parameter h⟩
  fin_cases h <;> cases hbody <;> simp_all

theorem body_modified (h : element ∈ [.requiredModifier, .optionalModifier]) :
    Body inner element pieces ↔
      ∃ (token : Piece) (rest : List Piece), token.IsToken ∧ inner rest ∧
        pieces = token :: rest := by
  refine ⟨fun hbody => ?_, fun ⟨token, rest, htoken, hinner, hpieces⟩ =>
    hpieces ▸ .modified h htoken hinner⟩
  fin_cases h <;> cases hbody <;> simp_all

end

/-- A type that nests fewer types than there is room for. -/
def Typed : Nat → List Piece → Prop
  | 0, _ => False
  | room + 1, pieces => ∃ element rest, Body (Typed room) element rest ∧
      pieces = .raw [ElementType.byte element] :: rest

/-- What follows the first byte of a signature of any kind. -/
def Signed (type : List Piece → Prop) (lead : Nat) (pieces : List Piece) : Prop :=
  if lead = SignatureLead.field then type pieces
  else if lead = SignatureLead.locals ∨ lead = SignatureLead.methodInstance then Listed type pieces
  else if lead % 16 = SignatureLead.property then Call type pieces
  else Method type lead pieces

end Grammar

/-- The pieces of a blob of this form. -/
def BlobForm.Grammar : BlobForm → List Piece → Prop
  | .type => Grammar.Typed signatureRoom
  | .signature => fun pieces => ∃ (lead : UInt8) (rest : List Piece),
      Grammar.Signed (Grammar.Typed signatureRoom) lead.toNat rest ∧ pieces = .raw [lead] :: rest

/-! ## Walks -/

namespace Walk

variable {α β : Type}

/-- A walk succeeds exactly on bytes that begin with certain pieces, and passes these. -/
def Exactly (walk : Walk α) (passes : α → List Piece → Prop) : Prop :=
  ∀ data pieces a rest, walk data = (pieces, .ok (a, rest)) ↔
    data = pieces.flatMap Piece.bytes ++ rest ∧ passes a pieces

theorem Exactly.congr {walk : Walk α} {passes passes' : α → List Piece → Prop}
    (h : walk.Exactly passes) (hsame : ∀ a pieces, passes a pieces ↔ passes' a pieces) :
    walk.Exactly passes' := by
  intro data pieces a rest
  rw [h, hsame]

theorem exactly_pure (a : α) :
    (pure a : Walk α).Exactly fun b pieces => b = a ∧ pieces = [] := by
  intro data pieces b rest
  change ([], Except.ok (a, data)) = _ ↔ _
  constructor
  · intro h
    obtain ⟨rfl, houtcome⟩ := Prod.mk.inj h
    obtain ⟨rfl, rfl⟩ := Prod.mk.inj (Except.ok.inj houtcome)
    exact ⟨rfl, rfl, rfl⟩
  · rintro ⟨rfl, rfl, rfl⟩
    rfl

theorem Exactly.bind {walk : Walk α} {next : α → Walk β} {passes : α → List Piece → Prop}
    {passes' : α → β → List Piece → Prop} (h : walk.Exactly passes)
    (h' : ∀ a, (next a).Exactly (passes' a)) :
    (walk >>= next).Exactly fun b pieces => ∃ a first second, passes a first ∧
      passes' a b second ∧ pieces = first ++ second := by
  intro data pieces b rest
  constructor
  · intro hwalk
    obtain ⟨first, a, mid, second, hfirst, hsecond, rfl⟩ := bind_eq_ok hwalk
    obtain ⟨rfl, hpasses⟩ := (h _ _ _ _).mp hfirst
    obtain ⟨rfl, hpasses'⟩ := (h' a _ _ _ _).mp hsecond
    exact ⟨by rw [List.flatMap_append, List.append_assoc], a, first, second, hpasses, hpasses', rfl⟩
  · rintro ⟨rfl, a, first, second, hpasses, hpasses', rfl⟩
    rw [List.flatMap_append, List.append_assoc]
    exact bind_of_eq_ok ((h _ _ _ _).mpr ⟨rfl, hpasses⟩) ((h' a _ _ _ _).mpr ⟨rfl, hpasses'⟩)

theorem exactly_malformed (cause : Malformation) :
    (malformed cause : Walk α).Exactly fun _ _ => False := by
  intro data pieces a rest
  refine iff_of_false (fun h => ?_) fun h => h.2
  cases (Prod.mk.inj h).2

theorem exactly_pass {reader : Reader α} {piece : α → Bytes → Piece} (form : Bytes → α → Prop)
    (hbytes : ∀ a front, (piece a front).bytes = front)
    (h : ∀ data a rest, reader data = .ok a rest ↔ ∃ front, data = front ++ rest ∧ form front a) :
    (pass reader piece).Exactly fun a pieces =>
      ∃ front, form front a ∧ pieces = [piece a front] := by
  intro data pieces a rest
  constructor
  · intro hwalk
    unfold pass at hwalk
    split at hwalk
    · rename_i b mid hread
      obtain ⟨front, rfl, hform⟩ := (h _ _ _).mp hread
      rw [List.length_append, Nat.add_sub_cancel, List.take_left] at hwalk
      obtain ⟨rfl, houtcome⟩ := Prod.mk.inj hwalk
      obtain ⟨rfl, rfl⟩ := Prod.mk.inj (Except.ok.inj houtcome)
      exact ⟨by rw [List.flatMap_singleton, hbytes], front, hform, rfl⟩
    · cases (Prod.mk.inj hwalk).2
  · rintro ⟨rfl, front, hform, rfl⟩
    rw [List.flatMap_singleton, hbytes]
    exact pass_of_eq_ok ((h _ _ _).mpr ⟨front, rfl, hform⟩)

theorem exactly_byte :
    byte.Exactly fun n pieces => ∃ lead : UInt8, lead.toNat = n ∧ pieces = [.raw [lead]] := by
  refine (exactly_pass (fun front n => ∃ lead : UInt8, front = [lead] ∧ lead.toNat = n)
    (fun _ _ => rfl) fun data n rest => ?_).congr fun n pieces => ?_
  · rw [Reader.byte_eq_ok]
    constructor
    · rintro ⟨lead, rfl, hlead⟩
      exact ⟨[lead], rfl, lead, rfl, hlead⟩
    · rintro ⟨_, rfl, lead, rfl, hlead⟩
      exact ⟨lead, rfl, hlead⟩
  · constructor
    · rintro ⟨_, ⟨lead, rfl, hlead⟩, hpieces⟩
      exact ⟨lead, hlead, hpieces⟩
    · rintro ⟨lead, hlead, hpieces⟩
      exact ⟨_, ⟨lead, rfl, hlead⟩, hpieces⟩

theorem exactly_number :
    number.Exactly fun n pieces => ∃ piece : Piece, piece.IsNumber n ∧ pieces = [piece] := by
  refine (exactly_pass Compressed.Form (fun _ _ => rfl) fun _ _ _ => Compressed.read_eq_ok).congr
    fun n pieces => ?_
  constructor
  · rintro ⟨front, hform, rfl⟩
    exact ⟨_, ⟨front, rfl, hform⟩, rfl⟩
  · rintro ⟨_, ⟨front, rfl, hform⟩, rfl⟩
    exact ⟨front, hform, rfl⟩

theorem exactly_token :
    token.Exactly fun _ pieces => ∃ piece : Piece, piece.IsToken ∧ pieces = [piece] := by
  have hread : ∀ data named rest, Compressed.readToken data = .ok named rest ↔
      ∃ front, data = front ++ rest ∧ Compressed.TokenForm front named := by
    intro data named rest
    rw [Compressed.readToken_eq_ok]
    constructor
    · rintro ⟨front, n, table, rfl, hform⟩
      exact ⟨front, rfl, n, table, hform⟩
    · rintro ⟨front, rfl, n, table, hform⟩
      exact ⟨front, n, table, rfl, hform⟩
  refine ((exactly_pass Compressed.TokenForm (fun _ _ => rfl) hread).bind fun _ =>
    exactly_pure ()).congr fun _ pieces => ?_
  constructor
  · rintro ⟨named, _, _, ⟨stored, hform, rfl⟩, ⟨-, rfl⟩, rfl⟩
    exact ⟨_, ⟨named, stored, rfl, hform⟩, rfl⟩
  · rintro ⟨_, ⟨named, stored, rfl, hform⟩, rfl⟩
    exact ⟨named, _, _, ⟨stored, hform, rfl⟩, ⟨rfl, rfl⟩, rfl⟩

/-- A walk without a result, and what it passes. -/
def Passes (walk : Walk Unit) (passes : List Piece → Prop) : Prop :=
  walk.Exactly fun _ => passes

variable {walk inner : Walk Unit} {part type : List Piece → Prop}

theorem Passes.times (h : walk.Passes part) (count : Nat) :
    (times walk count).Passes (Grammar.Times part count) := by
  induction count with
  | zero =>
      refine (exactly_pure ()).congr fun _ pieces => ⟨?_, ?_⟩
      · rintro ⟨-, rfl⟩
        exact .nil
      · rintro ⟨⟩
        exact ⟨rfl, rfl⟩
  | succ count ih =>
      refine (Exactly.bind h fun _ => ih).congr fun _ pieces => ⟨?_, ?_⟩
      · rintro ⟨_, first, rest, hfirst, hrest, rfl⟩
        exact .cons hfirst hrest
      · rintro ⟨⟩
        rename_i first rest hfirst hrest
        exact ⟨(), first, rest, hfirst, hrest, rfl⟩

theorem passes_number : Passes (do let _ ← number) Grammar.Number := by
  refine (exactly_number.bind fun _ => exactly_pure ()).congr fun _ pieces => ⟨?_, ?_⟩
  · rintro ⟨_, _, _, ⟨piece, h, rfl⟩, ⟨-, rfl⟩, rfl⟩
    exact .mk h
  · rintro ⟨h⟩
    exact ⟨_, _, _, ⟨_, h, rfl⟩, ⟨rfl, rfl⟩, rfl⟩

theorem Passes.listed (h : walk.Passes part) : Passes (do
    let count ← number
    Walk.times walk count) (Grammar.Listed part) := by
  refine (exactly_number.bind fun count => h.times count).congr fun _ pieces => ⟨?_, ?_⟩
  · rintro ⟨_, _, _, ⟨piece, hcount, rfl⟩, hparts, rfl⟩
    exact .mk hcount hparts
  · rintro ⟨hcount, hparts⟩
    exact ⟨_, _, _, ⟨_, hcount, rfl⟩, hparts, rfl⟩

theorem passes_numbers : Passes numbers (Grammar.Listed Grammar.Number) :=
  passes_number.listed

theorem Passes.call (h : walk.Passes type) : Passes (do
    let count ← number
    walk
    Walk.times walk count) (Grammar.Call type) := by
  refine (exactly_number.bind fun count => Exactly.bind h fun _ => h.times count).congr
    fun _ pieces => ⟨?_, ?_⟩
  · rintro ⟨_, _, _, ⟨count, hcount, rfl⟩, ⟨_, _, _, hresult, hparams, rfl⟩, rfl⟩
    have hcall := Grammar.Call.mk hcount hresult hparams
    exact hcall
  · rintro ⟨hcount, hresult, hparams⟩
    exact ⟨_, _, _, ⟨_, hcount, rfl⟩, ⟨(), _, _, hresult, hparams, rfl⟩, rfl⟩

theorem Passes.method (h : walk.Passes type) : (Walk.method walk).Passes fun pieces =>
    ∃ (lead : UInt8) (rest : List Piece), Grammar.Method type lead.toNat rest ∧
      pieces = .raw [lead] :: rest := by
  have hrest : ∀ lead : Nat, Passes (do
        if lead.testBit SignatureLead.genericBit then
          let _ ← number
        let count ← number
        walk
        Walk.times walk count) (Grammar.Method type lead) := by
    intro lead
    dsimp only
    split
    · rename_i hlead
      refine (exactly_number.bind fun _ => h.call).congr fun _ pieces => ⟨?_, ?_⟩
      · rintro ⟨n, _, rest, ⟨arity, harity, rfl⟩, hcall, rfl⟩
        exact .generic hlead harity hcall
      · rintro (⟨hlead', -⟩ | ⟨-, harity, hcall⟩)
        · exact absurd hlead (Bool.eq_false_iff.mp hlead')
        · exact ⟨_, _, _, ⟨_, harity, rfl⟩, hcall, rfl⟩
    · rename_i hlead
      refine h.call.congr fun _ pieces => ⟨.plain (Bool.eq_false_iff.mpr hlead), ?_⟩
      rintro (⟨-, hcall⟩ | ⟨hlead', -⟩)
      · exact hcall
      · exact absurd hlead' hlead
  refine (exactly_byte.bind hrest).congr fun _ pieces => ⟨?_, ?_⟩
  · rintro ⟨_, _, rest, ⟨lead, rfl, rfl⟩, hrest, rfl⟩
    exact ⟨lead, rest, hrest, rfl⟩
  · rintro ⟨lead, rest, hrest, rfl⟩
    exact ⟨_, _, rest, ⟨lead, rfl, rfl⟩, hrest, rfl⟩

/-- A walk that goes on unless something is wrong. -/
theorem Passes.unless {wrong : Prop} [Decidable wrong] (h : walk.Passes part)
    (cause : Malformation) :
    Passes (if wrong then do
        malformed cause
        walk
      else walk) fun pieces => ¬ wrong ∧ part pieces := by
  split
  · rename_i hwrong
    refine ((exactly_malformed cause).bind fun _ => h).congr fun _ pieces => iff_of_false ?_ ?_
    · rintro ⟨_, _, _, hfalse, -⟩
      exact hfalse
    · rintro ⟨hright, -⟩
      exact hright hwrong
  · rename_i hright
    exact h.congr fun _ pieces => (and_iff_right hright).symm

/-- Only classes and value types have instances. -/
theorem mem_base {lead : UInt8} : ¬ (lead.toNat ≠ ElementType.classType.byte.toNat ∧
      lead.toNat ≠ ElementType.valueType.byte.toNat) ↔
    ∃ base ∈ [ElementType.classType, .valueType], lead = base.byte := by
  simp only [ne_eq, UInt8.toNat_inj, List.mem_cons, List.not_mem_nil, or_false, exists_eq_or_imp,
    exists_eq_left, not_and_or, not_not]

theorem Passes.array (h : inner.Passes part) :
    Passes (do
        inner
        let _ ← number
        numbers
        numbers) (Grammar.Body part .array) := by
  refine (Exactly.bind h fun _ => exactly_number.bind fun _ => passes_numbers.bind fun _ =>
    passes_numbers).congr fun _ pieces => ⟨?_, fun hbody => ?_⟩
  · rintro ⟨_, _, _, htype, ⟨_, _, _, ⟨rank, hrank, rfl⟩, ⟨_, _, _, hsizes, hbounds, rfl⟩,
      rfl⟩, rfl⟩
    exact .array htype (.mk hrank) hsizes hbounds
  · cases hbody with
    | array htype hrank hsizes hbounds =>
        obtain ⟨hrank⟩ := hrank
        exact ⟨(), _, _, htype, ⟨_, _, _, ⟨_, hrank, rfl⟩, ⟨(), _, _, hsizes, hbounds, rfl⟩,
          rfl⟩, rfl⟩
    | _ => simp_all

/-- The token of a type and its arguments, behind the byte that tells what the type is. -/
theorem Passes.arguments (h : inner.Passes part) :
    Passes (do
        token
        let count ← number
        Walk.times inner count) fun pieces => ∃ (token : Piece) (arguments : List Piece),
      token.IsToken ∧ Grammar.Listed part arguments ∧ pieces = token :: arguments := by
  refine (exactly_token.bind fun _ => h.listed).congr fun _ pieces => ⟨?_, ?_⟩
  · rintro ⟨_, _, arguments, ⟨token, htoken, rfl⟩, harguments, rfl⟩
    exact ⟨token, arguments, htoken, harguments, rfl⟩
  · rintro ⟨token, arguments, htoken, harguments, rfl⟩
    exact ⟨(), _, arguments, ⟨token, htoken, rfl⟩, harguments, rfl⟩

theorem Passes.genericInstance (h : inner.Passes part) :
    Passes (do
        let base ← byte
        if base ≠ ElementType.classType.byte.toNat ∧ base ≠ ElementType.valueType.byte.toNat then
          malformed (.genericBase base)
        token
        let count ← number
        Walk.times inner count) (Grammar.Body part .genericInstance) := by
  refine (exactly_byte.bind fun base => h.arguments.unless (.genericBase base)).congr
    fun _ pieces => ⟨?_, fun hbody => ?_⟩
  · rintro ⟨_, _, _, ⟨lead, rfl, rfl⟩, ⟨hlead, token, arguments, htoken, harguments, rfl⟩, rfl⟩
    obtain ⟨base, hbase, rfl⟩ := mem_base.mp hlead
    exact .genericInstance hbase htoken harguments
  · cases hbody with
    | genericInstance hbase htoken harguments =>
        exact ⟨_, _, _, ⟨_, rfl, rfl⟩, ⟨mem_base.mpr ⟨_, hbase, rfl⟩, _, _, htoken,
          harguments, rfl⟩, rfl⟩
    | _ => simp_all

/-- What is passed behind the first byte of a type. -/
theorem Passes.body (h : inner.Passes part) {lead : Nat} {element : ElementType}
    (helement : ElementType.ofByte? (.ofNat lead) = some element) :
    (Walk.body inner lead).Passes (Grammar.Body part element) := by
  unfold Walk.body
  rw [helement]
  cases element with
  | primitive kind =>
      refine (exactly_pure ()).congr fun _ pieces => ⟨?_, ?_⟩
      · rintro ⟨-, rfl⟩
        exact .primitive kind
      · intro hbody
        cases hbody <;> simp_all
  | pointer | reference | vector | pinned | sentinel =>
      exact h.congr fun _ _ => (Grammar.body_wrapped (by decide)).symm
  | valueType | classType =>
      exact exactly_token.congr fun _ _ => (Grammar.body_named (by decide)).symm
  | typeParameter | methodParameter =>
      exact passes_number.congr fun _ _ => (Grammar.body_parameter (by decide)).symm
  | requiredModifier | optionalModifier =>
      refine (exactly_token.bind fun _ => h).congr fun _ _ => Iff.trans ⟨?_, ?_⟩
        (Grammar.body_modified (by decide)).symm
      · rintro ⟨_, _, rest, ⟨token, htoken, rfl⟩, hinner, rfl⟩
        exact ⟨token, rest, htoken, hinner, rfl⟩
      · rintro ⟨token, rest, htoken, hinner, rfl⟩
        exact ⟨(), _, rest, ⟨token, htoken, rfl⟩, hinner, rfl⟩
  | array => exact h.array
  | genericInstance => exact h.genericInstance
  | functionPointer =>
      refine (Passes.method h).congr fun _ pieces => ⟨?_, fun hbody => ?_⟩
      · rintro ⟨lead, rest, hmethod, rfl⟩
        exact .functionPointer hmethod
      · cases hbody with
        | functionPointer hmethod => exact ⟨_, _, hmethod, rfl⟩
        | _ => simp_all

/-- The induction is on the levels of nesting left. -/
theorem passes_type (room : Nat) : (Walk.type room).Passes (Grammar.Typed room) := by
  induction room with
  | zero => exact exactly_malformed _
  | succ room ih =>
      have hbody : ∀ lead : Nat, Passes (Walk.body (Walk.type room) lead) fun pieces =>
          ∃ element, ElementType.ofByte? (.ofNat lead) = some element ∧
            Grammar.Body (Grammar.Typed room) element pieces := by
        intro lead
        rcases helement : ElementType.ofByte? (.ofNat lead) with - | element
        · unfold Walk.body
          rw [helement]
          exact (exactly_malformed _).congr fun _ _ => by simp
        · exact (Passes.body ih helement).congr fun _ _ => by simp
      refine (exactly_byte.bind hbody).congr fun _ pieces => ⟨?_, ?_⟩
      · rintro ⟨_, _, rest, ⟨lead, rfl, rfl⟩, ⟨element, helement, hrest⟩, rfl⟩
        rw [UInt8.ofNat_toNat] at helement
        exact ⟨element, rest, hrest, by rw [ElementType.byte_of_ofByte? helement]; rfl⟩
      · rintro ⟨element, rest, hrest, rfl⟩
        exact ⟨_, _, rest, ⟨element.byte, rfl, rfl⟩, ⟨element, by simp, hrest⟩, rfl⟩

/-- What is passed after a look at the first byte. -/
theorem Exactly.peek_bind {next : Nat → Walk α} {passes : Nat → α → List Piece → Prop}
    (h : ∀ lead, (next lead).Exactly (passes lead)) (hbyte : ∀ lead, (next lead).TakesByte) :
    (peek >>= next).Exactly fun a pieces => ∃ (lead : UInt8) (rest : List Piece),
      passes lead.toNat a pieces ∧ pieces = .raw [lead] :: rest := by
  intro data pieces a rest
  constructor
  · intro hwalk
    obtain ⟨first, _, mid, second, hfirst, hsecond, rfl⟩ := bind_eq_ok hwalk
    cases data with
    | nil => cases (Prod.mk.inj hfirst).2
    | cons lead data =>
        rw [peek_cons] at hfirst
        obtain ⟨rfl, houtcome⟩ := Prod.mk.inj hfirst
        obtain ⟨rfl, rfl⟩ := Prod.mk.inj (Except.ok.inj houtcome)
        obtain ⟨lead', more, hhead, rfl⟩ := hbyte _ _ _ _ _ hsecond
        obtain rfl : lead = lead' := Option.some.inj hhead
        obtain ⟨hdata, hpasses⟩ := (h _ _ _ _ _).mp hsecond
        exact ⟨hdata, lead, more, hpasses, rfl⟩
  · rintro ⟨rfl, lead, more, hpasses, rfl⟩
    exact bind_of_eq_ok (peek_cons lead _) ((h _ _ _ _ _).mpr ⟨rfl, hpasses⟩)

/-- What is passed behind a byte that is not looked at. -/
theorem Passes.behind_byte (h : walk.Passes part) : Passes (do
    let _ ← byte
    walk) fun pieces => ∃ (lead : UInt8) (rest : List Piece), part rest ∧
      pieces = .raw [lead] :: rest := by
  refine (exactly_byte.bind fun _ => h).congr fun _ pieces => ⟨?_, ?_⟩
  · rintro ⟨_, _, rest, ⟨lead, rfl, rfl⟩, hrest, rfl⟩
    exact ⟨lead, rest, hrest, rfl⟩
  · rintro ⟨lead, rest, hrest, rfl⟩
    exact ⟨_, _, rest, ⟨lead, rfl, rfl⟩, hrest, rfl⟩

theorem Passes.signature (h : walk.Passes type) : (Walk.signature walk).Passes fun pieces =>
    ∃ (lead : UInt8) (rest : List Piece), Grammar.Signed type lead.toNat rest ∧
      pieces = .raw [lead] :: rest := by
  -- Every kind passes some byte; that it is the one looked at is known from the bytes only.
  have hkinds := @Exactly.peek_bind Unit _ (fun seen _ pieces =>
      ∃ (lead : UInt8) (rest : List Piece), (if seen = SignatureLead.field then type rest
        else if seen = SignatureLead.locals ∨ seen = SignatureLead.methodInstance then
          Grammar.Listed type rest
        else if seen % 16 = SignatureLead.property then Grammar.Call type rest
        else Grammar.Method type lead.toNat rest) ∧ pieces = .raw [lead] :: rest)
    (fun seen => ?_) (takesByte_kinds walk)
  · refine Exactly.congr hkinds fun _ pieces => ⟨?_, ?_⟩
    · rintro ⟨lead, rest, ⟨_, _, hkind, hpieces⟩, rfl⟩
      obtain ⟨hlead, rfl⟩ := List.cons.inj hpieces
      obtain rfl := (List.cons.inj (Piece.raw.inj hlead)).1
      exact ⟨lead, rest, hkind, rfl⟩
    · rintro ⟨lead, rest, hkind, rfl⟩
      exact ⟨lead, rest, ⟨lead, rest, hkind, rfl⟩, rfl⟩
  · split
    · exact h.behind_byte
    · split
      · exact h.listed.behind_byte
      · split
        · exact h.call.behind_byte
        · exact h.method

end Walk

namespace BlobForm

/-- A blob is passed exactly if it begins with pieces of the grammar. -/
theorem passes_walk (shape : BlobForm) : shape.walk.Passes shape.Grammar := by
  cases shape with
  | type => exact Walk.passes_type _
  | signature => exact (Walk.passes_type _).signature

end BlobForm

end NativeExports
