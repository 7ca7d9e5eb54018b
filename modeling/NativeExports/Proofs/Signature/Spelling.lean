import NativeExports.Proofs.Signature.Grammar

/-!
# How trees are spelled

Which pieces stand for the tree of a signature.  The spelling is said once for reading and for
writing: the two differ in what may stand in front of a type, which is any number of modifiers for
the one and nothing for the other.  As in the readers and writers, the levels of nesting that are
left bound the types inside.
-/

namespace NativeExports.Spelling

/-! ## Parts -/

/-- Modifiers, each of them a byte and a token. -/
inductive Modifiers : List Piece → Prop
  | nil : Modifiers []
  | cons {element : ElementType} {token : Piece} {rest : List Piece}
      (h : element ∈ [.requiredModifier, .optionalModifier]) (htoken : token.IsToken)
      (hrest : Modifiers rest) : Modifiers (.raw [element.byte] :: token :: rest)

/-- A number by itself. -/
inductive Numeral (n : Nat) : List Piece → Prop
  | mk {piece : Piece} (h : piece.IsNumber n) : Numeral n [piece]

/-- A token by itself. -/
inductive Named (token : Token) : List Piece → Prop
  | mk {stored : Bytes} (h : Compressed.TokenForm stored token) : Named token [.token token stored]

/-- Items one after the other. -/
inductive Sequence {α : Type} (item : α → List Piece → Prop) : List α → List Piece → Prop
  | nil : Sequence item [] []
  | cons {a : α} {items : List α} {first rest : List Piece} (hfirst : item a first)
      (hrest : Sequence item items rest) : Sequence item (a :: items) (first ++ rest)

/-- A count and as many items. -/
inductive Listed {α : Type} (item : α → List Piece → Prop) : List α → List Piece → Prop
  | mk {items : List α} {count : Piece} {pieces : List Piece}
      (hcount : count.IsNumber items.length) (hitems : Sequence item items pieces) :
      Listed item items (count :: pieces)

/-- The types of parameters.  A mark stands in front of the first argument behind the declared
parameters, and may be repeated in front of others. -/
inductive Parameters (type : SignatureType → List Piece → Prop) :
    Bool → List SignatureType → List SignatureType → List Piece → Prop
  | nil (marked : Bool) : Parameters type marked [] [] []
  | declared {param : SignatureType} {params varargs : List SignatureType} {first rest : List Piece}
      (hfirst : type param first) (hrest : Parameters type false params varargs rest) :
      Parameters type false (param :: params) varargs (first ++ rest)
  | marked {marked : Bool} {param : SignatureType} {varargs : List SignatureType}
      {first rest : List Piece} (hfirst : type param first)
      (hrest : Parameters type true [] varargs rest) :
      Parameters type marked [] (param :: varargs)
        (.raw [ElementType.sentinel.byte] :: (first ++ rest))
  | behind {param : SignatureType} {varargs : List SignatureType} {first rest : List Piece}
      (hfirst : type param first) (hrest : Parameters type true [] varargs rest) :
      Parameters type true [] (param :: varargs) (first ++ rest)

/-- The number of generic parameters, which is there if the first byte says so. -/
inductive Arity (lead : Nat) : Nat → List Piece → Prop
  | plain (h : lead.testBit SignatureLead.genericBit = false) : Arity lead 0 []
  | generic {n : Nat} {pieces : List Piece} (h : lead.testBit SignatureLead.genericBit = true)
      (hn : Numeral n pieces) : Arity lead n pieces

/-- The first byte of the signature tells how the method is called. -/
structure Leads (lead : Nat) (signature : Signature) : Prop where
  hasThis : signature.hasThis = lead.testBit SignatureLead.hasThisBit
  explicitThis : signature.explicitThis = lead.testBit SignatureLead.explicitThisBit
  convention : signature.convention = lead % 16

/-- The signature of a method. -/
inductive Method (type : SignatureType → List Piece → Prop) : Signature → List Piece → Prop
  | mk {lead : UInt8} {signature : Signature} {arity result params : List Piece} {count : Piece}
      (hlead : Leads lead.toNat signature)
      (harity : Arity lead.toNat signature.genericCount arity)
      (hcount : count.IsNumber (signature.params.length + signature.varargs.length))
      (hresult : type signature.result result)
      (hparams : Parameters type false signature.params signature.varargs params) :
      Method type signature (.raw [lead] :: (arity ++ count :: (result ++ params)))

/-- What stands behind the first byte of a type. -/
inductive Contents (type : SignatureType → List Piece → Prop) :
    SignatureType → ElementType → List Piece → Prop
  | primitive (kind : PrimitiveType) : Contents type (.primitive kind) (.primitive kind) []
  | pointer {target : SignatureType} {pieces : List Piece} (h : type target pieces) :
      Contents type (.pointer target) .pointer pieces
  | reference {target : SignatureType} {pieces : List Piece} (h : type target pieces) :
      Contents type (.reference target) .reference pieces
  | vector {item : SignatureType} {pieces : List Piece} (h : type item pieces) :
      Contents type (.vector item) .vector pieces
  | pinned {inside : SignatureType} {pieces : List Piece} (h : type inside pieces) :
      Contents type (.pinned inside) .pinned pieces
  | valueType {token : Token} {pieces : List Piece} (h : Named token pieces) :
      Contents type (.valueType token) .valueType pieces
  | classType {token : Token} {pieces : List Piece} (h : Named token pieces) :
      Contents type (.classType token) .classType pieces
  | typeParameter {n : Nat} {pieces : List Piece} (h : Numeral n pieces) :
      Contents type (.typeParameter n) .typeParameter pieces
  | methodParameter {n : Nat} {pieces : List Piece} (h : Numeral n pieces) :
      Contents type (.methodParameter n) .methodParameter pieces
  | array {item : SignatureType} {rank : Nat} {sizes lowerBounds : List Nat}
      {inside number extents bounds : List Piece} (hitem : type item inside)
      (hrank : Numeral rank number) (hsizes : Listed Numeral sizes extents)
      (hbounds : Listed Numeral lowerBounds bounds) :
      Contents type (.array item rank sizes lowerBounds) .array
        (inside ++ (number ++ (extents ++ bounds)))
  | genericInstance {base : SignatureType} {args : List SignatureType} {kind : ElementType}
      {name arguments : List Piece} (hkind : kind ∈ [.classType, .valueType])
      (hbase : type base (.raw [kind.byte] :: name)) (hargs : Listed type args arguments) :
      Contents type (.genericInstance base args) .genericInstance
        (.raw [kind.byte] :: (name ++ arguments))
  | functionPointer {signature : Signature} {pieces : List Piece}
      (h : Method type signature pieces) :
      Contents type (.functionPointer signature) .functionPointer pieces

/-- A type that nests fewer types than there is room for, with something in front of it and of every
type inside. -/
def Spelled (front : List Piece → Prop) : Nat → SignatureType → List Piece → Prop
  | 0, _, _ => False
  | room + 1, type, pieces => ∃ before element rest, front before ∧
      Contents (Spelled front room) type element rest ∧
        pieces = before ++ .raw [ElementType.byte element] :: rest

/-! ## More room -/

section

variable {type type' : SignatureType → List Piece → Prop}

theorem Sequence.mono {α : Type} {item item' : α → List Piece → Prop} {items : List α}
    {pieces : List Piece} (h : Sequence item items pieces)
    (himp : ∀ a pieces, item a pieces → item' a pieces) : Sequence item' items pieces := by
  induction h with
  | nil => exact .nil
  | cons hfirst _ ih => exact .cons (himp _ _ hfirst) ih

theorem Listed.mono {α : Type} {item item' : α → List Piece → Prop} {items : List α}
    {pieces : List Piece} (h : Listed item items pieces)
    (himp : ∀ a pieces, item a pieces → item' a pieces) : Listed item' items pieces := by
  obtain ⟨hcount, hitems⟩ := h
  exact .mk hcount (hitems.mono himp)

theorem Parameters.mono {marked : Bool} {params varargs : List SignatureType} {pieces : List Piece}
    (h : Parameters type marked params varargs pieces)
    (himp : ∀ t pieces, type t pieces → type' t pieces) :
    Parameters type' marked params varargs pieces := by
  induction h with
  | nil marked => exact .nil marked
  | declared hfirst _ ih => exact .declared (himp _ _ hfirst) ih
  | marked hfirst _ ih => exact .marked (himp _ _ hfirst) ih
  | behind hfirst _ ih => exact .behind (himp _ _ hfirst) ih

theorem Method.mono {signature : Signature} {pieces : List Piece} (h : Method type signature pieces)
    (himp : ∀ t pieces, type t pieces → type' t pieces) : Method type' signature pieces := by
  obtain ⟨hlead, harity, hcount, hresult, hparams⟩ := h
  exact .mk hlead harity hcount (himp _ _ hresult) (hparams.mono himp)

theorem Contents.mono {t : SignatureType} {element : ElementType} {pieces : List Piece}
    (h : Contents type t element pieces) (himp : ∀ t pieces, type t pieces → type' t pieces) :
    Contents type' t element pieces := by
  cases h with
  | primitive kind => exact .primitive kind
  | pointer h => exact .pointer (himp _ _ h)
  | reference h => exact .reference (himp _ _ h)
  | vector h => exact .vector (himp _ _ h)
  | pinned h => exact .pinned (himp _ _ h)
  | valueType h => exact .valueType h
  | classType h => exact .classType h
  | typeParameter h => exact .typeParameter h
  | methodParameter h => exact .methodParameter h
  | array hitem hrank hsizes hbounds => exact .array (himp _ _ hitem) hrank hsizes hbounds
  | genericInstance hkind hbase hargs =>
      exact .genericInstance hkind (himp _ _ hbase) (hargs.mono himp)
  | functionPointer h => exact .functionPointer (h.mono himp)

end

variable {front front' : List Piece → Prop} {room room' : Nat} {type : SignatureType}
  {pieces : List Piece}

/-- What is spelled in little room, with little in front of types, is spelled with more of both. -/
theorem Spelled.mono (h : Spelled front room type pieces) (hroom : room ≤ room')
    (hfront : ∀ pieces, front pieces → front' pieces) : Spelled front' room' type pieces := by
  induction room generalizing room' type pieces with
  | zero => exact h.elim
  | succ room ih =>
      obtain ⟨room', rfl⟩ : ∃ n, room' = n + 1 := ⟨room' - 1, by omega⟩
      obtain ⟨before, element, rest, hbefore, hcontents, rfl⟩ := h
      exact ⟨before, element, rest, hfront _ hbefore,
        hcontents.mono fun _ _ hinner => ih hinner (Nat.le_of_succ_le_succ hroom), rfl⟩

/-! ## First bytes -/

theorem byte_injective {element other : ElementType} (h : element.byte = other.byte) :
    element = other := by
  have hfound : some element = some other := by
    rw [← ElementType.ofByte?_byte, h, ElementType.ofByte?_byte]
  exact Option.some.inj hfound

/-- Every spelling begins with a byte that announces a type or a modifier. -/
def Announced (type : SignatureType → List Piece → Prop) : Prop :=
  ∀ t pieces, type t pieces → ∃ (element : ElementType) (rest : List Piece),
    element ≠ .sentinel ∧ pieces = .raw [element.byte] :: rest

theorem Contents.not_modifier {type : SignatureType → List Piece → Prop} {t : SignatureType}
    {element : ElementType} {pieces : List Piece} (h : Contents type t element pieces) :
    element.isModifier = false ∧ element ≠ .sentinel := by
  cases h <;> exact ⟨rfl, nofun⟩

theorem announced_spelled (hfront : ∀ pieces, front pieces → Modifiers pieces) (room : Nat) :
    Announced (Spelled front room) := by
  intro type pieces h
  cases room with
  | zero => exact h.elim
  | succ room =>
      obtain ⟨before, element, rest, hbefore, hcontents, rfl⟩ := h
      cases hfront _ hbefore with
      | nil => exact ⟨element, rest, hcontents.not_modifier.2, rfl⟩
      | @cons modifier token more hmodifier _ _ =>
          refine ⟨modifier, _, ?_, rfl⟩
          rintro rfl
          simp at hmodifier

/-- What is spelled with the byte of a class or of a value type in front is such a type. -/
theorem Spelled.named {kind : ElementType} (hkind : kind ∈ [.classType, .valueType])
    (hfront : ∀ pieces, front pieces → Modifiers pieces) {rest : List Piece}
    (h : Spelled front room type (.raw [kind.byte] :: rest)) :
    ∃ token, Named token rest ∧
      ((kind = .classType ∧ type = .classType token) ∨
        (kind = .valueType ∧ type = .valueType token)) := by
  cases room with
  | zero => exact h.elim
  | succ room =>
      obtain ⟨before, element, rest', hbefore, hcontents, hpieces⟩ := h
      cases hfront _ hbefore with
      | nil =>
          obtain ⟨hlead, rfl⟩ := List.cons.inj hpieces
          obtain rfl := byte_injective (List.cons.inj (Piece.raw.inj hlead)).1
          cases hcontents with
          | valueType h => exact ⟨_, h, .inr ⟨rfl, rfl⟩⟩
          | classType h => exact ⟨_, h, .inl ⟨rfl, rfl⟩⟩
          | _ => simp at hkind
      | @cons modifier token more hmodifier _ _ =>
          have hlead := Piece.raw.inj (List.cons.inj hpieces).1
          obtain rfl := byte_injective (List.cons.inj hlead).1
          fin_cases hkind <;> simp at hmodifier

end NativeExports.Spelling
