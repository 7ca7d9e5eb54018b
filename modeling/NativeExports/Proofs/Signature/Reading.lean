import NativeExports.Proofs.Signature.Spelling
import NativeExports.Signature.Reading

/-!
# Reading trees

A reader of signatures succeeds exactly on bytes that begin with a spelling of what it yields.
Every reader is put together from readers for its parts, and so is what it reads.
-/

namespace NativeExports

namespace Reader

open Spelling

variable {α β : Type}

theorem byte_bind_cons (next : Nat → Reader α) (lead : UInt8) (data : Bytes) :
    (byte >>= next) (lead :: data) = next lead.toNat data := by
  change EStateM.bind byte next (lead :: data) = _
  rw [EStateM.bind, byte_eq_ok.mpr ⟨lead, rfl, rfl⟩]

theorem bind_congr_at {reader other : Reader α} {next : α → Reader β} {data data' : Bytes}
    (h : reader data = other data') : (reader >>= next) data = (other >>= next) data' := by
  change EStateM.bind reader next data = EStateM.bind other next data'
  rw [EStateM.bind, EStateM.bind, h]

/-- A reader succeeds exactly on bytes that begin with pieces that spell what it yields. -/
def Parses (reader : Reader α) (spells : α → List Piece → Prop) : Prop :=
  ∀ data a rest, reader data = .ok a rest ↔
    ∃ pieces, data = pieces.flatMap Piece.bytes ++ rest ∧ spells a pieces

theorem Parses.congr {reader : Reader α} {spells spells' : α → List Piece → Prop}
    (h : reader.Parses spells) (hsame : ∀ a pieces, spells a pieces ↔ spells' a pieces) :
    reader.Parses spells' := by
  intro data a rest
  simp only [h data a rest, hsame]

theorem parses_pure (a : α) :
    (pure a : Reader α).Parses fun b pieces => b = a ∧ pieces = [] := by
  intro data b rest
  rw [pure_eq_ok]
  constructor
  · rintro ⟨rfl, rfl⟩
    exact ⟨[], rfl, rfl, rfl⟩
  · rintro ⟨_, rfl, rfl, rfl⟩
    exact ⟨rfl, rfl⟩

theorem Parses.bind {reader : Reader α} {next : α → Reader β} {spells : α → List Piece → Prop}
    {spells' : α → β → List Piece → Prop} (h : reader.Parses spells)
    (h' : ∀ a, (next a).Parses (spells' a)) :
    (reader >>= next).Parses fun b pieces => ∃ a first second, spells a first ∧
      spells' a b second ∧ pieces = first ++ second := by
  intro data b rest
  rw [bind_eq_ok]
  constructor
  · rintro ⟨a, mid, ha, hb⟩
    obtain ⟨first, rfl, hfirst⟩ := (h _ _ _).mp ha
    obtain ⟨second, rfl, hsecond⟩ := (h' a _ _ _).mp hb
    exact ⟨first ++ second, by rw [List.flatMap_append, List.append_assoc], a, first, second,
      hfirst, hsecond, rfl⟩
  · rintro ⟨_, rfl, a, first, second, hfirst, hsecond, rfl⟩
    rw [List.flatMap_append, List.append_assoc]
    exact ⟨a, _, (h _ _ _).mpr ⟨first, rfl, hfirst⟩, (h' a _ _ _).mpr ⟨second, rfl, hsecond⟩⟩

theorem Parses.bind_pure {reader : Reader α} {spells : α → List Piece → Prop}
    (h : reader.Parses spells) (f : α → β) :
    (reader >>= fun a => pure (f a)).Parses fun b pieces => ∃ a, spells a pieces ∧ b = f a := by
  refine (h.bind fun a => parses_pure (f a)).congr fun b pieces => ⟨?_, ?_⟩
  · rintro ⟨a, first, _, ha, ⟨rfl, rfl⟩, rfl⟩
    exact ⟨a, by rwa [List.append_nil], rfl⟩
  · rintro ⟨a, ha, rfl⟩
    exact ⟨a, pieces, [], ha, ⟨rfl, rfl⟩, (List.append_nil _).symm⟩

theorem Parses.ite {reader other : Reader α} {spells spells' : α → List Piece → Prop} {c : Prop}
    [Decidable c] (h : reader.Parses spells) (h' : other.Parses spells') :
    (if c then reader else other).Parses fun a pieces =>
      if c then spells a pieces else spells' a pieces := by
  split
  · exact h
  · exact h'

theorem parses_malformed (cause : Malformation) :
    (malformed cause : Reader α).Parses fun _ _ => False := by
  intro data a rest
  refine iff_of_false throw_ne_ok.mp ?_
  rintro ⟨_, _, h⟩
  exact h

theorem parses_byte :
    byte.Parses fun n pieces => ∃ lead : UInt8, lead.toNat = n ∧ pieces = [.raw [lead]] := by
  intro data n rest
  rw [byte_eq_ok]
  constructor
  · rintro ⟨lead, rfl, rfl⟩
    exact ⟨_, rfl, lead, rfl, rfl⟩
  · rintro ⟨_, rfl, lead, rfl, rfl⟩
    exact ⟨lead, rfl, rfl⟩

theorem parses_number : Compressed.read.Parses Numeral := by
  intro data n rest
  rw [Compressed.read_eq_ok]
  constructor
  · rintro ⟨front, rfl, hform⟩
    exact ⟨[.raw front], by rw [List.flatMap_singleton, Piece.bytes], .mk ⟨front, rfl, hform⟩⟩
  · rintro ⟨_, rfl, ⟨front, rfl, hform⟩⟩
    exact ⟨front, by rw [List.flatMap_singleton, Piece.bytes], hform⟩

theorem parses_token : Compressed.readToken.Parses Named := by
  intro data token rest
  rw [Compressed.readToken_eq_ok]
  constructor
  · rintro ⟨front, n, table, rfl, hform⟩
    exact ⟨[.token token front], by rw [List.flatMap_singleton, Piece.bytes], .mk ⟨n, table, hform⟩⟩
  · rintro ⟨_, rfl, ⟨⟨n, table, hform⟩⟩⟩
    exact ⟨_, n, table, by rw [List.flatMap_singleton, Piece.bytes], hform⟩

theorem Parses.timesFrom {item : Reader α} {spells : α → List Piece → Prop} (h : item.Parses spells)
    (seen : List α) (count : Nat) :
    (timesFrom item seen count).Parses fun items pieces => ∃ more, items = seen.reverse ++ more ∧
      more.length = count ∧ Sequence spells more pieces := by
  induction count generalizing seen with
  | zero =>
      refine (parses_pure seen.reverse).congr fun items pieces => ⟨?_, ?_⟩
      · rintro ⟨rfl, rfl⟩
        exact ⟨[], (List.append_nil _).symm, rfl, .nil⟩
      · rintro ⟨more, rfl, hlength, hmore⟩
        obtain rfl := List.eq_nil_of_length_eq_zero hlength
        cases hmore
        exact ⟨List.append_nil _, rfl⟩
  | succ count ih =>
      refine (h.bind fun a => ih (a :: seen)).congr fun items pieces => ⟨?_, ?_⟩
      · rintro ⟨a, first, _, hfirst, ⟨more, rfl, rfl, hmore⟩, rfl⟩
        refine ⟨a :: more, ?_, rfl, .cons hfirst hmore⟩
        rw [List.reverse_cons, List.append_assoc, List.singleton_append]
      · rintro ⟨_, rfl, hlength, hmore⟩
        cases hmore with
        | nil => cases hlength
        | @cons a more first rest hfirst hrest =>
            refine ⟨a, first, rest, hfirst, ⟨more, ?_, Nat.succ.inj hlength, hrest⟩, rfl⟩
            rw [List.reverse_cons, List.append_assoc, List.singleton_append]

/-- A count is read, and as many items. -/
theorem Parses.listed {item : Reader α} {spells : α → List Piece → Prop} (h : item.Parses spells) :
    (do
      let count ← Compressed.read
      Reader.times item count : Reader (List α)).Parses (Listed spells) := by
  refine (parses_number.bind fun count => h.timesFrom [] count).congr fun items pieces => ⟨?_, ?_⟩
  · rintro ⟨_, _, _, ⟨hcount⟩, ⟨more, rfl, rfl, hmore⟩, rfl⟩
    exact .mk hcount hmore
  · rintro ⟨hcount, hitems⟩
    exact ⟨_, _, _, .mk hcount, ⟨items, rfl, rfl, hitems⟩, rfl⟩

end Reader

namespace SignatureReader

open Reader Spelling

/-! ## Modifiers -/

theorem isModifierByte_iff {lead : UInt8} : isModifierByte lead.toNat = true ↔
    ∃ element ∈ [ElementType.requiredModifier, .optionalModifier], lead = element.byte := by
  unfold isModifierByte
  rw [UInt8.ofNat_toNat]
  constructor
  · intro h
    split at h
    · rename_i element helement
      refine ⟨element, ?_, (ElementType.byte_of_ofByte? helement).symm⟩
      cases element <;> simp_all [ElementType.isModifier]
    · cases h
  · rintro ⟨element, hmem, rfl⟩
    rw [ElementType.ofByte?_byte]
    fin_cases hmem <;> rfl

/-- Modifiers are spelled in front of `rest`, which does not begin with one. -/
structure SkippedTo (data rest : Bytes) : Prop where
  spelled : ∃ pieces, data = pieces.flatMap Piece.bytes ++ rest ∧ Modifiers pieces
  stops : ∀ lead tail, rest = lead :: tail → isModifierByte lead.toNat = false

theorem skippedTo_nil {rest : Bytes} : SkippedTo [] rest ↔ rest = [] := by
  constructor
  · rintro ⟨⟨pieces, hpieces, -⟩, -⟩
    exact (List.append_eq_nil_iff.mp hpieces.symm).2
  · rintro rfl
    exact ⟨⟨[], rfl, .nil⟩, nofun⟩

theorem skippedTo_plain {lead : UInt8} {data rest : Bytes} (h : ¬isModifierByte lead.toNat = true) :
    SkippedTo (lead :: data) rest ↔ rest = lead :: data := by
  constructor
  · rintro ⟨⟨pieces, hdata, hpieces⟩, -⟩
    cases hpieces with
    | nil => exact hdata.symm
    | @cons element token pieces helement _ _ =>
        obtain rfl := (List.cons.inj hdata).1
        exact absurd (isModifierByte_iff.mpr ⟨element, helement, rfl⟩) h
  · rintro rfl
    refine ⟨⟨[], rfl, .nil⟩, fun other tail hrest => ?_⟩
    rw [← (List.cons.inj hrest).1]
    exact Bool.eq_false_iff.mpr h

theorem skippedTo_modifier {lead : UInt8} {data rest : Bytes}
    (h : isModifierByte lead.toNat = true) :
    SkippedTo (lead :: data) rest ↔
      ∃ token mid, Compressed.readToken data = .ok token mid ∧ SkippedTo mid rest := by
  obtain ⟨element, helement, rfl⟩ := isModifierByte_iff.mp h
  constructor
  · rintro ⟨⟨pieces, hdata, hpieces⟩, hstops⟩
    cases hpieces with
    | nil =>
        have hclear := hstops _ _ hdata.symm
        rw [h] at hclear
        cases hclear
    | @cons other token pieces _ htoken hpieces =>
        obtain ⟨named, stored, rfl, hform⟩ := htoken
        have hfront : data = [Piece.token named stored].flatMap Piece.bytes ++
            (pieces.flatMap Piece.bytes ++ rest) := by
          rw [← List.append_assoc, ← List.flatMap_append]
          exact (List.cons.inj hdata).2
        have hread := (parses_token _ named _).mpr ⟨_, hfront, .mk hform⟩
        exact ⟨named, _, hread, ⟨pieces, rfl, hpieces⟩, hstops⟩
  · rintro ⟨token, mid, hread, ⟨pieces, rfl, hpieces⟩, hstops⟩
    obtain ⟨_, rfl, ⟨hform⟩⟩ := (parses_token _ _ _).mp hread
    exact ⟨⟨_, by simp [Piece.bytes], .cons helement ⟨_, _, rfl, hform⟩ hpieces⟩, hstops⟩

theorem skipModifiers_nil (count : Nat) : skipModifiers count [] = .ok () [] := by
  cases count <;> rfl

theorem skipModifiers_cons (count : Nat) (lead : UInt8) (data : Bytes) :
    skipModifiers (count + 1) (lead :: data) =
      if isModifierByte lead.toNat = true then
        (Compressed.readToken >>= fun _ => skipModifiers count) data
      else .ok () (lead :: data) := by
  rw [skipModifiers]
  change (if isModifierByte lead.toNat = true then
      (byte >>= fun _ => Compressed.readToken >>= fun _ => skipModifiers count) else pure ())
    (lead :: data) = _
  split
  · exact byte_bind_cons _ lead data
  · rfl

/-- Every modifier takes some bytes, so as many rounds as there are bytes skip them all. -/
theorem skipModifiers_eq_ok {count : Nat} {data rest : Bytes} (h : data.length ≤ count) :
    skipModifiers count data = .ok () rest ↔ SkippedTo data rest := by
  induction count generalizing data with
  | zero =>
      obtain rfl := List.eq_nil_of_length_eq_zero (Nat.le_zero.mp h)
      rw [skipModifiers_nil, skippedTo_nil]
      simp [eq_comm]
  | succ count ih =>
      cases data with
      | nil =>
          rw [skipModifiers_nil, skippedTo_nil]
          simp [eq_comm]
      | cons lead data =>
          rw [skipModifiers_cons]
          split
          · rename_i hmodifier
            rw [bind_eq_ok, skippedTo_modifier hmodifier]
            refine exists_congr fun token => exists_congr fun mid =>
              and_congr_right fun hread => ih ?_
            obtain ⟨front, -, -, rfl, -⟩ := Compressed.readToken_eq_ok.mp hread
            simp only [List.length_cons, List.length_append] at h
            omega
          · rename_i hplain
            rw [skippedTo_plain hplain]
            simp [eq_comm]

/-! ## Parameters -/

/-- Reads a parameter, and tells whether the mark for variable arguments stood in front of it. -/
def parameter (type : Reader SignatureType) : Reader (Bool × SignatureType) := do
  if (← peek) = ElementType.sentinel.byte.toNat then
    let _ ← byte
    return (true, ← type)
  else return (false, ← type)

/-- A parameter, with the mark in front of it if there is one. -/
inductive Marked (type : SignatureType → List Piece → Prop) :
    Bool × SignatureType → List Piece → Prop
  | plain {param : SignatureType} {pieces : List Piece} (h : type param pieces) :
      Marked type (false, param) pieces
  | marked {param : SignatureType} {pieces : List Piece} (h : type param pieces) :
      Marked type (true, param) (.raw [ElementType.sentinel.byte] :: pieces)

section

variable {type : Reader SignatureType} {spells : SignatureType → List Piece → Prop}

theorem parameter_cons (type : Reader SignatureType) (lead : UInt8) (data : Bytes) :
    parameter type (lead :: data) =
      if lead = ElementType.sentinel.byte then
        (type >>= fun param => pure (true, param)) data
      else (type >>= fun param => pure (false, param)) (lead :: data) := by
  simp only [← UInt8.toNat_inj]
  change (if lead.toNat = ElementType.sentinel.byte.toNat then
      (byte >>= fun _ => type >>= fun param => pure (true, param))
    else type >>= fun param => pure (false, param)) (lead :: data) = _
  split
  · exact byte_bind_cons _ lead data
  · rfl

theorem parametersFrom_succ (type : Reader SignatureType) (params varargs : List SignatureType)
    (marked : Bool) (count : Nat) :
    parametersFrom type params varargs marked (count + 1) =
      parameter type >>= fun found =>
        if marked = true ∨ found.1 = true then
          parametersFrom type params (found.2 :: varargs) true count
        else parametersFrom type (found.2 :: params) varargs false count := by
  funext data
  cases data with
  | nil => rfl
  | cons lead data =>
      rw [parametersFrom]
      change (if lead.toNat = ElementType.sentinel.byte.toNat then
          (byte >>= fun _ => type >>= fun param => _)
        else type >>= fun param => _) (lead :: data) = _
      by_cases hmark : lead = ElementType.sentinel.byte
      · have hparameter : parameter type (lead :: data) =
            (type >>= fun param => pure (true, param)) data := by
          rw [parameter_cons, if_pos hmark]
        rw [bind_congr_at hparameter, if_pos (UInt8.toNat_inj.mpr hmark), byte_bind_cons]
        simp [hmark]
      · have hparameter : parameter type (lead :: data) =
            (type >>= fun param => pure (false, param)) (lead :: data) := by
          rw [parameter_cons, if_neg hmark]
        rw [bind_congr_at hparameter, if_neg (mt UInt8.toNat_inj.mp hmark)]
        simp [mt UInt8.toNat_inj.mp hmark]

/-- A type that is read is not taken for a mark, as it begins with a byte of another kind. -/
theorem parses_parameter (h : type.Parses spells) (hannounced : Announced spells) :
    (parameter type).Parses (Marked spells) := by
  intro data found rest
  constructor
  · intro hread
    cases data with
    | nil => cases hread
    | cons lead data =>
        rw [parameter_cons] at hread
        split at hread
        · rename_i hmark
          obtain ⟨pieces, rfl, param, hparam, rfl⟩ := (h.bind_pure _ _ _ _).mp hread
          exact ⟨_, by rw [hmark]; rfl, .marked hparam⟩
        · obtain ⟨pieces, hdata, param, hparam, rfl⟩ := (h.bind_pure _ _ _ _).mp hread
          exact ⟨pieces, hdata, .plain hparam⟩
  · rintro ⟨pieces, rfl, hfound⟩
    cases hfound with
    | @plain param _ hparam =>
        have hread := (h.bind_pure (Prod.mk false) _ _ rest).mpr ⟨pieces, rfl, param, hparam, rfl⟩
        obtain ⟨element, more, helement, rfl⟩ := hannounced _ _ hparam
        refine (parameter_cons type element.byte _).trans ((if_neg fun hbyte => ?_).trans hread)
        exact helement (byte_injective hbyte)
    | @marked param pieces hparam =>
        have hread := (h.bind_pure (Prod.mk true) _ _ rest).mpr ⟨pieces, rfl, param, hparam, rfl⟩
        exact (parameter_cons type _ _).trans ((if_pos rfl).trans hread)

theorem declared_eq_nil {declared others : List SignatureType} {pieces : List Piece}
    (h : Parameters spells true declared others pieces) : declared = [] := by
  cases h <;> rfl

/-- Arguments are read behind others, which are in reverse order. -/
inductive ReadBehind (type : SignatureType → List Piece → Prop)
    (params varargs : List SignatureType)
    (marked : Bool) (count : Nat) (result : List SignatureType × List SignatureType) :
    List Piece → Prop
  | mk {declared others : List SignatureType} {pieces : List Piece}
      (hcount : declared.length + others.length = count)
      (hresult : result = (params.reverse ++ declared, varargs.reverse ++ others))
      (h : Parameters type marked declared others pieces) :
      ReadBehind type params varargs marked count result pieces

/-- Reading one argument and then the others is reading them all. -/
theorem readBehind_succ {params varargs : List SignatureType} {marked : Bool} {count : Nat}
    {result : List SignatureType × List SignatureType} {pieces : List Piece} :
    (∃ found first second, Marked spells found first ∧
      (if marked = true ∨ found.1 = true then
        ReadBehind spells params (found.2 :: varargs) true count result second
      else ReadBehind spells (found.2 :: params) varargs false count result second) ∧
        pieces = first ++ second) ↔
    ReadBehind spells params varargs marked (count + 1) result pieces := by
  constructor
  · rintro ⟨found, first, second, hfound, hrest, rfl⟩
    cases hfound with
    | @plain param _ hparam =>
        cases marked with
        | true =>
            obtain ⟨hcount, rfl, hothers⟩ := (if_pos (.inl rfl)).mp hrest
            obtain rfl := declared_eq_nil hothers
            exact .mk (by simpa using hcount) (by simp) (.behind hparam hothers)
        | false =>
            obtain ⟨hcount, rfl, hothers⟩ := (if_neg (by simp)).mp hrest
            refine .mk ?_ (by simp) (.declared hparam hothers)
            simp only [List.length_cons]
            omega
    | @marked param _ hparam =>
        obtain ⟨hcount, rfl, hothers⟩ := (if_pos (.inr rfl)).mp hrest
        obtain rfl := declared_eq_nil hothers
        exact .mk (by simpa using hcount) (by simp) (.marked hparam hothers)
  · rintro ⟨hcount, rfl, hparams⟩
    cases hparams with
    | nil => cases hcount
    | @declared param declared _ first more hfirst hmore =>
        refine ⟨(false, param), first, more, .plain hfirst, (if_neg (by simp)).mpr ?_, rfl⟩
        refine .mk ?_ (by simp) hmore
        simp only [List.length_cons] at hcount
        omega
    | @marked _ param others first more hfirst hmore =>
        refine ⟨(true, param), _, more, .marked hfirst, (if_pos (.inr rfl)).mpr ?_, rfl⟩
        exact .mk (by simpa using hcount) (by simp) hmore
    | @behind param others first more hfirst hmore =>
        refine ⟨(false, param), first, more, .plain hfirst, (if_pos (.inl rfl)).mpr ?_, rfl⟩
        exact .mk (by simpa using hcount) (by simp) hmore

/-- The induction is on the number of arguments left. -/
theorem parses_parametersFrom (h : type.Parses spells) (hannounced : Announced spells)
    (params varargs : List SignatureType) (marked : Bool) (count : Nat) :
    (parametersFrom type params varargs marked count).Parses
      (ReadBehind spells params varargs marked count) := by
  induction count generalizing params varargs marked with
  | zero =>
      refine (parses_pure (params.reverse, varargs.reverse)).congr fun result pieces => ⟨?_, ?_⟩
      · rintro ⟨rfl, rfl⟩
        exact .mk rfl (by simp) (.nil marked)
      · rintro ⟨hcount, rfl, hparams⟩
        obtain ⟨hdeclared, hothers⟩ := Nat.add_eq_zero_iff.mp hcount
        obtain rfl := List.eq_nil_of_length_eq_zero hdeclared
        obtain rfl := List.eq_nil_of_length_eq_zero hothers
        cases hparams
        exact ⟨by simp, rfl⟩
  | succ count ih =>
      rw [parametersFrom_succ]
      exact ((parses_parameter h hannounced).bind fun found => (ih _ _ _).ite (ih _ _ _)).congr
        fun _ _ => readBehind_succ

/-! ## Signatures -/

theorem parses_arity (lead : Nat) :
    (if lead.testBit SignatureLead.genericBit = true then Compressed.read
      else pure 0 : Reader Nat).Parses (Arity lead) := by
  refine (parses_number.ite (parses_pure 0)).congr fun n pieces => ⟨fun h => ?_, fun h => ?_⟩
  · split at h
    · exact .generic ‹_› h
    · obtain ⟨rfl, rfl⟩ := h
      exact .plain (Bool.eq_false_iff.mpr ‹_›)
  · cases h with
    | plain hplain => rw [if_neg (by simp [hplain])]; exact ⟨rfl, rfl⟩
    | generic hgeneric hn => rwa [if_pos hgeneric]

theorem method_eq (type : Reader SignatureType) : method type = (do
    let lead ← byte
    let genericCount ← (if lead.testBit SignatureLead.genericBit = true then Compressed.read
      else pure 0 : Reader Nat)
    let count ← Compressed.read
    let result ← type
    let found ← parametersFrom type [] [] false count
    pure ⟨lead.testBit SignatureLead.hasThisBit, lead.testBit SignatureLead.explicitThisBit,
      lead % 16, genericCount, result, found.1, found.2⟩) := by
  refine congrArg (byte >>= ·) (funext fun lead => ?_)
  cases lead.testBit SignatureLead.genericBit <;> rfl

theorem parses_method (h : type.Parses spells) (hannounced : Announced spells) :
    (method type).Parses (Method spells) := by
  rw [method_eq]
  refine (parses_byte.bind fun lead => (parses_arity lead).bind fun genericCount =>
    parses_number.bind fun count => h.bind fun result =>
      (parses_parametersFrom h hannounced [] [] false count).bind_pure fun found =>
        (⟨lead.testBit SignatureLead.hasThisBit, lead.testBit SignatureLead.explicitThisBit,
          lead % 16, genericCount, result, found.1, found.2⟩ : Signature)).congr
        fun signature pieces => ⟨?_, ?_⟩
  · rintro ⟨_, _, _, ⟨lead, rfl, rfl⟩, ⟨genericCount, arity, _, harity, ⟨_, _, _, @⟨count, hcount⟩,
      ⟨result, first, params, hresult, ⟨_, ⟨rfl, rfl, hparams⟩, rfl⟩, rfl⟩, rfl⟩, rfl⟩, rfl⟩
    change Method spells _ (.raw [lead] :: (arity ++ count :: (first ++ params)))
    exact .mk ⟨rfl, rfl, rfl⟩ harity hcount hresult hparams
  · rintro ⟨⟨hthis, hexplicit, hconvention⟩, harity, hcount, hresult, hparams⟩
    rename_i lead arity result params count
    refine ⟨_, _, _, ⟨lead, rfl, rfl⟩, ⟨_, _, _, harity, ⟨_, [count], _, .mk hcount,
      ⟨_, _, _, hresult, ⟨_, ⟨rfl, rfl, hparams⟩, ?_⟩, rfl⟩, rfl⟩, rfl⟩, rfl⟩
    rw [← hthis, ← hexplicit, ← hconvention]
    rfl

/-! ## Types -/

theorem parses_array (h : type.Parses spells) :
    (array type).Parses fun t pieces => Contents spells t .array pieces := by
  refine (h.bind fun item => parses_number.bind fun rank => parses_number.listed.bind fun sizes =>
    parses_number.listed.bind_pure (SignatureType.array item rank sizes)).congr
      fun t pieces => ⟨?_, fun hcontents => ?_⟩
  · rintro ⟨item, _, _, hitem, ⟨rank, _, _, hrank, ⟨sizes, _, _, hsizes, ⟨bounds, hbounds, rfl⟩,
      rfl⟩, rfl⟩, rfl⟩
    exact .array hitem hrank hsizes hbounds
  · cases hcontents with
    | array hitem hrank hsizes hbounds =>
        exact ⟨_, _, _, hitem, ⟨_, _, _, hrank, ⟨_, _, _, hsizes, ⟨_, hbounds, rfl⟩, rfl⟩, rfl⟩,
          rfl⟩

theorem genericInstance_cons (type : Reader SignatureType) (lead : UInt8) (data : Bytes) :
    genericInstance type (lead :: data) =
      if lead.toNat ≠ ElementType.classType.byte.toNat ∧
          lead.toNat ≠ ElementType.valueType.byte.toNat then
        .error (.malformed (.genericBase lead.toNat)) (lead :: data)
      else (do
        let base ← type
        let args ← (do
          let count ← Compressed.read
          Reader.times type count)
        pure (SignatureType.genericInstance base args)) (lead :: data) := by
  simp only [bind_assoc]
  rw [genericInstance]
  change (if _ then (malformed _ >>= fun _ => _) else _) (lead :: data) = _
  split <;> rfl

/-- The base is read with the byte that was looked at. -/
theorem parses_genericInstance (h : type.Parses spells) (hannounced : Announced spells) :
    (genericInstance type).Parses fun t pieces => Contents spells t .genericInstance pieces := by
  have hrest := h.bind fun base => h.listed.bind_pure (SignatureType.genericInstance base)
  intro data t rest
  constructor
  · intro hread
    cases data with
    | nil => cases hread
    | cons lead data =>
        rw [genericInstance_cons] at hread
        split at hread
        · cases hread
        · rename_i hlead
          obtain ⟨kind, hkind, rfl⟩ := Walk.mem_base.mp hlead
          obtain ⟨_, hdata, base, first, arguments, hbase, ⟨args, hargs, rfl⟩, rfl⟩ :=
            (hrest _ _ _).mp hread
          obtain ⟨element, name, -, rfl⟩ := hannounced _ _ hbase
          obtain rfl := byte_injective (List.cons.inj hdata).1
          exact ⟨_, hdata, .genericInstance hkind hbase hargs⟩
  · rintro ⟨_, rfl, hcontents⟩
    cases hcontents with
    | @genericInstance base args kind name arguments hkind hbase hargs =>
        have hread := (hrest _ _ rest).mpr
          ⟨_, rfl, base, _, arguments, hbase, ⟨args, hargs, rfl⟩, rfl⟩
        refine (genericInstance_cons type kind.byte _).trans ((if_neg ?_).trans hread)
        exact Walk.mem_base.mpr ⟨kind, hkind, rfl⟩

/-- What is read behind the first byte of a type. -/
theorem parses_body (h : type.Parses spells) (hannounced : Announced spells)
    {element : ElementType} (hmodifier : element.isModifier = false)
    (hsentinel : element ≠ .sentinel) :
    (body type element.byte.toNat).Parses fun t pieces => Contents spells t element pieces := by
  unfold body
  rw [UInt8.ofNat_toNat, ElementType.ofByte?_byte]
  cases element with
  | requiredModifier | optionalModifier => cases hmodifier
  | sentinel => exact absurd rfl hsentinel
  | primitive kind =>
      refine (parses_pure (SignatureType.primitive kind)).congr fun t pieces => ⟨?_, ?_⟩
      · rintro ⟨rfl, rfl⟩
        exact .primitive kind
      · rintro ⟨⟩
        exact ⟨rfl, rfl⟩
  | pointer =>
      exact (h.bind_pure SignatureType.pointer).congr fun t pieces =>
        ⟨fun ⟨_, hinner, ht⟩ => ht ▸ .pointer hinner, fun | .pointer hinner => ⟨_, hinner, rfl⟩⟩
  | reference =>
      exact (h.bind_pure SignatureType.reference).congr fun t pieces =>
        ⟨fun ⟨_, hinner, ht⟩ => ht ▸ .reference hinner, fun | .reference hinner => ⟨_, hinner, rfl⟩⟩
  | vector =>
      exact (h.bind_pure SignatureType.vector).congr fun t pieces =>
        ⟨fun ⟨_, hinner, ht⟩ => ht ▸ .vector hinner, fun | .vector hinner => ⟨_, hinner, rfl⟩⟩
  | pinned =>
      exact (h.bind_pure SignatureType.pinned).congr fun t pieces =>
        ⟨fun ⟨_, hinner, ht⟩ => ht ▸ .pinned hinner, fun | .pinned hinner => ⟨_, hinner, rfl⟩⟩
  | valueType =>
      exact (parses_token.bind_pure SignatureType.valueType).congr fun t pieces =>
        ⟨fun ⟨_, hnamed, ht⟩ => ht ▸ .valueType hnamed, fun | .valueType hnamed => ⟨_, hnamed, rfl⟩⟩
  | classType =>
      exact (parses_token.bind_pure SignatureType.classType).congr fun t pieces =>
        ⟨fun ⟨_, hnamed, ht⟩ => ht ▸ .classType hnamed, fun | .classType hnamed => ⟨_, hnamed, rfl⟩⟩
  | typeParameter =>
      exact (parses_number.bind_pure SignatureType.typeParameter).congr fun t pieces =>
        ⟨fun ⟨_, hn, ht⟩ => ht ▸ .typeParameter hn, fun | .typeParameter hn => ⟨_, hn, rfl⟩⟩
  | methodParameter =>
      exact (parses_number.bind_pure SignatureType.methodParameter).congr fun t pieces =>
        ⟨fun ⟨_, hn, ht⟩ => ht ▸ .methodParameter hn, fun | .methodParameter hn => ⟨_, hn, rfl⟩⟩
  | array => exact parses_array h
  | genericInstance => exact parses_genericInstance h hannounced
  | functionPointer =>
      exact ((parses_method h hannounced).bind_pure SignatureType.functionPointer).congr
        fun t pieces => ⟨fun ⟨_, hmethod, ht⟩ => ht ▸ .functionPointer hmethod,
          fun | .functionPointer hmethod => ⟨_, hmethod, rfl⟩⟩

/-- Something is read behind a byte that announces a type only. -/
theorem exists_element_of_body {lead : UInt8} {data rest : Bytes} {t : SignatureType}
    (h : body type lead.toNat data = .ok t rest) :
    ∃ element : ElementType, element.byte = lead ∧ element.isModifier = false ∧
      element ≠ .sentinel := by
  unfold body at h
  rw [UInt8.ofNat_toNat] at h
  rcases helement : ElementType.ofByte? lead with - | element
  · rw [helement] at h
    exact (throw_ne_ok.mp h).elim
  · refine ⟨element, ElementType.byte_of_ofByte? helement, ?_⟩
    rw [helement] at h
    cases element with
    | requiredModifier | optionalModifier | sentinel => exact (throw_ne_ok.mp h).elim
    | _ => exact ⟨rfl, nofun⟩

theorem type_succ (room : Nat) (data : Bytes) :
    SignatureReader.type (room + 1) data = (do
      skipModifiers data.length
      let lead ← byte
      body (SignatureReader.type room) lead : Reader SignatureType) data :=
  rfl

/-- The induction is on the levels of nesting left. -/
theorem parses_type (room : Nat) :
    (SignatureReader.type room).Parses (Spelled Modifiers room) := by
  induction room with
  | zero => exact parses_malformed _
  | succ room ih =>
      have hannounced : Announced (Spelled Modifiers room) := announced_spelled (fun _ h => h) room
      intro data t rest
      rw [type_succ, bind_eq_ok]
      constructor
      · rintro ⟨_, mid, hskip, hread⟩
        obtain ⟨⟨before, rfl, hbefore⟩, -⟩ := (skipModifiers_eq_ok (Nat.le_refl _)).mp hskip
        obtain ⟨_, tail, hlead, hbody⟩ := bind_eq_ok.mp hread
        obtain ⟨lead, rfl, rfl⟩ := byte_eq_ok.mp hlead
        obtain ⟨element, rfl, hmodifier, hsentinel⟩ := exists_element_of_body hbody
        obtain ⟨pieces, rfl, hcontents⟩ :=
          (parses_body ih hannounced hmodifier hsentinel _ _ _).mp hbody
        exact ⟨_, by simp [Piece.bytes], before, element, pieces, hbefore, hcontents, rfl⟩
      · rintro ⟨_, rfl, before, element, pieces, hbefore, hcontents, rfl⟩
        obtain ⟨hmodifier, hsentinel⟩ := hcontents.not_modifier
        have hbody := (parses_body ih hannounced hmodifier hsentinel _ _ rest).mpr
          ⟨pieces, rfl, hcontents⟩
        refine ⟨(), element.byte :: (pieces.flatMap Piece.bytes ++ rest), ?_,
          bind_eq_ok.mpr ⟨_, _, byte_eq_ok.mpr ⟨element.byte, rfl, rfl⟩, hbody⟩⟩
        refine (skipModifiers_eq_ok (Nat.le_refl _)).mpr
          ⟨⟨before, by simp [Piece.bytes], hbefore⟩, ?_⟩
        rintro lead tail ⟨⟩
        refine Bool.eq_false_iff.mpr fun hlead => ?_
        obtain ⟨other, hother, hbyte⟩ := isModifierByte_iff.mp hlead
        obtain rfl := byte_injective hbyte
        fin_cases hother <;> cases hmodifier

end

end SignatureReader

/-- A blob is read exactly if it begins with a spelling of the signature. -/
theorem Signature.parses_reader :
    Signature.reader.Parses (Spelling.Method (Spelling.Spelled Spelling.Modifiers signatureRoom)) :=
  SignatureReader.parses_method (SignatureReader.parses_type signatureRoom)
    (Spelling.announced_spelled (fun _ h => h) signatureRoom)

end NativeExports
