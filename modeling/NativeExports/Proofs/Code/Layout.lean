import Mathlib.Data.List.Forall2
import NativeExports.Code.Instruction
import NativeExports.Proofs.Outcome
import NativeExports.Proofs.Readers

/-!
# Code as a sequence of instructions

Decoding cuts a code into the bytes of its instructions, one after the other and without gaps.
`Code.Layout` states this cut as a relation, and a code decodes to a list of instructions exactly if
it is laid out as that list.  A token operand is the last four bytes of its instruction, so it can
be exchanged without touching anything else.
-/

namespace NativeExports

open Reader

/-- The size an operand reports is the number of bytes it takes. -/
theorem OperandKind.read_eq_ok {kind : OperandKind} {data rest : Bytes} {size : Nat}
    {operand : Operand} (h : kind.read data = .ok (size, operand) rest) :
    ∃ front, data = front ++ rest ∧ front.length = size ∧
      Takes kind.read front (size, operand) := by
  have hplain : ∀ {β : Type} {width : Nat} {reader : Reader β} (wrap : β → Operand),
      reader.IsLocal → (∀ data b rest, reader data = .ok b rest →
        data.length = width + rest.length) →
      (reader >>= fun b => pure (width, wrap b)) data = .ok (size, operand) rest →
      ∃ front, data = front ++ rest ∧ front.length = size ∧
        Takes (reader >>= fun b => pure (width, wrap b)) front (size, operand) := by
    intro β width reader wrap hlocal hwidth h
    obtain ⟨b, mid, hb, hpure⟩ := bind_eq_ok.mp h
    obtain ⟨hpair, rfl⟩ := pure_eq_ok.mp hpure
    obtain ⟨rfl, rfl⟩ := Prod.mk.inj hpair
    have hlength := hwidth _ _ _ hb
    obtain ⟨front, rfl, hfront⟩ := hlocal _ _ _ hb
    refine ⟨front, rfl, ?_, ?_⟩
    · rw [List.length_append] at hlength
      omega
    · intro rest
      exact bind_eq_ok.mpr ⟨b, rest, hfront rest, rfl⟩
  cases kind with
  | none =>
      obtain ⟨hpair, rfl⟩ := pure_eq_ok.mp h
      obtain ⟨rfl, rfl⟩ := Prod.mk.inj hpair
      exact ⟨[], rfl, rfl, .pure _⟩
  | int8 => exact hplain _ (.signedLe 1) (fun _ _ _ => length_of_signedLe) h
  | uint8 => exact hplain (fun n : Nat => .immediate n) (.le 1) (fun _ _ _ => length_of_le) h
  | uint16 => exact hplain (fun n : Nat => .immediate n) (.le 2) (fun _ _ _ => length_of_le) h
  | int32 => exact hplain _ (.signedLe 4) (fun _ _ _ => length_of_signedLe) h
  | int64 => exact hplain _ (.signedLe 8) (fun _ _ _ => length_of_signedLe) h
  | float32 => exact hplain _ (.le 4) (fun _ _ _ => length_of_le) h
  | float64 => exact hplain _ (.le 8) (fun _ _ _ => length_of_le) h
  | token => exact hplain (fun n => .token ⟨n⟩) (.le 4) (fun _ _ _ => length_of_le) h
  | switch =>
      obtain ⟨count, mid, hcount, h⟩ := bind_eq_ok.mp h
      obtain ⟨room, mid', hroom, h⟩ := bind_eq_ok.mp h
      obtain ⟨rfl, rfl⟩ : mid.length = room ∧ mid = mid' := by
        simpa [remaining] using hroom
      split at h
      · simp [bind_eq_ok] at h
      · obtain ⟨targets, mid', htargets, hpure⟩ := bind_eq_ok.mp h
        obtain ⟨hpair, rfl⟩ := pure_eq_ok.mp hpure
        obtain ⟨rfl, rfl⟩ := Prod.mk.inj hpair
        have hlength := length_of_timesFrom (fun _ _ _ => length_of_signedLe) htargets
        obtain ⟨head, rfl, hhead, rfl⟩ := le_eq_ok.mp hcount
        obtain ⟨back, rfl, hback⟩ := (IsLocal.signedLe 4).times _ _ _ _ htargets
        rw [List.length_append] at hlength
        refine ⟨head ++ back, (List.append_assoc ..).symm, by simp; omega, ?_⟩
        intro rest
        refine bind_eq_ok.mpr ⟨Bytes.leValue head, back ++ rest, ?_, ?_⟩
        · rw [List.append_assoc, ← hhead]
          exact le_takes head _
        · refine bind_eq_ok.mpr ⟨(back ++ rest).length, back ++ rest, rfl, ?_⟩
          rw [if_neg (by simp; omega)]
          exact bind_eq_ok.mpr ⟨targets, rest, hback rest, rfl⟩

/-- A token operand is four bytes that hold the token. -/
theorem OperandKind.read_token {kind : OperandKind} {data rest : Bytes} {size : Nat} {token : Token}
    (h : kind.read data = .ok (size, .token token) rest) :
    kind = .token ∧ size = 4 ∧ token.value < 2 ^ 32 ∧
      data = Bytes.leBytes 4 token.value ++ rest := by
  cases kind with
  | token =>
      obtain ⟨value, mid, hvalue, hpure⟩ := bind_eq_ok.mp h
      obtain ⟨hpair, rfl⟩ := pure_eq_ok.mp hpure
      obtain ⟨rfl, hoperand⟩ := Prod.mk.inj hpair
      obtain rfl := Operand.token.inj hoperand
      obtain ⟨front, rfl, hfront, rfl⟩ := le_eq_ok.mp hvalue
      refine ⟨rfl, rfl, ?_, ?_⟩
      · have := Bytes.leValue_lt front
        rwa [hfront] at this
      · rw [← hfront, Bytes.leBytes_leValue]
  | switch =>
      obtain ⟨count, mid, -, h⟩ := bind_eq_ok.mp h
      obtain ⟨room, mid', -, h⟩ := bind_eq_ok.mp h
      split at h <;> simp [bind_eq_ok, map_eq_ok] at h
  | none => simp [read, pure_eq_ok] at h
  | _ => simp [read, map_eq_ok] at h

/-- An opcode takes two bytes or one, as it reports. -/
theorem Opcode.read_eq_ok {data rest : Bytes} {wide : Bool} {code : Nat} {opcode : Opcode}
    (h : Opcode.read data = .ok (wide, code, opcode) rest) :
    ∃ front, data = front ++ rest ∧ front.length = (if wide then 2 else 1) ∧
      Takes Opcode.read front (wide, code, opcode) := by
  obtain ⟨lead, mid, hlead, h⟩ := bind_eq_ok.mp h
  obtain ⟨head, rfl, hhead, rfl⟩ := le_eq_ok.mp hlead
  have htakes : byte.Takes head (Bytes.leValue head) := by
    intro rest
    exact le_eq_ok.mpr ⟨head, rfl, hhead, rfl⟩
  split at h
  · rename_i hwide
    obtain ⟨second, mid', hsecond, h⟩ := bind_eq_ok.mp h
    obtain ⟨back, rfl, hback, rfl⟩ := le_eq_ok.mp hsecond
    rcases hfound : Opcode.wide[Bytes.leValue back]? with _ | _ | found
    · simp [hfound, malformed] at h
    · simp [hfound, malformed] at h
    · rw [hfound] at h
      obtain ⟨htriple, rfl⟩ := pure_eq_ok.mp h
      simp only [Prod.mk.injEq] at htriple
      obtain ⟨rfl, rfl, rfl⟩ := htriple
      refine ⟨head ++ back, (List.append_assoc ..).symm, by simp [hhead, hback], ?_⟩
      refine htakes.bind fun rest => ?_
      rw [if_pos hwide]
      refine bind_eq_ok.mpr ⟨_, rest, le_eq_ok.mpr ⟨back, rfl, hback, rfl⟩, ?_⟩
      rw [hfound]
      rfl
  · rename_i hnarrow
    rcases hfound : Opcode.narrow[Bytes.leValue head]? with _ | _ | found
    · simp [hfound, malformed] at h
    · simp [hfound, malformed] at h
    · rw [hfound] at h
      obtain ⟨htriple, rfl⟩ := pure_eq_ok.mp h
      simp only [Prod.mk.injEq] at htriple
      obtain ⟨rfl, rfl, rfl⟩ := htriple
      refine ⟨head, rfl, by simp [hhead], ?_⟩
      intro rest
      refine bind_eq_ok.mpr ⟨_, rest, htakes rest, ?_⟩
      rw [if_neg hnarrow, hfound]
      rfl

namespace Instruction

/-- The bytes `front` hold the instruction, whatever code follows them. -/
structure Holds (instruction : Instruction) (front : Bytes) : Prop where
  reads : Takes (Instruction.read instruction.offset) front instruction
  length : front.length = instruction.size
  positive : 0 < instruction.size

/-- An instruction with another operand. -/
def withToken (instruction : Instruction) (token : Token) : Instruction :=
  { instruction with operand := .token token }

theorem read_eq_ok {offset : Nat} {data rest : Bytes} {instruction : Instruction}
    (h : Instruction.read offset data = .ok instruction rest) :
    instruction.offset = offset ∧ ∃ front, data = front ++ rest ∧ instruction.Holds front := by
  obtain ⟨⟨wide, code, opcode⟩, mid, hopcode, h⟩ := bind_eq_ok.mp h
  obtain ⟨⟨size, operand⟩, mid', hoperand, h⟩ := bind_eq_ok.mp h
  obtain ⟨rfl, rfl⟩ := pure_eq_ok.mp h
  obtain ⟨head, rfl, hhead, hopens⟩ := Opcode.read_eq_ok hopcode
  obtain ⟨back, rfl, rfl, hback⟩ := OperandKind.read_eq_ok hoperand
  refine ⟨rfl, head ++ back, (List.append_assoc ..).symm, ?_, ?_, ?_⟩
  · exact hopens.bind (fun rest => bind_eq_ok.mpr ⟨_, rest, hback rest, rfl⟩)
  · rw [List.length_append, hhead]
  · change 0 < (if wide then 2 else 1) + back.length
    split <;> omega

/-- The token of an instruction is stored in its last four bytes, where another token can take its
place. -/
theorem Holds.exchange {instruction : Instruction} {front : Bytes} {token : Token}
    (h : instruction.Holds front) (hoperand : instruction.operand = .token token) :
    token.value < 2 ^ 32 ∧ ∃ head, front = head ++ Bytes.leBytes 4 token.value ∧
      head.length + 4 = instruction.size ∧
      ∀ new : Token, new.value < 2 ^ 32 →
        (instruction.withToken new).Holds (head ++ Bytes.leBytes 4 new.value) := by
  have hread := h.reads []
  obtain ⟨⟨wide, code, opcode⟩, mid, hopcode, hread⟩ := bind_eq_ok.mp hread
  obtain ⟨⟨size, operand⟩, mid', hkind, hread⟩ := bind_eq_ok.mp hread
  obtain ⟨hinstruction, rfl⟩ := pure_eq_ok.mp hread
  have hsame : operand = .token token := by
    rw [← hoperand, ← hinstruction]
  subst hsame
  obtain ⟨hkindToken, rfl, hvalue, rfl⟩ := OperandKind.read_token hkind
  obtain ⟨head, hfront, hhead, hopens⟩ := Opcode.read_eq_ok hopcode
  have hfront' : front = head ++ Bytes.leBytes 4 token.value := by simpa using hfront
  have hsize : head.length + 4 = instruction.size := by
    rw [← hinstruction, hhead]
  refine ⟨hvalue, head, hfront', hsize, fun new hnew => ⟨?_, ?_, h.positive⟩⟩
  · refine hopens.bind fun rest => bind_eq_ok.mpr ⟨(4, .token new), rest, ?_, ?_⟩
    · rw [hkindToken]
      exact bind_eq_ok.mpr ⟨new.value, rest, le_takes_leBytes hnew rest, rfl⟩
    · rw [withToken, ← hinstruction]
      rfl
  · simp only [List.length_append, Bytes.length_leBytes, hsize]
    rfl

end Instruction

namespace Code

/-- The code consists of the given instructions, the first of which stands at `offset`. -/
inductive Layout : Nat → List Instruction → Bytes → Prop
  | nil (offset : Nat) : Layout offset [] []
  | cons {instruction : Instruction} {rest : List Instruction} {front back : Bytes}
      (h : instruction.Holds front)
      (hrest : Layout (instruction.offset + instruction.size) rest back) :
      Layout instruction.offset (instruction :: rest) (front ++ back)

theorem readAll_cons (seen : List Instruction) (offset fuel : Nat) (b : UInt8) (code : Bytes) :
    Instruction.readAll seen offset (fuel + 1) (b :: code) =
      match Instruction.read offset (b :: code) with
      | .ok instruction rest =>
        Instruction.readAll (instruction :: seen) (offset + instruction.size) fuel rest
      | .error e _ => .error e :=
  rfl

theorem layout_of_readAll {seen instructions : List Instruction} {offset fuel : Nat} {code : Bytes}
    (h : Instruction.readAll seen offset fuel code = .ok instructions) :
    ∃ rest, instructions = seen.reverse ++ rest ∧ Layout offset rest code := by
  induction fuel generalizing seen offset code with
  | zero =>
      cases code with
      | nil => exact ⟨[], by simpa [Instruction.readAll] using h.symm, .nil offset⟩
      | cons b code => simp [Instruction.readAll] at h
  | succ fuel ih =>
      cases code with
      | nil => exact ⟨[], by simpa [Instruction.readAll] using h.symm, .nil offset⟩
      | cons b code =>
          rw [readAll_cons] at h
          split at h
          · rename_i instruction back hread
            obtain ⟨rfl, front, hcode, hholds⟩ := Instruction.read_eq_ok hread
            obtain ⟨rest, hrest, hlayout⟩ := ih h
            refine ⟨instruction :: rest, by simpa using hrest, ?_⟩
            rw [hcode]
            exact .cons hholds hlayout
          · simp at h

/-- Reading passes the instructions that a code begins with. -/
theorem readAll_append_of_layout {instructions : List Instruction} {offset fuel : Nat}
    {front : Bytes} (seen : List Instruction) (back : Bytes) (h : Layout offset instructions front)
    (hfuel : (front ++ back).length ≤ fuel) :
    ∃ fuel', back.length ≤ fuel' ∧ Instruction.readAll seen offset fuel (front ++ back) =
      Instruction.readAll (instructions.reverse ++ seen) (offset + front.length) fuel' back := by
  induction h generalizing seen fuel with
  | nil offset => exact ⟨fuel, hfuel, rfl⟩
  | @cons instruction rest head tail h hrest ih =>
      have hpositive := h.positive
      have hlength := h.length
      rw [← hlength] at hpositive
      obtain ⟨b, head, rfl⟩ := List.exists_cons_of_length_pos hpositive
      simp only [List.length_append, List.length_cons] at hfuel hlength
      obtain ⟨fuel, rfl⟩ : ∃ n, fuel = n + 1 := ⟨fuel - 1, by omega⟩
      have hread := h.reads (tail ++ back)
      have hfuel' : (tail ++ back).length ≤ fuel := by
        rw [List.length_append]
        omega
      obtain ⟨fuel', hback, hreads⟩ := ih (instruction :: seen) hfuel'
      refine ⟨fuel', hback, ?_⟩
      rw [List.append_assoc, List.cons_append] at *
      rw [readAll_cons, hread]
      dsimp only
      rw [hreads, List.reverse_cons, List.append_assoc, List.singleton_append, List.length_append,
        List.length_cons, hlength, Nat.add_assoc]

theorem readAll_of_layout {seen rest : List Instruction} {offset fuel : Nat} {code : Bytes}
    (h : Layout offset rest code) (hfuel : code.length ≤ fuel) :
    Instruction.readAll seen offset fuel code = .ok (seen.reverse ++ rest) := by
  have hlength : (code ++ []).length ≤ fuel := by rwa [List.append_nil]
  obtain ⟨fuel', -, hreads⟩ := readAll_append_of_layout seen [] h hlength
  rw [List.append_nil] at hreads
  rw [hreads, Instruction.readAll, List.reverse_append, List.reverse_reverse]

/-- Code decodes to a list of instructions exactly if it is laid out as that list. -/
theorem decode_eq_ok {code : Bytes} {instructions : List Instruction} :
    decode code = .ok instructions ↔ Layout 0 instructions code := by
  constructor
  · intro h
    obtain ⟨rest, hrest, hlayout⟩ := layout_of_readAll h
    rwa [hrest]
  · intro h
    exact readAll_of_layout h (Nat.le_refl _)

end Code

end NativeExports
