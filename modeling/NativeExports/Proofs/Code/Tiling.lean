import Mathlib.Data.List.Chain
import NativeExports.Proofs.Code.Layout

/-!
# Instructions tile their code

The instructions of a code begin at its start, follow one another without gaps and end at its end.
What an instruction is depends on its own bytes only, so two codes one behind the other consist of
the instructions of both, and a code fails to decode exactly if some instructions at its front are
followed by bytes that begin with none.
-/

namespace NativeExports

open Reader (bind_eq_ok pure_eq_ok)

namespace Instruction

/-- The instruction as it stands some bytes further on. -/
def shift (distance : Nat) (instruction : Instruction) : Instruction :=
  { instruction with offset := instruction.offset + distance }

variable {instruction : Instruction}

/-- Where an instruction stands does not matter for what it is. -/
theorem read_shift {offset : Nat} {data rest : Bytes}
    (h : read offset data = .ok instruction rest) (distance : Nat) :
    read (offset + distance) data = .ok (instruction.shift distance) rest := by
  obtain ⟨⟨wide, code, opcode⟩, mid, hopcode, h⟩ := bind_eq_ok.mp h
  obtain ⟨⟨size, operand⟩, mid', hoperand, h⟩ := bind_eq_ok.mp h
  obtain ⟨rfl, rfl⟩ := pure_eq_ok.mp h
  exact bind_eq_ok.mpr ⟨_, mid, hopcode, bind_eq_ok.mpr ⟨_, mid', hoperand, rfl⟩⟩

theorem Holds.shift {front : Bytes} (h : instruction.Holds front) (distance : Nat) :
    (instruction.shift distance).Holds front :=
  ⟨fun rest => read_shift (h.reads rest) distance, h.length, h.positive⟩

end Instruction

namespace Code

variable {offset : Nat} {instructions instructions' : List Instruction} {code code' : Bytes}

theorem Layout.shift (h : Layout offset instructions code) (distance : Nat) :
    Layout (offset + distance) (instructions.map (·.shift distance)) code := by
  induction h with
  | nil offset => exact .nil _
  | @cons instruction rest front back h hrest ih =>
      refine .cons (h.shift distance) ?_
      change Layout (instruction.offset + distance + instruction.size) _ _
      rwa [Nat.add_right_comm]

theorem Layout.append (h : Layout offset instructions code)
    (h' : Layout (offset + code.length) instructions' code') :
    Layout offset (instructions ++ instructions') (code ++ code') := by
  induction h with
  | nil offset => exact h'
  | @cons instruction rest front back h hrest ih =>
      rw [List.append_assoc]
      refine .cons h (ih ?_)
      rwa [List.length_append, h.length, ← Nat.add_assoc] at h'

/-- Codes one behind the other decode to their instructions one behind the other. -/
theorem decode_append (h : decode code = .ok instructions)
    (h' : decode code' = .ok instructions') :
    decode (code ++ code') = .ok (instructions ++ instructions'.map (·.shift code.length)) :=
  decode_eq_ok.mpr ((decode_eq_ok.mp h).append ((decode_eq_ok.mp h').shift code.length))

/-! ## Tiles -/

/-- The instructions cut the code into pieces without gaps. -/
structure Tiles (instructions : List Instruction) (code : Bytes) : Prop where
  /-- The first instruction stands at the start. -/
  first : ∀ instruction ∈ instructions.head?, instruction.offset = 0
  /-- Each instruction stands where the one in front of it ends. -/
  next : instructions.IsChain fun one other => other.offset = one.offset + one.size
  /-- The last instruction ends with the code. -/
  total : (instructions.map (·.size)).sum = code.length
  /-- Each instruction is the one that is read where it stands, from as many bytes as it takes. -/
  reads : ∀ instruction ∈ instructions,
    Instruction.read instruction.offset (code.drop instruction.offset) =
      .ok instruction (code.drop (instruction.offset + instruction.size))

theorem Layout.first (h : Layout offset instructions code) :
    ∀ instruction ∈ instructions.head?, instruction.offset = offset := by
  cases h with
  | nil => exact nofun
  | cons h hrest =>
      rintro _ ⟨⟩
      rfl

theorem Layout.next (h : Layout offset instructions code) :
    instructions.IsChain fun one other => other.offset = one.offset + one.size := by
  induction h with
  | nil offset => exact .nil
  | cons h hrest ih => exact ih.cons hrest.first

theorem Layout.total (h : Layout offset instructions code) :
    (instructions.map (·.size)).sum = code.length := by
  induction h with
  | nil offset => rfl
  | cons h hrest ih => rw [List.map_cons, List.sum_cons, ih, List.length_append, h.length]

/-- The code is the back of a larger one, so that the instructions stand where they say. -/
theorem Layout.reads (h : Layout offset instructions code) (front : Bytes)
    (hfront : front.length = offset) :
    ∀ instruction ∈ instructions,
      Instruction.read instruction.offset ((front ++ code).drop instruction.offset) =
        .ok instruction ((front ++ code).drop (instruction.offset + instruction.size)) := by
  induction h generalizing front with
  | nil offset => exact nofun
  | @cons instruction rest head back h hrest ih =>
      have hend : (front ++ head).length = instruction.offset + instruction.size := by
        rw [List.length_append, hfront, h.length]
      have hall := ih (front ++ head) hend
      rw [List.append_assoc] at hall
      refine List.forall_mem_cons.mpr ⟨?_, hall⟩
      rw [← hend, ← List.append_assoc, List.drop_left, List.append_assoc, ← hfront, List.drop_left,
        hfront]
      exact h.reads back

theorem tiles_of_decode (h : decode code = .ok instructions) : Tiles instructions code := by
  have hlayout := decode_eq_ok.mp h
  exact ⟨hlayout.first, hlayout.next, hlayout.total, hlayout.reads [] rfl⟩

/-! ## Code that does not decode -/

theorem exists_of_readAll_error {seen : List Instruction} {fuel : Nat} {e : Error}
    (h : Instruction.readAll seen offset fuel code = .error e) (hfuel : code.length ≤ fuel) :
    ∃ instructions front back rest, code = front ++ back ∧ back ≠ [] ∧
      Layout offset instructions front ∧
      Instruction.read (offset + front.length) back = .error e rest := by
  induction fuel generalizing seen offset code with
  | zero =>
      obtain rfl := List.eq_nil_of_length_eq_zero (Nat.le_zero.mp hfuel)
      cases h
  | succ fuel ih =>
      cases code with
      | nil => cases h
      | cons b code =>
          rw [readAll_cons] at h
          split at h
          · rename_i instruction back hread
            obtain ⟨rfl, head, hcode, hholds⟩ := Instruction.read_eq_ok hread
            have hlength := congrArg List.length hcode
            have hpositive := hholds.positive
            rw [List.length_append, hholds.length, List.length_cons] at hlength
            rw [List.length_cons] at hfuel
            obtain ⟨rest, front, back', after, rfl, hback, hlayout, herror⟩ := ih h (by omega)
            refine ⟨instruction :: rest, head ++ front, back', after, ?_, hback,
              .cons hholds hlayout, ?_⟩
            · rw [hcode, List.append_assoc]
            · rwa [List.length_append, hholds.length, ← Nat.add_assoc]
          · rename_i cause rest hread
            obtain rfl := Except.error.inj h
            exact ⟨[], [], b :: code, rest, rfl, List.cons_ne_nil _ _, .nil _, hread⟩

/-- A code fails to decode exactly if somewhere in it, behind some instructions, there is none. -/
theorem decode_eq_error {e : Error} :
    decode code = .error e ↔ ∃ instructions front back rest, code = front ++ back ∧ back ≠ [] ∧
      decode front = .ok instructions ∧ Instruction.read front.length back = .error e rest := by
  constructor
  · intro h
    obtain ⟨instructions, front, back, rest, hcode, hback, hlayout, herror⟩ :=
      exists_of_readAll_error h (Nat.le_refl _)
    rw [Nat.zero_add] at herror
    exact ⟨instructions, front, back, rest, hcode, hback, decode_eq_ok.mpr hlayout, herror⟩
  · rintro ⟨instructions, front, back, rest, rfl, hback, hdecode, herror⟩
    obtain ⟨b, back, rfl⟩ := List.exists_cons_of_ne_nil hback
    obtain ⟨fuel, hfuel, hreads⟩ :=
      readAll_append_of_layout [] (b :: back) (decode_eq_ok.mp hdecode)
      (Nat.le_refl _)
    rw [List.length_cons] at hfuel
    obtain ⟨fuel, rfl⟩ : ∃ n, fuel = n + 1 := ⟨fuel - 1, by omega⟩
    rw [decode, hreads, readAll_cons, Nat.zero_add, herror]

end Code

end NativeExports
