import NativeExports.Proofs.Code.Layout
import NativeExports.Proofs.Windows

/-!
# Replacing the tokens of a code

Replacing tokens reads the whole code before it writes, and writes four bytes per changed token.
The result is laid out like the code it came from, instruction by instruction, with every token
operand mapped and everything else as it was.
-/

namespace NativeExports

/-- What becomes of an operand: a token becomes a related one, anything else stays. -/
inductive Operand.MapsTo (related : Token → Token → Prop) : Operand → Operand → Prop
  | token {old new : Token} (h : related old new) : MapsTo related (.token old) (.token new)
  | plain {operand : Operand} (h : ∀ token, operand ≠ .token token) :
      MapsTo related operand operand

/-- What becomes of an instruction: its operand is mapped and everything else stays. -/
structure Instruction.MapsTo (related : Token → Token → Prop) (old new : Instruction) : Prop where
  operand : Operand.MapsTo related old.operand new.operand
  rest : new = { old with operand := new.operand }

variable {related related' : Token → Token → Prop}

theorem Operand.MapsTo.imp {old new : Operand} (h : Operand.MapsTo related old new)
    (himp : ∀ old new, related old new → related' old new) : Operand.MapsTo related' old new := by
  cases h with
  | token h => exact .token (himp _ _ h)
  | plain h => exact .plain h

theorem Instruction.MapsTo.imp {old new : Instruction} (h : Instruction.MapsTo related old new)
    (himp : ∀ old new, related old new → related' old new) :
    Instruction.MapsTo related' old new :=
  ⟨h.operand.imp himp, h.rest⟩

namespace Code

/-- A map of tokens that keeps to the values tokens can have. -/
def Bounded (map : Token → Except Error Token) : Prop :=
  ∀ old new, map old = .ok new → old.value < 2 ^ 32 → new.value < 2 ^ 32

/-- The map sends one token to the other. -/
def Images (map : Token → Except Error Token) (old new : Token) : Prop :=
  map old = .ok new

/-- Stores a token in place of another one. -/
def store (code : Bytes) (change : Nat × Token) : Bytes :=
  Bytes.overwrite code change.1 (Bytes.leBytes 4 change.2.value)

/-- The change that an instruction asks for, if its token changes. -/
def change? (map : Token → Except Error Token) (instruction : Instruction) :
    Except Error (Option (Nat × Token)) :=
  match instruction.operand with
  | .token token => do
    let new ← map token
    return if new = token then none else some (instruction.offset + instruction.size - 4, new)
  | _ => return none

theorem mapTokens_eq (map : Token → Except Error Token) (code : Bytes) :
    mapTokens map code = (do
      let instructions ← decode code
      let mapped ← instructions.mapM (change? map)
      return ((mapped.filterMap id).length, (mapped.filterMap id).foldl store code)) := by
  unfold mapTokens replacements
  cases decode code with
  | error e => rfl
  | ok instructions =>
      simp only [Outcome.ok_bind, bind_assoc, pure_bind]
      rfl

theorem overwrite_middle (front old new back : Bytes) (h : new.length = old.length) :
    Bytes.overwrite (front ++ (old ++ back)) front.length new = front ++ (new ++ back) := by
  rw [Bytes.overwrite, List.take_left, ← List.append_assoc front old back,
    List.drop_append_of_le_length (by simp [h]), h, ← List.length_append, List.drop_length,
    List.nil_append, List.append_assoc]

theorem foldl_store {map : Token → Except Error Token} (hmap : Bounded map) {offset : Nat}
    {instructions : List Instruction} {code : Bytes} {mapped : List (Option (Nat × Token))}
    (h : Layout offset instructions code) (hmapped : instructions.mapM (change? map) = .ok mapped)
    (front : Bytes) (hfront : front.length = offset) :
    ∃ instructions' code',
      List.Forall₂ (Instruction.MapsTo (Images map)) instructions instructions' ∧
      Layout offset instructions' code' ∧ code'.length = code.length ∧
      (mapped.filterMap id).foldl store (front ++ code) = front ++ code' := by
  induction h generalizing mapped front with
  | nil offset =>
      rw [List.mapM_nil] at hmapped
      obtain rfl := Outcome.pure_eq_ok.mp hmapped
      exact ⟨[], [], .nil, .nil offset, rfl, rfl⟩
  | @cons instruction rest head back h hrest ih =>
      rw [List.mapM_cons, Outcome.bind_eq_ok] at hmapped
      obtain ⟨first, hfirst, hmapped⟩ := hmapped
      obtain ⟨others, hothers, hmapped⟩ := Outcome.bind_eq_ok.mp hmapped
      obtain rfl := Outcome.pure_eq_ok.mp hmapped
      by_cases htoken : ∃ token, instruction.operand = .token token
      · obtain ⟨token, htoken⟩ := htoken
        rw [change?, htoken] at hfirst
        obtain ⟨new, hnew, hfirst⟩ := Outcome.bind_eq_ok.mp hfirst
        obtain ⟨hvalue, bytes, rfl, hsize, hexchange⟩ := h.exchange htoken
        have hvalue' := hmap _ _ hnew hvalue
        have hholds := hexchange new hvalue'
        have hsame : bytes.length + 4 = instruction.size := hsize
        obtain ⟨rest', back', hrests, hlayout, hlength, hfold⟩ :=
          ih hothers (front ++ (bytes ++ Bytes.leBytes 4 new.value))
            (by simp [hfront]; omega)
        refine ⟨instruction.withToken new :: rest', bytes ++ Bytes.leBytes 4 new.value ++ back',
          .cons ⟨by rw [htoken]; exact .token hnew, rfl⟩ hrests, .cons hholds hlayout,
          by simp [hlength], ?_⟩
        by_cases hchange : new = token
        · rw [if_pos hchange] at hfirst
          obtain rfl := Outcome.pure_eq_ok.mp hfirst
          subst hchange
          simpa [List.append_assoc] using hfold
        · rw [if_neg hchange] at hfirst
          obtain rfl := Outcome.pure_eq_ok.mp hfirst
          have hposition : instruction.offset + instruction.size - 4 =
              (front ++ bytes).length := by
            rw [List.length_append]
            omega
          have hstore := overwrite_middle (front ++ bytes) (Bytes.leBytes 4 token.value)
            (Bytes.leBytes 4 new.value) back (by simp)
          simp only [List.filterMap_cons, id_eq, List.foldl_cons, store, hposition]
          simp only [List.append_assoc] at hstore hfold ⊢
          rw [hstore]
          exact hfold
      · have hplain : ∀ token, instruction.operand ≠ .token token :=
          fun token htoken' => htoken ⟨token, htoken'⟩
        have hnone : first = none := by
          rw [change?] at hfirst
          split at hfirst
          · exact absurd ‹_› (hplain _)
          · exact (Outcome.pure_eq_ok.mp hfirst).symm
        subst hnone
        have hlength := h.length
        obtain ⟨rest', back', hrests, hlayout, hlength', hfold⟩ :=
          ih hothers (front ++ head) (by simp [hfront, hlength])
        refine ⟨instruction :: rest', head ++ back', .cons ⟨.plain hplain, rfl⟩ hrests,
          .cons h hlayout, by simp [hlength'], ?_⟩
        simpa [List.append_assoc] using hfold

/-- Code with its tokens replaced decodes to the same instructions with their tokens mapped. -/
theorem decode_of_mapTokens {map : Token → Except Error Token} (hmap : Bounded map)
    {code code' : Bytes} {changed : Nat} (h : mapTokens map code = .ok (changed, code')) :
    ∃ instructions instructions', decode code = .ok instructions ∧
      decode code' = .ok instructions' ∧
      List.Forall₂ (Instruction.MapsTo (Images map)) instructions instructions' ∧
      code'.length = code.length ∧ (changed = 0 → code' = code) := by
  rw [mapTokens_eq] at h
  obtain ⟨instructions, hdecode, h⟩ := Outcome.bind_eq_ok.mp h
  obtain ⟨mapped, hmapped, h⟩ := Outcome.bind_eq_ok.mp h
  obtain ⟨rfl, rfl⟩ := Prod.mk.inj (Outcome.pure_eq_ok.mp h)
  obtain ⟨instructions', code', hmaps, hlayout, hlength, hfold⟩ :=
    foldl_store hmap (decode_eq_ok.mp hdecode) hmapped [] rfl
  rw [List.nil_append, List.nil_append] at hfold
  refine ⟨instructions, instructions', hdecode, ?_, hmaps, ?_, ?_⟩
  · rw [hfold]
    exact decode_eq_ok.mpr hlayout
  · rw [hfold, hlength]
  · intro hzero
    rw [List.eq_nil_of_length_eq_zero hzero]
    rfl

/-- Replacing tokens fails as finding the image of one of them does. -/
theorem failsOnly_mapTokens {kind : Error → Prop} {map : Token → Except Error Token} {code : Bytes}
    {instructions : List Instruction} (hdecode : decode code = .ok instructions)
    (h : ∀ token ∈ tokensOf instructions, Outcome.FailsOnly kind (map token)) :
    Outcome.FailsOnly kind (mapTokens map code) := by
  rw [mapTokens_eq, hdecode, Outcome.ok_bind]
  refine (Outcome.FailsOnly.mapM fun instruction hmem => ?_).bind fun _ _ => .ok _
  rw [change?]
  split
  · rename_i token htoken
    exact (h token (List.mem_filterMap.mpr ⟨instruction, hmem, by rw [htoken]⟩)).bind
      fun _ _ => .ok _
  · exact .ok none

end Code

end NativeExports
