import NativeExports.Proofs.Code.Replacement
import NativeExports.Proofs.Code.Tiling

/-!
# Patching code in place

Tokens are replaced in a buffer that holds the code.  Everything that can fail comes before the
first write, so a failure leaves the buffer as it was; and every write lies inside the code, so no
write fails.  What is written are tokens in place of tokens: the patched code consists of the same
instructions with other tokens, and no byte outside a token is another one.
-/

namespace NativeExports

namespace Instruction

/-- The instruction with the image of its token, if it has one. -/
def mapToken (map : Token → Except Error Token) (instruction : Instruction) :
    Except Error Instruction :=
  match instruction.operand with
  | .token token => instruction.withToken <$> map token
  | _ => .ok instruction

/-- A position that holds a byte of the token of the instruction. -/
def TokenAt (instruction : Instruction) (p : Nat) : Prop :=
  (∃ token, instruction.operand = .token token) ∧
    instruction.offset + instruction.size - 4 ≤ p ∧ p < instruction.offset + instruction.size

variable {map : Token → Except Error Token} {instruction other : Instruction}

theorem mapToken_of_token {token : Token} (h : instruction.operand = .token token) :
    instruction.mapToken map = instruction.withToken <$> map token := by
  rw [mapToken, h]

theorem mapToken_of_plain (h : ∀ token, instruction.operand ≠ .token token) :
    instruction.mapToken map = .ok instruction := by
  rw [mapToken]
  split
  · exact absurd ‹_› (h _)
  · rfl

theorem mapToken_eq_ok (h : MapsTo (Code.Images map) instruction other) :
    instruction.mapToken map = .ok other := by
  obtain ⟨hoperand, hrest⟩ := h
  generalize hnew : other.operand = new at hoperand
  generalize hold : instruction.operand = old at hoperand
  cases hoperand with
  | @token old new himage =>
      rw [mapToken_of_token hold, show map old = .ok new from himage, hrest, hnew]
      rfl
  | plain hplain =>
      rw [mapToken_of_plain (hold ▸ hplain), hrest, hnew, ← hold]

end Instruction

namespace Code

/-! ## Changes -/

variable {map : Token → Except Error Token} {code code' : Bytes}
  {instructions instructions' : List Instruction} {mapped : List (Option (Nat × Token))}

theorem replacements_eq (map : Token → Except Error Token) (instructions : List Instruction) :
    replacements map instructions = (·.filterMap id) <$> instructions.mapM (change? map) :=
  rfl

theorem Layout.within {offset : Nat} (h : Layout offset instructions code) :
    ∀ instruction ∈ instructions,
      instruction.offset + instruction.size ≤ offset + code.length ∧
        ((∃ token, instruction.operand = .token token) → 4 ≤ instruction.size) := by
  induction h with
  | nil offset => exact nofun
  | @cons instruction rest front back h hrest ih =>
      have hlength := h.length
      rw [List.length_append]
      refine List.forall_mem_cons.mpr ⟨⟨by omega, ?_⟩, fun other hmem => ?_⟩
      · rintro ⟨token, htoken⟩
        obtain ⟨-, head, -, hsize, -⟩ := h.exchange htoken
        omega
      · obtain ⟨hend, hsize⟩ := ih other hmem
        exact ⟨by omega, hsize⟩

/-- Every change concerns the token of an instruction. -/
theorem exists_of_mem_changes (hdecode : decode code = .ok instructions)
    (hmapped : instructions.mapM (change? map) = .ok mapped) {change : Nat × Token}
    (hmem : change ∈ mapped.filterMap id) :
    change.1 + 4 ≤ code.length ∧ ∃ instruction ∈ instructions,
      ∀ p, change.1 ≤ p → p < change.1 + 4 → instruction.TokenAt p := by
  obtain ⟨entry, hentry, hchange⟩ := List.mem_filterMap.mp hmem
  obtain rfl : entry = some change := hchange
  obtain ⟨instruction, hinstruction, hasks⟩ :=
    Outcome.exists_of_forall₂_right (Outcome.mapM_eq_ok.mp hmapped) hentry
  obtain ⟨hend, hsize⟩ := (decode_eq_ok.mp hdecode).within instruction hinstruction
  rw [change?] at hasks
  split at hasks
  · rename_i token htoken
    obtain ⟨new, -, hnew⟩ := Outcome.bind_eq_ok.mp hasks
    have hfour := hsize ⟨token, htoken⟩
    split at hnew
    · cases Outcome.pure_eq_ok.mp hnew
    · obtain rfl := Option.some.inj (Outcome.pure_eq_ok.mp hnew)
      dsimp only
      exact ⟨by omega, instruction, hinstruction, fun p hlo hhi =>
        ⟨⟨token, htoken⟩, hlo, by omega⟩⟩
  · cases Outcome.pure_eq_ok.mp hasks

/-- Writes inside some positions change the bytes at these positions only. -/
theorem changedOnly_foldl_store {changes : List (Nat × Token)} {inside : Nat → Prop}
    (h : ∀ change ∈ changes, change.1 + 4 ≤ code.length ∧
      ∀ p, change.1 ≤ p → p < change.1 + 4 → inside p) :
    Bytes.ChangedOnly code (changes.foldl store code) inside := by
  induction changes generalizing code with
  | nil => exact .refl _ _
  | cons change changes ih =>
      obtain ⟨hfits, hinside⟩ := h change (.head _)
      have hwidth : (Bytes.leBytes 4 change.2.value).length = 4 := Bytes.length_leBytes _ _
      have hstore : Bytes.ChangedOnly code (store code change) inside := by
        refine (Bytes.changedOnly_overwrite (by omega)).mono fun p ⟨hlo, hhi⟩ => ?_
        exact hinside p hlo (by omega)
      refine hstore.trans (ih fun other hmem => ?_)
      rw [hstore.1]
      exact h other (.tail _ hmem)

/-- Writes inside the buffer are carried out. -/
theorem forM_storeAt {changes : List (Nat × Token)}
    (h : ∀ change ∈ changes, change.1 + 4 ≤ code.length) :
    changes.forM storeAt code = .ok ⟨⟩ (changes.foldl store code) := by
  induction changes generalizing code with
  | nil => rfl
  | cons change changes ih =>
      have hfits : change.1 + (Bytes.leBytes 4 change.2.value).length ≤ code.length := by
        rw [Bytes.length_leBytes]
        exact h change (.head _)
      have hstore : storeAt change code = .ok () (store code change) := by
        rw [storeAt, Bytes.overwrite?, if_pos hfits]
        rfl
      have hlength : (store code change).length = code.length := Bytes.length_overwrite hfits
      refine Reader.bind_eq_ok.mpr ⟨⟨⟩, store code change, hstore, ih fun other hmem => ?_⟩
      rw [hlength]
      exact h other (.tail _ hmem)

/-- As many changes are made as operands differ afterwards. -/
theorem length_changes (hmapped : instructions.mapM (change? map) = .ok mapped)
    (himages : instructions.mapM (Instruction.mapToken map) = .ok instructions') :
    (mapped.filterMap id).length = (instructions.zip instructions').countP
      fun pair => pair.2.operand ≠ pair.1.operand := by
  induction instructions generalizing mapped instructions' with
  | nil =>
      rw [List.mapM_nil] at hmapped
      rw [← Outcome.pure_eq_ok.mp hmapped]
      rfl
  | cons instruction instructions ih =>
      rw [List.mapM_cons] at hmapped himages
      obtain ⟨first, hfirst, hmapped⟩ := Outcome.bind_eq_ok.mp hmapped
      obtain ⟨others, hothers, hmapped⟩ := Outcome.bind_eq_ok.mp hmapped
      obtain ⟨image, himage, himages⟩ := Outcome.bind_eq_ok.mp himages
      obtain ⟨images, hall, himages⟩ := Outcome.bind_eq_ok.mp himages
      obtain rfl := Outcome.pure_eq_ok.mp hmapped
      obtain rfl := Outcome.pure_eq_ok.mp himages
      rw [List.zip_cons_cons, List.countP_cons, ← ih hothers hall]
      by_cases htoken : ∃ token, instruction.operand = .token token
      · obtain ⟨token, htoken⟩ := htoken
        rw [Instruction.mapToken_of_token htoken] at himage
        obtain ⟨new, hnew, rfl⟩ := Outcome.map_eq_ok.mp himage
        rw [change?, htoken] at hfirst
        dsimp only at hfirst
        rw [hnew, Outcome.ok_bind] at hfirst
        obtain rfl := Outcome.pure_eq_ok.mp hfirst
        by_cases hsame : new = token
        · simp [hsame, htoken, Instruction.withToken]
        · simp [hsame, htoken, Instruction.withToken]
      · have hplain : ∀ token, instruction.operand ≠ .token token :=
          fun token h => htoken ⟨token, h⟩
        rw [Instruction.mapToken_of_plain hplain] at himage
        obtain rfl := Except.ok.inj himage
        rw [change?] at hfirst
        split at hfirst
        · exact absurd ‹_› (hplain _)
        · obtain rfl := Outcome.pure_eq_ok.mp hfirst
          simp

/-! ## The two outcomes -/

/-- Why tokens are not replaced: some bytes are no instruction, or a token has no image. -/
inductive Refused (map : Token → Except Error Token) (code : Bytes) (e : Error) : Prop
  | malformed {instructions : List Instruction} {front back rest : Bytes}
      (hcode : code = front ++ back) (hback : back ≠ []) (hfront : decode front = .ok instructions)
      (hread : Instruction.read front.length back = .error e rest)
  | unmapped {instructions : List Instruction} {front back : List Token} {token : Token}
      (hcode : decode code = .ok instructions)
      (htokens : tokensOf instructions = front ++ token :: back)
      (hfront : ∀ other ∈ front, ∃ new, map other = .ok new) (htoken : map token = .error e)

/-- A code comes from another by a map of tokens. -/
structure Patched (map : Token → Except Error Token) (code code' : Bytes) (count : Nat)
    (instructions instructions' : List Instruction) : Prop where
  old : decode code = .ok instructions
  new : decode code' = .ok instructions'
  /-- Every token has become its image, and nothing else is different. -/
  mapped : instructions.mapM (Instruction.mapToken map) = .ok instructions'
  /-- The codes are equally long and have the same bytes outside the tokens. -/
  bytes : Bytes.ChangedOnly code code' fun p => ∃ instruction ∈ instructions, instruction.TokenAt p
  /-- The operands that have another value are counted. -/
  count : count = (instructions.zip instructions').countP
    fun pair => pair.2.operand ≠ pair.1.operand

theorem change?_eq_error {instruction : Instruction} {e : Error}
    (h : change? map instruction = .error e) :
    ∃ token, instruction.operand = .token token ∧ map token = .error e := by
  rw [change?] at h
  split at h
  · rename_i token htoken
    refine ⟨token, htoken, ?_⟩
    cases hmap : map token with
    | ok new =>
        rw [hmap] at h
        cases h
    | error cause =>
        rw [hmap] at h
        rw [Except.error.inj h]
  · cases h

theorem exists_image_of_change? {instruction : Instruction} {change : Option (Nat × Token)}
    {token : Token} (h : change? map instruction = .ok change)
    (htoken : instruction.operand = .token token) : ∃ new, map token = .ok new := by
  rw [change?, htoken] at h
  obtain ⟨new, hnew, -⟩ := Outcome.bind_eq_ok.mp h
  exact ⟨new, hnew⟩

theorem refused_of_error {e : Error} (h : mapTokens map code = .error e) : Refused map code e := by
  rw [mapTokens_eq] at h
  cases hdecode : decode code with
  | error cause =>
      rw [hdecode] at h
      obtain rfl := Except.error.inj h
      obtain ⟨instructions, front, back, rest, hcode, hback, hfront, hread⟩ :=
        decode_eq_error.mp hdecode
      exact .malformed hcode hback hfront hread
  | ok instructions =>
      rw [hdecode, Outcome.ok_bind] at h
      cases hmapped : instructions.mapM (change? map) with
      | ok mapped =>
          rw [hmapped] at h
          cases h
      | error cause =>
          rw [hmapped] at h
          obtain rfl := Except.error.inj h
          obtain ⟨front, instruction, back, rfl, hfront, hfails⟩ := Outcome.mapM_eq_error.mp hmapped
          obtain ⟨token, htoken, himage⟩ := change?_eq_error hfails
          have htokens : tokensOf (front ++ instruction :: back) =
              tokensOf front ++ token :: tokensOf back := by
            simp only [tokensOf, List.filterMap_append, List.filterMap_cons, htoken]
          refine .unmapped hdecode htokens (fun other hmem => ?_) himage
          obtain ⟨one, hone, hother⟩ := List.mem_filterMap.mp hmem
          obtain ⟨change, hchange⟩ := hfront one hone
          refine exists_image_of_change? hchange ?_
          split at hother
          · rename_i found hfound
            rw [hfound, Option.some.inj hother]
          · cases hother

theorem patched_of_ok (hmap : Bounded map) {count : Nat}
    (h : mapTokens map code = .ok (count, code')) :
    ∃ instructions instructions', Patched map code code' count instructions instructions' := by
  obtain ⟨instructions, instructions', hdecode, hdecode', hmaps, -, -⟩ := decode_of_mapTokens hmap h
  rw [mapTokens_eq, hdecode, Outcome.ok_bind] at h
  obtain ⟨mapped, hmapped, h⟩ := Outcome.bind_eq_ok.mp h
  obtain ⟨rfl, rfl⟩ := Prod.mk.inj (Outcome.pure_eq_ok.mp h)
  have himages : instructions.mapM (Instruction.mapToken map) = .ok instructions' :=
    Outcome.mapM_eq_ok.mpr (hmaps.imp fun _ _ => Instruction.mapToken_eq_ok)
  refine ⟨instructions, instructions', hdecode, hdecode', himages, ?_,
    length_changes hmapped himages⟩
  refine changedOnly_foldl_store fun change hmem => ?_
  obtain ⟨hfits, instruction, hinstruction, hinside⟩ := exists_of_mem_changes hdecode hmapped hmem
  exact ⟨hfits, fun p hlo hhi => ⟨instruction, hinstruction, hinside p hlo hhi⟩⟩

/-- Patching in place is replacing the tokens of the code in the buffer, and keeps the buffer where
that fails. -/
theorem patch_eq (map : Token → Except Error Token) (code : Bytes) :
    patch map code = match mapTokens map code with
      | .ok (count, code') => .ok count code'
      | .error e => .error e code := by
  have hpatch : patch map code = (do
      let changes ← ofExcept (decode code >>= replacements map)
      changes.forM storeAt
      return changes.length : EStateM Error Bytes Nat) code := rfl
  rw [hpatch, mapTokens_eq]
  cases hdecode : decode code with
  | error e => rfl
  | ok instructions =>
      rw [Outcome.ok_bind, Outcome.ok_bind, replacements_eq]
      cases hmapped : instructions.mapM (change? map) with
      | error e => rfl
      | ok mapped =>
          refine Reader.bind_eq_ok.mpr ⟨_, code, rfl, Reader.bind_eq_ok.mpr ⟨⟨⟩, _, ?_, rfl⟩⟩
          exact forM_storeAt fun change hmem => (exists_of_mem_changes hdecode hmapped hmem).1

/-- The instructions of a code tile it, and codes one behind the other have the instructions of
both.  Replacing tokens in place either fails, because of an instruction or the image of a token,
and leaves the buffer alone, or changes tokens and nothing else and counts the tokens that
changed. -/
theorem patch_changes_tokens_only (code : Bytes) :
    (∀ instructions, decode code = .ok instructions → Tiles instructions code ∧
      ∀ back instructions', decode back = .ok instructions' →
        decode (code ++ back) = .ok (instructions ++ instructions'.map (·.shift code.length))) ∧
      ∀ map, Bounded map →
        (∃ e, mapTokens map code = .error e ∧ patch map code = .error e code ∧
          Refused map code e) ∨
        ∃ count code' instructions instructions', mapTokens map code = .ok (count, code') ∧
          patch map code = .ok count code' ∧
          Patched map code code' count instructions instructions' := by
  refine ⟨fun instructions h => ⟨tiles_of_decode h, fun back instructions' h' =>
    decode_append h h'⟩, fun map hmap => ?_⟩
  have hpatch := patch_eq map code
  cases h : mapTokens map code with
  | error e =>
      rw [h] at hpatch
      exact .inl ⟨e, rfl, hpatch, refused_of_error h⟩
  | ok result =>
      obtain ⟨count, code'⟩ := result
      rw [h] at hpatch
      obtain ⟨instructions, instructions', hpatched⟩ := patched_of_ok hmap h
      exact .inr ⟨count, code', instructions, instructions', rfl, hpatch, hpatched⟩

/-- A text is loaded, a method of the image and then one of another image are called, and a switch
over one target follows. -/
def textCallsSwitch : Bytes :=
  [0x72, 0x01, 0x00, 0x00, 0x70, 0x28, 0x01, 0x00, 0x00, 0x06, 0x6F, 0x05, 0x00, 0x00, 0x0A,
    0x45, 0x01, 0x00, 0x00, 0x00, 0x00, 0x00, 0x00, 0x00]

/-- Makes room for a method in front of the others. -/
def moveMethods (token : Token) : Except Error Token :=
  .ok (if token.table? = some .methodDef then .ofRow .methodDef (token.row + 1) else token)

/-- Of three tokens the one of the called method changes. -/
theorem patch_changes_tokens_only_textCallsSwitch :
    decode textCallsSwitch = .ok [⟨0, 5, false, 0x72, "ldstr", .token ⟨0x70000001⟩⟩,
        ⟨5, 5, false, 0x28, "call", .token ⟨0x06000001⟩⟩,
        ⟨10, 5, false, 0x6F, "callvirt", .token ⟨0x0A000005⟩⟩,
        ⟨15, 9, false, 0x45, "switch", .switch [0]⟩] ∧
      (∃ instructions, decode textCallsSwitch = .ok instructions ∧
        Tiles instructions textCallsSwitch ∧
        decode (textCallsSwitch ++ [0x2A]) =
          .ok (instructions ++ [⟨24, 1, false, 0x2A, "ret", .none⟩])) ∧
      ∃ code' instructions instructions', patch moveMethods textCallsSwitch = .ok 1 code' ∧
        Patched moveMethods textCallsSwitch code' 1 instructions instructions' := by
  have hdecode : decode textCallsSwitch = .ok [⟨0, 5, false, 0x72, "ldstr", .token ⟨0x70000001⟩⟩,
      ⟨5, 5, false, 0x28, "call", .token ⟨0x06000001⟩⟩,
      ⟨10, 5, false, 0x6F, "callvirt", .token ⟨0x0A000005⟩⟩,
      ⟨15, 9, false, 0x45, "switch", .switch [0]⟩] := by decide +kernel
  have hreturn : decode [0x2A] = .ok [⟨0, 1, false, 0x2A, "ret", .none⟩] := by decide +kernel
  have hbounded : Bounded moveMethods := by
    intro old new h hold
    obtain rfl := Except.ok.inj h
    split
    · exact Token.ofRow_lt _ _
    · exact hold
  have hmapped : mapTokens moveMethods textCallsSwitch =
      .ok (1, [0x72, 0x01, 0x00, 0x00, 0x70, 0x28, 0x02, 0x00, 0x00, 0x06, 0x6F, 0x05, 0x00, 0x00,
        0x0A, 0x45, 0x01, 0x00, 0x00, 0x00, 0x00, 0x00, 0x00, 0x00]) := by decide +kernel
  obtain ⟨hdecodes, hpatches⟩ := patch_changes_tokens_only textCallsSwitch
  obtain ⟨htiles, happend⟩ := hdecodes _ hdecode
  refine ⟨hdecode, ⟨_, hdecode, htiles, happend _ _ hreturn⟩, ?_⟩
  rcases hpatches moveMethods hbounded with ⟨e, herror, -⟩ | ⟨count, code', _, _, hok, hpatch, h⟩
  · rw [hmapped] at herror
    cases herror
  · rw [hmapped] at hok
    obtain ⟨rfl, rfl⟩ := Prod.mk.inj (Except.ok.inj hok)
    exact ⟨_, _, _, hpatch, h⟩

end Code

end NativeExports
