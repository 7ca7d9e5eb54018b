import Mathlib.Tactic.Common
import NativeExports.Text.Utf8

/-!
# Text read back from its bytes

The bytes of a character are recognised as that character whatever follows them, so a text is read
back from its encoding by the strict and by the lenient reader alike.
-/

namespace NativeExports.Utf8

theorem toNat_ofNat {n : Nat} (h : n < 256) : (UInt8.ofNat n).toNat = n := by
  rw [UInt8.toNat_ofNat', Nat.mod_eq_of_lt h]

theorem continuation?_ofNat {low high payload : Nat} (hlow : low ≤ 0x80 + payload)
    (hhigh : 0x80 + payload ≤ high) (h : payload < 64) :
    continuation? low high (.ofNat (0x80 + payload)) = some payload := by
  rw [continuation?, toNat_ofNat (by omega), if_pos ⟨hlow, hhigh⟩, Nat.add_sub_cancel_left]

theorem front2_bytes {lead last : Nat} (hlast : last < 64) (rest : Bytes) :
    front2 lead (.ofNat (0x80 + last) :: rest) = .scalar (.ofNat (lead * 64 + last)) rest := by
  rw [front2, continuation?_ofNat (by omega) (by omega) hlast]

theorem front3_bytes {lead low high second last : Nat} (hlow : low ≤ 0x80 + second)
    (hhigh : 0x80 + second ≤ high) (hsecond : second < 64) (hlast : last < 64) (rest : Bytes) :
    front3 lead low high (.ofNat (0x80 + second) :: .ofNat (0x80 + last) :: rest) =
      .scalar (.ofNat (lead * 4096 + second * 64 + last)) rest := by
  rw [front3, continuation?_ofNat hlow hhigh hsecond]
  dsimp only
  rw [continuation?_ofNat (by omega) (by omega) hlast]

theorem front4_bytes {lead low high second third last : Nat} (hlow : low ≤ 0x80 + second)
    (hhigh : 0x80 + second ≤ high) (hsecond : second < 64) (hthird : third < 64) (hlast : last < 64)
    (rest : Bytes) :
    front4 lead low high (.ofNat (0x80 + second) :: .ofNat (0x80 + third) ::
        .ofNat (0x80 + last) :: rest) =
      .scalar (.ofNat (lead * 262144 + second * 4096 + third * 64 + last)) rest := by
  rw [front4, continuation?_ofNat hlow hhigh hsecond]
  dsimp only
  rw [continuation?_ofNat (by omega) (by omega) hthird]
  dsimp only
  rw [continuation?_ofNat (by omega) (by omega) hlast]

/-- The number of a character is no surrogate and not beyond the last character. -/
theorem isScalar (c : Char) : c.toNat < 0xD800 ∨ 0xDFFF < c.toNat ∧ c.toNat < 0x110000 :=
  c.valid

theorem ofNat_eq (c : Char) {n : Nat} (h : n = c.toNat) : Char.ofNat n = c := by
  rw [h, Char.ofNat_toNat]

/-- The bytes of a character are recognised, whatever follows them. -/
theorem front_encodeChar (c : Char) :
    ∃ first tail, encodeChar c = first :: tail ∧
      ∀ rest, front first (tail ++ rest) = .scalar c rest := by
  have hscalar := isScalar c
  unfold encodeChar
  dsimp only
  split
  · refine ⟨_, _, rfl, fun rest => ?_⟩
    rw [front, toNat_ofNat (by omega), if_pos ‹_›, Char.ofNat_toNat, List.nil_append]
  split
  · refine ⟨_, _, rfl, fun rest => ?_⟩
    rw [front, toNat_ofNat (by omega), if_neg (by omega), if_neg (by omega), if_pos (by omega)]
    simp only [List.cons_append, List.nil_append]
    rw [front2_bytes (by omega), ofNat_eq c (by omega)]
  split
  · refine ⟨_, _, rfl, fun rest => ?_⟩
    rw [front, toNat_ofNat (by omega), if_neg (by omega), if_neg (by omega), if_neg (by omega)]
    simp only [List.cons_append, List.nil_append]
    -- The bounds on the second byte depend on the first one.
    split
    · rw [front3_bytes (by omega) (by omega) (by omega) (by omega), ofNat_eq c (by omega)]
    split
    · rw [front3_bytes (by omega) (by omega) (by omega) (by omega), ofNat_eq c (by omega)]
    rw [if_pos (by omega), front3_bytes (by omega) (by omega) (by omega) (by omega),
      ofNat_eq c (by omega)]
  · refine ⟨_, _, rfl, fun rest => ?_⟩
    rw [front, toNat_ofNat (by omega), if_neg (by omega), if_neg (by omega), if_neg (by omega),
      if_neg (by omega), if_neg (by omega), if_neg (by omega)]
    simp only [List.cons_append, List.nil_append]
    split
    · rw [front4_bytes (by omega) (by omega) (by omega) (by omega) (by omega),
        ofNat_eq c (by omega)]
    split
    · rw [front4_bytes (by omega) (by omega) (by omega) (by omega) (by omega),
        ofNat_eq c (by omega)]
    rw [if_pos (by omega), front4_bytes (by omega) (by omega) (by omega) (by omega) (by omega),
      ofNat_eq c (by omega)]

theorem scanFrom_encode (seen : List Piece) {fuel : Nat} {text : List Char}
    (h : (text.flatMap encodeChar).length ≤ fuel) :
    scanFrom seen fuel (text.flatMap encodeChar) = (text.map .scalar).reverse ++ seen := by
  induction text generalizing seen fuel with
  | nil => cases fuel <;> rfl
  | cons c text ih =>
      obtain ⟨first, tail, hbytes, hfront⟩ := front_encodeChar c
      rw [List.flatMap_cons, hbytes] at h ⊢
      cases fuel with
      | zero => simp at h
      | succ fuel =>
          simp only [List.cons_append, List.length_cons, List.length_append] at h
          rw [List.cons_append, scanFrom, hfront]
          dsimp only
          rw [ih _ (by omega)]
          simp

theorem scan_encode (text : String) : scan (encode text) = text.toList.map .scalar := by
  rw [scan, encode, scanFrom_encode [] (Nat.le_refl _), List.append_nil, List.reverse_reverse]

theorem textOf_scalars (seen : List Char) (start : Nat) (text : List Char) :
    textOf seen start (text.map .scalar) = .ok (seen.reverse ++ text) := by
  induction text generalizing seen start with
  | nil => simp [textOf]
  | cons c text ih =>
      rw [List.map_cons, textOf, ih]
      simp

/-- A text is read back from its bytes. -/
theorem decode_encode (text : String) : decode (encode text) = .ok text := by
  rw [decode, scan_encode, textOf_scalars]
  simp [Except.map]

theorem decodeLossy_encode (text : String) : decodeLossy (encode text) = text := by
  rw [decodeLossy, scan_encode, List.map_map]
  simp [Function.comp_def]

theorem ofNat_ne_zero {n : Nat} (hlo : 1 ≤ n) (hhi : n < 256) : UInt8.ofNat n ≠ 0 := by
  intro h
  have hzero := toNat_ofNat hhi
  rw [h, UInt8.toNat_zero] at hzero
  omega

/-- Only the character zero has a zero among its bytes. -/
theorem zero_not_mem_encodeChar {c : Char} (h : c ≠ '\x00') : 0 ∉ encodeChar c := by
  have hscalar := isScalar c
  have hpos : c.toNat ≠ 0 := fun hzero => h (Char.toNat_inj.mp hzero)
  unfold encodeChar
  dsimp only
  intro hmem
  split at hmem
  · rw [List.mem_singleton] at hmem
    exact ofNat_ne_zero (by omega) (by omega) hmem.symm
  split at hmem
  · simp only [List.mem_cons, List.not_mem_nil, or_false] at hmem
    rcases hmem with hmem | hmem <;> exact ofNat_ne_zero (by omega) (by omega) hmem.symm
  split at hmem
  · simp only [List.mem_cons, List.not_mem_nil, or_false] at hmem
    rcases hmem with hmem | hmem | hmem <;> exact ofNat_ne_zero (by omega) (by omega) hmem.symm
  · simp only [List.mem_cons, List.not_mem_nil, or_false] at hmem
    rcases hmem with hmem | hmem | hmem | hmem <;>
      exact ofNat_ne_zero (by omega) (by omega) hmem.symm

theorem zero_not_mem_encode {text : String} (h : '\x00' ∉ text.toList) : 0 ∉ encode text := by
  intro hmem
  obtain ⟨c, hc, hzero⟩ := List.mem_flatMap.mp hmem
  exact zero_not_mem_encodeChar (fun heq => h (heq ▸ hc)) hzero

end NativeExports.Utf8
