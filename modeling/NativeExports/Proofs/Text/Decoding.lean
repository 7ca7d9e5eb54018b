import NativeExports.Bytes
import NativeExports.Proofs.Text.Utf8
import NativeExports.Text.Surrogates

/-!
# Encodings of a text

The bytes that are read as a text are the bytes of that text, in UTF-8 and in UTF-16: no text has a
second spelling, and what is no spelling of a text is not read.
-/

namespace NativeExports

/-! ## UTF-8 -/

namespace Utf8

/-- A number that is no surrogate and not beyond the last character is the number of a character. -/
theorem toNat_scalar {n : Nat} (h : n < 0xD800 ∨ 0xDFFF < n ∧ n < 0x110000) :
    (Char.ofNat n).toNat = n := by
  rw [Char.ofNat, dif_pos h]
  rfl

variable {b : UInt8} {low high lead x : Nat} {c : Char} {data rest : Bytes}

theorem continuation?_eq_some (hlow : 0x80 ≤ low) (h : continuation? low high b = some x) :
    low ≤ 0x80 + x ∧ 0x80 + x ≤ high ∧ b = .ofNat (0x80 + x) := by
  unfold continuation? at h
  split at h
  · rename_i hbounds
    obtain rfl := Option.some.inj h
    rw [Nat.add_sub_cancel' (by omega), UInt8.ofNat_toNat]
    exact ⟨hbounds.1, hbounds.2, rfl⟩
  · cases h

/-- A character of two bytes stands in the bytes that it is read from. -/
theorem front2_eq_scalar (hlow : 2 ≤ lead) (hhigh : lead < 32)
    (h : front2 lead data = .scalar c rest) :
    .ofNat (0xC0 + lead) :: data = encodeChar c ++ rest := by
  cases data with
  | nil => cases h
  | cons second data =>
      rw [front2] at h
      split at h
      · cases h
      rename_i x hx
      obtain ⟨hx₁, hx₂, rfl⟩ := continuation?_eq_some (by omega) hx
      obtain ⟨rfl, rfl⟩ := Front.scalar.inj h
      have hnumber := toNat_scalar (n := lead * 64 + x) (by omega)
      unfold encodeChar
      dsimp only
      rw [hnumber, if_neg (by omega), if_pos (by omega), show (lead * 64 + x) / 64 = lead by omega,
        show (lead * 64 + x) % 64 = x by omega]
      rfl

/-- A character of three bytes stands in the bytes that it is read from, if the bounds on the second
byte leave out overlong forms and surrogates. -/
theorem front3_eq_scalar (hlead : lead < 16) (hlow : 0x80 ≤ low) (hhigh : high ≤ 0xBF)
    (hlong : 0x800 ≤ lead * 4096 + (low - 0x80) * 64)
    (hscalar : lead * 4096 + (high - 0x80) * 64 + 63 < 0xD800 ∨
      0xDFFF < lead * 4096 + (low - 0x80) * 64)
    (h : front3 lead low high data = .scalar c rest) :
    .ofNat (0xE0 + lead) :: data = encodeChar c ++ rest := by
  cases data with
  | nil => cases h
  | cons second data =>
      rw [front3] at h
      split at h
      · cases h
      rename_i x hx
      obtain ⟨hx₁, hx₂, rfl⟩ := continuation?_eq_some hlow hx
      split at h
      · cases h
      split at h
      · cases h
      rename_i y hy
      obtain ⟨hy₁, hy₂, rfl⟩ := continuation?_eq_some (by omega) hy
      obtain ⟨rfl, rfl⟩ := Front.scalar.inj h
      have hnumber := toNat_scalar (n := lead * 4096 + x * 64 + y) (by omega)
      unfold encodeChar
      dsimp only
      rw [hnumber, if_neg (by omega), if_neg (by omega), if_pos (by omega),
        show (lead * 4096 + x * 64 + y) / 4096 = lead by omega,
        show (lead * 4096 + x * 64 + y) / 64 % 64 = x by omega,
        show (lead * 4096 + x * 64 + y) % 64 = y by omega]
      rfl

/-- A character of four bytes stands in the bytes that it is read from, if the bounds on the second
byte leave out overlong forms and numbers beyond the last character. -/
theorem front4_eq_scalar (hlow : 0x80 ≤ low) (hhigh : high ≤ 0xBF)
    (hlong : 0x10000 ≤ lead * 262144 + (low - 0x80) * 4096)
    (hscalar : lead * 262144 + (high - 0x80) * 4096 + 4095 < 0x110000)
    (h : front4 lead low high data = .scalar c rest) :
    .ofNat (0xF0 + lead) :: data = encodeChar c ++ rest := by
  cases data with
  | nil => cases h
  | cons second data =>
      rw [front4] at h
      split at h
      · cases h
      rename_i x hx
      obtain ⟨hx₁, hx₂, rfl⟩ := continuation?_eq_some hlow hx
      split at h
      · cases h
      split at h
      · cases h
      rename_i y hy
      obtain ⟨hy₁, hy₂, rfl⟩ := continuation?_eq_some (by omega) hy
      split at h
      · cases h
      split at h
      · cases h
      rename_i z hz
      obtain ⟨hz₁, hz₂, rfl⟩ := continuation?_eq_some (by omega) hz
      obtain ⟨rfl, rfl⟩ := Front.scalar.inj h
      have hnumber := toNat_scalar (n := lead * 262144 + x * 4096 + y * 64 + z) (by omega)
      unfold encodeChar
      dsimp only
      rw [hnumber, if_neg (by omega), if_neg (by omega), if_neg (by omega),
        show (lead * 262144 + x * 4096 + y * 64 + z) / 262144 = lead by omega,
        show (lead * 262144 + x * 4096 + y * 64 + z) / 4096 % 64 = x by omega,
        show (lead * 262144 + x * 4096 + y * 64 + z) / 64 % 64 = y by omega,
        show (lead * 262144 + x * 4096 + y * 64 + z) % 64 = z by omega]
      rfl

/-- A character stands in the bytes that it is read from. -/
theorem front_eq_scalar (h : front b data = .scalar c rest) : b :: data = encodeChar c ++ rest := by
  have hbyte := b.toNat_lt
  have hlead : ∀ n, b.toNat = n → b = .ofNat n := fun n hn => by rw [← hn, UInt8.ofNat_toNat]
  unfold front at h
  dsimp only at h
  split at h
  · obtain ⟨rfl, rfl⟩ := Front.scalar.inj h
    have hnumber := toNat_scalar (n := b.toNat) (by omega)
    unfold encodeChar
    dsimp only
    rw [hnumber, if_pos ‹_›, UInt8.ofNat_toNat]
    rfl
  split at h
  · cases h
  split at h
  · rw [hlead (0xC0 + (b.toNat - 0xC0)) (by omega)]
    exact front2_eq_scalar (by omega) (by omega) h
  split at h
  · rw [hlead (0xE0 + 0) (by omega)]
    exact front3_eq_scalar (by omega) (by omega) (by omega) (by omega) (by omega) h
  split at h
  · rw [hlead (0xE0 + 0xD) (by omega)]
    exact front3_eq_scalar (by omega) (by omega) (by omega) (by omega) (by omega) h
  split at h
  · rw [hlead (0xE0 + (b.toNat - 0xE0)) (by omega)]
    exact front3_eq_scalar (by omega) (by omega) (by omega) (by omega) (by omega) h
  split at h
  · rw [hlead (0xF0 + 0) (by omega)]
    exact front4_eq_scalar (by omega) (by omega) (by omega) (by omega) h
  split at h
  · rw [hlead (0xF0 + (b.toNat - 0xF0)) (by omega)]
    exact front4_eq_scalar (by omega) (by omega) (by omega) (by omega) h
  split at h
  · rw [hlead (0xF0 + 4) (by omega)]
    exact front4_eq_scalar (by omega) (by omega) (by omega) (by omega) h
  · cases h

theorem scanFrom_seen (seen : List Piece) (fuel : Nat) (data : Bytes) :
    scanFrom seen fuel data = scanFrom [] fuel data ++ seen := by
  induction fuel generalizing seen data with
  | zero => rfl
  | succ fuel ih =>
      cases data with
      | nil => rfl
      | cons b data =>
          unfold scanFrom
          split
          · rw [ih (.scalar _ :: seen), ih [.scalar _], List.append_assoc]
            rfl
          · rw [ih (.broken _ :: seen), ih [.broken _], List.append_assoc]
            rfl
          · rfl

/-- What is read from the pieces of a byte string is characters only, whose bytes make it up. -/
theorem textOf_scanFrom {seen text : List Char} {start fuel : Nat} (hfuel : data.length ≤ fuel)
    (h : textOf seen start (scanFrom [] fuel data).reverse = .ok text) :
    ∃ tail, text = seen.reverse ++ tail ∧ data = tail.flatMap encodeChar := by
  induction fuel generalizing seen start data with
  | zero =>
      obtain rfl := List.length_eq_zero_iff.mp (Nat.le_zero.mp hfuel)
      exact ⟨[], by simpa using (Except.ok.inj h).symm, rfl⟩
  | succ fuel ih =>
      cases data with
      | nil => exact ⟨[], by simpa using (Except.ok.inj h).symm, rfl⟩
      | cons b data =>
          unfold scanFrom at h
          split at h
          · rename_i c rest hfront
            rw [scanFrom_seen, List.reverse_append, List.reverse_singleton, List.singleton_append,
              textOf] at h
            have hbytes := front_eq_scalar hfront
            have hpos : 0 < (encodeChar c).length := by
              obtain ⟨first, tail, hchar, -⟩ := front_encodeChar c
              rw [hchar]
              exact Nat.succ_pos _
            have hlength := congrArg List.length hbytes
            rw [List.length_append] at hlength
            rw [List.length_cons] at hfuel hlength
            obtain ⟨tail, rfl, rfl⟩ := ih (by omega) h
            exact ⟨c :: tail, by simp, by rw [hbytes, List.flatMap_cons]⟩
          · rw [scanFrom_seen, List.reverse_append, List.reverse_singleton, List.singleton_append,
              textOf] at h
            cases h
          · cases h

/-- What is read as a text is the bytes of that text. -/
theorem decode_eq_ok {text : String} : decode data = .ok text ↔ data = encode text := by
  constructor
  · intro h
    unfold decode scan at h
    cases htext : textOf [] 0 (scanFrom [] data.length data).reverse with
    | error fault =>
        rw [htext] at h
        cases h
    | ok chars =>
        rw [htext] at h
        obtain rfl := Except.ok.inj h
        obtain ⟨tail, rfl, hdata⟩ := textOf_scanFrom (Nat.le_refl _) htext
        rw [encode, String.toList_ofList]
        exact hdata
  · rintro rfl
    exact decode_encode text

/-- No byte of a text is beyond the leads of four bytes. -/
theorem lt_of_mem_encode {text : String} (h : b ∈ encode text) : b.toNat < 0xF8 := by
  obtain ⟨c, -, hmem⟩ := List.mem_flatMap.mp h
  have hscalar := isScalar c
  unfold encodeChar at hmem
  dsimp only at hmem
  split at hmem
  · rw [List.mem_singleton] at hmem
    rw [hmem, toNat_ofNat (by omega)]
    omega
  split at hmem
  · simp only [List.mem_cons, List.not_mem_nil, or_false] at hmem
    rcases hmem with rfl | rfl <;> rw [toNat_ofNat (by omega)] <;> omega
  split at hmem
  · simp only [List.mem_cons, List.not_mem_nil, or_false] at hmem
    rcases hmem with rfl | rfl | rfl <;> rw [toNat_ofNat (by omega)] <;> omega
  · simp only [List.mem_cons, List.not_mem_nil, or_false] at hmem
    rcases hmem with rfl | rfl | rfl | rfl <;> rw [toNat_ofNat (by omega)] <;> omega

end Utf8

/-! ## UTF-16 -/

namespace Utf16

variable {units : List Nat}

/-- A decoder finds the text that some code units encode, and refuses units that encode none. -/
def Decoder.Faithful [Decoder] : Prop :=
  ∀ units text, (∀ unit ∈ units, unit < 0x10000) →
    (Decoder.decode units = .ok text ↔ units = encode text)

/-- The units of a character are read back as that character. -/
theorem decodeFrom_encodeChar (seen : List Char) (index : Nat) (c : Char) (rest : List Nat) :
    decodeFrom seen index (encodeChar c ++ rest) = decodeFrom (c :: seen) (index + 1) rest := by
  have hscalar := Utf8.isScalar c
  unfold encodeChar
  split
  · rw [List.singleton_append, decodeFrom.eq_def]
    dsimp only
    rw [if_neg (by simp [isHigh]; omega), if_neg (by simp [isLow]; omega), Char.ofNat_toNat]
  · rw [List.cons_append, List.singleton_append, decodeFrom.eq_def]
    dsimp only
    rw [if_pos (by simp [isHigh]; omega), if_pos (by simp [isLow]; omega),
      Utf8.ofNat_eq c (by omega)]

theorem decodeFrom_encode (seen : List Char) (index : Nat) (text : List Char) :
    decodeFrom seen index (text.flatMap encodeChar) = .ok (seen.reverse ++ text) := by
  induction text generalizing seen index with
  | nil => simp [decodeFrom]
  | cons c text ih =>
      rw [List.flatMap_cons, decodeFrom_encodeChar, ih]
      simp

/-- What is read from units is characters whose units make them up. -/
theorem decodeFrom_eq_ok {seen text : List Char} {index : Nat}
    (hunits : ∀ unit ∈ units, unit < 0x10000)
    (h : decodeFrom seen index units = .ok text) :
    ∃ tail, text = seen.reverse ++ tail ∧ units = tail.flatMap encodeChar := by
  induction seen, index, units using decodeFrom.induct with
  | case1 seen index => exact ⟨[], by simpa [decodeFrom] using h.symm, rfl⟩
  | case2 seen index high hhigh low rest hlow c ih =>
      rw [decodeFrom, if_pos hhigh] at h
      dsimp only at h
      rw [if_pos hlow] at h
      obtain ⟨tail, rfl, rfl⟩ := ih (fun unit hmem => hunits unit (by simp [hmem])) h
      refine ⟨c :: tail, by simp, ?_⟩
      simp only [isHigh, isLow, Bool.and_eq_true, decide_eq_true_eq] at hhigh hlow
      have hnumber := Utf8.toNat_scalar
        (n := 0x10000 + (high - 0xD800) * 0x400 + (low - 0xDC00)) (by omega)
      rw [List.flatMap_cons, encodeChar, hnumber, if_neg (by omega)]
      simp only [List.cons_append, List.nil_append, List.cons.injEq, and_true]
      omega
  | case3 seen index high hhigh low rest hlow =>
      rw [decodeFrom, if_pos hhigh] at h
      dsimp only at h
      rw [if_neg hlow] at h
      cases h
  | case4 seen index high hhigh =>
      rw [decodeFrom, if_pos hhigh] at h
      cases h
  | case5 seen index unit rest hhigh hlow =>
      rw [decodeFrom.eq_def] at h
      dsimp only at h
      rw [if_neg hhigh, if_pos hlow] at h
      cases h
  | case6 seen index unit rest hhigh hlow ih =>
      rw [decodeFrom.eq_def] at h
      dsimp only at h
      rw [if_neg hhigh, if_neg hlow] at h
      obtain ⟨tail, rfl, rfl⟩ := ih (fun unit hmem => hunits unit (.tail _ hmem)) h
      have hunit := hunits unit (.head _)
      simp only [isHigh, isLow, Bool.and_eq_true, decide_eq_true_eq] at hhigh hlow
      refine ⟨Char.ofNat unit :: tail, by simp, ?_⟩
      rw [List.flatMap_cons, encodeChar, Utf8.toNat_scalar (by omega), if_pos hunit]
      rfl

/-- What is read as a text is the units of that text. -/
theorem decode_eq_ok {text : String} (hunits : ∀ unit ∈ units, unit < 0x10000) :
    decode units = .ok text ↔ units = encode text := by
  constructor
  · intro h
    unfold decode at h
    cases htext : decodeFrom [] 0 units with
    | error fault =>
        rw [htext] at h
        cases h
    | ok chars =>
        rw [htext] at h
        obtain rfl := Except.ok.inj h
        obtain ⟨tail, rfl, hdata⟩ := decodeFrom_eq_ok hunits htext
        rw [encode, String.toList_ofList]
        exact hdata
  · rintro rfl
    rw [decode, encode, decodeFrom_encode]
    simp [Except.map]

theorem linkedDecoder_faithful : @Decoder.Faithful linkedDecoder := by
  intro units text hunits
  rw [← decode_eq_ok hunits]
  change (decode units).mapError Fault.message = .ok text ↔ _
  cases decode units with
  | error fault => exact ⟨nofun, nofun⟩
  | ok found =>
      exact ⟨fun h => congrArg _ (Except.ok.inj h), fun h => congrArg _ (Except.ok.inj h)⟩

theorem lt_of_mem_encode {text : String} {unit : Nat} (h : unit ∈ encode text) :
    unit < 0x10000 := by
  obtain ⟨c, -, hmem⟩ := List.mem_flatMap.mp h
  have hscalar := Utf8.isScalar c
  unfold encodeChar at hmem
  split at hmem
  · rwa [List.mem_singleton.mp hmem]
  · simp only [List.mem_cons, List.not_mem_nil, or_false] at hmem
    omega

end Utf16

end NativeExports
