import Mathlib.Data.List.Basic
import NativeExports.Listing.Decoding
import NativeExports.Proofs.Text.Decoding

/-!
# Encodings of a listing

A listing is a text in UTF-16 behind a byte order mark, or in UTF-8 with or without one.  Decoding
finds the text of all of them, and accepts nothing else.
-/

namespace NativeExports.Listing

/-- The byte strings that are a listing with a given text. -/
inductive Encodes (text : String) : Bytes → Prop
  /-- Without a mark, the text cannot begin with the character that the mark is. -/
  | utf8 (h : text.toList.head? ≠ some '\uFEFF') : Encodes text (Utf8.encode text)
  | markedUtf8 : Encodes text (utf8Mark ++ Utf8.encode text)
  | utf16 : Encodes text (utf16Mark ++ (Utf16.encode text).flatMap (Bytes.leBytes 2))

variable {data rest : Bytes} {text : String}

/-! ## Units -/

/-- The two bytes of a unit. -/
theorem leBytes_unit (unit : Nat) :
    Bytes.leBytes 2 unit = [.ofNat unit, .ofNat (unit / 256)] :=
  rfl

theorem unitsFrom_leBytes (seen : List Nat) {units : List Nat}
    (h : ∀ unit ∈ units, unit < 0x10000) :
    unitsFrom seen (units.flatMap (Bytes.leBytes 2)) = seen.reverse ++ units := by
  induction units generalizing seen with
  | nil => exact (List.append_nil _).symm
  | cons unit units ih =>
      obtain ⟨hunit, hunits⟩ := List.forall_mem_cons.mp h
      rw [List.flatMap_cons, leBytes_unit, List.cons_append, List.cons_append, List.nil_append,
        unitsFrom, ih _ hunits, UInt8.toNat_ofNat', UInt8.toNat_ofNat',
        show unit % 2 ^ 8 + 256 * (unit / 256 % 2 ^ 8) = unit by omega]
      simp

/-- Whole units have two bytes each. -/
theorem unitsFrom_eq (seen : List Nat) (data : Bytes) (heven : data.length % 2 = 0) :
    ∃ units, unitsFrom seen data = seen.reverse ++ units ∧ (∀ unit ∈ units, unit < 0x10000) ∧
      data = units.flatMap (Bytes.leBytes 2) := by
  induction seen, data using unitsFrom.induct with
  | case1 seen low high rest ih =>
      rw [List.length_cons, List.length_cons] at heven
      obtain ⟨units, hunits, hbound, hrest⟩ := ih (by omega)
      have hlow := low.toNat_lt
      have hhigh := high.toNat_lt
      have hbytes : Bytes.leBytes 2 (low.toNat + 256 * high.toNat) = [low, high] :=
        Bytes.leBytes_leValue [low, high]
      refine ⟨(low.toNat + 256 * high.toNat) :: units, ?_, ?_, ?_⟩
      · rw [unitsFrom, hunits]
        simp
      · exact List.forall_mem_cons.mpr ⟨by omega, hbound⟩
      · rw [List.flatMap_cons, ← hrest, hbytes]
        rfl
  | case2 data seen hshort =>
      cases data with
      | nil => exact ⟨[], (List.append_nil _).symm, nofun, rfl⟩
      | cons low data =>
          cases data with
          | nil => cases heven
          | cons high rest => exact absurd rfl (hshort low high rest)

theorem length_units (units : List Nat) :
    (units.flatMap (Bytes.leBytes 2)).length % 2 = 0 := by
  induction units with
  | nil => rfl
  | cons unit units ih =>
      rw [List.flatMap_cons, List.length_append, Bytes.length_leBytes]
      omega

/-! ## Texts of listings -/

theorem decodeUtf16_eq_ok [Utf16.Decoder] (hdecoder : Utf16.Decoder.Faithful) :
    decodeUtf16 data = .ok text ↔ data = (Utf16.encode text).flatMap (Bytes.leBytes 2) := by
  constructor
  · intro h
    unfold decodeUtf16 at h
    split at h
    · cases h
    rename_i heven
    obtain ⟨units, hunits, hbound, hdata⟩ := unitsFrom_eq [] data (not_not.mp heven)
    rw [hunits, List.reverse_nil, List.nil_append] at h
    split at h
    · rename_i text' htext
      obtain rfl := Except.ok.inj h
      rw [hdata, (hdecoder _ _ hbound).mp htext]
    · cases h
  · rintro rfl
    have hbound : ∀ unit ∈ Utf16.encode text, unit < 0x10000 := fun _ => Utf16.lt_of_mem_encode
    unfold decodeUtf16
    rw [if_neg (not_not.mpr (length_units _)), unitsFrom_leBytes [] hbound, List.reverse_nil,
      List.nil_append, (hdecoder _ _ hbound).mpr rfl]

theorem decodeUtf8_eq_ok : decodeUtf8 data = .ok text ↔ data = Utf8.encode text := by
  rw [← Utf8.decode_eq_ok]
  unfold decodeUtf8
  cases Utf8.decode data <;> simp

/-- The text of a listing in UTF-16 cannot be one in UTF-8. -/
theorem isPrefixOf?_utf16Mark (h : ∀ b ∈ data, b.toNat < 0xF8) :
    utf16Mark.isPrefixOf? data = none := by
  rw [Option.eq_none_iff_forall_ne_some]
  intro rest hmark
  obtain rfl := List.isPrefixOf?_eq_some_iff_append_eq.mp hmark
  exact absurd (h 0xFF (by simp [utf16Mark])) (by decide)

/-- The mark is the character U+FEFF, so a text that begins with another one is not marked. -/
theorem isPrefixOf?_utf8Mark (h : text.toList.head? ≠ some '\uFEFF') :
    utf8Mark.isPrefixOf? (Utf8.encode text) = none := by
  rw [Option.eq_none_iff_forall_ne_some]
  intro rest hmark
  refine h ?_
  have hbytes := List.isPrefixOf?_eq_some_iff_append_eq.mp hmark
  unfold Utf8.encode at hbytes
  cases htext : text.toList with
  | nil =>
      rw [htext] at hbytes
      cases hbytes
  | cons c chars =>
      obtain ⟨first, tail, hchar, hfront⟩ := Utf8.front_encodeChar c
      rw [htext, List.flatMap_cons, hchar, List.cons_append] at hbytes
      obtain ⟨rfl, hrest⟩ := List.cons.inj hbytes
      have hscalar := hfront (chars.flatMap Utf8.encodeChar)
      rw [← hrest] at hscalar
      have hmark : Utf8.front 0xEF ([0xBB, 0xBF] ++ rest) = .scalar '\uFEFF' rest := rfl
      obtain ⟨rfl, -⟩ := Utf8.Front.scalar.inj (hmark.symm.trans hscalar)
      rfl

theorem encode_mark (rest : List Char) :
    Utf8.encode (String.ofList ('\uFEFF' :: rest)) =
      utf8Mark ++ Utf8.encode (String.ofList rest) := by
  rw [Utf8.encode, Utf8.encode, String.toList_ofList, String.toList_ofList]
  rfl

/-- Decoding finds the text of every listing, and accepts nothing else. -/
theorem decode_eq_ok [Utf16.Decoder] (hdecoder : Utf16.Decoder.Faithful) :
    decode data = .ok text ↔ Encodes text data := by
  constructor
  · intro h
    unfold decode at h
    split at h
    · rename_i rest hmark
      obtain rfl := List.isPrefixOf?_eq_some_iff_append_eq.mp hmark
      rw [(decodeUtf16_eq_ok hdecoder).mp h]
      exact .utf16
    · rw [decodeUtf8_eq_ok] at h
      cases hmark : utf8Mark.isPrefixOf? data with
      | some rest =>
          rw [hmark, Option.getD_some] at h
          obtain rfl := List.isPrefixOf?_eq_some_iff_append_eq.mp hmark
          rw [h]
          exact .markedUtf8
      | none =>
          rw [hmark, Option.getD_none] at h
          subst h
          refine .utf8 fun hfirst => ?_
          obtain ⟨rest, htext⟩ := List.head?_eq_some_iff.mp hfirst
          rw [← String.ofList_toList (s := text), htext, encode_mark] at hmark
          cases (List.isPrefixOf?_eq_some_iff_append_eq.mpr rfl).symm.trans hmark
  · intro h
    unfold decode
    cases h with
    | utf8 h =>
        rw [isPrefixOf?_utf16Mark fun _ => Utf8.lt_of_mem_encode, isPrefixOf?_utf8Mark h]
        exact decodeUtf8_eq_ok.mpr rfl
    | markedUtf8 =>
        have hmark : utf8Mark.isPrefixOf? (utf8Mark ++ Utf8.encode text) =
            some (Utf8.encode text) :=
          List.isPrefixOf?_eq_some_iff_append_eq.mpr rfl
        rw [hmark]
        exact decodeUtf8_eq_ok.mpr rfl
    | utf16 =>
        have hmark : utf16Mark.isPrefixOf?
            (utf16Mark ++ (Utf16.encode text).flatMap (Bytes.leBytes 2)) =
              some ((Utf16.encode text).flatMap (Bytes.leBytes 2)) :=
          List.isPrefixOf?_eq_some_iff_append_eq.mpr rfl
        rw [hmark]
        exact (decodeUtf16_eq_ok hdecoder).mpr rfl

end NativeExports.Listing
