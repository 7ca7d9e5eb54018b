import NativeExports.Bytes.Compressed
import NativeExports.Metadata.BlobHeap
import NativeExports.Proofs.Outcome
import NativeExports.Proofs.Readers

/-!
# Compressed numbers and tokens

A number may be stored in more bytes than it needs, but it is written in as few as possible.  So
whatever replaces a stored number by a smaller one makes nothing longer.
-/

namespace NativeExports

/-- The bytes in `front` are a compressed form of a number. -/
inductive Compressed.Form : Bytes → Nat → Prop
  | one {first : UInt8} (h : first.toNat < 0x80) : Form [first] first.toNat
  | two {first second : UInt8} (hlo : 0x80 ≤ first.toNat) (hhi : first.toNat < 0xC0) :
      Form [first, second] ((first.toNat - 0x80) * 0x100 + second.toNat)
  | four {first second third fourth : UInt8} (hlo : 0xC0 ≤ first.toNat)
      (hhi : first.toNat < 0xE0) :
      Form [first, second, third, fourth] ((first.toNat - 0xC0) * 0x1000000 +
        second.toNat * 0x10000 + third.toNat * 0x100 + fourth.toNat)

theorem Reader.byte_eq_ok {data rest : Bytes} {n : Nat} :
    byte data = .ok n rest ↔ ∃ first : UInt8, data = first :: rest ∧ first.toNat = n := by
  unfold byte
  rw [le_eq_ok]
  constructor
  · rintro ⟨front, rfl, hlength, hvalue⟩
    obtain ⟨first, rfl⟩ := List.length_eq_one_iff.mp hlength
    exact ⟨first, rfl, by simpa [Bytes.leValue] using hvalue⟩
  · rintro ⟨first, rfl, rfl⟩
    exact ⟨[first], rfl, rfl, by simp [Bytes.leValue]⟩

namespace Compressed

open Reader (byte_eq_ok bind_eq_ok pure_eq_ok)

theorem read_eq_ok {data rest : Bytes} {n : Nat} :
    read data = .ok n rest ↔ ∃ front, data = front ++ rest ∧ Form front n := by
  unfold read
  rw [bind_eq_ok]
  constructor
  · rintro ⟨a, mid, hfirst, h⟩
    obtain ⟨first, rfl, rfl⟩ := byte_eq_ok.mp hfirst
    split at h
    · rename_i hone
      obtain ⟨rfl, rfl⟩ := pure_eq_ok.mp h
      exact ⟨[first], rfl, .one hone⟩
    · rename_i hone
      split at h
      · rename_i htwo
        obtain ⟨b, rest', hsecond, h⟩ := bind_eq_ok.mp h
        obtain ⟨second, rfl, rfl⟩ := byte_eq_ok.mp hsecond
        obtain ⟨rfl, rfl⟩ := pure_eq_ok.mp h
        exact ⟨[first, second], rfl, .two (by omega) htwo⟩
      · rename_i htwo
        split at h
        · rename_i hfour
          obtain ⟨b, rest₁, hsecond, h⟩ := bind_eq_ok.mp h
          obtain ⟨second, rfl, rfl⟩ := byte_eq_ok.mp hsecond
          obtain ⟨c, rest₂, hthird, h⟩ := bind_eq_ok.mp h
          obtain ⟨third, rfl, rfl⟩ := byte_eq_ok.mp hthird
          obtain ⟨d, rest₃, hfourth, h⟩ := bind_eq_ok.mp h
          obtain ⟨fourth, rfl, rfl⟩ := byte_eq_ok.mp hfourth
          obtain ⟨rfl, rfl⟩ := pure_eq_ok.mp h
          exact ⟨[first, second, third, fourth], rfl, .four (by omega) hfour⟩
        · exact (Reader.throw_ne_ok.mp h).elim
  · rintro ⟨front, rfl, hform⟩
    cases hform with
    | @one first h =>
        refine ⟨first.toNat, rest, byte_eq_ok.mpr ⟨first, rfl, rfl⟩, ?_⟩
        rw [if_pos h]
        rfl
    | @two first second hlo hhi =>
        refine ⟨first.toNat, second :: rest, byte_eq_ok.mpr ⟨first, rfl, rfl⟩, ?_⟩
        rw [if_neg (by omega), if_pos hhi]
        exact bind_eq_ok.mpr ⟨_, _, byte_eq_ok.mpr ⟨second, rfl, rfl⟩, rfl⟩
    | @four first second third fourth hlo hhi =>
        refine ⟨first.toNat, second :: third :: fourth :: rest,
          byte_eq_ok.mpr ⟨first, rfl, rfl⟩, ?_⟩
        rw [if_neg (by omega), if_neg (by omega), if_pos hhi]
        exact bind_eq_ok.mpr ⟨_, _, byte_eq_ok.mpr ⟨second, rfl, rfl⟩,
          bind_eq_ok.mpr ⟨_, _, byte_eq_ok.mpr ⟨third, rfl, rfl⟩,
            bind_eq_ok.mpr ⟨_, _, byte_eq_ok.mpr ⟨fourth, rfl, rfl⟩, rfl⟩⟩⟩

theorem Form.lt_limit {front : Bytes} {n : Nat} (h : Form front n) : n < limit := by
  unfold limit
  cases h with
  | one h => omega
  | @two first second hlo hhi =>
      have := second.toNat_lt
      omega
  | @four first second third fourth hlo hhi =>
      have := second.toNat_lt
      have := third.toNat_lt
      have := fourth.toNat_lt
      omega

theorem Form.ne_nil {front : Bytes} {n : Nat} (h : Form front n) : front ≠ [] := by
  cases h <;> simp

theorem exists_encode {n : Nat} (h : n < limit) : ∃ front, encode n = .ok front := by
  unfold encode
  split
  · exact ⟨_, rfl⟩
  · split
    · exact ⟨_, rfl⟩
    · exact ⟨_, rfl⟩

/-- What is written for a number is a form of it. -/
theorem encode_form {n : Nat} {front : Bytes} (h : encode n = .ok front) : Form front n := by
  have hbyte : ∀ m, (UInt8.ofNat m).toNat = m % 256 := fun m => UInt8.toNat_ofNat'
  unfold encode at h
  split at h
  · rename_i hone
    obtain rfl := Except.ok.inj h
    have hform := @Form.one (UInt8.ofNat n) (by rw [hbyte]; omega)
    rwa [hbyte, Nat.mod_eq_of_lt (by omega)] at hform
  · split at h
    · rename_i htwo
      obtain rfl := Except.ok.inj h
      have hform := @Form.two (UInt8.ofNat ((0x8000 + n) / 256))
        (UInt8.ofNat (0x8000 + n)) (by rw [hbyte]; omega) (by rw [hbyte]; omega)
      rw [hbyte, hbyte, show ((0x8000 + n) / 256 % 256 - 0x80) * 0x100 + (0x8000 + n) % 256 = n by
        omega] at hform
      exact hform
    · split at h
      · rename_i hlimit
        have hlt : n < 0x20000000 := hlimit
        obtain rfl := Except.ok.inj h
        have hform := @Form.four (UInt8.ofNat ((0xC0000000 + n) / 256 / 256 / 256))
          (UInt8.ofNat ((0xC0000000 + n) / 256 / 256)) (UInt8.ofNat ((0xC0000000 + n) / 256))
          (UInt8.ofNat (0xC0000000 + n))
          (by rw [hbyte]; omega) (by rw [hbyte]; omega)
        rw [hbyte, hbyte, hbyte, hbyte,
          show ((0xC0000000 + n) / 256 / 256 / 256 % 256 - 0xC0) * 0x1000000 +
            (0xC0000000 + n) / 256 / 256 % 256 * 0x10000 + (0xC0000000 + n) / 256 % 256 * 0x100 +
              (0xC0000000 + n) % 256 = n by omega] at hform
        exact hform
      · cases h

/-- A number is written in as few bytes as any form of a greater one has. -/
theorem Form.length_encode_le {front short : Bytes} {n m : Nat} (h : Form front n) (hle : m ≤ n)
    (hshort : encode m = .ok short) : short.length ≤ front.length := by
  unfold encode at hshort
  have hlength : ∀ width value : Nat, (Bytes.beBytes width value).length = width := by
    intro width value
    rw [Bytes.beBytes, List.length_reverse, Bytes.length_leBytes]
  split at hshort
  · obtain rfl := Except.ok.inj hshort
    rw [hlength]
    cases h <;> simp
  · split at hshort
    · obtain rfl := Except.ok.inj hshort
      rw [hlength]
      cases h with
      | one h => omega
      | two hlo hhi => simp
      | four hlo hhi => simp
    · split at hshort
      · obtain rfl := Except.ok.inj hshort
        rw [hlength]
        cases h with
        | one h => omega
        | @two first second hlo hhi =>
            have := second.toNat_lt
            omega
        | four hlo hhi => simp
      · cases hshort

/-! ## Tokens -/

theorem readToken_eq_ok {data rest : Bytes} {token : Token} :
    readToken data = .ok token rest ↔
      ∃ front n table, data = front ++ rest ∧ Form front n ∧ tokenTables[n % 4]? = some table ∧
        Token.ofRow table (n / 4) = token := by
  unfold readToken
  rw [bind_eq_ok]
  constructor
  · rintro ⟨n, mid, hread, h⟩
    obtain ⟨front, rfl, hform⟩ := read_eq_ok.mp hread
    rcases htable : tokenTables[n % 4]? with _ | table
    · rw [htable] at h
      exact (Reader.throw_ne_ok.mp h).elim
    · rw [htable] at h
      obtain ⟨rfl, rfl⟩ := pure_eq_ok.mp h
      exact ⟨front, n, table, rfl, hform, htable, rfl⟩
  · rintro ⟨front, n, table, rfl, hform, htable, rfl⟩
    refine ⟨n, rest, read_eq_ok.mpr ⟨front, rfl, hform⟩, ?_⟩
    rw [htable]
    rfl

/-- The bytes in `front` are a compressed form of a token. -/
def TokenForm (front : Bytes) (token : Token) : Prop :=
  ∃ n table, Form front n ∧ tokenTables[n % 4]? = some table ∧ Token.ofRow table (n / 4) = token

theorem tag?_eq_some {token : Token} {table : Table} {tag : Nat}
    (h : token.table? = some table) (htag : tokenTables[tag]? = some table) :
    tag? token = some tag := by
  unfold tag?
  rw [h]
  match tag, htag with
  | 0, htag | 1, htag | 2, htag =>
    obtain rfl := Option.some.inj htag
    rfl

theorem exists_encodeToken_of_tag? {token : Token} {tag : Nat} (htag : tag? token = some tag)
    (hlt : tag < 4) : ∃ front, encodeToken token = .ok front := by
  have hrow : token.row < Token.rowLimit := Nat.mod_lt _ (by decide)
  rw [encodeToken, htag]
  refine exists_encode ?_
  unfold Token.rowLimit at hrow
  unfold limit
  omega

/-- Every token of the same table can be written. -/
theorem TokenForm.exists_encodeToken {front : Bytes} {token token' : Token}
    (h : TokenForm front token) (htable : token'.table? = token.table?) :
    ∃ short, encodeToken token' = .ok short := by
  obtain ⟨n, table, hform, htables, rfl⟩ := h
  exact exists_encodeToken_of_tag? (tag?_eq_some (htable.trans (Token.table?_ofRow _ _)) htables)
    (Nat.mod_lt _ (by decide))

/-- A token of the same table with a lower row takes no more bytes. -/
theorem TokenForm.length_encodeToken_le {front short : Bytes} {token token' : Token}
    (h : TokenForm front token) (htable : token'.table? = token.table?)
    (hrow : token'.row ≤ token.row) (hshort : encodeToken token' = .ok short) :
    short.length ≤ front.length := by
  obtain ⟨n, table, hform, htables, rfl⟩ := h
  have htag : tag? token' = some (n % 4) :=
    tag?_eq_some (htable.trans (Token.table?_ofRow _ _)) htables
  have hle : token'.row * 4 + n % 4 ≤ n := by
    rw [Token.row_ofRow] at hrow
    have hmod : n / 4 % Token.rowLimit ≤ n / 4 := Nat.mod_le _ _
    omega
  rw [encodeToken, htag] at hshort
  exact hform.length_encode_le hle hshort

/-- What is written for a token is a form of it. -/
theorem encodeToken_form {token : Token} {front : Bytes} (hv : token.value < 2 ^ 32)
    (h : encodeToken token = .ok front) : TokenForm front token := by
  have htags : ∀ {tag}, tag? token = some tag →
      ∃ table, token.table? = some table ∧ tokenTables[tag]? = some table ∧ tag < 4 := by
    intro tag htag
    unfold tag? at htag
    split at htag
    · exact ⟨_, ‹_›, by rw [← Option.some.inj htag]; rfl, by rw [← Option.some.inj htag]; decide⟩
    · exact ⟨_, ‹_›, by rw [← Option.some.inj htag]; rfl, by rw [← Option.some.inj htag]; decide⟩
    · exact ⟨_, ‹_›, by rw [← Option.some.inj htag]; rfl, by rw [← Option.some.inj htag]; decide⟩
    · cases htag
  unfold encodeToken at h
  split at h
  · rename_i tag htag
    obtain ⟨table, htable, htables, hlt⟩ := htags htag
    refine ⟨token.row * 4 + tag, table, encode_form h, ?_, ?_⟩
    · rw [show (token.row * 4 + tag) % 4 = tag by omega]
      exact htables
    · rw [show (token.row * 4 + tag) / 4 = token.row by omega]
      exact Token.ofRow_row hv htable
  · cases h

/-! ## Reading what was written -/

/-- The number of bytes of the forms that begin with a byte. -/
def formLength (first : UInt8) : Nat :=
  if first.toNat < 0x80 then 1 else if first.toNat < 0xC0 then 2 else 4

theorem Form.cons_formLength {front : Bytes} {n : Nat} (h : Form front n) :
    ∃ first more, front = first :: more ∧ first.toNat < 0xE0 ∧ formLength first = front.length := by
  unfold formLength
  cases h with
  | @one first h => exact ⟨first, [], rfl, by omega, by rw [if_pos h]; rfl⟩
  | @two first second hlo hhi =>
      exact ⟨first, [second], rfl, by omega, by rw [if_neg (by omega), if_pos hhi]; rfl⟩
  | @four first second third fourth hlo hhi =>
      exact ⟨first, [second, third, fourth], rfl, hhi,
        by rw [if_neg (by omega), if_neg (by omega)]; rfl⟩

/-- A first byte that announces a form, with the announced bytes behind it, makes one. -/
theorem exists_form {first : UInt8} {more : Bytes} (hlead : first.toNat < 0xE0)
    (hlength : formLength first ≤ (first :: more).length) :
    ∃ front rest n, first :: more = front ++ rest ∧ Form front n := by
  unfold formLength at hlength
  by_cases hone : first.toNat < 0x80
  · exact ⟨[first], more, _, rfl, .one hone⟩
  · rw [if_neg hone] at hlength
    by_cases htwo : first.toNat < 0xC0
    · rw [if_pos htwo] at hlength
      match more, hlength with
      | second :: rest, _ => exact ⟨[first, second], rest, _, rfl, .two (by omega) htwo⟩
    · rw [if_neg htwo] at hlength
      match more, hlength with
      | second :: third :: fourth :: rest, _ =>
        exact ⟨[first, second, third, fourth], rest, _, rfl, .four (by omega) hlead⟩

/-- Whether a number can be read is settled by the first byte and the number of bytes. -/
theorem exists_read_iff {data : Bytes} : (∃ n rest, read data = .ok n rest) ↔
    ∃ first more, data = first :: more ∧ first.toNat < 0xE0 ∧ formLength first ≤ data.length := by
  constructor
  · rintro ⟨n, rest, h⟩
    obtain ⟨front, rfl, hform⟩ := read_eq_ok.mp h
    obtain ⟨first, more, rfl, hlead, hlength⟩ := hform.cons_formLength
    exact ⟨first, more ++ rest, rfl, hlead, by rw [hlength, List.length_append]; omega⟩
  · rintro ⟨first, more, rfl, hlead, hlength⟩
    obtain ⟨front, rest, n, hdata, hform⟩ := exists_form hlead hlength
    exact ⟨n, rest, read_eq_ok.mpr ⟨front, hdata, hform⟩⟩

theorem encode_eq_error {n : Nat} (h : limit ≤ n) :
    encode n = .error (.malformed (.compressedRange n)) := by
  have hlarge : 0x20000000 ≤ n := h
  unfold encode
  rw [if_neg (by omega), if_neg (by omega), if_neg (Nat.not_lt.mpr h)]

theorem exists_encodeToken {table : Table} (htable : table ∈ tokenTables) (row : Nat) :
    ∃ front, encodeToken (Token.ofRow table row) = .ok front := by
  obtain ⟨tag, htag⟩ := List.mem_iff_getElem?.mp htable
  have hlt : tag < 3 := (List.getElem?_eq_some_iff.mp htag).1
  exact exists_encodeToken_of_tag? (tag?_eq_some (Token.table?_ofRow table row) htag)
    (Nat.lt_succ_of_lt hlt)

/-- Reading undoes writing, whatever follows; larger numbers are not written.  A number is read if
its first byte announces a form all of whose bytes are there, and no form that is read is shorter
than what is written for the number.  Tokens of the three tables are read back as well. -/
theorem forms_round_trip :
    (∀ n, n < 2 ^ 29 → ∃ front, encode n = .ok front ∧
      ∀ suffix, read (front ++ suffix) = .ok n suffix) ∧
    (∀ n, 2 ^ 29 ≤ n → encode n = .error (.malformed (.compressedRange n))) ∧
    (∀ data, (∃ n rest, read data = .ok n rest) ↔
      ∃ first more, data = first :: more ∧ first.toNat < 0xE0 ∧ formLength first ≤ data.length) ∧
    (∀ data n rest, read data = .ok n rest → ∃ front short, data = front ++ rest ∧
      encode n = .ok short ∧ short.length ≤ front.length) ∧
    ∀ table ∈ [Table.typeDef, .typeRef, .typeSpec], ∀ row < 2 ^ 24,
      ∃ front, encodeToken (Token.ofRow table row) = .ok front ∧
        ∀ suffix, readToken (front ++ suffix) = .ok (Token.ofRow table row) suffix := by
  refine ⟨fun n hn => ?_, fun n hn => encode_eq_error hn, fun data => exists_read_iff, ?_, ?_⟩
  · obtain ⟨front, hfront⟩ := exists_encode hn
    exact ⟨front, hfront, fun suffix => read_eq_ok.mpr ⟨front, rfl, encode_form hfront⟩⟩
  · intro data n rest h
    obtain ⟨front, hdata, hform⟩ := read_eq_ok.mp h
    obtain ⟨short, hshort⟩ := exists_encode hform.lt_limit
    exact ⟨front, short, hdata, hshort, hform.length_encode_le (Nat.le_refl n) hshort⟩
  · intro table htable row _
    obtain ⟨front, hfront⟩ := exists_encodeToken htable row
    obtain ⟨n, found, hform, htables, htoken⟩ :=
      encodeToken_form (Token.ofRow_lt table row) hfront
    exact ⟨front, hfront, fun suffix =>
      readToken_eq_ok.mpr ⟨front, n, found, rfl, hform, htables, htoken⟩⟩

/-- The largest number of two bytes is read back in front of another byte.  Two bytes are taken for
the number 3 as well, which is written as one, and a first byte of two is not enough. -/
theorem forms_round_trip_twoBytes :
    encode 0x3FFF = .ok [0xBF, 0xFF] ∧ read [0xBF, 0xFF, 0x2A] = .ok 0x3FFF [0x2A] ∧
      (∃ short, encode 3 = .ok short ∧ short.length ≤ [0x80, 0x03].length) ∧
      ¬(∃ n rest, read [0x80] = .ok n rest) ∧
      ∃ front, encodeToken (Token.ofRow .typeSpec 0xFFFFFF) = .ok front ∧
        readToken (front ++ [0x2A]) = .ok (Token.ofRow .typeSpec 0xFFFFFF) [0x2A] := by
  obtain ⟨hround, -, haccepts, hshortest, htokens⟩ := forms_round_trip
  obtain ⟨front, hfront, hread⟩ := hround 0x3FFF (by decide)
  obtain rfl : [0xBF, 0xFF] = front := Except.ok.inj hfront
  obtain ⟨long, short, hlong, hshort, hle⟩ := hshortest [0x80, 0x03] 3 [] rfl
  obtain rfl : [0x80, 0x03] = long := hlong.trans (List.append_nil long)
  obtain ⟨stored, hstored, htoken⟩ := htokens .typeSpec (by decide) 0xFFFFFF (by decide)
  refine ⟨hfront, hread [0x2A], ⟨short, hshort, hle⟩, fun h => ?_, stored, hstored, htoken [0x2A]⟩
  obtain ⟨first, more, hdata, -, hlength⟩ := (haccepts [0x80]).mp h
  obtain ⟨rfl, rfl⟩ := List.cons.inj hdata
  exact absurd hlength (by decide)

end Compressed

/-! ## Blobs -/

namespace BlobHeap

theorem get_eq_ok {heap : BlobHeap} {index : Nat} {blob : Bytes} :
    heap.get index = .ok blob ↔
      ∃ front rest, heap.data.drop index = front ++ blob ++ rest ∧
        Compressed.Form front blob.length := by
  unfold get Reader.parse entry
  constructor
  · intro h
    split at h
    · rename_i a rest hread
      obtain rfl := Except.ok.inj h
      obtain ⟨size, mid, hsize, hbytes⟩ := Reader.bind_eq_ok.mp hread
      obtain ⟨front, hdata, hform⟩ := Compressed.read_eq_ok.mp hsize
      obtain ⟨rfl, rfl⟩ := Reader.bytes_eq_ok.mp hbytes
      exact ⟨front, rest, by rw [hdata, List.append_assoc], hform⟩
    · cases h
  · rintro ⟨front, rest, hdata, hform⟩
    have hread : (Compressed.read >>= fun size => Reader.bytes size) (heap.data.drop index) =
        .ok blob rest := by
      refine Reader.bind_eq_ok.mpr ⟨blob.length, blob ++ rest, ?_,
        Reader.bytes_eq_ok.mpr ⟨rfl, rfl⟩⟩
      exact Compressed.read_eq_ok.mpr ⟨front, by rw [hdata, List.append_assoc], hform⟩
    simp only [hread]

theorem length_lt_limit {heap : BlobHeap} {index : Nat} {blob : Bytes}
    (h : heap.get index = .ok blob) : blob.length < Compressed.limit := by
  obtain ⟨front, rest, -, hform⟩ := get_eq_ok.mp h
  exact hform.lt_limit

/-- A blob of a size that can be stored is added behind the heap. -/
theorem exists_append {heap : BlobHeap} {blob : Bytes} (h : blob.length < Compressed.limit) :
    ∃ index more, heap.append blob = .ok (index, ⟨heap.data ++ more⟩) := by
  unfold append
  split
  · exact ⟨0, [], by rw [List.append_nil]⟩
  · obtain ⟨size, hsize⟩ := Compressed.exists_encode h
    refine ⟨heap.data.length, size ++ blob, ?_⟩
    rw [hsize, ← List.append_assoc]
    rfl

theorem lt_of_get {heap : BlobHeap} {index : Nat} {blob : Bytes} (h : heap.get index = .ok blob) :
    index < heap.data.length := by
  obtain ⟨front, rest, hdata, hform⟩ := get_eq_ok.mp h
  by_contra hlt
  rw [List.drop_eq_nil_of_le (Nat.le_of_not_lt hlt)] at hdata
  have hpos : front ++ blob ++ rest ≠ [] := by
    simp [hform.ne_nil]
  exact hpos hdata.symm

/-- What is found in a heap is found in a longer one. -/
theorem get_append {heap : BlobHeap} {index : Nat} {blob : Bytes}
    (h : heap.get index = .ok blob) (more : Bytes) :
    (⟨heap.data ++ more⟩ : BlobHeap).get index = .ok blob := by
  obtain ⟨front, rest, hdata, hform⟩ := get_eq_ok.mp h
  refine get_eq_ok.mpr ⟨front, rest ++ more, ?_, hform⟩
  rw [List.drop_append_of_le_length (Nat.le_of_lt (lt_of_get h)), hdata, List.append_assoc]

theorem get_of_prefix {heap heap' : BlobHeap} (hgrown : heap.data <+: heap'.data) {index : Nat}
    {blob : Bytes} (h : heap.get index = .ok blob) : heap'.get index = .ok blob := by
  obtain ⟨more, hmore⟩ := hgrown
  have hget := get_append h more
  rwa [hmore] at hget

/-- A blob that is added is found behind the heap. -/
theorem append_eq_ok {heap heap' : BlobHeap} {blob : Bytes} {index : Nat} (hblob : blob ≠ [])
    (h : heap.append blob = .ok (index, heap')) :
    index = heap.data.length ∧ heap.data <+: heap'.data ∧ heap'.get index = .ok blob := by
  rw [append, if_neg (by simpa using hblob)] at h
  obtain ⟨size, hsize, h⟩ := Outcome.bind_eq_ok.mp h
  obtain ⟨rfl, rfl⟩ := Prod.mk.inj (Outcome.pure_eq_ok.mp h)
  refine ⟨rfl, ⟨size ++ blob, (List.append_assoc ..).symm⟩, get_eq_ok.mpr ⟨size, [], ?_, ?_⟩⟩
  · rw [List.append_assoc, List.drop_left, List.append_nil]
  · exact Compressed.encode_form hsize

/-- A blob that is too long is not added. -/
theorem append_eq_error (heap : BlobHeap) {blob : Bytes} (h : Compressed.limit ≤ blob.length) :
    heap.append blob = .error (.malformed (.compressedRange blob.length)) := by
  have hlong : 0x20000000 ≤ blob.length := h
  have hempty : ¬blob.isEmpty = true := by
    intro hempty
    rw [List.isEmpty_iff.mp hempty] at hlong
    exact absurd hlong (by decide)
  rw [append, if_neg hempty, Compressed.encode_eq_error h, Outcome.error_bind]

/-- What is added stands behind what was there. -/
theorem append_prefix {heap heap' : BlobHeap} {blob : Bytes} {index : Nat}
    (h : heap.append blob = .ok (index, heap')) : heap.data <+: heap'.data := by
  by_cases hblob : blob = []
  · subst hblob
    have hsame := (Prod.mk.inj (Except.ok.inj h)).2
    exact hsame ▸ List.prefix_refl _
  · exact (append_eq_ok hblob h).2.1

/-- In a heap that begins with the empty blob, every blob is found where adding it told. -/
theorem get_of_append {heap heap' : BlobHeap} {blob : Bytes} {index : Nat}
    (hlead : heap.data.head? = some 0) (h : heap.append blob = .ok (index, heap')) :
    heap'.get index = .ok blob ∧ (index = 0 ∨ index = heap.data.length) := by
  by_cases hblob : blob = []
  · subst hblob
    obtain ⟨rfl, hsame⟩ := Prod.mk.inj (Except.ok.inj h)
    obtain ⟨rest, hrest⟩ := List.head?_eq_some_iff.mp hlead
    refine ⟨?_, .inl rfl⟩
    rw [← hsame, get_eq_ok]
    exact ⟨[0], rest, hrest, .one (by decide)⟩
  · obtain ⟨hindex, -, hget⟩ := append_eq_ok hblob h
    exact ⟨hget, .inr hindex⟩

end BlobHeap

end NativeExports
