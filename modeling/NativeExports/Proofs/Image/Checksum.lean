import Mathlib.Data.Nat.ModEq
import NativeExports.Assembly.Writing
import NativeExports.Proofs.Windows

/-!
# The checksum in one pass

Adding every carry back as it arises comes to the same as adding all words up and reducing the sum
once.  The number that represents a sum lies in one to 0xFFFF and is congruent to it; only the sum
zero is represented by zero.  The words of the checksum are left out, so the checksum of an image is
the same before and after it is stored.
-/

namespace NativeExports

namespace Checksum

/-- The 16-bit words of a byte string, low byte first.  An odd last byte is a word of its own. -/
def words : Bytes → List Nat
  | [] => []
  | [b] => [b.toNat]
  | low :: high :: rest => (low.toNat + 256 * high.toNat) :: words rest

/-- The words of an image without the two words of the checksum at `field`. -/
def countedWords (data : Bytes) (field : Nat) : List Nat :=
  (words data).take (field / 2) ++ (words data).drop (field / 2 + 2)

/-- The number of at most 16 bits that represents a sum of words. -/
def represent (total : Nat) : Nat :=
  if total = 0 then 0 else (total - 1) % 0xFFFF + 1

/-- A byte of an image that belongs to the checksum at `field`. -/
def InField (field p : Nat) : Prop :=
  field ≤ p ∧ p < field + 4

/-! ## Sums of words -/

theorem represent_pos {total : Nat} (h : total ≠ 0) : 1 ≤ represent total := by
  rw [represent, if_neg h]
  omega

theorem represent_le (total : Nat) : represent total ≤ 0xFFFF := by
  unfold represent
  split <;> omega

theorem represent_modEq (total : Nat) : represent total ≡ total [MOD 0xFFFF] := by
  unfold represent Nat.ModEq
  split <;> omega

/-- Adding a word with the carry added back takes the representative of a sum to the one of the next
sum. -/
theorem addWord_represent (total : Nat) {word : Nat} (hword : word ≤ 0xFFFF) :
    addWord (represent total) word = represent (total + word) := by
  have hle := represent_le total
  unfold addWord
  dsimp only
  by_cases hzero : total = 0
  · subst hzero
    rw [show represent 0 = 0 from rfl, Nat.zero_add, if_neg (by omega)]
    unfold represent
    split <;> omega
  · have hsum : total + word ≠ 0 := by omega
    rw [represent, if_neg hzero, represent, if_neg hsum]
    split <;> omega

theorem foldl_addWord (total : Nat) {ws : List Nat} (h : ∀ word ∈ ws, word ≤ 0xFFFF) :
    ws.foldl addWord (represent total) = represent (total + ws.sum) := by
  induction ws generalizing total with
  | nil => rfl
  | cons word ws ih =>
      obtain ⟨hword, hrest⟩ := List.forall_mem_cons.mp h
      rw [List.foldl_cons, addWord_represent total hword, ih (total + word) hrest, List.sum_cons,
        Nat.add_assoc]

theorem word_le (data : Bytes) : ∀ word ∈ words data, word ≤ 0xFFFF := by
  induction data using words.induct with
  | case1 => exact nofun
  | case2 b =>
      have hb := b.toNat_lt
      rw [words, List.forall_mem_singleton]
      omega
  | case3 low high rest ih =>
      have hlow := low.toNat_lt
      have hhigh := high.toNat_lt
      rw [words, List.forall_mem_cons]
      exact ⟨by omega, ih⟩

theorem countedWord_le (data : Bytes) (field : Nat) :
    ∀ word ∈ countedWords data field, word ≤ 0xFFFF := by
  intro word hmem
  apply word_le data
  rcases List.mem_append.mp hmem with hmem | hmem
  · exact List.mem_of_mem_take hmem
  · exact List.mem_of_mem_drop hmem

/-! ## One pass over an image -/

theorem isFieldWord_of_lt {field offset : Nat} (h : offset < field) :
    isFieldWord field offset = false := by
  simp [isFieldWord, h]

theorem isFieldWord_of_le {field offset : Nat} (h : field + 4 ≤ offset) :
    isFieldWord field offset = false := by
  simp [isFieldWord, h]

/-- Behind the checksum, every word is added. -/
theorem sumFrom_behind {field offset : Nat} (h : field + 4 ≤ offset) (sum : Nat) (data : Bytes) :
    sumFrom field offset sum data = (words data).foldl addWord sum := by
  induction data using words.induct generalizing offset sum with
  | case1 => rfl
  | case2 b =>
      rw [sumFrom, isFieldWord_of_le h]
      rfl
  | case3 low high rest ih =>
      rw [sumFrom, isFieldWord_of_le h]
      exact ih (by omega) _

/-- From the checksum on, two words are left out. -/
theorem sumFrom_field (field sum : Nat) (data : Bytes) :
    sumFrom field field sum data = ((words data).drop 2).foldl addWord sum := by
  have hfirst : isFieldWord field field = true := by simp [isFieldWord]
  have hsecond : isFieldWord field (field + 2) = true := by simp [isFieldWord]
  rcases data with _ | ⟨low, _ | ⟨high, rest⟩⟩
  · rfl
  · rw [sumFrom, hfirst]
    rfl
  · rw [sumFrom, hfirst]
    rcases rest with _ | ⟨low', _ | ⟨high', rest⟩⟩
    · rfl
    · rw [if_pos rfl, sumFrom, hsecond]
      rfl
    · rw [if_pos rfl, sumFrom, hsecond]
      exact sumFrom_behind (Nat.le_refl _) sum rest

/-- In front of the checksum, which is `count` words away, every word is added. -/
theorem sumFrom_before (count offset sum : Nat) (data : Bytes) :
    sumFrom (offset + 2 * count) offset sum data =
      ((words data).take count ++ (words data).drop (count + 2)).foldl addWord sum := by
  induction count generalizing offset sum data with
  | zero => exact sumFrom_field offset sum data
  | succ count ih =>
      have hfront : isFieldWord (offset + 2 * (count + 1)) offset = false :=
        isFieldWord_of_lt (by omega)
      rcases data with _ | ⟨low, _ | ⟨high, rest⟩⟩
      · rfl
      · rw [sumFrom, hfront]
        simp [words]
      · rw [sumFrom, hfront, show offset + 2 * (count + 1) = offset + 2 + 2 * count by omega]
        exact ih (offset + 2) _ rest

theorem compute_eq {field : Nat} (heven : 2 ∣ field) (data : Bytes) :
    compute data field =
      (represent (countedWords data field).sum + data.length) % 2 ^ 32 := by
  have hsum : sumFrom field 0 0 data = (countedWords data field).foldl addWord 0 := by
    have h := sumFrom_before (field / 2) 0 0 data
    rwa [Nat.zero_add, Nat.mul_div_cancel' heven] at h
  rw [compute, hsum, ← Nat.zero_add (countedWords data field).sum,
    ← foldl_addWord 0 (countedWord_le data field)]
  rfl

/-! ## What the checksum depends on -/

/-- A word consists of two bytes, or of the last one. -/
theorem getElem?_words (data : Bytes) (n : Nat) :
    (words data)[n]? =
      data[2 * n]?.map fun low => low.toNat + 256 * (data[2 * n + 1]?.map UInt8.toNat).getD 0 := by
  induction data using words.induct generalizing n with
  | case1 => rfl
  | case2 b =>
      rcases n with _ | n
      · simp [words]
      · rw [words, List.getElem?_eq_none (by simp), List.getElem?_eq_none (by simp)]
        rfl
  | case3 low high rest ih =>
      rcases n with _ | n
      · simp [words]
      · rw [words, List.getElem?_cons_succ, ih, show 2 * (n + 1) = 2 * n + 1 + 1 by omega]
        rfl

theorem countedWords_congr {field : Nat} (heven : 2 ∣ field) {data other : Bytes}
    (h : Bytes.ChangedOnly data other (InField field)) :
    countedWords other field = countedWords data field := by
  obtain ⟨count, rfl⟩ := heven
  have hword : ∀ n, n < count ∨ count + 2 ≤ n → (words other)[n]? = (words data)[n]? := by
    intro n hn
    rw [getElem?_words, getElem?_words, h.2 (2 * n) (by unfold InField; omega),
      h.2 (2 * n + 1) (by unfold InField; omega)]
  unfold countedWords
  rw [Nat.mul_div_cancel_left count (by decide)]
  congr 1
  · apply List.ext_getElem?
    intro n
    rw [List.getElem?_take, List.getElem?_take]
    split
    · exact hword n (by omega)
    · rfl
  · apply List.ext_getElem?
    intro n
    rw [List.getElem?_drop, List.getElem?_drop]
    exact hword _ (by omega)

theorem compute_congr {field : Nat} (heven : 2 ∣ field) {data other : Bytes}
    (h : Bytes.ChangedOnly data other (InField field)) :
    compute other field = compute data field := by
  rw [compute_eq heven, compute_eq heven, countedWords_congr heven h, h.1]

/-! ## The stored checksum -/

section

open Assembly

variable {field : Nat} {image : Image} {output : Output}

/-- The checksum that is stored is the one that the output has afterwards. -/
theorem exists_stampChecksum (heven : 2 ∣ field)
    (hfield : image.optionalHeaderOffset + checksumOffset = field)
    (hfits : field + 4 ≤ output.content.length) :
    ∃ stamped, stampChecksum image output = .ok stamped ∧
      stamped.content.le? 4 field = some (compute stamped.content field) := by
  let value := compute output.content field
  let content := output.content.overwrite field (Bytes.leBytes 4 value)
  have hroom : field + (Bytes.leBytes 4 value).length ≤ output.content.length := by
    rwa [Bytes.length_leBytes]
  have hvalue : value < 256 ^ 4 := Nat.mod_lt _ (by decide)
  have hchanged : Bytes.ChangedOnly output.content content (InField field) := by
    have h := Bytes.changedOnly_overwrite hroom
    rwa [Bytes.length_leBytes] at h
  have hlength : field + 4 ≤ content.length := hchanged.1 ▸ hfits
  refine ⟨{ output with content }, ?_, ?_⟩
  · unfold stampChecksum
    rw [hfield, Output.writeLe, Output.write, Bytes.overwrite?, if_pos hroom]
  · rw [Bytes.le?_eq_field hlength, Bytes.field_overwrite_leBytes hfits hvalue,
      compute_congr heven hchanged]

theorem stampChecksum_eq_error (hfield : image.optionalHeaderOffset + checksumOffset = field)
    (hshort : output.content.length < field + 4) :
    stampChecksum image output =
      .error (.layout (.write 4 field output.content.length)) := by
  unfold stampChecksum
  rw [hfield, Output.writeLe, Output.write, Bytes.overwrite?, if_neg (by simp; omega)]
  rfl

end

/-- The checksum is the size of the image and the number that represents the sum of its words
outside the checksum.  It does not depend on the checksum that the image has, so an output has the
checksum that was stored in it. -/
theorem compute_reduces_once {field : Nat} (heven : 2 ∣ field) :
    (∀ data, ∃ c, ((countedWords data field).sum = 0 → c = 0) ∧
      ((countedWords data field).sum ≠ 0 →
        (1 ≤ c ∧ c ≤ 0xFFFF) ∧ c ≡ (countedWords data field).sum [MOD 0xFFFF]) ∧
      compute data field = (c + data.length) % 2 ^ 32) ∧
    (∀ data other, Bytes.ChangedOnly data other (InField field) →
      compute other field = compute data field) ∧
    ∀ (image : Image) (output : Output),
      image.optionalHeaderOffset + Assembly.checksumOffset = field →
        (field + 4 ≤ output.content.length →
          ∃ stamped, Assembly.stampChecksum image output = .ok stamped ∧
            stamped.content.le? 4 field = some (compute stamped.content field)) ∧
        (output.content.length < field + 4 → Assembly.stampChecksum image output =
          .error (.layout (.write 4 field output.content.length))) := by
  refine ⟨fun data => ?_, fun data other => compute_congr heven, fun image output hfield => ?_⟩
  · refine ⟨represent (countedWords data field).sum, fun hzero => ?_, fun hsum => ?_,
      compute_eq heven data⟩
    · rw [hzero]
      rfl
    · exact ⟨⟨represent_pos hsum, represent_le _⟩, represent_modEq _⟩
  · exact ⟨exists_stampChecksum heven hfield, stampChecksum_eq_error hfield⟩

/-- An image whose headers begin at 64. -/
def headersAt64 : Image where
  data := []
  machine := 0
  characteristics := 0
  is64 := false
  peOffset := 64
  sectionTableOffset := 0
  fileAlignment := 1
  sectionAlignment := 1
  headersSize := 0
  sections := []
  cli := (0, 0)
  debug := none

/-- An output of odd size whose words add up to a carry, with an old checksum at 152. -/
def carryingOutput : Output where
  target := ""
  temporary := ""
  content := [0xFF, 0xFF, 0x02, 0x00] ++ Bytes.zeros 148 ++ [0xDE, 0xAD, 0xBE, 0xEF, 0x05]

/-- The words 0xFFFF, 2 and 5 make 7, whatever the old checksum is, and the size is 157. -/
theorem compute_reduces_once_carrying :
    2 ∣ 152 ∧ compute carryingOutput.content 152 = 7 + 157 ∧
      (∃ c, (1 ≤ c ∧ c ≤ 0xFFFF) ∧ c ≡ 0xFFFF + 2 + 5 [MOD 0xFFFF] ∧
        compute carryingOutput.content 152 = (c + 157) % 2 ^ 32) ∧
      ∃ stamped, Assembly.stampChecksum headersAt64 carryingOutput = .ok stamped ∧
        stamped.content.le? 4 152 = some (compute stamped.content 152) := by
  have heven : 2 ∣ 152 := by decide
  have hsum : (countedWords carryingOutput.content 152).sum = 0xFFFF + 2 + 5 := by decide +kernel
  obtain ⟨hreduced, -, hstored⟩ := compute_reduces_once heven
  obtain ⟨c, -, hc, hcompute⟩ := hreduced carryingOutput.content
  rw [hsum] at hc
  obtain ⟨hrange, hmod⟩ := hc (by decide)
  exact ⟨heven, by decide +kernel, ⟨c, hrange, hmod, hcompute⟩,
    (hstored headersAt64 carryingOutput rfl).1 (by decide +kernel)⟩

end Checksum

end NativeExports
