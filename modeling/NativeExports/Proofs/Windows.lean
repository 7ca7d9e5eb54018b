import NativeExports.Bytes

/-!
# Windows of byte strings

What is read from a byte string depends on the bytes in some window of it only, and overwriting
changes the bytes of one window only.  Both facts are stated through the byte at a position, so that
questions about several reads and writes become questions about positions, which are numbers.
-/

namespace NativeExports.Bytes

theorem le_ceil4 (n : Nat) : n ≤ ceil4 n ∧ ceil4 n ≤ n + 3 ∧ ceil4 n % 4 = 0 := by
  unfold ceil4
  omega

/-- Two byte strings have the same bytes at the positions from `start` up to `stop`. -/
def SameOn (data other : Bytes) (start stop : Nat) : Prop :=
  ∀ p, start ≤ p → p < stop → other[p]? = data[p]?

theorem SameOn.mono {data other : Bytes} {start stop start' stop' : Nat}
    (h : SameOn data other start stop) (hstart : start ≤ start') (hstop : stop' ≤ stop) :
    SameOn data other start' stop' :=
  fun p hlo hhi => h p (by omega) (by omega)

theorem SameOn.trans {data other third : Bytes} {start stop : Nat}
    (h : SameOn data other start stop) (h' : SameOn other third start stop) :
    SameOn data third start stop :=
  fun p hlo hhi => (h' p hlo hhi).trans (h p hlo hhi)

theorem take_drop_eq_of_sameOn {data other : Bytes} {start count : Nat}
    (h : SameOn data other start (start + count)) :
    (other.drop start).take count = (data.drop start).take count := by
  apply List.ext_getElem?
  intro p
  simp only [List.getElem?_take, List.getElem?_drop]
  by_cases hp : p < count
  · rw [if_pos hp, if_pos hp]
    exact h (start + p) (by omega) (by omega)
  · rw [if_neg hp, if_neg hp]

theorem field_eq_of_sameOn {data other : Bytes} {start width : Nat}
    (h : SameOn data other start (start + width)) :
    field other start width = field data start width := by
  rw [field, field, take_drop_eq_of_sameOn h]

theorem field_drop (data : Bytes) (offset start width : Nat) :
    field (data.drop offset) start width = field data (offset + start) width := by
  rw [field, field, List.drop_drop]

theorem le?_eq_field {data : Bytes} {start width : Nat} (h : start + width ≤ data.length) :
    le? data width start = some (field data start width) := by
  rw [le?, slice?, if_pos h]
  rfl

theorem field_lt (data : Bytes) (start width : Nat) : field data start width < 256 ^ width := by
  have hlength : ((data.drop start).take width).length ≤ width := List.length_take_le _ _
  exact Nat.lt_of_lt_of_le (leValue_lt _) (Nat.pow_le_pow_right (by decide) hlength)

/-! ## Overwriting -/

theorem getElem?_overwrite {data content : Bytes} {start : Nat}
    (h : start + content.length ≤ data.length) (p : Nat) :
    (data.overwrite start content)[p]? =
      if start ≤ p ∧ p < start + content.length then content[p - start]? else data[p]? := by
  have htake : (data.take start).length = start := by
    rw [List.length_take]
    omega
  unfold overwrite
  by_cases hlo : p < start
  · rw [if_neg (by omega), List.append_assoc, List.getElem?_append_left (by omega),
      List.getElem?_take_of_lt hlo]
  · by_cases hhi : p < start + content.length
    · rw [if_pos (by omega), List.append_assoc, List.getElem?_append_right (by omega), htake,
        List.getElem?_append_left (by omega)]
    · rw [if_neg (by omega), List.getElem?_append_right (by simp; omega), List.getElem?_drop]
      congr 1
      simp only [List.length_append, htake]
      omega

/-- Overwriting leaves the bytes outside the written window alone. -/
theorem sameOn_overwrite {data content : Bytes} {at' start stop : Nat}
    (h : at' + content.length ≤ data.length)
    (hapart : stop ≤ at' ∨ at' + content.length ≤ start) :
    SameOn data (data.overwrite at' content) start stop := by
  intro p hlo hhi
  rw [getElem?_overwrite h, if_neg (by omega)]

/-- What was written can be read back. -/
theorem take_drop_overwrite {data content : Bytes} {start : Nat}
    (h : start + content.length ≤ data.length) :
    ((data.overwrite start content).drop start).take content.length = content := by
  apply List.ext_getElem?
  intro p
  rw [List.getElem?_take, List.getElem?_drop, getElem?_overwrite h]
  by_cases hp : p < content.length
  · rw [if_pos hp, if_pos (by omega), Nat.add_sub_cancel_left]
  · rw [if_neg hp, List.getElem?_eq_none (by omega)]

theorem field_overwrite_leBytes {data : Bytes} {start width value : Nat}
    (h : start + width ≤ data.length) (hv : value < 256 ^ width) :
    field (data.overwrite start (leBytes width value)) start width = value := by
  have hread : ((data.overwrite start (leBytes width value)).drop start).take
      (leBytes width value).length = leBytes width value := take_drop_overwrite (by simpa using h)
  rw [length_leBytes] at hread
  rw [field, hread, leValue_leBytes, Nat.mod_eq_of_lt hv]

/-! ## Changes -/

/-- Nothing changes but the bytes at some positions. -/
def ChangedOnly (data data' : Bytes) (inside : Nat → Prop) : Prop :=
  data'.length = data.length ∧ ∀ p, ¬inside p → data'[p]? = data[p]?

theorem ChangedOnly.refl (data : Bytes) (inside : Nat → Prop) : ChangedOnly data data inside :=
  ⟨rfl, fun _ _ => rfl⟩

theorem ChangedOnly.mono {data data' : Bytes} {inside inside' : Nat → Prop}
    (h : ChangedOnly data data' inside) (hsub : ∀ p, inside p → inside' p) :
    ChangedOnly data data' inside' :=
  ⟨h.1, fun p hp => h.2 p fun hin => hp (hsub p hin)⟩

theorem ChangedOnly.trans {data data' data'' : Bytes} {inside : Nat → Prop}
    (h : ChangedOnly data data' inside) (h' : ChangedOnly data' data'' inside) :
    ChangedOnly data data'' inside :=
  ⟨h'.1.trans h.1, fun p hp => (h'.2 p hp).trans (h.2 p hp)⟩

theorem ChangedOnly.sameOn {data data' : Bytes} {inside : Nat → Prop} {start stop : Nat}
    (h : ChangedOnly data data' inside) (hapart : ∀ p, start ≤ p → p < stop → ¬inside p) :
    SameOn data data' start stop :=
  fun p hlo hhi => h.2 p (hapart p hlo hhi)

theorem changedOnly_overwrite {data content : Bytes} {start : Nat}
    (h : start + content.length ≤ data.length) :
    ChangedOnly data (data.overwrite start content)
      fun p => start ≤ p ∧ p < start + content.length := by
  refine ⟨length_overwrite h, fun p hp => ?_⟩
  rw [getElem?_overwrite h, if_neg hp]

end NativeExports.Bytes
