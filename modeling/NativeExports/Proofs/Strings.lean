import NativeExports.Metadata.StringHeap
import NativeExports.Proofs.Outcome
import NativeExports.Proofs.Text.Utf8

/-!
# Names in a growing heap

Names are only ever added behind the string heap, so an offset that resolves keeps resolving to the
same name, and a name that was stored is found at the offset that storing it told.
-/

namespace NativeExports

theorem Bytes.untilNul_append {data : Bytes} (h : 0 ∈ data) (more : Bytes) :
    untilNul (data ++ more) = untilNul data := by
  induction data with
  | nil => cases h
  | cons b rest ih =>
      unfold untilNul at ih ⊢
      by_cases hzero : b = 0
      · subst hzero
        rfl
      · have hrest : 0 ∈ rest := (List.mem_cons.mp h).resolve_left (Ne.symm hzero)
        have hpass : (b != 0) = true := bne_iff_ne.mpr hzero
        rw [List.cons_append, List.takeWhile_cons, List.takeWhile_cons, if_pos hpass, if_pos hpass,
          ih hrest]

theorem Bytes.untilNul_terminated {text : Bytes} (h : 0 ∉ text) (more : Bytes) :
    untilNul (text ++ [0] ++ more) = text := by
  unfold untilNul
  have hpass : ∀ b ∈ text, (b != 0) = true := by
    intro b hmem
    apply bne_iff_ne.mpr
    rintro rfl
    exact h hmem
  rw [List.append_assoc, List.takeWhile_append_of_pos hpass]
  exact List.append_nil text

/-- What is stored of a text reads as a text again, though it ends at the first character zero. -/
theorem Bytes.untilNul_encode (text : String) (more : Bytes) :
    ∃ front : String, untilNul (Utf8.encode text ++ [0] ++ more) = Utf8.encode front := by
  have hchars : ∀ chars : List Char, untilNul (chars.flatMap Utf8.encodeChar ++ [0] ++ more) =
      (chars.takeWhile (· != '\x00')).flatMap Utf8.encodeChar := by
    intro chars
    unfold untilNul
    induction chars with
    | nil => rfl
    | cons c chars ih =>
        by_cases hzero : c = '\x00'
        · subst hzero
          rfl
        · have hpass : ∀ b ∈ Utf8.encodeChar c, (b != 0) = true := fun b hmem =>
            bne_iff_ne.mpr fun heq => Utf8.zero_not_mem_encodeChar hzero (heq ▸ hmem)
          rw [List.flatMap_cons, List.append_assoc, List.append_assoc,
            List.takeWhile_append_of_pos hpass, List.takeWhile_cons, if_pos (bne_iff_ne.mpr hzero),
            List.flatMap_cons, ← ih, List.append_assoc]
  refine ⟨String.ofList (text.toList.takeWhile (· != '\x00')), ?_⟩
  rw [Utf8.encode, hchars, Utf8.encode, String.toList_ofList]

namespace StringHeap

theorem get_eq_ok {heap : StringHeap} {index : Nat} {name : String} :
    heap.get index = .ok name ↔ 0 ∈ heap.data.drop index ∧
      Utf8.decode (Bytes.untilNul (heap.data.drop index)) = .ok name := by
  unfold get
  by_cases hnul : 0 ∈ heap.data.drop index
  · have hne : (heap.data.drop index).isEmpty = false := by
      rw [List.isEmpty_eq_false_iff]
      exact List.ne_nil_of_mem hnul
    have hcontains : (heap.data.drop index).contains 0 = true := List.contains_iff_mem.mpr hnul
    simp only [hne, hcontains, Bool.false_eq_true, if_false, Bool.not_true]
    rcases Utf8.decode (Bytes.untilNul (heap.data.drop index)) with e | text
    · simp
    · simp [hnul]
  · have hcontains : (heap.data.drop index).contains 0 = false := by
      rw [← Bool.not_eq_true, List.contains_iff_mem]
      exact hnul
    simp only [hcontains, Bool.not_false, if_true]
    constructor
    · intro h
      split at h <;> cases h
    · exact fun h => absurd h.1 hnul

theorem lt_of_get {heap : StringHeap} {index : Nat} {name : String}
    (h : heap.get index = .ok name) :
    index < heap.data.length := by
  obtain ⟨hnul, -⟩ := get_eq_ok.mp h
  by_contra hlt
  rw [List.drop_eq_nil_of_le (Nat.le_of_not_lt hlt)] at hnul
  cases hnul

/-- What is added behind the heap leaves the names in it alone. -/
theorem get_of_prefix {heap heap' : StringHeap} (hgrown : heap.data <+: heap'.data) {index : Nat}
    {name : String} (h : heap.get index = .ok name) : heap'.get index = .ok name := by
  obtain ⟨more, hmore⟩ := hgrown
  obtain ⟨hnul, hname⟩ := get_eq_ok.mp h
  have hle : index ≤ heap.data.length := Nat.le_of_lt (lt_of_get h)
  rw [get_eq_ok, ← hmore, List.drop_append_of_le_length hle, Bytes.untilNul_append hnul]
  exact ⟨List.mem_append_left _ hnul, hname⟩

theorem find?_eq_some {pattern data : Bytes} {start index : Nat}
    (h : find? pattern start data = some index) :
    start ≤ index ∧ pattern <+: data.drop (index - start) := by
  induction data generalizing start with
  | nil => cases h
  | cons b rest ih =>
      unfold find? at h
      split at h
      · rename_i hhere
        obtain rfl := Option.some.inj h
        rw [Nat.sub_self]
        exact ⟨Nat.le_refl _, List.isPrefixOf_iff_prefix.mp hhere⟩
      · obtain ⟨hle, hfound⟩ := ih h
        have hshift : index - start = index - (start + 1) + 1 := by omega
        rw [hshift]
        exact ⟨by omega, hfound⟩

/-- A pattern that is not found stands nowhere. -/
theorem not_prefix_of_find? {pattern data : Bytes} {start : Nat} (hpattern : pattern ≠ [])
    (h : find? pattern start data = none) (index : Nat) : ¬pattern <+: data.drop index := by
  induction data generalizing start index with
  | nil =>
      rw [List.drop_nil, List.prefix_nil]
      exact hpattern
  | cons b rest ih =>
      unfold find? at h
      split at h
      · cases h
      · rename_i hhere
        cases index with
        | zero => exact fun hfound => hhere (List.isPrefixOf_iff_prefix.mpr hfound)
        | succ index => exact ih h index

theorem intern_prefix (heap : StringHeap) (name : String) :
    heap.data <+: (heap.intern name).2.data := by
  unfold intern
  split
  · exact List.prefix_refl _
  · dsimp only
    split
    · exact List.prefix_refl _
    · exact List.prefix_append _ _

/-- A name that the heap can hold and give back. -/
structure Storable (name : String) : Prop where
  nonempty : name.isEmpty = false
  noNul : 0 ∉ Utf8.encode name

/-- A name stands at an offset, with a NUL behind it. -/
def Holds (heap : StringHeap) (index : Nat) (name : String) : Prop :=
  Utf8.encode name ++ [0] <+: heap.data.drop index

/-- A name without a NUL is read back where it stands. -/
theorem Holds.get {heap : StringHeap} {index : Nat} {name : String} (h : heap.Holds index name)
    (hnul : 0 ∉ Utf8.encode name) : heap.get index = .ok name := by
  obtain ⟨more, hmore⟩ := h
  rw [get_eq_ok, ← hmore, Bytes.untilNul_terminated hnul]
  exact ⟨by simp, Utf8.decode_encode name⟩

/-- What is added behind the heap leaves the names in it where they stand. -/
theorem Holds.mono {heap heap' : StringHeap} {index : Nat} {name : String}
    (h : heap.Holds index name) (hgrown : heap.data <+: heap'.data) : heap'.Holds index name := by
  obtain ⟨more, hmore⟩ := hgrown
  rw [Holds, ← hmore, List.drop_append]
  exact List.IsPrefix.trans h (List.prefix_append _ _)

/-- A name that was stored stands where storing it told, with a NUL behind it. -/
theorem intern_entry {name : String} (hname : name.isEmpty = false) (heap : StringHeap) :
    (heap.intern name).2.Holds (heap.intern name).1 name := by
  unfold intern
  rw [if_neg (by simp [hname])]
  dsimp only
  split
  · rename_i index hfound
    exact (find?_eq_some hfound).2
  · exact ⟨[], by rw [List.drop_left, List.append_nil]⟩

/-- A name that stands somewhere with a NUL behind it is not stored again. -/
theorem intern_of_holds {heap : StringHeap} {index : Nat} {name : String}
    (h : heap.Holds index name) : (heap.intern name).2 = heap := by
  unfold intern
  split
  · rfl
  · dsimp only
    split
    · rfl
    · rename_i hnone
      exact absurd h (not_prefix_of_find? (by simp) hnone index)

/-- A name that stands nowhere is added behind the heap. -/
theorem intern_of_not_holds {heap : StringHeap} (hlead : heap.data.head? = some 0) {name : String}
    (h : ∀ index, ¬heap.Holds index name) :
    heap.intern name = (heap.data.length, ⟨heap.data ++ (Utf8.encode name ++ [0])⟩) := by
  unfold intern
  split
  · rename_i hempty
    obtain ⟨rest, hrest⟩ := List.head?_eq_some_iff.mp hlead
    obtain rfl := String.isEmpty_iff.mp hempty
    exact absurd ⟨rest, hrest.symm⟩ (h 0)
  · dsimp only
    split
    · rename_i index hfound
      exact absurd (find?_eq_some hfound).2 (h index)
    · rfl

/-- Any name that was stored stands where storing it told, the empty one at the lead of the heap. -/
theorem holds_intern {heap : StringHeap} (hlead : heap.data.head? = some 0) (name : String) :
    (heap.intern name).2.Holds (heap.intern name).1 name := by
  by_cases hname : name.isEmpty = true
  · obtain ⟨rest, hrest⟩ := List.head?_eq_some_iff.mp hlead
    obtain rfl := String.isEmpty_iff.mp hname
    exact ⟨rest, hrest.symm⟩
  · exact intern_entry (Bool.eq_false_iff.mpr hname) heap

/-- Whatever name is stored, some name is found there. -/
theorem exists_get_intern {heap : StringHeap} (hlead : heap.data.head? = some 0) (name : String) :
    ∃ found, (heap.intern name).2.get (heap.intern name).1 = .ok found := by
  obtain ⟨more, hmore⟩ := holds_intern hlead name
  obtain ⟨front, hfront⟩ := Bytes.untilNul_encode name more
  refine ⟨front, ?_⟩
  rw [get_eq_ok, ← hmore, hfront]
  exact ⟨by simp, Utf8.decode_encode front⟩

end StringHeap

end NativeExports
