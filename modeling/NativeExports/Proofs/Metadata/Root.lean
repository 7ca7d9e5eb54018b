import NativeExports.Metadata.Root
import NativeExports.Proofs.Outcome
import NativeExports.Proofs.Strings
import NativeExports.Proofs.Text.Utf8
import NativeExports.Proofs.Windows

/-!
# The root read back

The size of a root is computed apart from its bytes; the two agree.  A root that was written is read
back with its version, its flags and its directory, whatever follows it, as long as every stream of
the directory lies inside the metadata.
-/

namespace NativeExports

namespace Bytes

theorem pad4_eq (data : Bytes) : ∃ count ≤ 3, data.pad4 = data ++ zeros count :=
  ⟨_, by have := le_ceil4 data.length; omega, rfl⟩

@[simp]
theorem length_pad4 (data : Bytes) : data.pad4.length = ceil4 data.length := by
  have := le_ceil4 data.length
  rw [pad4, List.length_append, length_zeros]
  omega

/-- What follows a prefix that was dropped. -/
theorem drop_of_drop {data front rest : Bytes} {start : Nat} (stop : Nat)
    (h : data.drop start = front ++ rest) (hstop : start + front.length = stop) :
    data.drop stop = rest := by
  rw [← hstop, ← List.drop_drop, h, List.drop_left]

theorem field_of_drop {data rest : Bytes} {start width value : Nat}
    (h : data.drop start = leBytes width value ++ rest) (hvalue : value < 256 ^ width) :
    field data start width = value := by
  rw [field, h, List.take_left' (length_leBytes width value), leValue_leBytes,
    Nat.mod_eq_of_lt hvalue]

end Bytes

namespace StreamHeader

/-- An entry that can be stored: its numbers take four bytes, and its name has no zero and leaves
room for one. -/
structure Storable (header : StreamHeader) : Prop where
  offset : header.offset < 2 ^ 32
  size : header.size < 2 ^ 32
  noNul : 0 ∉ Utf8.encode header.name
  short : Utf8.size header.name < maxNameSize

theorem length_write (header : StreamHeader) : header.write.length = header.storedSize := by
  simp [write, storedSize, paddedNameSize, Utf8.size]
  omega

theorem read_write {header : StreamHeader} (h : header.Storable) (rest : Bytes) :
    read (header.write ++ rest) = .ok header := by
  obtain ⟨padding, -, hpad⟩ := Bytes.pad4_eq (Utf8.encode header.name ++ [0])
  have hdrop : (header.write ++ rest).drop 0 =
      Bytes.leBytes 4 header.offset ++ (Bytes.leBytes 4 header.size ++
        (Utf8.encode header.name ++ [0] ++ (Bytes.zeros padding ++ rest))) := by
    simp [write, hpad]
  have hdrop4 := Bytes.drop_of_drop 4 hdrop rfl
  have hdrop8 := Bytes.drop_of_drop 8 hdrop4 rfl
  have hshort := h.short
  unfold Utf8.size maxNameSize at hshort
  -- The name and its end are among the bytes that are searched.
  obtain ⟨more, hname⟩ : ∃ more, ((header.write ++ rest).drop 8).take maxNameSize =
      Utf8.encode header.name ++ [0] ++ more := by
    rw [hdrop8, List.take_append, List.take_of_length_le (by simp [maxNameSize]; omega)]
    exact ⟨_, rfl⟩
  have hlength : ((header.write ++ rest).take 9).length = 9 := by
    have hsize := header.length_write
    have hpadded := Bytes.le_ceil4 (Utf8.size header.name + 1)
    unfold storedSize paddedNameSize at hsize
    rw [List.length_take, List.length_append]
    omega
  unfold read
  rw [hlength, if_neg (by decide), hname]
  dsimp only
  rw [if_neg (by simp), Bytes.untilNul_terminated h.noNul, Utf8.decodeLossy_encode,
    Bytes.field_of_drop hdrop h.offset, Bytes.field_of_drop hdrop4 h.size]
  rfl

end StreamHeader

namespace Root

theorem length_write (version : String) (flags : Nat) (streams : List StreamHeader) :
    (write version flags streams).length = headerSize version (streams.map StreamHeader.name) := by
  have hstreams : ((streams.map StreamHeader.write).map List.length).sum =
      ((streams.map StreamHeader.name).map fun name =>
        8 + StreamHeader.paddedNameSize name).sum := by
    rw [List.map_map, List.map_map]
    congr 1
    exact List.map_congr_left fun header _ => header.length_write
  simp only [write, headerSize, List.flatMap_def, List.length_append, Bytes.length_leBytes,
    Bytes.length_pad4, List.length_flatten, hstreams, paddedVersionSize, Utf8.size,
    List.length_singleton]

theorem le_length_directory (streams : List StreamHeader) :
    streams.length * 9 ≤ (streams.flatMap StreamHeader.write).length := by
  induction streams with
  | nil => exact Nat.le_refl _
  | cons header streams ih =>
      have hpadded := Bytes.le_ceil4 (Utf8.size header.name + 1)
      rw [List.flatMap_cons, List.length_append, header.length_write, List.length_cons,
        StreamHeader.storedSize, StreamHeader.paddedNameSize]
      omega

/-- The stream lies inside metadata of `limit` bytes. -/
def Within (limit : Nat) (header : StreamHeader) : Prop :=
  header.offset + header.size ≤ limit ∧ header.offset + header.size < 2 ^ 32

theorem readStreams_write {limit : Nat} {streams : List StreamHeader}
    (hstorable : ∀ header ∈ streams, header.Storable)
    (hwithin : ∀ header ∈ streams, Within limit header)
    (rest : Bytes) :
    readStreams limit (streams.flatMap StreamHeader.write ++ rest) streams.length =
      .ok streams := by
  induction streams with
  | nil => rfl
  | cons header streams ih =>
      have hrest := ih (fun other hmem => hstorable other (.tail _ hmem))
        fun other hmem => hwithin other (.tail _ hmem)
      obtain ⟨hlimit, hword⟩ := hwithin header (.head _)
      rw [List.flatMap_cons, List.append_assoc, List.length_cons, readStreams,
        StreamHeader.read_write (hstorable header (.head _))]
      simp only [Outcome.ok_bind, if_neg (Nat.not_le.mpr hword), if_neg (Nat.not_lt.mpr hlimit)]
      rw [← header.length_write, List.drop_left, hrest]
      rfl

/-- A root that was written is read back, whatever follows it. -/
theorem read_write {version : String} {flags : Nat} {streams : List StreamHeader} {rest : Bytes}
    (hversion : '\x00' ∉ version.toList) (hflags : flags < 2 ^ 16)
    (hsize : paddedVersionSize version < 2 ^ 32) (hcount : 1 ≤ streams.length)
    (hcount' : streams.length < 2 ^ 16) (hstorable : ∀ header ∈ streams, header.Storable)
    (hwithin : ∀ header ∈ streams,
      Within (write version flags streams ++ rest).length header) :
    read (write version flags streams ++ rest) =
      .ok ⟨magic, 1, 1, 0, paddedVersionSize version, version, flags, streams⟩ := by
  generalize hdata : write version flags streams ++ rest = data at hwithin
  have hdrop : data.drop 0 = Bytes.leBytes 4 magic ++ (Bytes.leBytes 2 1 ++ (Bytes.leBytes 2 1 ++
      (Bytes.leBytes 4 0 ++ (Bytes.leBytes 4 (paddedVersionSize version) ++
        ((Utf8.encode version ++ [0]).pad4 ++ (Bytes.leBytes 2 flags ++
          (Bytes.leBytes 2 streams.length ++
            (streams.flatMap StreamHeader.write ++ rest)))))))) := by
    simp [← hdata, write]
  have hversionSize : ((Utf8.encode version ++ [0]).pad4).length = paddedVersionSize version := by
    simp [paddedVersionSize, Utf8.size]
  have hdrop4 := Bytes.drop_of_drop 4 hdrop rfl
  have hdrop6 := Bytes.drop_of_drop 6 hdrop4 rfl
  have hdrop8 := Bytes.drop_of_drop 8 hdrop6 rfl
  have hdrop12 := Bytes.drop_of_drop 12 hdrop8 rfl
  have hdrop16 := Bytes.drop_of_drop 16 hdrop12 rfl
  have hflagsAt := Bytes.drop_of_drop _ hdrop16 (congrArg (16 + ·) hversionSize)
  have hcountAt := Bytes.drop_of_drop (16 + paddedVersionSize version + 2) hflagsAt rfl
  have hstreamsAt := Bytes.drop_of_drop (16 + paddedVersionSize version + 4) hcountAt rfl
  have hlength : data.length = 16 + paddedVersionSize version + 4 +
      (streams.flatMap StreamHeader.write).length + rest.length := by
    simp only [← hdata, write, List.length_append, Bytes.length_leBytes, hversionSize]
  have hdirectory := le_length_directory streams
  obtain ⟨padding, -, hpad⟩ := Bytes.pad4_eq (Utf8.encode version ++ [0])
  unfold read
  dsimp only
  rw [if_neg (by omega), Bytes.field_of_drop hdrop (by decide), if_neg (by simp),
    Bytes.field_of_drop hdrop12 hsize, if_neg (by omega), Bytes.field_of_drop hcountAt hcount',
    if_neg (by omega), hstreamsAt, readStreams_write hstorable hwithin,
    Bytes.field_of_drop hdrop4 (by decide), Bytes.field_of_drop hdrop6 (by decide),
    Bytes.field_of_drop hdrop8 (by decide), Bytes.field_of_drop hflagsAt hflags, hdrop16,
    List.take_left' hversionSize, hpad,
    Bytes.untilNul_terminated (Utf8.zero_not_mem_encode hversion), Utf8.decodeLossy_encode]
  rfl

end Root

end NativeExports
