import Mathlib.Logic.Relation
import NativeExports.Proofs.Editing.Additions
import NativeExports.Proofs.Metadata.Block

/-!
# Offsets into the heaps

While an assembly is edited, rows and drafts of rows hold offsets into the heaps of names and blobs.
Whatever an edit does, it only makes these heaps longer, and the metadata that is written has them
as they are with some zeros behind.  So an offset leads to the same name or blob for good.

The main statement, `offsets_stay_valid`, looks at an assembly in the middle of any sequence of
steps: what is found there is found in the end and in the streams of the metadata, and what is
stored there can be found from then on.
-/

namespace NativeExports

/-! ## Heaps -/

/-- A heap begins with an empty entry, and so it can be read. -/
theorem head?_of_heapBytes {lead : Malformation} {stored data : Bytes}
    (h : heapBytes lead stored = .ok data) : data.head? = some 0 := by
  unfold heapBytes at h
  split at h
  · exact Except.ok.inj h ▸ rfl
  · split at h
    · rename_i hzero
      obtain rfl := Except.ok.inj h
      exact congrArg some hzero
    · cases h

theorem heapBytes_of_head? {lead : Malformation} {data : Bytes} (h : data.head? = some 0) :
    heapBytes lead data = .ok data := by
  obtain ⟨rest, rfl⟩ := List.head?_eq_some_iff.mp h
  rfl

/-- A buffer is left alone if the number cannot be put behind it. -/
theorem Compressed.push_eq (n : Nat) (buffer : Bytes) :
    push n buffer = match encode n with
      | .ok front => (.ok (), buffer ++ front)
      | .error e => (.error e, buffer) := by
  unfold push encode
  split_ifs <;> rfl

namespace BlobHeap

/-- A heap is left alone if a blob cannot be added. -/
theorem appendInPlace_eq (heap : BlobHeap) (blob : Bytes) :
    heap.appendInPlace blob = match heap.append blob with
      | .ok (index, heap') => (.ok index, heap')
      | .error e => (.error e, heap) := by
  unfold appendInPlace append
  by_cases hempty : blob.isEmpty = true
  · simp only [hempty, if_true]
  · simp only [hempty, Bool.false_eq_true, if_false, Compressed.push_eq]
    cases Compressed.encode blob.length <;> rfl

theorem appendInPlace_prefix (heap : BlobHeap) (blob : Bytes) :
    heap.data <+: (heap.appendInPlace blob).2.data := by
  rw [appendInPlace_eq]
  cases happend : heap.append blob with
  | ok result => exact append_prefix happend
  | error e => exact List.prefix_refl _

end BlobHeap

namespace Assembly

variable {first before middle after last : Assembly} {name : String} {blob : Bytes} {index : Nat}

/-! ## Steps of an edit -/

/-- A step of an edit, as far as the heaps of names and blobs are concerned. -/
inductive HeapStep : Assembly → Assembly → Prop
  /-- A name is stored, or found. -/
  | intern (before : Assembly) (name : String) :
      HeapStep before { before with strings := (before.strings.intern name).2 }
  /-- A blob is added, or turns out to be too long. -/
  | append (before : Assembly) (blob : Bytes) :
      HeapStep before { before with blobs := (before.blobs.appendInPlace blob).2 }
  /-- The signature of a row is renumbered, wherever other signatures went. -/
  | signature {before : Assembly} {renumbering : Renumbering} {site : SignatureColumn} {row : Nat}
      {moved : List (Nat × Nat)} {state : SignatureRenumbering}
      (h : renumberSignature renumbering site ⟨before.tables, before.blobs, moved⟩ row =
        .ok state) :
      HeapStep before { before with tables := state.tables, blobs := state.blobs }
  /-- Anything else is changed. -/
  | elsewhere {before after : Assembly} (hstrings : after.strings = before.strings)
      (hblobs : after.blobs = before.blobs) : HeapStep before after

/-- Any sequence of steps. -/
abbrev HeapSession : Assembly → Assembly → Prop :=
  Relation.ReflTransGen HeapStep

/-- Everything in the heaps is found with an offset of 32 bits. -/
def HeapsFit (assembly : Assembly) : Prop :=
  assembly.strings.data.length < 2 ^ 32 ∧ assembly.blobs.data.length < 2 ^ 32

/-- The heaps of an assembly have only become longer. -/
structure HeapsGrow (before after : Assembly) : Prop where
  strings : before.strings.data <+: after.strings.data
  blobs : before.blobs.data <+: after.blobs.data

theorem HeapsGrow.refl (assembly : Assembly) : HeapsGrow assembly assembly :=
  ⟨List.prefix_refl _, List.prefix_refl _⟩

theorem HeapsGrow.trans (h : HeapsGrow before middle) (h' : HeapsGrow middle after) :
    HeapsGrow before after :=
  ⟨h.strings.trans h'.strings, h.blobs.trans h'.blobs⟩

theorem moveSignature_prefix {renumbering : Renumbering} {shape : BlobForm}
    {state state' : SignatureRenumbering} {new : Nat}
    (h : moveSignature renumbering shape state index = .ok (new, state')) :
    state.blobs.data <+: state'.blobs.data := by
  rcases moveSignature_cases h with ⟨-, rfl⟩ |
    ⟨blob, updated, blobs, -, -, -, rfl, ⟨-, -, rfl⟩ | ⟨-, happend⟩⟩
  · exact List.prefix_refl _
  · exact List.prefix_refl _
  · exact BlobHeap.append_prefix happend

theorem renumberSignature_prefix {renumbering : Renumbering} {site : SignatureColumn}
    {state state' : SignatureRenumbering} {row : Nat}
    (h : renumberSignature renumbering site state row = .ok state') :
    state.blobs.data <+: state'.blobs.data := by
  unfold renumberSignature at h
  obtain ⟨index, -, h⟩ := Outcome.bind_eq_ok.mp h
  split at h
  · exact Outcome.pure_eq_ok.mp h ▸ List.prefix_refl _
  obtain ⟨⟨new, moved⟩, hmoved, h⟩ := Outcome.bind_eq_ok.mp h
  have hgrown : state.blobs.data <+: moved.blobs.data := moveSignature_prefix hmoved
  dsimp only at h
  split at h
  · exact Outcome.pure_eq_ok.mp h ▸ hgrown
  · obtain ⟨tables, -, h⟩ := Outcome.bind_eq_ok.mp h
    exact Outcome.pure_eq_ok.mp h ▸ hgrown

/-- No step takes anything out of the heaps. -/
theorem HeapStep.grow (h : HeapStep before after) : HeapsGrow before after := by
  cases h with
  | intern name => exact ⟨StringHeap.intern_prefix _ name, List.prefix_refl _⟩
  | append blob => exact ⟨List.prefix_refl _, BlobHeap.appendInPlace_prefix _ blob⟩
  | signature h => exact ⟨List.prefix_refl _, renumberSignature_prefix h⟩
  | elsewhere hstrings hblobs =>
      constructor
      · rw [hstrings]
      · rw [hblobs]

/-- Nor does any sequence of steps. -/
theorem heapsGrow_of_session (h : HeapSession before after) : HeapsGrow before after := by
  induction h with
  | refl => exact .refl before
  | tail _ hstep ih => exact ih.trans hstep.grow

/-! ## What the operations on assemblies do -/

/-- Renumbering signatures is a sequence of steps, one for each row. -/
theorem heapSession_of_renumberSignatures {renumbering : Renumbering}
    (h : renumberSignatures renumbering before = .ok after) : HeapSession before after := by
  obtain ⟨state, hstate, h⟩ := Outcome.bind_eq_ok.mp h
  obtain rfl := Outcome.pure_eq_ok.mp h
  -- For the columns as well as for the rows of one column: what has been done so far is a session.
  refine Outcome.foldlM_preserves (motive := fun state : SignatureRenumbering =>
    HeapSession before { before with tables := state.tables, blobs := state.blobs }) ?_ .refl hstate
  intro site _ first second hfirst hsecond
  refine Outcome.foldlM_preserves (motive := fun state : SignatureRenumbering =>
    HeapSession before { before with tables := state.tables, blobs := state.blobs }) ?_
      hfirst hsecond
  intro row _ state state' hbefore hstep
  have hrow := @HeapStep.signature { before with tables := state.tables, blobs := state.blobs }
    renumbering site row state.moved state' hstep
  exact hbefore.tail hrow

theorem heapSession_of_renumber {renumbering : Renumbering} {inserted : List Row}
    (h : before.renumber renumbering inserted = .ok after) : HeapSession before after := by
  obtain ⟨arranged, renewed, entryPoint, addedBodies, middle, -, -, -, -, hpatched, hresigned⟩ :=
    renumber_eq_ok h
  obtain ⟨image, addedBodies', rfl, -⟩ := patched_eq_ok hpatched
  have hrows : HeapStep before
      { before.withTables renewed entryPoint addedBodies with
        image, addedBodies := addedBodies' } :=
    .elsewhere rfl rfl
  unfold resigned at hresigned
  split at hresigned
  · exact (heapSession_of_renumberSignatures hresigned).head hrows
  · obtain rfl := Except.ok.inj hresigned
    exact .single hrows

/-! ## Offsets -/

/-- Whatever is found in the heaps of an assembly is found in other heaps at the same offset, which
takes 32 bits. -/
structure OffsetsKept (assembly : Assembly) (strings : StringHeap) (blobs : BlobHeap) : Prop where
  names : ∀ index name, assembly.strings.get index = .ok name →
    index < 2 ^ 32 ∧ strings.get index = .ok name
  blobs : ∀ index blob, assembly.blobs.get index = .ok blob →
    index < 2 ^ 32 ∧ blobs.get index = .ok blob

/-- A name that is stored is found where storing it told, and it takes new room only if it stood
nowhere. -/
structure CanStoreName (heap : StringHeap) (name : String) : Prop where
  found : (heap.intern name).2.get (heap.intern name).1 = .ok name
  fits : (heap.intern name).1 < 2 ^ 32
  /-- The heap stays as it is if the name stands anywhere, with a NUL behind it. -/
  reused : (∃ index, heap.Holds index name) → (heap.intern name).2 = heap
  /-- Otherwise the name is put behind the heap. -/
  added : (∀ index, ¬heap.Holds index name) →
    heap.intern name = (heap.data.length, ⟨heap.data ++ (Utf8.encode name ++ [0])⟩)

/-- A blob that is added is found where adding it told; one that is too long leaves the heap
alone. -/
inductive CanAddBlob (heap : BlobHeap) (blob : Bytes) : Prop
  | added {index : Nat} {heap' : BlobHeap} (hshort : blob.length < Compressed.limit)
      (h : heap.appendInPlace blob = (.ok index, heap')) (hgrown : heap.data <+: heap'.data)
      (hfits : index < 2 ^ 32) (hfound : heap'.get index = .ok blob)
  | refused {e : Error} (hlong : Compressed.limit ≤ blob.length)
      (h : heap.appendInPlace blob = (.error e, heap))

/-- The streams of the metadata in `data` have heaps in which whatever is found in an assembly is
found at the same offset. -/
def KeptIn (assembly : Assembly) (streams : List StreamHeader) (data : Bytes) : Prop :=
  ∃ strings blobs,
    (∀ header ∈ streams, header.name = "#Strings" →
      StringHeap.ofBytes (header.bytesIn data) = .ok strings) ∧
    (∀ header ∈ streams, header.name = "#Blob" →
      BlobHeap.ofBytes (header.bytesIn data) = .ok blobs) ∧
    assembly.OffsetsKept strings blobs

theorem offsetsKept_of_grown (hfits : before.HeapsFit) {strings : StringHeap} {blobs : BlobHeap}
    (hstrings : before.strings.data <+: strings.data) (hblobs : before.blobs.data <+: blobs.data) :
    before.OffsetsKept strings blobs := by
  constructor
  · intro index name hget
    exact ⟨(StringHeap.lt_of_get hget).trans hfits.1, StringHeap.get_of_prefix hstrings hget⟩
  · intro index blob hget
    exact ⟨(BlobHeap.lt_of_get hget).trans hfits.2, BlobHeap.get_of_prefix hblobs hget⟩

theorem HeapsFit.of_grow (h : after.HeapsFit) (hgrow : HeapsGrow before after) : before.HeapsFit :=
  ⟨hgrow.strings.length_le.trans_lt h.1, hgrow.blobs.length_le.trans_lt h.2⟩

theorem canStoreName {heap : StringHeap} (hlead : heap.data.head? = some 0)
    (hfits : heap.data.length < 2 ^ 32) (hname : '\x00' ∉ name.toList) :
    CanStoreName heap name where
  found := by
    apply (StringHeap.holds_intern hlead name).get
    exact Utf8.zero_not_mem_encode hname
  fits := by
    by_cases hholds : ∃ index, heap.Holds index name
    · -- The name takes no room, so it was found in the heap that fits.
      obtain ⟨index, hholds⟩ := hholds
      have hget := (StringHeap.holds_intern hlead name).get (Utf8.zero_not_mem_encode hname)
      rw [StringHeap.intern_of_holds hholds] at hget
      exact (StringHeap.lt_of_get hget).trans hfits
    · rw [StringHeap.intern_of_not_holds hlead (not_exists.mp hholds)]
      exact hfits
  reused := fun ⟨_, hholds⟩ => StringHeap.intern_of_holds hholds
  added := StringHeap.intern_of_not_holds hlead

theorem canAddBlob {heap : BlobHeap} (hlead : heap.data.head? = some 0)
    (hfits : heap.data.length < 2 ^ 32) (blob : Bytes) : CanAddBlob heap blob := by
  by_cases hshort : blob.length < Compressed.limit
  · obtain ⟨index, more, happend⟩ := @BlobHeap.exists_append heap blob hshort
    obtain ⟨hget, hindex⟩ := BlobHeap.get_of_append hlead happend
    refine .added hshort ?_ (BlobHeap.append_prefix happend) ?_ hget
    · rw [BlobHeap.appendInPlace_eq, happend]
    · obtain rfl | rfl := hindex
      · decide
      · exact hfits
  · have hlong : Compressed.limit ≤ blob.length := Nat.le_of_not_lt hshort
    refine .refused hlong (e := .malformed (.compressedRange blob.length)) ?_
    rw [BlobHeap.appendInPlace_eq, BlobHeap.append_eq_error heap hlong]

/-- A block of metadata has the heaps of an assembly with zeros behind, which changes no entry. -/
theorem keptIn_of_build {version : String} {flags : Nat} {tables : Tables} {data : Bytes}
    (hleads : last.strings.data.head? = some 0 ∧ last.blobs.data.head? = some 0)
    (hgrow : HeapsGrow middle last) (hfits : middle.HeapsFit)
    (h : Metadata.build version flags tables last.heaps = .ok data) :
    ∃ streams, Root.write version flags streams <+: data ∧
      streams.map StreamHeader.name = Metadata.streamNames last.heaps ∧
        middle.KeptIn streams data := by
  obtain ⟨streams, hfront, hnames, hbytes⟩ := Metadata.exists_directory_of_build h
  have hstrings : last.strings.data <+: last.strings.data.pad4 := List.prefix_append _ _
  have hblobs : last.blobs.data <+: last.blobs.data.pad4 := List.prefix_append _ _
  refine ⟨streams, hfront, hnames, ⟨last.strings.data.pad4⟩, ⟨last.blobs.data.pad4⟩, ?_, ?_, ?_⟩
  · intro header hmem hname
    have hcontent : (header.name, last.strings.data) ∈ Metadata.named last.heaps := by
      simp [hname, Metadata.named, heaps]
    rw [hbytes header hmem _ hcontent]
    exact congrArg (StringHeap.mk <$> ·) (heapBytes_of_head? (head?_of_grown hleads.1 hstrings))
  · intro header hmem hname
    have hcontent : (header.name, last.blobs.data) ∈ Metadata.named last.heaps := by
      simp [hname, Metadata.named, heaps]
    rw [hbytes header hmem _ hcontent]
    exact congrArg (BlobHeap.mk <$> ·) (heapBytes_of_head? (head?_of_grown hleads.2 hblobs))
  · exact offsetsKept_of_grown hfits (hgrow.strings.trans hstrings) (hgrow.blobs.trans hblobs)

/-- Offsets into the heaps stay valid through any sequence of steps and in the metadata that is
written in the end, as long as the heaps do not outgrow offsets of 32 bits.  What is stored in the
middle of the steps can be found from then on. -/
theorem offsets_stay_valid {strings blobs : Bytes}
    (hstrings : StringHeap.ofBytes strings = .ok first.strings)
    (hblobs : BlobHeap.ofBytes blobs = .ok first.blobs)
    (hbefore : HeapSession first middle) (hafter : HeapSession middle last)
    (hfits : last.HeapsFit) :
    middle.OffsetsKept last.strings last.blobs ∧
    (∀ name, '\x00' ∉ name.toList → CanStoreName middle.strings name) ∧
    (∀ blob, CanAddBlob middle.blobs blob) ∧
    ∀ version flags tables data, Metadata.build version flags tables last.heaps = .ok data →
      ∃ streams, Root.write version flags streams <+: data ∧
        streams.map StreamHeader.name = Metadata.streamNames last.heaps ∧
          middle.KeptIn streams data := by
  have hgrown : HeapsGrow first middle := heapsGrow_of_session hbefore
  have hgrow : HeapsGrow middle last := heapsGrow_of_session hafter
  have hmiddle : middle.HeapsFit := hfits.of_grow hgrow
  have hlead : middle.strings.data.head? = some 0 := by
    obtain ⟨stored, hstored, hfirst⟩ := Outcome.map_eq_ok.mp hstrings
    exact head?_of_grown (hfirst ▸ head?_of_heapBytes hstored) hgrown.strings
  have hlead' : middle.blobs.data.head? = some 0 := by
    obtain ⟨stored, hstored, hfirst⟩ := Outcome.map_eq_ok.mp hblobs
    exact head?_of_grown (hfirst ▸ head?_of_heapBytes hstored) hgrown.blobs
  refine ⟨offsetsKept_of_grown hmiddle hgrow.strings hgrow.blobs, ?_, ?_, ?_⟩
  · intro name hname
    exact canStoreName hlead hmiddle.1 hname
  · intro blob
    exact canAddBlob hlead' hmiddle.2 blob
  · intro version flags tables data h
    have hleads : last.strings.data.head? = some 0 ∧ last.blobs.data.head? = some 0 :=
      ⟨head?_of_grown hlead hgrow.strings, head?_of_grown hlead' hgrow.blobs⟩
    exact keptIn_of_build hleads hgrow hmiddle h

/-- A field of the second referenced type.  The last name, `Inv`, has no end. -/
def withOpenName : Assembly :=
  { withAddedLocals with
    tables := (Tables.empty.setRows .typeRef [[0, 1, 0], [0, 1, 0]]).setRows .field [[0, 1, 1]]
    strings := ⟨[0, 77, 97, 105, 110, 0, 73, 110, 118]⟩
    blobs := ⟨[0, 3, 6, 0x12, 9]⟩
    addedBodies := [] }

/-- The assembly once `in` and `oke` are stored, the first one as the tail of a name that is
there. -/
def withClosedName : Assembly :=
  { withOpenName with
    strings := ((withOpenName.strings.intern "in").2.intern "oke").2 }

/-- Storing the second name ends the open one, and its offset has been valid since.  Taking the
first type out then renumbers the signature of the field. -/
theorem offsets_stay_valid_withClosedName :
    withClosedName.strings.get 6 = .ok "Invoke" ∧
      ∃ last, withClosedName.renumber (.removal .typeRef 2 [1]) [] = .ok last ∧
        last.blobs.data = [0, 3, 6, 0x12, 9, 3, 6, 0x12, 5] ∧
          withClosedName.OffsetsKept last.strings last.blobs := by
  have hbefore : HeapSession withOpenName withClosedName :=
    .tail (.single (.intern withOpenName "in")) (.intern _ "oke")
  have hrenumbered : (withClosedName.renumber (.removal .typeRef 2 [1]) []).toOption.map
      (fun last => last.blobs.data) = some [0, 3, 6, 0x12, 9, 3, 6, 0x12, 5] := by
    cbv
  obtain ⟨last, hlast, hdata⟩ := Option.map_eq_some_iff.mp hrenumbered
  have hrenumber : withClosedName.renumber (.removal .typeRef 2 [1]) [] = .ok last :=
    Outcome.eq_ok_of_toOption hlast
  have hfits : last.HeapsFit := by
    rw [HeapsFit, hdata, (heaps_of_renumber hrenumber).1]
    decide +kernel
  have hstrings : StringHeap.ofBytes withOpenName.strings.data = .ok withOpenName.strings := rfl
  have hblobs : BlobHeap.ofBytes withOpenName.blobs.data = .ok withOpenName.blobs := rfl
  have hvalid :=
    offsets_stay_valid hstrings hblobs hbefore (heapSession_of_renumber hrenumber) hfits
  exact ⟨by decide +kernel, last, hrenumber, hdata, hvalid.1⟩

end Assembly

end NativeExports
