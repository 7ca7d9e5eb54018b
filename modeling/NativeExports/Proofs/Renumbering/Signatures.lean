import NativeExports.Assembly.Renumber
import NativeExports.Proofs.Compressed
import NativeExports.Proofs.Tables

/-!
# Renumbering signatures

Renumbering signatures writes columns that hold signatures and adds blobs behind the heap.  Nothing
else of the assembly changes.
-/

namespace NativeExports.Assembly

/-- A blob that was seen is where it was put then.  Any other stays where it is if its tokens do, or
goes behind the heap, and this is remembered. -/
theorem moveSignature_cases {renumbering : Renumbering} {shape : BlobForm}
    {state state' : SignatureRenumbering} {index new : Nat}
    (h : moveSignature renumbering shape state index = .ok (new, state')) :
    (state.moved.lookup index = some new ∧ state' = state) ∨
    ∃ blob updated blobs, state.moved.lookup index = none ∧ state.blobs.get index = .ok blob ∧
      shape.mapTokens renumbering.newToken blob = .ok updated ∧
      state' = { state with blobs, moved := (index, new) :: state.moved } ∧
      (updated = blob ∧ new = index ∧ blobs = state.blobs ∨
        updated ≠ blob ∧ state.blobs.append updated = .ok (new, blobs)) := by
  unfold moveSignature at h
  split at h
  · rename_i found hfound
    obtain ⟨rfl, rfl⟩ := Prod.mk.inj (Except.ok.inj h)
    exact .inl ⟨hfound, rfl⟩
  rename_i hfresh
  obtain ⟨blob, hblob, h⟩ := Outcome.bind_eq_ok.mp h
  obtain ⟨updated, hupdated, h⟩ := Outcome.bind_eq_ok.mp h
  split at h
  · rename_i hsame
    obtain ⟨rfl, rfl⟩ := Prod.mk.inj (Outcome.pure_eq_ok.mp h)
    exact .inr ⟨blob, updated, _, hfresh, hblob, hupdated, rfl, .inl ⟨hsame, rfl, rfl⟩⟩
  · rename_i hchanged
    obtain ⟨⟨found, blobs⟩, happend, h⟩ := Outcome.bind_eq_ok.mp h
    obtain ⟨rfl, rfl⟩ := Prod.mk.inj (Outcome.pure_eq_ok.mp h)
    exact .inr ⟨blob, updated, blobs, hfresh, hblob, hupdated, rfl, .inr ⟨hchanged, happend⟩⟩

/-- Looking up where a signature goes leaves the tables alone. -/
theorem moveSignature_eq_ok {renumbering : Renumbering} {shape : BlobForm}
    {state state' : SignatureRenumbering} {index new : Nat}
    (h : moveSignature renumbering shape state index = .ok (new, state')) :
    state'.tables = state.tables := by
  rcases moveSignature_cases h with ⟨-, rfl⟩ | ⟨blob, updated, blobs, -, -, -, rfl, -⟩
  · rfl
  · rfl

theorem renumberSignature_eq_ok {renumbering : Renumbering} {site : SignatureColumn}
    {state state' : SignatureRenumbering} {row : Nat} (hsite : site ∈ SignatureColumn.all)
    (h : renumberSignature renumbering site state row = .ok state') :
    state.tables.ResignedFrom state'.tables := by
  unfold renumberSignature at h
  obtain ⟨index, -, h⟩ := Outcome.bind_eq_ok.mp h
  split at h
  · obtain rfl := Outcome.pure_eq_ok.mp h
    exact .refl _
  obtain ⟨⟨new, moved⟩, hmoved, h⟩ := Outcome.bind_eq_ok.mp h
  have htables := moveSignature_eq_ok hmoved
  dsimp only at h
  split at h
  · obtain rfl := Outcome.pure_eq_ok.mp h
    rw [htables]
    exact .refl _
  · obtain ⟨tables, hput, h⟩ := Outcome.bind_eq_ok.mp h
    obtain rfl := Outcome.pure_eq_ok.mp h
    rw [htables] at hput
    exact Tables.resignedFrom_put hsite hput

/-- Only signatures change. -/
theorem renumberSignatures_eq_ok {renumbering : Renumbering} {assembly assembly' : Assembly}
    (h : renumberSignatures renumbering assembly = .ok assembly') :
    ∃ tables blobs, assembly' = { assembly with tables, blobs } ∧
      assembly.tables.ResignedFrom tables := by
  obtain ⟨state, hstate, h⟩ := Outcome.bind_eq_ok.mp h
  obtain rfl := Outcome.pure_eq_ok.mp h
  refine ⟨state.tables, state.blobs, rfl, ?_⟩
  refine Outcome.foldlM_preserves (motive := fun state : SignatureRenumbering =>
    assembly.tables.ResignedFrom state.tables) ?_ (.refl _) hstate
  intro site hsite first second hfirst hsecond
  refine Outcome.foldlM_preserves (motive := fun state : SignatureRenumbering =>
    assembly.tables.ResignedFrom state.tables) ?_ hfirst hsecond
  intro row _ before after hbefore hafter
  exact hbefore.trans (renumberSignature_eq_ok hsite hafter)

/-! ## The heap -/

/-- The heap has only become longer. -/
def Grown (blobs blobs' : BlobHeap) : Prop :=
  ∃ more, blobs' = ⟨blobs.data ++ more⟩

theorem Grown.refl (blobs : BlobHeap) : Grown blobs blobs :=
  ⟨[], by rw [List.append_nil]⟩

theorem Grown.trans {first second third : BlobHeap} (h : Grown first second)
    (h' : Grown second third) : Grown first third := by
  obtain ⟨more, rfl⟩ := h
  obtain ⟨rest, rfl⟩ := h'
  exact ⟨more ++ rest, by rw [List.append_assoc]⟩

theorem Grown.get {blobs blobs' : BlobHeap} (h : Grown blobs blobs') {index : Nat} {blob : Bytes}
    (hget : blobs.get index = .ok blob) : blobs'.get index = .ok blob := by
  obtain ⟨more, rfl⟩ := h
  exact BlobHeap.get_append hget more

theorem Grown.of_starts {blobs blobs' : BlobHeap} (h : blobs.data <+: blobs'.data) :
    Grown blobs blobs' := by
  obtain ⟨more, hmore⟩ := h
  exact ⟨more, by rw [hmore]⟩

theorem Grown.length_le {blobs blobs' : BlobHeap} (h : Grown blobs blobs') :
    blobs.data.length ≤ blobs'.data.length := by
  obtain ⟨more, rfl⟩ := h
  rw [List.length_append]
  exact Nat.le_add_right _ _

end NativeExports.Assembly
