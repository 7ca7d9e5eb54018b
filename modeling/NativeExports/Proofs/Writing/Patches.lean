import NativeExports.Host.Output
import NativeExports.Proofs.Outcome
import NativeExports.Proofs.Windows

/-!
# Patches

An output file is filled by overwriting one part of it after the other.  What it holds at a position
in the end is decided by the last patch that covers the position, so questions about the whole file
become questions about where patches begin and end.
-/

namespace NativeExports

namespace Bytes

/-- A byte string with parts of it overwritten one after the other. -/
def patched (data : Bytes) (patches : List (Nat × Bytes)) : Bytes :=
  patches.foldl (fun data patch => data.overwrite patch.1 patch.2) data

/-- Patches stay inside a byte string of a given size. -/
def PatchesFit (patches : List (Nat × Bytes)) (size : Nat) : Prop :=
  ∀ patch ∈ patches, patch.1 + patch.2.length ≤ size

/-- No patch covers a position from `start` up to `stop`. -/
def PatchesApart (patches : List (Nat × Bytes)) (start stop : Nat) : Prop :=
  ∀ patch ∈ patches, stop ≤ patch.1 ∨ patch.1 + patch.2.length ≤ start

variable {data : Bytes} {patches : List (Nat × Bytes)} {start stop : Nat}

theorem length_patched (h : PatchesFit patches data.length) :
    (data.patched patches).length = data.length := by
  induction patches generalizing data with
  | nil => rfl
  | cons patch rest ih =>
      have hlength := length_overwrite (h patch (.head _))
      refine (ih fun other hmem => ?_).trans hlength
      rw [hlength]
      exact h other (.tail _ hmem)

theorem PatchesFit.tail {patch : Nat × Bytes} (h : PatchesFit (patch :: patches) data.length) :
    PatchesFit patches (data.overwrite patch.1 patch.2).length := by
  intro other hmem
  rw [length_overwrite (h patch (.head _))]
  exact h other (.tail _ hmem)

/-- What no patch covers stays as it was. -/
theorem sameOn_patched (h : PatchesFit patches data.length)
    (hapart : PatchesApart patches start stop) :
    SameOn data (data.patched patches) start stop := by
  induction patches generalizing data with
  | nil => exact fun _ _ _ => rfl
  | cons patch rest ih =>
      exact (sameOn_overwrite (h patch (.head _)) (hapart patch (.head _))).trans
        (ih h.tail fun other hmem => hapart other (.tail _ hmem))

/-- A patch that the others leave alone is what its part holds in the end. -/
theorem take_drop_patched {patch : Nat × Bytes} (h : PatchesFit patches data.length)
    (hmem : patch ∈ patches) (hothers : ∀ other ∈ patches, other = patch ∨
      patch.1 + patch.2.length ≤ other.1 ∨ other.1 + other.2.length ≤ patch.1) :
    ((data.patched patches).drop patch.1).take patch.2.length = patch.2 := by
  induction patches generalizing data with
  | nil => cases hmem
  | cons first rest ih =>
      by_cases hrest : patch ∈ rest
      · exact ih h.tail hrest fun other hother => hothers other (.tail _ hother)
      · obtain rfl := (List.mem_cons.mp hmem).resolve_right hrest
        have hapart : PatchesApart rest patch.1 (patch.1 + patch.2.length) := fun other hother =>
          (hothers other (.tail _ hother)).resolve_left fun heq => hrest (heq ▸ hother)
        exact (take_drop_eq_of_sameOn (sameOn_patched h.tail hapart)).trans
          (take_drop_overwrite (h _ (.head _)))

end Bytes

/-! ## Output files -/

namespace Output

open Bytes (PatchesFit)

/-- An output file becomes another one by some patches. -/
structure Patched (patches : List (Nat × Bytes)) (before after : Output) : Prop where
  target : after.target = before.target
  temporary : after.temporary = before.temporary
  content : after.content = before.content.patched patches
  fit : PatchesFit patches before.content.length

variable {before middle after : Output} {patches patches' : List (Nat × Bytes)}

theorem Patched.refl (output : Output) : Patched [] output output :=
  ⟨rfl, rfl, rfl, nofun⟩

theorem Patched.trans (h : Patched patches before middle) (h' : Patched patches' middle after) :
    Patched (patches ++ patches') before after where
  target := h'.target.trans h.target
  temporary := h'.temporary.trans h.temporary
  content := by
    rw [h'.content, h.content, Bytes.patched, Bytes.patched, Bytes.patched, List.foldl_append]
  fit := by
    have hfit := h'.fit
    rw [h.content, Bytes.length_patched h.fit] at hfit
    exact fun patch hmem => (List.mem_append.mp hmem).elim (h.fit patch) (hfit patch)

theorem patched_of_write {offset : Nat} {data : Bytes} (h : before.write offset data = .ok after) :
    Patched [(offset, data)] before after := by
  unfold write at h
  split at h
  · rename_i content hcontent
    obtain rfl := Except.ok.inj h
    unfold Bytes.overwrite? at hcontent
    split at hcontent
    · rename_i hfit
      exact ⟨rfl, rfl, (Option.some.inj hcontent).symm, fun _ hmem =>
        List.mem_singleton.mp hmem ▸ hfit⟩
    · cases hcontent
  · cases h

theorem patched_of_zero {offset count : Nat} (h : before.zero offset count = .ok after) :
    Patched [(offset, Bytes.zeros count)] before after := by
  unfold zero at h
  split at h
  · exact patched_of_write h
  · cases h

/-- A traversal that patches for each entry does all of these patches. -/
theorem patched_of_foldlM {α : Type} {step : Output → α → Except Error Output}
    {patchesOf : α → List (Nat × Bytes)} {fits : α → Prop} {entries : List α}
    (h : entries.foldlM step before = .ok after)
    (hstep : ∀ entry before after, step before entry = .ok after →
      Patched (patchesOf entry) before after ∧ fits entry) :
    Patched (entries.flatMap patchesOf) before after ∧ ∀ entry ∈ entries, fits entry := by
  induction entries generalizing before with
  | nil =>
      obtain rfl := Except.ok.inj h
      exact ⟨.refl _, nofun⟩
  | cons entry rest ih =>
      rw [List.foldlM_cons] at h
      obtain ⟨middle, hmiddle, h⟩ := Outcome.bind_eq_ok.mp h
      obtain ⟨hpatched, hfits⟩ := hstep _ _ _ hmiddle
      obtain ⟨hrest, hall⟩ := ih h
      rw [List.flatMap_cons]
      exact ⟨hpatched.trans hrest, List.forall_mem_cons.mpr ⟨hfits, hall⟩⟩

end Output

end NativeExports
