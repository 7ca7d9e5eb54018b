import NativeExports.Assembly.Writing
import NativeExports.Proofs.Image.Placement
import NativeExports.Proofs.Metadata.Block
import NativeExports.Proofs.Tables

/-!
# The content of the new section

The new section holds the bodies of the added methods and then the metadata, in which these methods
have the addresses that their bodies get.
-/

namespace NativeExports

/-- Tables in which some methods have got addresses, and nothing else is different. -/
def Tables.Located (tables : Tables) (methods : List Nat) (address : Nat → Nat)
    (filled : Tables) : Prop :=
  ∀ table row, filled.row? table row = (tables.row? table row).map fun columns =>
    if table = .methodDef ∧ row ∈ methods then columns.set MethodDef.rvaColumn (address row)
    else columns

namespace Assembly

/-- Every body stands where its method is told, and the methods are told nothing else. -/
theorem placeBodies_eq_ok {base : Nat} {tables filled : Tables} {content out : Bytes}
    {bodies : List (Nat × Bytes)} (hdistinct : (bodies.map Prod.fst).Nodup)
    (h : placeBodies base tables content bodies = .ok (filled, out)) :
    content <+: out ∧ ∃ address, tables.Located (bodies.map Prod.fst) address filled ∧
      ∀ entry ∈ bodies, ∃ offset, filled.value .methodDef entry.1 MethodDef.rvaColumn =
        .ok (base + offset) ∧ offset + entry.2.length ≤ out.length ∧
          (out.drop offset).take entry.2.length = entry.2 := by
  induction bodies generalizing tables content with
  | nil =>
      obtain ⟨rfl, rfl⟩ := Prod.mk.inj (Except.ok.inj h)
      refine ⟨List.prefix_append _ _, fun _ => 0, fun table row => ?_, nofun⟩
      simp
  | cons entry rest ih =>
      obtain ⟨method, body⟩ := entry
      obtain ⟨hnew, hrest⟩ := List.nodup_cons.mp hdistinct
      obtain ⟨put, hput, h⟩ := Outcome.bind_eq_ok.mp h
      obtain ⟨hfront, address, hlocated, hbodies⟩ := ih hrest h
      obtain ⟨⟨columns, hrow, hcolumn, hrow'⟩, hothers⟩ := Tables.row?_of_put hput
      obtain ⟨suffix, hout⟩ := hfront
      have hown : filled.row? .methodDef method =
          some (columns.set MethodDef.rvaColumn (base + content.pad4.length)) := by
        rw [hlocated, hrow', Option.map_some, if_neg fun hin => hnew hin.2]
      refine ⟨?_, fun row => if row = method then base + content.pad4.length else address row,
        ?_, ?_⟩
      · exact ((List.prefix_append content _).trans (List.prefix_append _ body)).trans
          ⟨suffix, hout⟩
      · intro table row
        by_cases hsame : table = .methodDef ∧ row = method
        · obtain ⟨rfl, rfl⟩ := hsame
          rw [hown, hrow, Option.map_some, if_pos ⟨rfl, .head _⟩]
          dsimp only
          rw [if_pos rfl]
        · rw [hlocated, hothers table row hsame]
          refine congrArg (fun f => (tables.row? table row).map f) (funext fun columns => ?_)
          by_cases htable : table = .methodDef
          · have hne : row ≠ method := fun hrow => hsame ⟨htable, hrow⟩
            have hin : row ∈ ((method, body) :: rest).map Prod.fst ↔ row ∈ rest.map Prod.fst := by
              rw [List.map_cons, List.mem_cons, or_iff_right hne]
            simp only [hin, if_neg hne]
          · rw [if_neg fun hin => htable hin.1, if_neg fun hin => htable hin.1]
      · rintro entry hmem
        rcases List.mem_cons.mp hmem with rfl | hmem
        · refine ⟨content.pad4.length, Tables.value_eq_ok.mpr ⟨_, hown, ?_⟩, ?_, ?_⟩
          · rw [List.getElem?_set_self hcolumn]
          · rw [← hout]
            simp only [List.length_append]
            omega
          · rw [← hout, List.append_assoc, List.drop_left, List.take_left]
        · exact hbodies entry hmem

/-- What the new section holds, and where it goes. -/
structure WritePlan.Fits (plan : WritePlan) (assembly : Assembly) (filled : Tables)
    (address : Nat → Nat) (metadata : Bytes) : Prop where
  located : assembly.tables.Located (assembly.addedBodies.map Prod.fst) address filled
  built : Metadata.build assembly.version assembly.rootFlags filled assembly.heaps = .ok metadata
  size : plan.metadataSize = metadata.length
  placement : Placement.behind assembly.image plan.content.length = .ok plan.placement
  /-- The metadata is the last part of the content. -/
  content : plan.metadataOffset + metadata.length = plan.content.length ∧
    (plan.content.drop plan.metadataOffset).take metadata.length = metadata
  bodies : ∀ entry ∈ assembly.addedBodies, ∃ offset,
    filled.value .methodDef entry.1 MethodDef.rvaColumn =
      .ok (plan.placement.virtualAddress + offset) ∧
    offset + entry.2.length ≤ plan.metadataOffset ∧
      (plan.content.drop offset).take entry.2.length = entry.2

theorem fits_of_plan {assembly : Assembly} {plan : WritePlan}
    (hdistinct : (assembly.addedBodies.map Prod.fst).Nodup) (h : assembly.plan = .ok plan) :
    ∃ filled address metadata, plan.Fits assembly filled address metadata := by
  obtain ⟨first, hfirst, h⟩ := Outcome.bind_eq_ok.mp h
  obtain ⟨⟨filled, bodies⟩, hplaced, h⟩ := Outcome.bind_eq_ok.mp h
  obtain ⟨metadata, hmetadata, h⟩ := Outcome.bind_eq_ok.mp h
  obtain ⟨placement, hplacement, h⟩ := Outcome.bind_eq_ok.mp h
  obtain rfl := Except.ok.inj h
  obtain ⟨-, address, hlocated, hbodies⟩ := placeBodies_eq_ok hdistinct hplaced
  rw [← Placement.virtualAddress_eq hplacement hfirst] at hbodies
  refine ⟨filled, address, metadata, hlocated, hmetadata, rfl, hplacement, ⟨?_, ?_⟩, ?_⟩
  · exact List.length_append.symm
  · dsimp only
    rw [List.drop_left, List.take_length]
  · intro entry hmem
    obtain ⟨offset, hvalue, hfit, hbody⟩ := hbodies entry hmem
    refine ⟨offset, hvalue, hfit, ?_⟩
    dsimp only
    rw [List.drop_append_of_le_length (by omega), List.take_append_of_le_length
      (by rw [List.length_drop]; omega)]
    exact hbody

end Assembly

end NativeExports
