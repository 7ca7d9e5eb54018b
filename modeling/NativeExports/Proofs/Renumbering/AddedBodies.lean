import NativeExports.Proofs.Outcome
import NativeExports.Proofs.Renumbering.RowNumbers
import NativeExports.Assembly.Renumber

/-!
# The rows of added bodies

The bodies of added methods are listed in ascending order of their rows, each row once.  Renumbering
methods puts every body under the new row of its method; the list is made anew, because the order of
the rows may change.
-/

namespace NativeExports.Assembly

/-- Bodies in ascending order of their rows. -/
def Ascending (bodies : List (Nat × Bytes)) : Prop :=
  bodies.Pairwise fun first second => first.1 < second.1

/-- In an ascending list a row has one body. -/
theorem Ascending.body_eq {bodies : List (Nat × Bytes)} (h : Ascending bodies) {row : Nat}
    {body body' : Bytes} (hmem : (row, body) ∈ bodies) (hmem' : (row, body') ∈ bodies) :
    body = body' := by
  induction h with
  | nil => cases hmem
  | @cons first rest hfirst hrest ih =>
      rcases List.mem_cons.mp hmem with rfl | hmem <;>
        rcases List.mem_cons.mp hmem' with heq | hmem'
      · exact (Prod.mk.inj heq).2.symm
      · exact absurd (hfirst _ hmem') (Nat.lt_irrefl _)
      · exact absurd (hfirst _ hmem) (by rw [← heq]; exact Nat.lt_irrefl _)
      · exact ih hmem hmem'

theorem mem_insertBody (method : Nat) (body : Bytes) {bodies : List (Nat × Bytes)}
    (h : Ascending bodies) (entry : Nat × Bytes) :
    entry ∈ insertBody method body bodies ↔
      entry = (method, body) ∨ entry ∈ bodies ∧ entry.1 ≠ method := by
  induction h with
  | nil => simp [insertBody]
  | @cons first rest hfirst hrest ih =>
      have hne : ∀ entry ∈ rest, method ≤ first.1 → entry.1 ≠ method := fun entry hmem hle => by
        have := hfirst entry hmem
        omega
      unfold insertBody
      split
      · rename_i hlt
        rw [List.mem_cons]
        refine or_congr_right ⟨fun hmem => ⟨hmem, ?_⟩, And.left⟩
        rcases List.mem_cons.mp hmem with rfl | hmem
        · omega
        · exact hne entry hmem (Nat.le_of_lt hlt)
      · split
        · rename_i heq
          rw [List.mem_cons, List.mem_cons]
          refine or_congr_right ⟨fun hmem => ⟨.inr hmem, hne entry hmem (Nat.le_of_eq heq)⟩, ?_⟩
          rintro ⟨rfl | hmem, hrow⟩
          · exact absurd heq.symm hrow
          · exact hmem
        · rename_i hne'
          rw [List.mem_cons, ih, List.mem_cons]
          constructor
          · rintro (rfl | rfl | ⟨hmem, hrow⟩)
            · exact .inr ⟨.inl rfl, fun heq => hne' heq.symm⟩
            · exact .inl rfl
            · exact .inr ⟨.inr hmem, hrow⟩
          · rintro (rfl | ⟨rfl | hmem, hrow⟩)
            · exact .inr (.inl rfl)
            · exact .inl rfl
            · exact .inr (.inr ⟨hmem, hrow⟩)

theorem ascending_insertBody {method : Nat} {body : Bytes} {bodies : List (Nat × Bytes)}
    (h : Ascending bodies) : Ascending (insertBody method body bodies) := by
  induction h with
  | nil => exact List.pairwise_singleton _ _
  | @cons first rest hfirst hrest ih =>
      unfold insertBody
      split
      · rename_i hlt
        refine List.pairwise_cons.mpr ⟨fun entry hmem => ?_, .cons hfirst hrest⟩
        rcases List.mem_cons.mp hmem with rfl | hmem
        · exact hlt
        · exact Nat.lt_trans hlt (hfirst entry hmem)
      · split
        · rename_i heq
          exact .cons (fun entry hmem => heq ▸ hfirst entry hmem) hrest
        · rename_i hlt hne
          refine .cons (fun entry hmem => ?_) ih
          rcases (mem_insertBody method body hrest entry).mp hmem with rfl | ⟨hmem, -⟩
          · exact Nat.lt_of_le_of_ne (Nat.le_of_not_lt hlt) (Ne.symm hne)
          · exact hfirst entry hmem

theorem newReference_eq_ok {renumbering : Renumbering} {source : Table} {row row' : Nat} :
    renumbering.newReference source row = .ok row' ↔ renumbering.newRow row = some row' := by
  unfold Renumbering.newReference
  split <;> simp_all

theorem foldlM_rekey {renumbering : Renumbering} (hlawful : renumbering.Lawful)
    {bodies moved bodies' : List (Nat × Bytes)} (hbodies : Ascending bodies)
    (hmoved : Ascending moved)
    (hfresh : ∀ entry ∈ bodies, ∀ row', renumbering.newRow entry.1 = some row' →
      ∀ other ∈ moved, other.1 ≠ row')
    (h : bodies.foldlM (fun moved (method, body) => do
      return insertBody (← renumbering.newReference .methodDef method) body moved) moved =
        .ok bodies') :
    Ascending bodies' ∧
      (∀ entry ∈ bodies, ∃ row', renumbering.newRow entry.1 = some row') ∧
      ∀ entry, entry ∈ bodies' ↔ entry ∈ moved ∨
        ∃ row, renumbering.newRow row = some entry.1 ∧ (row, entry.2) ∈ bodies := by
  induction hbodies generalizing moved with
  | nil =>
      obtain rfl := Outcome.pure_eq_ok.mp h
      exact ⟨hmoved, nofun, by simp⟩
  | @cons first rest hfirst hrest ih =>
      rw [List.foldlM_cons] at h
      obtain ⟨between, hbetween, h⟩ := Outcome.bind_eq_ok.mp h
      obtain ⟨row', hrow', hbetween⟩ := Outcome.bind_eq_ok.mp hbetween
      obtain rfl := Outcome.pure_eq_ok.mp hbetween
      have hnew := newReference_eq_ok.mp hrow'
      have hmem := mem_insertBody row' first.2 hmoved
      obtain ⟨hasc, htotal, hentries⟩ := ih (ascending_insertBody hmoved)
        (fun entry hentry row'' hrow'' other hother => by
          rcases (hmem other).mp hother with rfl | ⟨hother, -⟩
          · rintro rfl
            have hsame := hlawful.injective hnew hrow''
            have := hfirst entry hentry
            omega
          · exact hfresh entry (.tail _ hentry) row'' hrow'' other hother) h
      refine ⟨hasc, fun entry hentry => ?_, fun entry => ?_⟩
      · rcases List.mem_cons.mp hentry with rfl | hentry
        · exact ⟨row', hnew⟩
        · exact htotal entry hentry
      · rw [hentries, hmem]
        constructor
        · rintro ((rfl | ⟨hin, -⟩) | ⟨row, hrow, hin⟩)
          · exact .inr ⟨first.1, hnew, .head _⟩
          · exact .inl hin
          · exact .inr ⟨row, hrow, .tail _ hin⟩
        · rintro (hin | ⟨row, hrow, hin⟩)
          · exact .inl (.inr ⟨hin, hfresh first (.head _) row' hnew entry hin⟩)
          · rcases List.mem_cons.mp hin with rfl | hin
            · rw [hnew] at hrow
              exact .inl (.inl (by rw [Option.some.inj hrow]))
            · exact .inr ⟨row, hrow, hin⟩

/-- Every body is put under the new row of its method. -/
theorem rekeyBodies_eq_ok {renumbering : Renumbering} (hlawful : renumbering.Lawful)
    {bodies bodies' : List (Nat × Bytes)} (hbodies : Ascending bodies)
    (h : rekeyBodies renumbering bodies = .ok bodies') :
    Ascending bodies' ∧
      (∀ entry ∈ bodies, ∃ row', renumbering.newRow entry.1 = some row') ∧
      ∀ entry, entry ∈ bodies' ↔
        ∃ row, renumbering.newRow row = some entry.1 ∧ (row, entry.2) ∈ bodies := by
  obtain ⟨hasc, htotal, hentries⟩ := foldlM_rekey hlawful hbodies .nil (fun _ _ _ _ => nofun) h
  exact ⟨hasc, htotal, fun entry => by rw [hentries]; simp⟩

end NativeExports.Assembly
