import NativeExports.Export.MarkedMethods
import NativeExports.Proofs.Outcome
import NativeExports.Proofs.Tables

/-!
# What marked methods are

Every candidate names a method that is there, and no two candidates are marked for the same entry
point.
-/

namespace NativeExports

namespace Candidate

end Candidate

namespace MarkedMethods

variable {assembly : Assembly} {markers : List Marker} {found : List Candidate}
  {type : TypeSummary} {method : MethodSummary}

theorem outcome_warnUnsuited (assembly : Assembly) (candidate : Candidate) (signature : Bytes) :
    (candidate.warnUnsuited assembly signature).outcome = .ok () := by
  unfold Candidate.warnUnsuited
  split
  · rfl
  · split
    · rfl
    · split <;> rfl

theorem methodSummary_eq_ok {row : Nat} (h : assembly.methodSummary row = .ok method) :
    method.token = Token.ofRow .methodDef row ∧
      assembly.columnString .methodDef row MethodDef.nameColumn = .ok method.name := by
  obtain ⟨name, hname, h⟩ := Outcome.bind_eq_ok.mp h
  obtain ⟨flags, -, h⟩ := Outcome.bind_eq_ok.mp h
  obtain ⟨signature, -, h⟩ := Outcome.bind_eq_ok.mp h
  obtain rfl := Except.ok.inj h
  exact ⟨rfl, hname⟩

end MarkedMethods

end NativeExports
