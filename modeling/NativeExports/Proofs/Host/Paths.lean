import NativeExports.Host.Output

/-!
# Paths of output files

While a file is produced, it has the name of its target with something added, so it stands next to
the target: the two paths have the same steps up to the last name.
-/

namespace NativeExports

namespace Path

/-- No part of a list that is cut at an entry has the entry. -/
theorem not_mem_of_mem_splitOn {x : Char} {text part : List Char} (h : part ∈ text.splitOn x) :
    x ∉ part := by
  induction text generalizing part with
  | nil =>
      rw [List.splitOn_nil, List.mem_singleton] at h
      rw [h]
      exact List.not_mem_nil
  | cons y text ih =>
      rw [List.splitOn_cons_eq_if_modifyHead] at h
      split at h
      · rcases List.mem_cons.mp h with rfl | h
        · exact List.not_mem_nil
        · exact ih h
      · rename_i hne
        cases hsplit : text.splitOn x with
        | nil => exact absurd hsplit (List.splitOn_ne_nil x text)
        | cons first rest =>
            rw [hsplit] at h ih
            rcases List.mem_cons.mp h with rfl | h
            · rintro (_ | ⟨_, hmem⟩)
              · exact hne (beq_self_eq_true _)
              · exact ih (.head _) hmem
            · exact ih (.tail _ h)

theorem not_mem_of_mem_steps {path step : String} (h : step ∈ steps path) : '/' ∉ step.toList := by
  obtain ⟨part, hpart, rfl⟩ := List.mem_map.mp h
  rw [String.toList_ofList]
  exact not_mem_of_mem_splitOn hpart

/-- The steps of a path that is put together from steps. -/
theorem steps_intercalate {parts : List String} (hne : parts ≠ [])
    (hparts : ∀ part ∈ parts, '/' ∉ part.toList) : steps ("/".intercalate parts) = parts := by
  rw [steps, String.toList_intercalate]
  have hslash : "/".toList = ['/'] := rfl
  rw [hslash, List.splitOn_intercalate '/' ?_ (by simpa using hne), List.map_map]
  · exact (List.map_congr_left fun part _ => String.ofList_toList).trans (List.map_id parts)
  · intro part hmem
    obtain ⟨text, htext, rfl⟩ := List.mem_map.mp hmem
    exact hparts text htext

/-- A path in front of a slash and a name without one. -/
theorem steps_of_toList_eq {path front name : String} (hname : '/' ∉ name.toList)
    (h : path.toList = front.toList ++ '/' :: name.toList) :
    steps path = steps front ++ [name] := by
  rw [steps, h, List.splitOn_append_cons_self, List.splitOn_eq_singleton hname, List.map_append,
    List.map_singleton, String.ofList_toList]
  rfl

end Path

namespace Output

open NativeExports.Path

/-- The last step of the path of an output file is a name. -/
theorem named_append_suffix (name : String) :
    isIdle (name ++ suffix) = false ∧ name ++ suffix ≠ ".." ∧ name ++ suffix ≠ name := by
  have hlong : (name ++ suffix).length = name.length + 13 := by
    rw [String.length_append]
    rfl
  have hne : ∀ other : String, other.length < 13 → name ++ suffix ≠ other := by
    rintro other hshort rfl
    omega
  refine ⟨?_, hne ".." (by decide), fun heq => ?_⟩
  · rw [isIdle, Bool.or_eq_false_iff, beq_eq_false_iff_ne, beq_eq_false_iff_ne]
    exact ⟨hne "" (by decide), hne "." (by decide)⟩
  · rw [heq] at hlong
    omega

/-- The steps of a path with a last name. -/
theorem steps_of_lastName? {path own : String} (h : lastName? path = some own) :
    ∃ idle, steps path = (reversedSteps path).tail.reverse ++ own :: idle ∧ isIdle own = false ∧
      own ≠ ".." ∧ ∀ step ∈ idle, isIdle step = true := by
  unfold lastName? at h
  split at h
  · cases h
  rename_i own' others hreversed
  split at h
  · cases h
  rename_i hup
  obtain rfl := Option.some.inj h
  have hsplit := List.takeWhile_append_dropWhile (p := isIdle) (l := (steps path).reverse)
  have hhead := List.head?_dropWhile_not isIdle (steps path).reverse
  rw [show (steps path).reverse.dropWhile isIdle = own' :: others from hreversed] at hsplit hhead
  refine ⟨((steps path).reverse.takeWhile isIdle).reverse, ?_, by simpa using hhead,
    fun heq => hup (beq_iff_eq.mpr heq), fun step hmem => ?_⟩
  · have hsteps := congrArg List.reverse hsplit
    rw [List.reverse_append, List.reverse_cons, List.append_assoc, List.singleton_append,
      List.reverse_reverse] at hsteps
    rw [hreversed, List.tail_cons, hsteps]
  · exact List.all_eq_true.mp List.all_takeWhile step (List.mem_reverse.mp hmem)

/-- Without a last name, the new name goes behind the path. -/
theorem steps_replaceName_suffix {path : String} (h : lastName? path = none) :
    ∃ common rest, steps path = common ++ rest ∧
      steps (replaceName path suffix) = common ++ [suffix] ∧ ∀ step ∈ rest, isIdle step = true := by
  have hsuffix : '/' ∉ suffix.toList := by decide
  rw [replaceName, h]
  dsimp only
  split
  · rename_i hnone
    obtain rfl : path = "" := String.toList_inj.mp (List.getLast?_eq_none_iff.mp hnone)
    exact ⟨[], [""], rfl, by decide, by decide⟩
  · rename_i hslash
    obtain ⟨front, hfront⟩ := List.getLast?_eq_some_iff.mp hslash
    have hpath : steps path = steps (String.ofList front) ++ [""] :=
      steps_of_toList_eq (by decide) (by rw [hfront, String.toList_ofList]; rfl)
    refine ⟨_, [""], hpath, steps_of_toList_eq hsuffix ?_, by decide⟩
    rw [String.toList_append, hfront, String.toList_ofList, List.append_assoc]
    rfl
  · refine ⟨steps path, [], by simp, steps_of_toList_eq hsuffix ?_, nofun⟩
    rw [String.toList_append, String.toList_append, List.append_assoc]
    rfl

/-- An output file stands next to its target: the steps of their paths part at the last one, or
behind the target if that ends without a name. -/
theorem steps_temporaryPath (path : String) : ∃ common rest name,
    steps path = common ++ rest ∧ steps (temporaryPath path) = common ++ [name] ∧
      isIdle name = false ∧ name ≠ ".." ∧
      ((∃ own idle, rest = own :: idle ∧ isIdle own = false ∧ own ≠ ".." ∧ name ≠ own ∧
        ∀ step ∈ idle, isIdle step = true) ∨ ∀ step ∈ rest, isIdle step = true) := by
  cases hlast : lastName? path with
  | some own =>
      obtain ⟨idle, hsteps, hown, hup, hidle⟩ := steps_of_lastName? hlast
      obtain ⟨hnamed, hname, hne⟩ := named_append_suffix own
      have hslash : ∀ step ∈ (reversedSteps path).tail.reverse ++ own :: idle, '/' ∉ step.toList :=
        fun step hmem => not_mem_of_mem_steps (hsteps ▸ hmem)
      refine ⟨_, own :: idle, own ++ suffix, hsteps, ?_, hnamed, hname,
        .inl ⟨own, idle, rfl, hown, hup, hne, hidle⟩⟩
      rw [temporaryPath, replaceName, hlast]
      refine steps_intercalate (by simp) fun part hmem => ?_
      rcases List.mem_append.mp hmem with hmem | hmem
      · exact hslash part (List.mem_append_left _ hmem)
      · obtain rfl := List.mem_singleton.mp hmem
        change '/' ∉ (own ++ suffix).toList
        rw [String.toList_append, List.mem_append, not_or]
        exact ⟨hslash own (List.mem_append_right _ (.head _)), by decide⟩
  | none =>
      obtain ⟨common, rest, hsteps, htemporary, hidle⟩ := steps_replaceName_suffix hlast
      obtain ⟨hnamed, hname, -⟩ := named_append_suffix ""
      refine ⟨common, rest, suffix, hsteps, ?_, hnamed, hname, .inr hidle⟩
      rw [temporaryPath, hlast]
      exact htemporary

end Output

end NativeExports
