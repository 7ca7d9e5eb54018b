import Mathlib.Data.List.DropRight
import NativeExports.Listing.Directives
import NativeExports.Proofs.Outcome

/-!
# Where directives go

Directives go in front of a method behind the first line that opens the class with the wrappers.  No
method and no end of a block may stand in between; if that place is not there, nothing is inserted.
-/

namespace NativeExports

/-- A line without the white space at its ends. -/
def Text.trim (line : String) : String :=
  trimEnd (String.ofList (line.toList.dropWhile isBlank))

namespace Listing

/-- A line begins with a text, white space at its ends aside. -/
def Starts (start line : String) : Prop :=
  start.toList <+: (Text.trim line).toList

instance (start line : String) : Decidable (Starts start line) :=
  inferInstanceAs (Decidable (_ <+: _))

/-- What ends in something else than white space is not shortened by trimming what it begins. -/
theorem prefix_rdropWhile_iff {start line : List Char}
    (h : start.rdropWhile Text.isBlank = start) :
    start <+: line.rdropWhile Text.isBlank ↔ start <+: line := by
  constructor
  · exact fun hstart => hstart.trans (List.rdropWhile_prefix _ _)
  · rintro ⟨rest, rfl⟩
    have hreverse : start.reverse.dropWhile Text.isBlank = start.reverse := by
      rw [← List.reverse_inj, List.reverse_reverse]
      exact h
    unfold List.rdropWhile
    rw [List.reverse_append, List.dropWhile_append]
    split
    · simp [hreverse]
    · rw [List.reverse_append, List.reverse_reverse]
      exact List.prefix_append _ _

theorem begins_iff {start : String} (h : start.toList.rdropWhile Text.isBlank = start.toList)
    (line : String) : begins start line = true ↔ Starts start line := by
  unfold begins Starts Text.trim Text.trimEnd
  rw [List.isPrefixOf_iff_prefix, String.toList_ofList, String.toList_ofList]
  exact (prefix_rdropWhile_iff h).symm

theorem opensContainer_iff (line : String) :
    opensContainer line = true ↔ Starts containerHeader line :=
  begins_iff (by decide +kernel) line

theorem declaresMethod_iff (line : String) : declaresMethod line = true ↔ Starts ".method" line :=
  begins_iff (by decide +kernel) line

theorem closesBlock_iff (line : String) : closesBlock line = true ↔ Starts "\x7d" line :=
  begins_iff (by decide +kernel) line

/-- A line that can stand between the line that opens the container and the first method: it neither
declares a method nor closes a block. -/
def Passes (line : String) : Prop :=
  ¬Starts ".method" line ∧ ¬Starts "\x7d" line

instance (line : String) : Decidable (Passes line) :=
  inferInstanceAs (Decidable (_ ∧ _))

/-- A listing in two parts, between which directives go. -/
structure InsertionPoint (lines before : List String) (method : String) (after : List String) :
    Prop where
  lines_eq : lines = before ++ method :: after
  declares : Starts ".method" method
  /-- The first part ends behind the first line that opens the container with lines that pass. -/
  behind : ∃ front header middle, before = front ++ header :: middle ∧
    (∀ line ∈ front, ¬Starts containerHeader line) ∧ Starts containerHeader header ∧
    ∀ line ∈ middle, Passes line

section

variable {block body out middle after : List String} {method : String}

/-- A block goes in front of the first method. -/
theorem insertBeforeMethod_append (hmiddle : ∀ line ∈ middle, Passes line)
    (hmethod : Starts ".method" method) :
    insertBeforeMethod block (middle ++ method :: after) =
      some (middle ++ block ++ method :: after) := by
  induction middle with
  | nil => exact if_pos ((declaresMethod_iff method).mpr hmethod)
  | cons line middle ih =>
      obtain ⟨⟨hpass, hopen⟩, hrest⟩ := List.forall_mem_cons.mp hmiddle
      rw [List.cons_append, insertBeforeMethod, if_neg (mt (declaresMethod_iff line).mp hpass),
        if_neg (mt (closesBlock_iff line).mp hopen), ih hrest]
      rfl

/-- If a block is inserted, then in front of the first method. -/
theorem exists_of_insertBeforeMethod (h : insertBeforeMethod block body = some out) :
    ∃ middle method after, body = middle ++ method :: after ∧
      (∀ line ∈ middle, Passes line) ∧ Starts ".method" method ∧
      out = middle ++ block ++ method :: after := by
  induction body generalizing out with
  | nil => cases h
  | cons line rest ih =>
      unfold insertBeforeMethod at h
      split at h
      · rename_i hmethod
        exact ⟨[], line, rest, rfl, nofun, (declaresMethod_iff line).mp hmethod,
          (Option.some.inj h).symm⟩
      rename_i hmethod
      split at h
      · cases h
      rename_i hclose
      obtain ⟨out, hout, rfl⟩ := Option.map_eq_some_iff.mp h
      obtain ⟨middle, method, after, rfl, hmiddle, hdeclares, rfl⟩ := ih hout
      have hline : Passes line :=
        ⟨mt (declaresMethod_iff line).mpr hmethod, mt (closesBlock_iff line).mpr hclose⟩
      exact ⟨line :: middle, method, after, rfl, List.forall_mem_cons.mpr ⟨hline, hmiddle⟩,
        hdeclares, rfl⟩

end

variable {lines out : List String} {directives : List Directive}

/-- The lines that directives are: two for each, with the number of the entry and its name. -/
def exportBlock (directives : List Directive) : List String :=
  directives.flatMap fun directive =>
    ["    .vtentry " ++ toString directive.ordinal ++ " : 1",
      "    .export [" ++ toString directive.ordinal ++ "] as " ++ directive.name]

theorem flatMap_directiveLines (directives : List Directive) :
    directives.flatMap directiveLines = exportBlock directives :=
  rfl

/-- Where the first line that opens the container stands. -/
theorem dropWhile_opensContainer {front : List String} {header : String} (body : List String)
    (hfront : ∀ line ∈ front, ¬Starts containerHeader line)
    (hheader : Starts containerHeader header) :
    ((front ++ header :: body).dropWhile fun line => !opensContainer line) = header :: body ∧
      ((front ++ header :: body).takeWhile fun line => !opensContainer line) = front := by
  have hpass : ∀ line ∈ front, (!opensContainer line) = true := fun line hmem => by
    rw [Bool.not_eq_true', ← Bool.not_eq_true]
    exact mt (opensContainer_iff line).mp (hfront line hmem)
  have hstop : ¬(!opensContainer header) = true := by
    rw [(opensContainer_iff header).mpr hheader]
    decide
  constructor
  · rw [List.dropWhile_append_of_pos hpass, List.dropWhile_cons, if_neg hstop]
  · rw [List.takeWhile_append_of_pos hpass, List.takeWhile_cons, if_neg hstop, List.append_nil]

/-- Some line opens the container, or none does. -/
theorem container_cases (lines : List String) :
    (∀ line ∈ lines, ¬Starts containerHeader line) ∨
      ∃ front header body, lines = front ++ header :: body ∧
        (∀ line ∈ front, ¬Starts containerHeader line) ∧ Starts containerHeader header := by
  induction lines with
  | nil => exact .inl nofun
  | cons line lines ih =>
      by_cases hline : Starts containerHeader line
      · exact .inr ⟨[], line, lines, rfl, nofun, hline⟩
      rcases ih with hnone | ⟨front, header, body, rfl, hfront, hheader⟩
      · exact .inl (List.forall_mem_cons.mpr ⟨hline, hnone⟩)
      · exact .inr ⟨line :: front, header, body, rfl,
          List.forall_mem_cons.mpr ⟨hline, hfront⟩, hheader⟩

theorem insertInLines_eq (hne : directives ≠ []) {front : List String} {header : String}
    {body : List String} (hfront : ∀ line ∈ front, ¬Starts containerHeader line)
    (hheader : Starts containerHeader header) :
    insertInLines (front ++ header :: body) directives =
      match insertBeforeMethod (exportBlock directives) body with
      | some body => .ok (front ++ header :: body)
      | none => .error (.invariant .noContainerMethod) := by
  obtain ⟨hdrop, htake⟩ := dropWhile_opensContainer body hfront hheader
  unfold insertInLines
  rw [if_neg (by simpa using hne), hdrop, flatMap_directiveLines]
  dsimp only
  cases insertBeforeMethod (exportBlock directives) body <;> simp only [htake]

theorem insertInLines_of_noContainer (hne : directives ≠ [])
    (h : ∀ line ∈ lines, ¬Starts containerHeader line) :
    insertInLines lines directives = .error (.invariant .noContainer) := by
  have hdrop : (lines.dropWhile fun line => !opensContainer line) = [] := by
    rw [List.dropWhile_eq_nil_iff]
    intro line hmem
    rw [Bool.not_eq_true', ← Bool.not_eq_true]
    exact mt (opensContainer_iff line).mp (h line hmem)
  unfold insertInLines
  rw [if_neg (by simpa using hne), hdrop]

/-- Directives are inserted exactly if there is a place for them, and there they are. -/
theorem insertInLines_eq_ok (hne : directives ≠ []) :
    insertInLines lines directives = .ok out ↔ ∃ before method after,
      InsertionPoint lines before method after ∧
        out = before ++ exportBlock directives ++ method :: after := by
  constructor
  · intro h
    rcases container_cases lines with hnone | ⟨front, header, body, rfl, hfront, hheader⟩
    · rw [insertInLines_of_noContainer hne hnone] at h
      cases h
    rw [insertInLines_eq hne hfront hheader] at h
    split at h
    · rename_i inserted hinserted
      obtain ⟨middle, method, after, rfl, hmiddle, hmethod, rfl⟩ :=
        exists_of_insertBeforeMethod hinserted
      obtain rfl := Except.ok.inj h
      refine ⟨front ++ header :: middle, method, after,
        ⟨by simp, hmethod, front, header, middle, rfl,
        hfront, hheader, hmiddle⟩, by simp⟩
    · cases h
  · rintro ⟨before, method, after,
      ⟨rfl, hmethod, front, header, middle, rfl, hfront, hheader, hmiddle⟩, rfl⟩
    rw [List.append_assoc, List.cons_append, insertInLines_eq hne hfront hheader,
      insertBeforeMethod_append hmiddle hmethod]
    simp

end Listing

end NativeExports
