import Mathlib.Data.List.Basic
import NativeExports.Text.Lines

/-!
# Texts put together from their lines

A text that uses one line ending throughout is the same as its lines, each with that ending, the
last one possibly without.  So a text can be cut between two of its lines, and lines can be put in
there.
-/

namespace NativeExports.Text

/-- A text uses a line ending throughout: every line feed has a carriage return in front, or none
has. -/
def UsesEnding (ending text : String) : Prop :=
  ending = "\r\n" ∧
      (∀ front back, text.toList = front ++ '\n' :: back → front.getLast? = some '\r') ∨
    ending = "\n" ∧ ∀ front back, text.toList = front ++ '\n' :: back → front.getLast? ≠ some '\r'

/-- What stands in front of each occurrence of an element can be looked at one by one. -/
theorem forall_split_iff {α : Type} {a : α} {p : List α → Prop} (list : List α) :
    (∀ front back, list = front ++ a :: back → p front) ↔
      ∀ n < list.length, list[n]? = some a → p (list.take n) := by
  constructor
  · intro h n hn ha
    refine h _ (list.drop (n + 1)) ?_
    obtain ⟨hlt, rfl⟩ := List.getElem?_eq_some_iff.mp ha
    rw [← List.drop_eq_getElem_cons hlt, List.take_append_drop]
  · rintro h front back rfl
    simpa using h front.length (by simp) (by simp)

instance (ending text : String) : Decidable (UsesEnding ending text) :=
  decidable_of_iff _ (or_congr (and_congr_right' (forall_split_iff text.toList).symm)
    (and_congr_right' (forall_split_iff text.toList).symm))

/-- Lines, each with a line ending. -/
def ended (ending : String) (lines : List String) : String :=
  String.join (lines.map (· ++ ending))

@[simp]
theorem ended_nil (ending : String) : ended ending [] = "" :=
  rfl

@[simp]
theorem ended_cons (ending line : String) (lines : List String) :
    ended ending (line :: lines) = line ++ ending ++ ended ending lines := by
  rw [ended, List.map_cons, String.join_cons]
  rfl

theorem ended_append (ending : String) (front back : List String) :
    ended ending (front ++ back) = ended ending front ++ ended ending back := by
  rw [ended, List.map_append, String.join_append]
  rfl

/-! ## Cutting at line feeds -/

theorem linesFrom_seen (seen : List String) (line text : List Char) :
    linesFrom seen line text = seen.reverse ++ linesFrom [] line text := by
  induction text generalizing seen line with
  | nil =>
      unfold linesFrom
      split <;> simp
  | cons c text ih =>
      unfold linesFrom
      split
      · rename_i heq
        cases heq
      · rename_i rest heq
        obtain ⟨-, rfl⟩ := List.cons.inj heq
        rw [ih (endLine line :: seen), ih [endLine line]]
        simp
      · rename_i c' rest hne heq
        obtain ⟨rfl, rfl⟩ := List.cons.inj heq
        exact ih seen (c :: line)

theorem linesFrom_of_ne {c : Char} (hc : c ≠ '\n') (seen : List String) (line rest : List Char) :
    linesFrom seen line (c :: rest) = linesFrom seen (c :: line) rest := by
  rw [linesFrom]
  exact fun h => hc h

/-- A line goes up to the line feed. -/
theorem linesFrom_line {front : List Char} (hfront : '\n' ∉ front) (line rest : List Char) :
    linesFrom [] line (front ++ '\n' :: rest) =
      endLine (front.reverse ++ line) :: linesFrom [] [] rest := by
  induction front generalizing line with
  | nil =>
      rw [List.nil_append, linesFrom, linesFrom_seen]
      rfl
  | cons c front ih =>
      obtain ⟨hc, hfront⟩ := not_or.mp (mt List.mem_cons.mpr hfront)
      rw [List.cons_append, linesFrom_of_ne (Ne.symm hc), ih hfront, List.reverse_cons,
        List.append_assoc]
      rfl

theorem linesFrom_last {text : List Char} (h : '\n' ∉ text) (line : List Char) :
    linesFrom [] line text =
      if (text.reverse ++ line).isEmpty then [] else [String.ofList (line.reverse ++ text)] := by
  induction text generalizing line with
  | nil =>
      rw [linesFrom, List.append_nil]
      rfl
  | cons c text ih =>
      obtain ⟨hc, htext⟩ := not_or.mp (mt List.mem_cons.mpr h)
      rw [linesFrom_of_ne (Ne.symm hc), ih htext]
      simp

/-! ## Texts with one line ending -/

/-- A text whose lines have the same ending, the last one possibly none.  Where the ending is a mere
line feed, the lines do not end in a carriage return. -/
inductive Lined (ending : String) : String → Prop
  | last {text : String} (h : '\n' ∉ text.toList) : Lined ending text
  | line {line rest : String} (hline : '\n' ∉ line.toList)
      (hbare : ending = "\n" → line.toList.getLast? ≠ some '\r') (hrest : Lined ending rest) :
      Lined ending (line ++ ending ++ rest)

variable {ending text : String}

theorem lines_of_last (h : '\n' ∉ text.toList) :
    lines text = if text.isEmpty then [] else [text] := by
  rw [lines, linesFrom_last h]
  by_cases hempty : text = ""
  · subst hempty
    rfl
  · have hne : text.toList ≠ [] := mt String.toList_eq_nil_iff.mp hempty
    rw [if_neg (by simpa using hne), if_neg (by simpa using hempty)]
    simp

theorem endLine_of_not_return {line : List Char} (h : line.getLast? ≠ some '\r') :
    endLine line.reverse = String.ofList line := by
  unfold endLine
  split
  · rename_i front heq
    rw [List.reverse_eq_cons_iff] at heq
    rw [heq, List.getLast?_concat] at h
    exact absurd rfl h
  · rw [List.reverse_reverse]

/-- The first line of a text is what stands in front of the first line ending. -/
theorem lines_line (hending : ending = "\n" ∨ ending = "\r\n") {line rest : String}
    (hline : '\n' ∉ line.toList) (hbare : ending = "\n" → line.toList.getLast? ≠ some '\r') :
    lines (line ++ ending ++ rest) = line :: lines rest := by
  unfold lines
  rw [String.toList_append, String.toList_append]
  rcases hending with rfl | rfl
  · rw [List.append_assoc]
    change linesFrom [] [] (line.toList ++ '\n' :: rest.toList) = _
    rw [linesFrom_line hline, List.append_nil, endLine_of_not_return (hbare rfl),
      String.ofList_toList]
  · have hreturn : '\n' ∉ line.toList ++ ['\r'] := by
      simpa using hline
    rw [show "\r\n".toList = ['\r'] ++ ['\n'] from rfl, ← List.append_assoc, List.append_assoc]
    change linesFrom [] [] ((line.toList ++ ['\r']) ++ '\n' :: rest.toList) = _
    rw [linesFrom_line hreturn, List.append_nil, List.reverse_append]
    change String.ofList line.toList.reverse.reverse :: _ = _
    rw [List.reverse_reverse, String.ofList_toList]

theorem endsLine_append {front back : String} (h : back ≠ "") :
    endsLine (front ++ back) = endsLine back := by
  have hne : back.toList ≠ [] := mt String.toList_eq_nil_iff.mp h
  unfold endsLine
  rw [String.toList_append, List.getLast?_append_of_ne_nil _ hne]

theorem lines_ne_nil (hending : ending = "\n" ∨ ending = "\r\n") (h : Lined ending text)
    (hne : text ≠ "") : lines text ≠ [] := by
  cases h with
  | last h =>
      rw [lines_of_last h, if_neg (by simpa using hne)]
      exact List.cons_ne_nil _ _
  | line hline hbare hrest =>
      rw [lines_line hending hline hbare]
      exact List.cons_ne_nil _ _

/-- A text is its lines with their endings. -/
theorem intercalate_lines (hending : ending = "\n" ∨ ending = "\r\n") (h : Lined ending text) :
    ending.intercalate (lines text) ++ (if endsLine text then ending else "") = text := by
  induction h with
  | @last text h =>
      have hopen : endsLine text = false := by
        unfold endsLine
        rw [beq_eq_false_iff_ne]
        exact fun hlast => h (List.mem_of_getLast? hlast)
      rw [lines_of_last h, hopen]
      by_cases hempty : text = ""
      · subst hempty
        rfl
      · rw [if_neg (by simpa using hempty), String.intercalate_singleton]
        simp
  | @line line rest hline hbare hrest ih =>
      rw [lines_line hending hline hbare]
      by_cases hempty : rest = ""
      · subst hempty
        have hends : endsLine (line ++ ending ++ "") = true := by
          unfold endsLine
          rcases hending with rfl | rfl <;> simp
        rw [hends]
        change ending.intercalate [line] ++ ending = _
        rw [String.intercalate_singleton, String.append_empty]
      · have hlines := lines_ne_nil hending hrest hempty
        rw [endsLine_append hempty, String.intercalate_cons_of_ne_nil hlines, String.append_assoc,
          ih]

/-- A text can be cut in front of any of its lines. -/
theorem exists_cut (hending : ending = "\n" ∨ ending = "\r\n") (h : Lined ending text)
    {before after : List String} (hlines : lines text = before ++ after) (hne : after ≠ []) :
    ∃ rest, text = ended ending before ++ rest ∧ lines rest = after ∧ Lined ending rest := by
  induction before generalizing text with
  | nil => exact ⟨text, by simp, hlines, h⟩
  | cons first before ih =>
      cases h with
      | last h =>
          rw [lines_of_last h] at hlines
          split at hlines
          · cases hlines
          · obtain ⟨-, hnil⟩ := List.cons.inj hlines
            exact absurd (List.append_eq_nil_iff.mp hnil.symm).2 hne
      | @line line rest hline hbare hrest =>
          rw [lines_line hending hline hbare, List.cons_append] at hlines
          obtain ⟨rfl, hbehind⟩ := List.cons.inj hlines
          obtain ⟨rest', rfl, hrest'⟩ := ih hrest hbehind
          exact ⟨rest', by rw [ended_cons, ← String.append_assoc], hrest'⟩

/-- Lines that are put in between two lines of a text, each with the ending of the text. -/
theorem intercalate_inserted (hending : ending = "\n" ∨ ending = "\r\n") (h : Lined ending text)
    {before after : List String} (hlines : lines text = before ++ after) (hne : after ≠ [])
    (block : List String) :
    ∃ rest, text = ended ending before ++ rest ∧ lines rest = after ∧
      ending.intercalate (before ++ block ++ after) ++ (if endsLine text then ending else "") =
        ended ending before ++ ended ending block ++ rest := by
  obtain ⟨rest, rfl, hrest, hlined⟩ := exists_cut hending h hlines hne
  have hne' : rest ≠ "" := by
    rintro rfl
    exact hne hrest.symm
  have hended : ∀ front, ending.intercalate (front ++ after) =
      ended ending front ++ ending.intercalate after := by
    intro front
    induction front with
    | nil => simp
    | cons line front ih =>
        rw [List.cons_append, String.intercalate_cons_of_ne_nil (by simp [hne]), ih, ended_cons,
          ← String.append_assoc]
  refine ⟨rest, rfl, hrest, ?_⟩
  rw [hended, ended_append, endsLine_append hne', String.append_assoc, ← hrest,
    intercalate_lines hending hlined]

/-! ## The line ending of a text -/

theorem hasCarriageReturn_iff {text : List Char} :
    hasCarriageReturn text = true ↔ ∃ front back, text = front ++ '\r' :: '\n' :: back := by
  induction text with
  | nil => simp [hasCarriageReturn]
  | cons c text ih =>
      unfold hasCarriageReturn
      split
      · rename_i back heq
        obtain ⟨rfl, rfl⟩ := List.cons.inj heq
        exact ⟨fun _ => ⟨[], back, rfl⟩, fun _ => rfl⟩
      · rename_i c' rest hne heq
        obtain ⟨rfl, rfl⟩ := List.cons.inj heq
        rw [ih]
        constructor
        · rintro ⟨front, back, rfl⟩
          exact ⟨c :: front, back, rfl⟩
        · rintro ⟨front, back, heq⟩
          cases front with
          | nil =>
              obtain ⟨rfl, rfl⟩ := List.cons.inj heq
              exact absurd rfl (hne back rfl)
          | cons first front =>
              obtain ⟨rfl, rfl⟩ := List.cons.inj heq
              exact ⟨front, back, rfl⟩
      · rename_i heq
        cases heq

/-- A text is made of lines if what stands in front of every line feed is a line and the rest of an
ending.  The property of the character in front has to hold of no character too, because it is
passed on to what follows a line feed. -/
theorem lined_of_forall {p : Option Char → Prop} (hreset : p (some '\n') → p none)
    (hsplit : ∀ front : List Char, p front.getLast? →
      ∃ line, front ++ ['\n'] = line ++ ending.toList ∧
      line <+: front ∧ (ending = "\n" → line.getLast? ≠ some '\r'))
    (h : ∀ front back, text.toList = front ++ '\n' :: back → p front.getLast?) :
    Lined ending text := by
  induction hlength : text.toList.length using Nat.strongRecOn generalizing text with
  | ind n ih =>
      by_cases hmem : '\n' ∈ text.toList
      · obtain ⟨front, back, htext, hfront⟩ := List.eq_append_cons_of_mem hmem
        obtain ⟨line, hline, hstart, hbare⟩ := hsplit front (h front back htext)
        have hrest : Lined ending (String.ofList back) := by
          refine ih _ ?_ (fun front' back' hback => ?_) rfl
          · rw [← hlength, htext]
            simp
            omega
          · rw [String.toList_ofList] at hback
            have hlast := h (front ++ '\n' :: front') back' (by rw [htext, hback]; simp)
            cases front' with
            | nil => exact hreset (by simpa using hlast)
            | cons c front' =>
                rwa [List.append_cons,
                  List.getLast?_append_of_ne_nil _ (List.cons_ne_nil _ _)] at hlast
        have heq : text = String.ofList line ++ ending ++ String.ofList back := by
          rw [← String.toList_inj, htext, String.toList_append, String.toList_append,
            String.toList_ofList, String.toList_ofList, ← hline]
          simp
        rw [heq]
        refine .line ?_ (by simpa using hbare) hrest
        rw [String.toList_ofList]
        exact fun hin => hfront (hstart.subset hin)
      · exact .last hmem

theorem ending_cases (h : UsesEnding ending text) : ending = "\n" ∨ ending = "\r\n" :=
  h.symm.imp And.left And.left

/-- A text that uses a line ending throughout consists of lines with that ending. -/
theorem lined_of_usesEnding (h : UsesEnding ending text) : Lined ending text := by
  rcases h with ⟨rfl, hreturns⟩ | ⟨rfl, hbare⟩
  · refine lined_of_forall (p := (· = some '\r')) (by decide) (fun front hlast => ?_) hreturns
    obtain ⟨line, rfl⟩ := List.getLast?_eq_some_iff.mp hlast
    exact ⟨line, by simp, List.prefix_append _ _, fun heq => absurd heq (by decide)⟩
  · exact lined_of_forall (p := (· ≠ some '\r')) (fun _ => by decide)
      (fun front hlast => ⟨front, rfl, List.prefix_refl _, fun _ => hlast⟩) hbare

/-- The line ending of a text of several lines is the one that it uses. -/
theorem lineEnding_eq (h : UsesEnding ending text) (hmem : '\n' ∈ text.toList) :
    lineEnding text = ending := by
  unfold lineEnding
  rcases h with ⟨rfl, hreturns⟩ | ⟨rfl, hbare⟩
  · obtain ⟨front, back, htext, -⟩ := List.eq_append_cons_of_mem hmem
    obtain ⟨line, rfl⟩ := List.getLast?_eq_some_iff.mp (hreturns front back htext)
    exact if_pos (hasCarriageReturn_iff.mpr ⟨line, back, by simpa using htext⟩)
  · refine if_neg fun hreturn => ?_
    obtain ⟨front, back, htext⟩ := hasCarriageReturn_iff.mp hreturn
    exact hbare (front ++ ['\r']) back (by simpa using htext) (by simp)

/-- A text of several lines has a line feed. -/
theorem mem_of_lines (h : 1 < (lines text).length) : '\n' ∈ text.toList := by
  by_contra hmem
  rw [lines_of_last hmem] at h
  split at h <;> simp at h

end NativeExports.Text
