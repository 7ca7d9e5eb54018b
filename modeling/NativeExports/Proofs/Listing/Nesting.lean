import Mathlib.Data.List.Infix
import NativeExports.Proofs.Listing.Insertion

/-!
# Directives in nested blocks

The search for a place for directives goes by lines and does not keep track of blocks.  It finds the
class with the wrappers if a method of the class stands in front of every block in it.  If some
block is opened before, such as the body of a nested type, then directives get into that block, or
none are inserted.
-/

namespace NativeExports.Listing

/-! ## Blocks -/

theorem not_starts {start other line : String} (h : Starts start line)
    (hdiffer : ¬start.toList <+: other.toList ∧ ¬other.toList <+: start.toList) :
    ¬Starts other line := fun hother =>
  (List.prefix_or_prefix_of_prefix h hother).elim hdiffer.1 hdiffer.2

/-- How many blocks deeper a line leads. -/
def descent (line : String) : Int :=
  if Starts "\x7b" line then 1 else if Starts "\x7d" line then -1 else 0

/-- How many blocks deeper some lines lead. -/
def depth : List String → Int
  | [] => 0
  | line :: lines => descent line + depth lines

theorem depth_append (front back : List String) :
    depth (front ++ back) = depth front + depth back := by
  induction front with
  | nil => exact (Int.zero_add _).symm
  | cons line front ih => rw [List.cons_append, depth, depth, ih, Int.add_assoc]

theorem descent_of_opens {line : String} (h : Starts "\x7b" line) : descent line = 1 :=
  if_pos h

theorem descent_of_closes {line : String} (h : Starts "\x7d" line) : descent line = -1 := by
  rw [descent, if_neg (not_starts h (by decide)), if_pos h]

/-- Only the end of a block leads out of it. -/
theorem descent_nonneg {line : String} (h : ¬Starts "\x7d" line) : 0 ≤ descent line := by
  unfold descent
  split <;> omega

/-- Only the beginning of a block leads into it. -/
theorem depth_nonpos {lines : List String} (h : ∀ line ∈ lines, ¬Starts "\x7b" line) :
    depth lines ≤ 0 := by
  induction lines with
  | nil => exact Int.le_refl 0
  | cons line lines ih =>
      obtain ⟨hline, hlines⟩ := List.forall_mem_cons.mp h
      have hrest := ih hlines
      rw [depth, descent, if_neg hline]
      split <;> omega

theorem depth_nonneg {lines : List String} (h : ∀ line ∈ lines, ¬Starts "\x7d" line) :
    0 ≤ depth lines := by
  induction lines with
  | nil => exact Int.le_refl 0
  | cons line lines ih =>
      obtain ⟨hline, hlines⟩ := List.forall_mem_cons.mp h
      exact Int.add_nonneg (descent_nonneg hline) (ih hlines)

/-- Every block that is opened in some lines is closed in them, and no other block is. -/
structure Braced (lines : List String) : Prop where
  inside : ∀ front, front <+: lines → 0 ≤ depth front
  closed : depth lines = 0

instance (lines : List String) : Decidable (Braced lines) :=
  decidable_of_iff ((∀ front ∈ lines.inits, 0 ≤ depth front) ∧ depth lines = 0)
    ⟨fun h => ⟨fun front hfront => h.1 front ((List.mem_inits _ _).mpr hfront), h.2⟩,
      fun h => ⟨fun front hfront => h.inside front ((List.mem_inits _ _).mp hfront), h.closed⟩⟩

/-- Lines that lead further out than some blocks have a line that closes the outermost of them. -/
theorem exists_closing {lines : List String} {opened : Int} (hopened : 0 ≤ opened)
    (h : opened + depth lines < 0) : ∃ body closing back, lines = body ++ closing :: back ∧
      (∀ front, front <+: body → 0 ≤ opened + depth front) ∧ opened + depth body = 0 ∧
      Starts "\x7d" closing := by
  induction lines generalizing opened with
  | nil => exact absurd h (by rw [depth]; omega)
  | cons line lines ih =>
      by_cases hlast : opened = 0 ∧ Starts "\x7d" line
      · refine ⟨[], line, lines, rfl, fun front hfront => ?_, by rw [depth]; omega, hlast.2⟩
        rw [List.prefix_nil.mp hfront, depth]
        omega
      · have hstep : 0 ≤ opened + descent line := by
          by_cases hcloses : Starts "\x7d" line
          · have hne : opened ≠ 0 := fun hzero => hlast ⟨hzero, hcloses⟩
            rw [descent_of_closes hcloses]
            omega
          · have := descent_nonneg hcloses
            omega
        rw [depth] at h
        obtain ⟨body, closing, back, rfl, hinside, hclosed, hcloses⟩ := ih hstep (by omega)
        refine ⟨line :: body, closing, back, rfl, fun front hfront => ?_, ?_, hcloses⟩
        · rcases List.prefix_cons_iff.mp hfront with rfl | ⟨front', rfl, hfront'⟩
          · rw [depth]
            omega
          · have := hinside front' hfront'
            rw [depth]
            omega
        · rw [depth]
          omega

/-! ## The body of the container -/

/-- The first line that opens the container, the block behind it, and the lines around them. -/
structure Container (lines : List String) where
  front : List String
  header : String
  /-- What the declaration goes on with on further lines. -/
  intro : List String
  opening : String
  body : List String
  closing : String
  back : List String
  lines_eq : lines = front ++ header :: (intro ++ opening :: (body ++ closing :: back))
  front_not : ∀ line ∈ front, ¬Starts containerHeader line
  header_starts : Starts containerHeader header
  intro_passes : ∀ line ∈ intro, Passes line
  opens : Starts "\x7b" opening
  braced : Braced body
  closes : Starts "\x7d" closing

/-- A listing declares the container: one line opens it, and the next line that opens or closes a
block or declares a method opens a block. -/
def DeclaresContainer (lines : List String) : Prop :=
  ∃ front header intro opening behind, lines = front ++ header :: (intro ++ opening :: behind) ∧
    (∀ line ∈ front ++ intro ++ opening :: behind, ¬Starts containerHeader line) ∧
    Starts containerHeader header ∧
    (∀ line ∈ intro, Passes line ∧ ¬Starts "\x7b" line) ∧ Starts "\x7b" opening

variable {lines out : List String} {directives : List Directive}

/-- In a properly braced listing, the block of the container is closed. -/
theorem nonempty_container (h : Braced lines) (hdeclares : DeclaresContainer lines) :
    Nonempty (Container lines) := by
  obtain ⟨front, header, intro, opening, behind, rfl, honce, hheader, hintro, hopens⟩ := hdeclares
  have hinside : 0 ≤ depth (front ++ header :: intro) :=
    h.inside _ ⟨opening :: behind, by simp⟩
  have hclosed := h.closed
  simp only [depth_append, depth, descent_of_opens hopens] at hinside hclosed
  obtain ⟨body, closing, back, rfl, hbody, hdepth, hcloses⟩ :=
    exists_closing (Int.le_refl 0) (show 0 + depth behind < 0 by omega)
  exact ⟨{
    front := front
    header := header
    intro := intro
    opening := opening
    body := body
    closing := closing
    back := back
    lines_eq := rfl
    front_not := fun line hmem => honce line (by simp [hmem])
    header_starts := hheader
    intro_passes := fun line hmem => (hintro line hmem).1
    opens := hopens
    braced := ⟨fun front hfront => by simpa using hbody front hfront, by simpa using hdepth⟩
    closes := hcloses }⟩

/-! ## Where directives go -/

theorem insertBeforeMethod_passes {block front : List String} (h : ∀ line ∈ front, Passes line)
    (back : List String) :
    insertBeforeMethod block (front ++ back) =
      (insertBeforeMethod block back).map (front ++ ·) := by
  induction front with
  | nil => simp
  | cons line front ih =>
      obtain ⟨⟨hmethod, hcloses⟩, hfront⟩ := List.forall_mem_cons.mp h
      rw [List.cons_append, insertBeforeMethod, if_neg (mt (declaresMethod_iff line).mp hmethod),
        if_neg (mt (closesBlock_iff line).mp hcloses), ih hfront, Option.map_map]
      rfl

/-- Nothing is looked for behind the end of a block. -/
theorem insertBeforeMethod_closes {block : List String} {closing : String}
    (h : Starts "\x7d" closing) (body back : List String) :
    insertBeforeMethod block (body ++ closing :: back) =
      (insertBeforeMethod block body).map (· ++ closing :: back) := by
  have hmethod : ¬Starts ".method" closing := not_starts h (by decide)
  induction body with
  | nil =>
      rw [List.nil_append]
      unfold insertBeforeMethod
      rw [if_neg (mt (declaresMethod_iff closing).mp hmethod),
        if_pos ((closesBlock_iff closing).mpr h)]
      rfl
  | cons line body ih =>
      rw [List.cons_append, insertBeforeMethod, insertBeforeMethod, ih]
      split
      · simp
      split
      · rfl
      · rw [Option.map_map, Option.map_map]
        rfl

namespace Container

variable (c : Container lines)

/-- The listing with other lines in place of the body of the container. -/
def withBody (body : List String) : List String :=
  c.front ++ c.header :: (c.intro ++ c.opening :: (body ++ c.closing :: c.back))

/-- Some lines of the body lead to a method of the container itself. -/
structure Own (inner : List String) (method : String) (rest : List String) : Prop where
  body_eq : c.body = inner ++ method :: rest
  declares : Starts ".method" method
  own : depth inner = 0

/-- A method stands in front of every block that is opened in the body. -/
def MethodFirst : Prop :=
  ∀ inner opening rest, c.body = inner ++ opening :: rest → Starts "\x7b" opening →
    ∃ line ∈ inner, Starts ".method" line

/-- Directives are looked for a place in the body of the container only. -/
theorem insertInLines_eq (hne : directives ≠ []) :
    insertInLines lines directives =
      match insertBeforeMethod (exportBlock directives) c.body with
      | some body => .ok (c.withBody body)
      | none => .error (.invariant .noContainerMethod) := by
  have hopening : Passes c.opening :=
    ⟨not_starts c.opens (by decide), not_starts c.opens (by decide)⟩
  conv_lhs => rw [c.lines_eq]
  rw [Listing.insertInLines_eq hne c.front_not c.header_starts,
    insertBeforeMethod_passes c.intro_passes, ← List.singleton_append,
    insertBeforeMethod_passes (by simpa using hopening), insertBeforeMethod_closes c.closes]
  cases insertBeforeMethod (exportBlock directives) c.body <;> rfl

theorem exists_of_insertInLines (hne : directives ≠ [])
    (h : insertInLines lines directives = .ok out) : ∃ inner method rest,
      c.body = inner ++ method :: rest ∧ (∀ line ∈ inner, Passes line) ∧ Starts ".method" method ∧
        out = c.withBody (inner ++ exportBlock directives ++ method :: rest) := by
  rw [c.insertInLines_eq hne] at h
  split at h
  · rename_i body hbody
    obtain ⟨inner, method, rest, hsplit, hinner, hmethod, rfl⟩ := exists_of_insertBeforeMethod hbody
    exact ⟨inner, method, rest, hsplit, hinner, hmethod, (Except.ok.inj h).symm⟩
  · cases h

variable {inner rest : List String} {method : String}

/-- If a method stands in front of every block, then no block is opened or closed in front of the
first method. -/
theorem flat_of_methodFirst (hfirst : c.MethodFirst) (hbody : c.body = inner ++ method :: rest)
    (hinner : ∀ line ∈ inner, ¬Starts ".method" line) :
    (∀ line ∈ inner, Passes line) ∧ depth inner = 0 := by
  have hopen : ∀ line ∈ inner, ¬Starts "\x7b" line := by
    intro line hmem hopens
    obtain ⟨front, back, rfl⟩ := List.append_of_mem hmem
    obtain ⟨other, hother, hmethod⟩ :=
      hfirst front line (back ++ method :: rest) (by simp [hbody]) hopens
    exact hinner other (by simp [hother]) hmethod
  have hclose : ∀ line ∈ inner, ¬Starts "\x7d" line := by
    intro line hmem hcloses
    obtain ⟨front, back, rfl⟩ := List.append_of_mem hmem
    -- The end of a block that was not opened would lead out of the body.
    have hinside := c.braced.inside (front ++ [line]) ⟨back ++ method :: rest, by simp [hbody]⟩
    have hfront : depth front ≤ 0 := depth_nonpos fun other hother => hopen other (by simp [hother])
    rw [depth_append, depth, depth, descent_of_closes hcloses] at hinside
    omega
  exact ⟨fun line hmem => ⟨hinner line hmem, hclose line hmem⟩,
    Int.le_antisymm (depth_nonpos hopen) (depth_nonneg hclose)⟩

/-- If a block is opened in front of every method, then what is found lies in that block. -/
theorem nested_of_not_methodFirst (hfirst : ¬c.MethodFirst)
    (hbody : c.body = inner ++ method :: rest)
    (hinner : ∀ line ∈ inner, Passes line) (hmethod : Starts ".method" method) :
    1 ≤ depth inner := by
  unfold MethodFirst at hfirst
  push Not at hfirst
  obtain ⟨front, opening, back, hsplit, hopens, hfront⟩ := hfirst
  have hother : ¬Starts ".method" opening := not_starts hopens (by decide)
  have hmem : opening ∈ inner := by
    have hblock : front ++ [opening] <+: c.body := ⟨back, by simp [hsplit]⟩
    have hfound : inner ++ [method] <+: c.body := ⟨rest, by simp [hbody]⟩
    rcases List.prefix_or_prefix_of_prefix hblock hfound with h | h
    · rcases List.mem_append.mp (h.subset (List.mem_append_right _ (.head _))) with hmem | hmem
      · exact hmem
      · rw [List.mem_singleton.mp hmem] at hother
        exact absurd hmethod hother
    · rcases List.mem_append.mp (h.subset (List.mem_append_right _ (.head _))) with hmem | hmem
      · exact absurd hmethod (hfront method hmem)
      · rw [List.mem_singleton.mp hmem] at hmethod
        exact absurd hmethod hother
  obtain ⟨before, behind, rfl⟩ := List.append_of_mem hmem
  have hbefore : 0 ≤ depth before :=
    depth_nonneg fun line hline => (hinner line (by simp [hline])).2
  have hbehind : 0 ≤ depth behind :=
    depth_nonneg fun line hline => (hinner line (by simp [hline])).2
  rw [depth_append, depth, descent_of_opens hopens]
  omega

end Container

/-- In a properly braced listing, directives go in front of the first method that the container
itself declares, if a method stands in front of every block in the container.  Otherwise they go
into a block in the container, or there is said to be no method. -/
theorem insertInLines_lands (hne : directives ≠ []) (hbraced : Braced lines)
    (hdeclares : DeclaresContainer lines) :
    Nonempty (Container lines) ∧ ∀ c : Container lines,
      (c.MethodFirst →
        (∀ out, insertInLines lines directives = .ok out → ∃ inner method rest,
          c.Own inner method rest ∧ (∀ line ∈ inner, ¬Starts ".method" line) ∧
          out = c.withBody (inner ++ exportBlock directives ++ method :: rest)) ∧
        ((∃ inner method rest, c.Own inner method rest) →
          ∃ out, insertInLines lines directives = .ok out)) ∧
      (¬c.MethodFirst →
        insertInLines lines directives = .error (.invariant .noContainerMethod) ∨
        ∃ inner method rest, c.body = inner ++ method :: rest ∧ Starts ".method" method ∧
          1 ≤ depth inner ∧ insertInLines lines directives =
            .ok (c.withBody (inner ++ exportBlock directives ++ method :: rest))) := by
  refine ⟨nonempty_container hbraced hdeclares, fun c => ⟨fun hfirst => ⟨fun out h => ?_, ?_⟩,
    fun hfirst => ?_⟩⟩
  · obtain ⟨inner, method, rest, hbody, hinner, hmethod, rfl⟩ := c.exists_of_insertInLines hne h
    have hnone : ∀ line ∈ inner, ¬Starts ".method" line := fun line hmem => (hinner line hmem).1
    exact ⟨inner, method, rest,
      ⟨hbody, hmethod, (c.flat_of_methodFirst hfirst hbody hnone).2⟩, hnone,
      rfl⟩
  · rintro ⟨inner, method, rest, hown⟩
    have hmem : method ∈ c.body := by rw [hown.body_eq]; simp
    obtain ⟨first, front, back, hfront, hmethod, hbody, -⟩ :=
      List.exists_of_eraseP (p := fun line => decide (Starts ".method" line)) hmem
        (decide_eq_true hown.declares)
    have hflat :=
      c.flat_of_methodFirst hfirst hbody fun line hline => by simpa using hfront line hline
    rw [c.insertInLines_eq hne, hbody,
      insertBeforeMethod_append hflat.1 (of_decide_eq_true hmethod)]
    exact ⟨_, rfl⟩
  · cases h : insertInLines lines directives with
    | ok out =>
        obtain ⟨inner, method, rest, hbody, hinner, hmethod, rfl⟩ := c.exists_of_insertInLines hne h
        exact .inr ⟨inner, method, rest, hbody, hmethod,
          c.nested_of_not_methodFirst hfirst hbody hinner hmethod, rfl⟩
    | error e =>
        rw [c.insertInLines_eq hne] at h
        split at h
        · cases h
        · exact .inl h.symm

/-- A container with a nested type in front of its method. -/
def nestedListing : List String :=
  [containerHeader, "\x7b", ".class A", "\x7b", ".method B", "\x7b", "\x7d", "\x7d", ".method C",
    "\x7b", "\x7d", "\x7d"]

/-- The parts of that listing. -/
def nestedContainer : Container nestedListing where
  front := []
  header := containerHeader
  intro := []
  opening := "\x7b"
  body := [".class A", "\x7b", ".method B", "\x7b", "\x7d", "\x7d", ".method C", "\x7b", "\x7d"]
  closing := "\x7d"
  back := []
  lines_eq := rfl
  front_not := nofun
  header_starts := by decide +kernel
  intro_passes := nofun
  opens := by decide +kernel
  braced := by decide +kernel
  closes := by decide +kernel

theorem not_methodFirst_nestedContainer : ¬nestedContainer.MethodFirst := by
  intro hfirst
  obtain ⟨line, hmem, hmethod⟩ := hfirst [".class A"] "\x7b" _ rfl (by decide +kernel)
  rw [List.mem_singleton.mp hmem] at hmethod
  exact absurd hmethod (by decide +kernel)

/-- The container declares a method, but directives go into the nested type. -/
theorem insertInLines_lands_in_nestedType :
    [Directive.mk 1 "RVExtension"] ≠ [] ∧ Braced nestedListing ∧ DeclaresContainer nestedListing ∧
      (∃ inner method rest, nestedContainer.Own inner method rest) ∧
      ∃ inner method rest, nestedContainer.body = inner ++ method :: rest ∧ 1 ≤ depth inner ∧
        insertInLines nestedListing [Directive.mk 1 "RVExtension"] = .ok (nestedContainer.withBody
          (inner ++ exportBlock [Directive.mk 1 "RVExtension"] ++ method :: rest)) := by
  have hne : [Directive.mk 1 "RVExtension"] ≠ [] := List.cons_ne_nil _ _
  have hbraced : Braced nestedListing := by decide +kernel
  have hdeclares : DeclaresContainer nestedListing :=
    ⟨[], containerHeader, [], "\x7b", _, rfl, by decide +kernel, by decide +kernel, nofun,
      by decide +kernel⟩
  refine ⟨hne, hbraced, hdeclares, ?_, ?_⟩
  · exact ⟨[".class A", "\x7b", ".method B", "\x7b", "\x7d", "\x7d"], ".method C", _, rfl,
      by decide +kernel, by decide +kernel⟩
  · rcases ((insertInLines_lands hne hbraced hdeclares).2 nestedContainer).2
      not_methodFirst_nestedContainer with hrefused | ⟨inner, method, rest, hbody, -, hdepth, hout⟩
    · have hok : (insertInLines nestedListing [Directive.mk 1 "RVExtension"]).isOk = true := by
        decide +kernel
      rw [hrefused] at hok
      cases hok
    · exact ⟨inner, method, rest, hbody, hdepth, hout⟩

end NativeExports.Listing
