import NativeExports.Library
import NativeExports.Proofs.Export.Markers

/-!
# First markers of methods

A method can have several markers, of which the one in the first row counts.  Markers are looked up
among all that were found, methods among those of each type; so what is found is a list of methods
in the order of their types, each with its first marker.
-/

namespace NativeExports

variable {assembly : Assembly} {markers : List Marker} {row method : Nat}

namespace Marker

/-- An attribute marks a method: it is a marker, and attached to what has the token of the
method. -/
def Marks (assembly : Assembly) (row method : Nat) : Prop :=
  IsMarker assembly row ∧ assembly.attributeParent row = .ok (Token.ofRow .methodDef method)

/-- An attribute is the first one that marks a method. -/
def IsFirst (assembly : Assembly) (row method : Nat) : Prop :=
  Marks assembly row method ∧ ∀ other < row, ¬Marks assembly other method

theorem IsFirst.unique {row' : Nat} (h : IsFirst assembly row method)
    (h' : IsFirst assembly row' method) : row = row' := by
  rcases Nat.lt_trichotomy row row' with hlt | heq | hlt
  · exact absurd h.1 (h'.2 row hlt)
  · exact heq
  · exact absurd h'.1 (h.2 row' hlt)

/-! ## Markers that are found -/

/-- A marker that is found in a row is one, and has the parent of that row. -/
theorem ofRow?_eq_some {marker : Marker} (h : ofRow? assembly row = .ok (some marker)) :
    IsMarker assembly row ∧ marker.row = row ∧
      assembly.attributeParent row = .ok marker.parent := by
  obtain ⟨constructor, hconstructor, h⟩ := Outcome.bind_eq_ok.mp h
  obtain ⟨owner?, howner, h⟩ := Outcome.bind_eq_ok.mp h
  rcases owner? with _ | type
  · cases h
  obtain ⟨name?, hname, h⟩ := Outcome.bind_eq_ok.mp h
  rcases name? with _ | ⟨space, name⟩
  · cases h
  dsimp only at h
  split at h
  · cases h
  rename_i hsame
  obtain rfl := not_not.mp hsame
  obtain ⟨stored, hstored, h⟩ := Outcome.bind_eq_ok.mp h
  obtain ⟨⟨table, parent⟩, hdecode, h⟩ := Outcome.bind_eq_ok.mp h
  obtain rfl := Option.some.inj (Outcome.pure_eq_ok.mp h)
  refine ⟨⟨constructor, space, hconstructor,
    (constructorTypeName?_of_owner howner).trans hname⟩, rfl, ?_⟩
  rw [Assembly.attributeParent, hstored, Outcome.ok_bind, hdecode]
  rfl

theorem exists_ofRow?_of_isMarker {parent : Token} (h : IsMarker assembly row)
    (hparent : assembly.attributeParent row = .ok parent) :
    ∃ type, ofRow? assembly row = .ok (some ⟨row, parent, type⟩) := by
  obtain ⟨constructor, space, hconstructor, hname⟩ := h
  obtain ⟨owner?, howner, hname⟩ := Outcome.bind_eq_ok.mp hname
  rcases owner? with _ | type
  · cases hname
  dsimp only at hname
  obtain ⟨stored, hstored, hparent⟩ := Outcome.bind_eq_ok.mp hparent
  obtain ⟨⟨table, named⟩, hdecode, hparent⟩ := Outcome.bind_eq_ok.mp hparent
  obtain rfl := Outcome.pure_eq_ok.mp hparent
  refine ⟨type, ?_⟩
  unfold ofRow?
  rw [hconstructor, Outcome.ok_bind, howner, Outcome.ok_bind]
  dsimp only
  rw [hname, Outcome.ok_bind]
  dsimp only
  rw [if_neg (not_not.mpr rfl), hstored, Outcome.ok_bind, hdecode]
  rfl

theorem marks_iff {marker? : Option Marker} (h : ofRow? assembly row = .ok marker?) :
    Marks assembly row method ↔
      ∃ marker, marker? = some marker ∧ marker.parent = Token.ofRow .methodDef method := by
  constructor
  · rintro ⟨hmarker, hparent⟩
    obtain ⟨type, hof⟩ := exists_ofRow?_of_isMarker hmarker hparent
    obtain rfl := Except.ok.inj (h.symm.trans hof)
    exact ⟨_, rfl, rfl⟩
  · rintro ⟨marker, rfl, hsame⟩
    obtain ⟨hmarker, -, hparent⟩ := ofRow?_eq_some h
    exact ⟨hmarker, hsame ▸ hparent⟩

/-- All markers are what the rows of the attribute table hold, one after another. -/
theorem all_eq_ok : all assembly = .ok markers ↔ ∃ found : List (Option Marker),
    List.Forall₂ (fun row marker? => ofRow? assembly row = .ok marker?)
      (assembly.rowNumbers .customAttribute) found ∧ markers = found.filterMap id := by
  unfold all
  rw [Outcome.bind_eq_ok]
  simp only [Outcome.mapM_eq_ok, Outcome.pure_eq_ok, eq_comm (a := markers)]

/-- The row at each position of the attribute table. -/
theorem ofRow?_getElem {found : List (Option Marker)}
    (h : List.Forall₂ (fun row marker? => ofRow? assembly row = .ok marker?)
      (assembly.rowNumbers .customAttribute) found) {i : Nat} (hi : i < found.length) :
    ofRow? assembly (i + 1) = .ok found[i] := by
  have hrow := (List.forall₂_iff_get.mp h).2 i (h.length_eq ▸ hi) hi
  simpa [Assembly.rowNumbers, Nat.add_comm 1 i] using hrow

/-- The search among all markers finds the first marker of a method. -/
theorem find?_eq_some {marker : Marker} (h : all assembly = .ok markers)
    (hfind : markers.find? (fun marker => marker.parent = Token.ofRow .methodDef method) =
      some marker) :
    IsFirst assembly marker.row method := by
  obtain ⟨found, hfound, rfl⟩ := all_eq_ok.mp h
  rw [List.find?_filterMap, Option.bind_eq_some_iff] at hfind
  obtain ⟨_, hfind, rfl⟩ := hfind
  obtain ⟨hparent, i, hi, hget, hearlier⟩ := List.find?_eq_some_iff_getElem.mp hfind
  have hof := ofRow?_getElem hfound hi
  obtain ⟨-, hrow, -⟩ := ofRow?_eq_some (hget ▸ hof)
  rw [hrow]
  refine ⟨(marks_iff hof).mpr ⟨marker, hget, by simpa using hparent⟩, fun other hlt hmarks => ?_⟩
  have hpos := (Tables.exists_row?.mp hmarks.1.exists_row).1
  obtain ⟨j, rfl⟩ := Nat.exists_eq_add_of_le' hpos
  have hnone := hearlier j (by omega)
  obtain ⟨earlier, hget', hparent'⟩ :=
    (marks_iff (ofRow?_getElem hfound (by omega : j < _))).mp hmarks
  rw [hget'] at hnone
  simp [hparent'] at hnone

/-- The search among all markers finds a marker if there is one. -/
theorem not_marks_of_find? (h : all assembly = .ok markers)
    (hfind : markers.find? (fun marker => marker.parent = Token.ofRow .methodDef method) = none) :
    ¬Marks assembly row method := by
  obtain ⟨found, hfound, rfl⟩ := all_eq_ok.mp h
  intro hmarks
  obtain ⟨marker?, hmem, hof⟩ :=
    Outcome.exists_of_forall₂_left hfound (Assembly.mem_rowNumbers.mpr hmarks.1.exists_row)
  obtain ⟨marker, rfl, hparent⟩ := (marks_iff hof).mp hmarks
  have hnone := List.find?_eq_none.mp hfind marker (List.mem_filterMap.mpr ⟨_, hmem, rfl⟩)
  exact hnone (decide_eq_true hparent)

end Marker

/-! ## Methods of types -/

namespace Assembly

/-- The methods of types begin further and further down the table of methods. -/
def MethodsInOrder (assembly : Assembly) : Prop :=
  ∀ row row' first first', row ≤ row' →
    assembly.tables.value .typeDef row TypeDef.methodColumn = .ok first →
      assembly.tables.value .typeDef row' TypeDef.methodColumn = .ok first' → first ≤ first'

/-- The methods of a type begin where the type says, and end where the next one says. -/
theorem methodRun_eq_ok {type start stop : Nat} (h : assembly.methodRun type = .ok (start, stop)) :
    ∃ first, assembly.tables.value .typeDef type TypeDef.methodColumn = .ok first ∧
      start = min first (assembly.tables.count .methodDef + 1) ∧
      (type < assembly.tables.count .typeDef → ∃ next,
        assembly.tables.value .typeDef (type + 1) TypeDef.methodColumn = .ok next ∧
          stop = max start (min next (assembly.tables.count .methodDef + 1))) := by
  obtain ⟨first, hfirst, h⟩ := Outcome.bind_eq_ok.mp h
  refine ⟨first, hfirst, ?_⟩
  by_cases hlast : type < assembly.tables.count .typeDef
  · rw [if_pos hlast] at h
    obtain ⟨last, hlast, h⟩ := Outcome.bind_eq_ok.mp h
    obtain ⟨next, hnext, rfl⟩ := Outcome.map_eq_ok.mp hlast
    obtain ⟨rfl, rfl⟩ := Prod.mk.inj (Outcome.pure_eq_ok.mp h)
    exact ⟨rfl, fun _ => ⟨next, hnext, rfl⟩⟩
  · rw [if_neg hlast] at h
    obtain ⟨rfl, -⟩ := Prod.mk.inj (Outcome.pure_eq_ok.mp h)
    exact ⟨rfl, fun hlt => absurd hlt hlast⟩

/-- The methods of a type end before those of later types begin. -/
theorem methodRun_ordered (h : assembly.MethodsInOrder) {type type' start stop start' stop' : Nat}
    (hlt : type < type') (hrun : assembly.methodRun type = .ok (start, stop))
    (hrun' : assembly.methodRun type' = .ok (start', stop')) : stop ≤ start' := by
  obtain ⟨first, hfirst, hstart, hbehind⟩ := methodRun_eq_ok hrun
  obtain ⟨first', hfirst', hstart', -⟩ := methodRun_eq_ok hrun'
  have hle := (Tables.bounds_of_value hfirst').2
  obtain ⟨next, hnext, hstop⟩ := hbehind (Nat.lt_of_lt_of_le hlt hle)
  clear hbehind
  have hnear := h type (type + 1) first next (by omega) hfirst hnext
  have hfar := h (type + 1) type' next first' hlt hnext hfirst'
  omega

/-- Where the methods of all types can be told, a method belongs to the type that has it. -/
theorem ownerOf_eq_ok (h : assembly.MethodsInOrder)
    (hruns : ∀ type ∈ assembly.rowNumbers .typeDef, ∃ run, assembly.methodRun type = .ok run)
    {owner : Nat} : assembly.ownerOf method = .ok owner ↔ owner ∈ assembly.rowNumbers .typeDef ∧
      ∃ start stop, assembly.methodRun owner = .ok (start, stop) ∧ start ≤ method ∧
        method < stop := by
  -- The search stops at the first type that has the method, and no other one has it.
  have hamong : ∀ types : List Nat, (∀ type ∈ types, type ∈ assembly.rowNumbers .typeDef) →
      (assembly.ownerAmong method types = .ok owner ↔ owner ∈ types ∧
        ∃ start stop, assembly.methodRun owner = .ok (start, stop) ∧ start ≤ method ∧
          method < stop) := by
    intro types
    induction types with
    | nil => exact fun _ => ⟨nofun, nofun⟩
    | cons type types ih =>
        intro htypes
        obtain ⟨htype, hrest⟩ := List.forall_mem_cons.mp htypes
        obtain ⟨⟨start, stop⟩, hrun⟩ := hruns type htype
        unfold ownerAmong
        rw [hrun, Outcome.ok_bind]
        dsimp only
        split
        · rename_i hin
          constructor
          · intro howner
            obtain rfl := Outcome.pure_eq_ok.mp howner
            exact ⟨.head _, start, stop, hrun, hin⟩
          · rintro ⟨-, start', stop', hrun', hin'⟩
            rw [Outcome.pure_eq_ok]
            rcases Nat.lt_trichotomy type owner with hlt | heq | hlt
            · have := methodRun_ordered h hlt hrun hrun'
              omega
            · exact heq
            · have := methodRun_ordered h hlt hrun' hrun
              omega
        · rename_i hout
          rw [ih hrest]
          constructor
          · exact fun hmem => ⟨.tail _ hmem.1, hmem.2⟩
          · rintro ⟨hmem, start', stop', hrun', hin'⟩
            rcases List.mem_cons.mp hmem with rfl | hmem
            · obtain ⟨rfl, rfl⟩ := Prod.mk.inj (Except.ok.inj (hrun.symm.trans hrun'))
              exact absurd hin' hout
            · exact ⟨hmem, start', stop', hrun', hin'⟩
  exact hamong _ fun _ hmem => hmem

/-- The methods that belong to a type, in order. -/
def methodRows (assembly : Assembly) (type : Nat) : List Nat :=
  match assembly.methodRun type with
  | .ok (start, stop) => List.range' start (stop - start)
  | .error _ => []

end Assembly

/-! ## Marked methods -/

/-- A method of a type, with a row that marks it. -/
structure MarkedMethod where
  type : Nat
  method : Nat
  marker : Nat

namespace MarkedMethod

/-- The order of types and methods. -/
def Before (first second : MarkedMethod) : Prop :=
  first.type < second.type ∨ first.type = second.type ∧ first.method < second.method

/-- All methods that belong to types and are marked, in order, each with its first marker. -/
structure Listed (assembly : Assembly) (marked : List MarkedMethod) : Prop where
  mem_iff : ∀ x, x ∈ marked ↔
    assembly.ownerOf x.method = .ok x.type ∧ Marker.IsFirst assembly x.marker x.method
  ordered : marked.Pairwise Before

theorem Before.asymm {first second : MarkedMethod} (h : first.Before second) :
    ¬second.Before first := by
  unfold Before at h ⊢
  omega

theorem Listed.unique {marked marked' : List MarkedMethod} (h : Listed assembly marked)
    (h' : Listed assembly marked') : marked = marked' := by
  have hnodup : ∀ {marked}, Listed assembly marked → marked.Nodup := fun h => by
    refine List.Pairwise.imp ?_ h.ordered
    rintro x y hbefore rfl
    exact hbefore.asymm hbefore
  have hperm : marked.Perm marked' := (List.perm_ext_iff_of_nodup (hnodup h) (hnodup h')).mpr
    fun x => (h.mem_iff x).trans (h'.mem_iff x).symm
  exact hperm.eq_of_pairwise (fun x y _ _ hxy hyx => absurd hyx hxy.asymm) h.ordered h'.ordered

/-- The marked ones of some methods of a type. -/
def ofRows (markers : List Marker) (type : Nat) (methods : List Nat) : List MarkedMethod :=
  methods.filterMap fun method =>
    (markers.find? fun marker => marker.parent = Token.ofRow .methodDef method).map fun marker =>
      ⟨type, method, marker.row⟩

/-- The marked methods of some types. -/
def ofTypes (assembly : Assembly) (markers : List Marker) (types : List Nat) : List MarkedMethod :=
  types.flatMap fun type => ofRows markers type (assembly.methodRows type)

theorem mem_ofRows (h : Marker.all assembly = .ok markers) {type : Nat} {methods : List Nat}
    {x : MarkedMethod} : x ∈ ofRows markers type methods ↔
      x.type = type ∧ x.method ∈ methods ∧ Marker.IsFirst assembly x.marker x.method := by
  unfold ofRows
  rw [List.mem_filterMap]
  constructor
  · rintro ⟨method, hmem, hx⟩
    obtain ⟨marker, hfind, rfl⟩ := Option.map_eq_some_iff.mp hx
    exact ⟨rfl, hmem, Marker.find?_eq_some h hfind⟩
  · rintro ⟨rfl, hmem, hfirst⟩
    refine ⟨x.method, hmem, ?_⟩
    cases hfind : markers.find? fun marker => marker.parent = Token.ofRow .methodDef x.method with
    | none => exact absurd hfirst.1 (Marker.not_marks_of_find? h hfind)
    | some marker =>
        rw [Option.map_some, (Marker.find?_eq_some h hfind).unique hfirst]

/-- The marked methods of all types are listed in order. -/
theorem listed_ofTypes (h : Marker.all assembly = .ok markers) (horder : assembly.MethodsInOrder)
    (hruns : ∀ type ∈ assembly.rowNumbers .typeDef, ∃ run, assembly.methodRun type = .ok run) :
    Listed assembly (ofTypes assembly markers (assembly.rowNumbers .typeDef)) where
  mem_iff x := by
    unfold ofTypes
    simp only [List.mem_flatMap, mem_ofRows h, Assembly.ownerOf_eq_ok horder hruns]
    constructor
    · rintro ⟨type, hmem, rfl, hmethod, hfirst⟩
      obtain ⟨⟨start, stop⟩, hrun⟩ := hruns x.type hmem
      rw [Assembly.methodRows, hrun, List.mem_range'_1] at hmethod
      exact ⟨⟨hmem, start, stop, hrun, hmethod.1, by omega⟩, hfirst⟩
    · rintro ⟨⟨hmem, start, stop, hrun, hstart, hstop⟩, hfirst⟩
      refine ⟨x.type, hmem, rfl, ?_, hfirst⟩
      rw [Assembly.methodRows, hrun, List.mem_range'_1]
      omega
  ordered := by
    unfold ofTypes
    rw [List.pairwise_flatMap]
    constructor
    · intro type hmem
      obtain ⟨⟨start, stop⟩, hrun⟩ := hruns type hmem
      unfold ofRows
      rw [List.pairwise_filterMap, Assembly.methodRows, hrun]
      refine (List.pairwise_lt_range' ..).imp fun hlt x hx y hy => ?_
      obtain ⟨-, -, rfl⟩ := Option.map_eq_some_iff.mp hx
      obtain ⟨-, -, rfl⟩ := Option.map_eq_some_iff.mp hy
      exact .inr ⟨rfl, hlt⟩
    · refine (List.pairwise_lt_range' ..).imp fun hlt x hx y hy => ?_
      obtain ⟨hx, -⟩ := (mem_ofRows h).mp hx
      obtain ⟨hy, -⟩ := (mem_ofRows h).mp hy
      exact .inl (hx ▸ hy ▸ hlt)

end MarkedMethod

end NativeExports
