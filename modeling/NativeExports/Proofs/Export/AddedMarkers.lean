import NativeExports.Proofs.Export.Candidates
import NativeExports.Proofs.Export.FirstMarkers

/-!
# Further markers

A marker in a further row moves the attributes behind it down by one row.  Nothing else depends on
where attributes stand; so if the new marker is not the first one of a method, then the search for
marked methods does not notice it.
-/

namespace NativeExports

variable {before after : Assembly} {table : Table} {row c : Nat}

namespace Assembly

/-- An assembly with other attributes. -/
def withAttributes (assembly : Assembly) (rows : List Row) : Assembly :=
  { assembly with tables := assembly.tables.setRows .customAttribute rows }

/-! ## What does not depend on attributes -/

section

variable (assembly : Assembly) (rows : List Row)

theorem value_withAttributes (h : table ≠ .customAttribute) (row c : Nat) :
    (assembly.withAttributes rows).tables.value table row c =
      assembly.tables.value table row c := by
  have hrows : (assembly.withAttributes rows).tables.rows table = assembly.tables.rows table :=
    Tables.rows_setRows_ne h
  unfold Tables.value Tables.row
  rw [Tables.row?_of_rows_eq hrows]

theorem rowNumbers_withAttributes (h : table ≠ .customAttribute) :
    (assembly.withAttributes rows).rowNumbers table = assembly.rowNumbers table := by
  have hrows : (assembly.withAttributes rows).tables.rows table = assembly.tables.rows table :=
    Tables.rows_setRows_ne h
  rw [rowNumbers, rowNumbers, Tables.count, Tables.count, hrows]

theorem columnString_withAttributes (h : table ≠ .customAttribute) (row c : Nat) :
    (assembly.withAttributes rows).columnString table row c =
      assembly.columnString table row c := by
  unfold columnString
  rw [value_withAttributes _ _ h]
  rfl

theorem columnBlob_withAttributes (h : table ≠ .customAttribute) (row c : Nat) :
    (assembly.withAttributes rows).columnBlob table row c = assembly.columnBlob table row c := by
  unfold columnBlob
  rw [value_withAttributes _ _ h]
  rfl

theorem qualifiedName_withAttributes (h : table ≠ .customAttribute) (c c' row : Nat) :
    (assembly.withAttributes rows).qualifiedName table c c' row =
      assembly.qualifiedName table c c' row := by
  unfold qualifiedName
  rw [columnString_withAttributes _ _ h, columnString_withAttributes _ _ h]

theorem nameOfTypeDef_withAttributes :
    (assembly.withAttributes rows).nameOfTypeDef = assembly.nameOfTypeDef :=
  funext (qualifiedName_withAttributes assembly rows (by decide) _ _)

theorem nameOfTypeRef_withAttributes :
    (assembly.withAttributes rows).nameOfTypeRef = assembly.nameOfTypeRef :=
  funext (qualifiedName_withAttributes assembly rows (by decide) _ _)

theorem methodRun_withAttributes :
    (assembly.withAttributes rows).methodRun = assembly.methodRun := by
  funext row
  have hcount : ∀ {table : Table}, table ≠ .customAttribute →
      (assembly.withAttributes rows).tables.count table = assembly.tables.count table := fun h =>
    congrArg List.length (Tables.rows_setRows_ne h)
  unfold methodRun Tables.runOf
  rw [value_withAttributes _ _ (by decide), value_withAttributes _ _ (by decide),
    hcount (by decide), hcount (by decide)]

theorem ownerOf_withAttributes : (assembly.withAttributes rows).ownerOf = assembly.ownerOf := by
  funext method
  have hamong : ∀ types, (assembly.withAttributes rows).ownerAmong method types =
      assembly.ownerAmong method types := by
    intro types
    induction types with
    | nil => rfl
    | cons type types ih => rw [ownerAmong, ownerAmong, methodRun_withAttributes, ih]
  unfold ownerOf
  rw [rowNumbers_withAttributes _ _ (by decide), hamong]

theorem types_withAttributes : (assembly.withAttributes rows).types = assembly.types := by
  have hsummary : (assembly.withAttributes rows).typeSummary = assembly.typeSummary := by
    funext row
    unfold typeSummary
    rw [nameOfTypeDef_withAttributes, value_withAttributes _ _ (by decide),
      methodRun_withAttributes]
  unfold types
  rw [rowNumbers_withAttributes _ _ (by decide), hsummary]

theorem methodsOf_withAttributes :
    (assembly.withAttributes rows).methodsOf = assembly.methodsOf := by
  have hsummary : (assembly.withAttributes rows).methodSummary = assembly.methodSummary := by
    funext row
    unfold methodSummary
    rw [columnString_withAttributes _ _ (by decide), value_withAttributes _ _ (by decide),
      columnBlob_withAttributes _ _ (by decide)]
  unfold methodsOf
  rw [hsummary]

theorem constructorOwner?_withAttributes :
    Marker.constructorOwner? (assembly.withAttributes rows) =
      Marker.constructorOwner? assembly := by
  funext constructor
  unfold Marker.constructorOwner?
  rw [ownerOf_withAttributes]
  simp only [value_withAttributes assembly rows (show Table.memberRef ≠ .customAttribute by decide)]

theorem nameOf?_withAttributes :
    Marker.nameOf? (assembly.withAttributes rows) = Marker.nameOf? assembly := by
  funext type
  unfold Marker.nameOf?
  rw [nameOfTypeRef_withAttributes, nameOfTypeDef_withAttributes]

theorem warnUnsuited_withAttributes (candidate : Candidate) (signature : Bytes) :
    candidate.warnUnsuited (assembly.withAttributes rows) signature =
      candidate.warnUnsuited assembly signature := by
  have hcollects : Candidate.collectsOutput (assembly.withAttributes rows) =
      Candidate.collectsOutput assembly := by
    funext type
    unfold Candidate.collectsOutput
    rw [nameOf?_withAttributes]
  unfold Candidate.warnUnsuited Candidate.suits
  rw [hcollects]

end

end Assembly

/-! ## Attributes that move -/

/-- The row of an attribute when a row is put in behind the first `count` ones. -/
def movedRow (count row : Nat) : Nat :=
  if row ≤ count then row else row + 1

/-- A marker in the row where its attribute is then. -/
def Marker.moved (count : Nat) (marker : Marker) : Marker :=
  { marker with row := movedRow count marker.row }

section

variable {front back : List Row} {columns : Row}

theorem value_movedRow (hrows : before.tables.rows .customAttribute = front ++ back)
    (hrow : row ∈ before.rowNumbers .customAttribute) (c : Nat) :
    (before.withAttributes (front ++ columns :: back)).tables.value .customAttribute
        (movedRow front.length row) c = before.tables.value .customAttribute row c := by
  have hpos := (Tables.exists_row?.mp (Assembly.mem_rowNumbers.mp hrow)).1
  have hget : (before.withAttributes (front ++ columns :: back)).tables.row? .customAttribute
      (movedRow front.length row) = before.tables.row? .customAttribute row := by
    unfold Tables.row? movedRow Assembly.withAttributes
    rw [Tables.rows_setRows_self, hrows]
    by_cases hfront : row ≤ front.length
    · rw [if_pos hfront, if_neg (by omega), if_neg (by omega), List.getElem?_append_left (by omega),
        List.getElem?_append_left (by omega)]
    · rw [if_neg hfront, if_neg (by omega), if_neg (by omega),
        List.getElem?_append_right (by omega), List.getElem?_append_right (by omega),
        show row + 1 - 1 - front.length = (row - 1 - front.length) + 1 by omega,
        List.getElem?_cons_succ]
  obtain ⟨found, hfound⟩ := Assembly.mem_rowNumbers.mp hrow
  unfold Tables.value Tables.row
  rw [hget, hfound]

theorem columnBlob_movedRow (hrows : before.tables.rows .customAttribute = front ++ back)
    (hrow : row ∈ before.rowNumbers .customAttribute) (c : Nat) :
    (before.withAttributes (front ++ columns :: back)).columnBlob .customAttribute
        (movedRow front.length row) c = before.columnBlob .customAttribute row c := by
  unfold Assembly.columnBlob
  rw [value_movedRow hrows hrow]
  rfl

theorem ofRow?_movedRow (columns : Row)
    (hrows : before.tables.rows .customAttribute = front ++ back)
    (hrow : row ∈ before.rowNumbers .customAttribute) :
    Marker.ofRow? (before.withAttributes (front ++ columns :: back)) (movedRow front.length row) =
      (Marker.ofRow? before row).map (Option.map (Marker.moved front.length)) := by
  unfold Marker.ofRow?
  rw [value_movedRow hrows hrow, value_movedRow hrows hrow,
    Assembly.constructorOwner?_withAttributes, Assembly.nameOf?_withAttributes]
  cases before.tables.value .customAttribute row CustomAttribute.constructorColumn with
  | error e => rfl
  | ok constructor =>
      simp only [Outcome.ok_bind]
      rcases Marker.constructorOwner? before constructor with e | _ | type
      · rfl
      · rfl
      simp only [Outcome.ok_bind]
      rcases Marker.nameOf? before type with e | _ | ⟨space, name⟩
      · rfl
      · rfl
      simp only [Outcome.ok_bind]
      by_cases hname : name ≠ Marker.typeName
      · rw [if_pos hname, if_pos hname]
        rfl
      rw [if_neg hname, if_neg hname]
      cases before.tables.value .customAttribute row CustomAttribute.parentColumn with
      | error e => rfl
      | ok stored =>
          simp only [Outcome.ok_bind]
          cases CodedKind.hasCustomAttribute.decode stored <;> rfl

/-- An attribute in a further row that is a marker, but not the first one of a method. -/
structure AddsMarker (before after : Assembly) (front : List Row) (columns : Row)
    (back : List Row) :
    Prop where
  rows_eq : before.tables.rows .customAttribute = front ++ back
  after_eq : after = before.withAttributes (front ++ columns :: back)
  isMarker : Marker.IsMarker after (front.length + 1)
  hasParent : ∃ parent, after.attributeParent (front.length + 1) = .ok parent
  behind : ∀ method ∈ after.rowNumbers .methodDef, Marker.Marks after (front.length + 1) method →
    ∃ row ≤ front.length, Marker.Marks after row method

theorem rowNumbers_of_addsMarker (h : AddsMarker before after front columns back) :
    before.rowNumbers .customAttribute =
        List.range' 1 front.length ++ List.range' (1 + front.length) back.length ∧
      after.rowNumbers .customAttribute =
        (List.range' 1 front.length).map (movedRow front.length) ++ (front.length + 1) ::
          (List.range' (1 + front.length) back.length).map (movedRow front.length) := by
  have hbefore : before.tables.count .customAttribute = front.length + back.length := by
    rw [Tables.count, h.rows_eq, List.length_append]
  have hafter : after.tables.count .customAttribute = front.length + (back.length + 1) := by
    rw [Tables.count, h.after_eq, Assembly.withAttributes, Tables.rows_setRows_self,
      List.length_append, List.length_cons]
  have hfront : (List.range' 1 front.length).map (movedRow front.length) =
      List.range' 1 front.length := by
    rw [List.map_congr_left (g := id), List.map_id]
    intro row hmem
    exact if_pos (by have := List.mem_range'_1.mp hmem; omega)
  have hback : (List.range' (1 + front.length) back.length).map (movedRow front.length) =
      List.range' (front.length + 1 + 1) back.length := by
    rw [List.map_congr_left (g := (1 + ·)), List.map_add_range', show
      1 + (1 + front.length) = front.length + 1 + 1 by omega]
    intro row hmem
    have := List.mem_range'_1.mp hmem
    rw [movedRow, if_neg (by omega), Nat.add_comm]
  unfold Assembly.rowNumbers
  rw [hbefore, hafter, hfront, hback, ← List.range'_append_1, ← List.range'_append_1,
    Nat.add_comm 1 front.length, List.range'_succ]
  exact ⟨rfl, rfl⟩

/-- Mapping a function after moving what it is applied to. -/
theorem Outcome.mapM_map_of_comm {ε α α' β β' : Type} {f : α → α'} {g : α → Except ε β}
    {g' : α' → Except ε β'}
    {h : β → β'} {as : List α} (hsame : ∀ a ∈ as, g' (f a) = (g a).map h) :
    (as.map f).mapM g' = (as.mapM g).map (List.map h) := by
  induction as with
  | nil => rfl
  | cons a as ih =>
      obtain ⟨hfirst, hrest⟩ := List.forall_mem_cons.mp hsame
      rw [List.map_cons, List.mapM_cons, List.mapM_cons, hfirst, ih hrest]
      cases g a with
      | error e => rfl
      | ok b => cases as.mapM g <;> rfl

/-- Markers that are found behind each other, when a row is put in between. -/
theorem all_of_addsMarker (h : AddsMarker before after front columns back) :
    (∃ e, Marker.all before = .error e ∧ Marker.all after = .error e) ∨
      ∃ first second added, Marker.all before = .ok (first ++ second) ∧
        Marker.all after = .ok (first.map (Marker.moved front.length) ++
          added :: second.map (Marker.moved front.length)) ∧
        ∀ method ∈ after.rowNumbers .methodDef, added.parent = Token.ofRow .methodDef method →
          ∃ marker ∈ first, marker.parent = Token.ofRow .methodDef method := by
  obtain ⟨hrows, rfl, hmarker, ⟨parent, hparent⟩, hbehind⟩ := id h
  obtain ⟨hbefore, hafter⟩ := rowNumbers_of_addsMarker h
  obtain ⟨type, hadded⟩ := Marker.exists_ofRow?_of_isMarker hmarker hparent
  have hmoved : ∀ rows : List Nat, (∀ row ∈ rows, row ∈ before.rowNumbers .customAttribute) →
      (rows.map (movedRow front.length)).mapM
          (Marker.ofRow? (before.withAttributes (front ++ columns :: back))) =
        (rows.mapM (Marker.ofRow? before)).map
        (List.map (Option.map (Marker.moved front.length))) :=
    fun rows hmem => Outcome.mapM_map_of_comm fun row hrow =>
      ofRow?_movedRow columns hrows (hmem row hrow)
  have hfilter : ∀ found : List (Option Marker),
      (found.map (Option.map (Marker.moved front.length))).filterMap id =
        (found.filterMap id).map (Marker.moved front.length) := by
    intro found
    rw [List.filterMap_map, List.map_filterMap]
    rfl
  unfold Marker.all
  rw [hafter, hbefore, List.mapM_append, List.mapM_append, List.mapM_cons,
    hmoved _ (by simp [hbefore]; omega), hmoved _ (by simp [hbefore]; omega), hadded]
  cases hfirst : (List.range' 1 front.length).mapM (Marker.ofRow? before) with
  | error e => exact .inl ⟨e, rfl, rfl⟩
  | ok first =>
      cases (List.range' (1 + front.length) back.length).mapM (Marker.ofRow? before) with
      | error e => exact .inl ⟨e, rfl, rfl⟩
      | ok second =>
          refine .inr ⟨first.filterMap id, second.filterMap id, ⟨front.length + 1, parent, type⟩,
            ?_, ?_, ?_⟩
          · exact congrArg Except.ok (List.filterMap_append ..)
          · rw [← hfilter, ← hfilter, ← List.filterMap_cons_some (f := id) rfl,
              ← List.filterMap_append]
            rfl
          · rintro method hmethod rfl
            obtain ⟨row, hle, hmarks⟩ := hbehind method hmethod ⟨hmarker, hparent⟩
            have hpos :=
              Tables.exists_row?.mp hmarks.1.exists_row
            have hrow : row ∈ List.range' 1 front.length := List.mem_range'_1.mpr (by omega)
            obtain ⟨marker?, hmem, hof⟩ :=
              Outcome.exists_of_forall₂_left (Outcome.mapM_eq_ok.mp hfirst) hrow
            have hsame := ofRow?_movedRow columns hrows
              (hbefore ▸ List.mem_append_left _ hrow)
            rw [hof, movedRow, if_pos hle] at hsame
            obtain ⟨marker, hmarker?, hparent'⟩ := (Marker.marks_iff hsame).mp hmarks
            obtain ⟨marker', rfl, rfl⟩ := Option.map_eq_some_iff.mp hmarker?
            exact ⟨marker', List.mem_filterMap.mpr ⟨_, hmem, rfl⟩, hparent'⟩

/-- The search for the marker of a method finds the same one. -/
theorem find?_of_behind {count method : Nat} {first second : List Marker} {added : Marker}
    (h : added.parent = Token.ofRow .methodDef method →
      ∃ marker ∈ first, marker.parent = Token.ofRow .methodDef method) :
    (first.map (Marker.moved count) ++ added :: second.map (Marker.moved count)).find?
        (fun marker => marker.parent = Token.ofRow .methodDef method) =
      ((first ++ second).find? fun marker => marker.parent = Token.ofRow .methodDef method).map
        (Marker.moved count) := by
  have hmoved : ∀ markers : List Marker,
      (markers.map (Marker.moved count)).find?
          (fun marker => marker.parent = Token.ofRow .methodDef method) =
        (markers.find? fun marker => marker.parent = Token.ofRow .methodDef method).map
          (Marker.moved count) := fun markers => List.find?_map ..
  rw [List.find?_append, List.find?_append, List.find?_cons, hmoved, hmoved]
  cases hfind : first.find? fun marker => marker.parent = Token.ofRow .methodDef method with
  | some marker => rfl
  | none =>
      have hother : added.parent ≠ Token.ofRow .methodDef method := by
        intro hparent
        obtain ⟨marker, hmem, hsame⟩ := h hparent
        exact absurd (decide_eq_true hsame) (List.find?_eq_none.mp hfind marker hmem)
      rw [decide_eq_false hother]
      rfl

end

/-! ## The search -/

theorem Marker.row_mem {assembly : Assembly} {markers : List Marker} {marker : Marker}
    (h : all assembly = .ok markers) (hmem : marker ∈ markers) :
    marker.row ∈ assembly.rowNumbers .customAttribute := by
  obtain ⟨found, hfound, rfl⟩ := all_eq_ok.mp h
  obtain ⟨_, hmem, rfl⟩ := List.mem_filterMap.mp hmem
  obtain ⟨row, hrow, hof⟩ := Outcome.exists_of_forall₂_right hfound hmem
  rwa [(ofRow?_eq_some hof).2.1]

/-- What is done with a value that is there. -/
theorem Logged.liftM_ok_bind {α β : Type} (a : α) (next : α → Logged β) :
    ((liftM (.ok a : Except Error α) : Logged α) >>= next) = next a :=
  rfl

/-- What is not done without a value. -/
theorem Logged.liftM_error_bind {α β : Type} (e : Error) (next : α → Logged β) :
    ((liftM (.error e : Except Error α) : Logged α) >>= next) = throw e :=
  rfl

theorem Logged.foldlM_congr {α σ : Type} {step step' : σ → α → Logged σ} {as : List α}
    (h : ∀ a ∈ as, ∀ s, step s a = step' s a) (s : σ) : as.foldlM step s = as.foldlM step' s := by
  induction as generalizing s with
  | nil => rfl
  | cons a as ih =>
      obtain ⟨hfirst, hrest⟩ := List.forall_mem_cons.mp h
      rw [List.foldlM_cons, List.foldlM_cons, hfirst]
      exact congrArg (step' s a >>= ·) (funext fun next => ih hrest next)

open MarkedMethods

section

variable {front back : List Row} {columns : Row}

theorem entryPointOf_movedRow (h : AddsMarker before after front columns back) {marker : Marker}
    (hmarker : marker.row ∈ before.rowNumbers .customAttribute) :
    entryPointOf after (marker.moved front.length) = entryPointOf before marker := by
  unfold entryPointOf Marker.moved
  rw [h.after_eq, columnBlob_movedRow h.rows_eq hmarker]

/-- A further marker makes no difference to any method. -/
theorem candidate?_of_addsMarker (h : AddsMarker before after front columns back)
    {first second : List Marker} {added : Marker} (hall : Marker.all before = .ok (first ++ second))
    (hbehind : ∀ method ∈ after.rowNumbers .methodDef,
      added.parent = Token.ofRow .methodDef method →
      ∃ marker ∈ first, marker.parent = Token.ofRow .methodDef method)
    {type : TypeSummary} {method : MethodSummary} (hmethod : after.methodSummary row = .ok method)
    (found : List Candidate) :
    candidate? after (first.map (Marker.moved front.length) ++
        added :: second.map (Marker.moved front.length)) found type method =
      candidate? before (first ++ second) found type method := by
  obtain ⟨htoken, hname⟩ := methodSummary_eq_ok hmethod
  obtain ⟨stored, hstored, -⟩ := Outcome.bind_eq_ok.mp hname
  have hrow : row ∈ after.rowNumbers .methodDef :=
    Assembly.mem_rowNumbers.mpr (Tables.exists_row_of_value hstored)
  unfold candidate?
  rw [htoken, find?_of_behind (hbehind row hrow)]
  cases hfind : (first ++ second).find? fun marker =>
    marker.parent = Token.ofRow .methodDef row with
  | none => rfl
  | some marker =>
      rw [Option.map_some]
      dsimp only
      rw [entryPointOf_movedRow h (Marker.row_mem hall (List.mem_of_find?_eq_some hfind))]

/-- A further marker makes no difference to the search, nor to what it says. -/
theorem markedMethods_of_addsMarker (h : AddsMarker before after front columns back) :
    markedMethods after = markedMethods before := by
  unfold markedMethods
  rcases all_of_addsMarker h with
      ⟨e, hbefore, hafter⟩ | ⟨first, second, added, hbefore, hafter, hbehind⟩
  · rw [hbefore, hafter, Logged.liftM_error_bind, Logged.liftM_error_bind]
  have htypes : after.types = before.types := by rw [h.after_eq, Assembly.types_withAttributes]
  have hmethods : after.methodsOf = before.methodsOf := by
    rw [h.after_eq, Assembly.methodsOf_withAttributes]
  rw [hbefore, hafter, Logged.liftM_ok_bind, Logged.liftM_ok_bind, htypes]
  refine congrArg (_ >>= ·) (funext fun types => Logged.foldlM_congr (fun type _ found => ?_) [])
  unfold collectType
  rw [hmethods]
  cases hmembers : before.methodsOf type with
  | error e => rw [Logged.liftM_error_bind, Logged.liftM_error_bind]
  | ok methods =>
      rw [Logged.liftM_ok_bind, Logged.liftM_ok_bind]
      refine Logged.foldlM_congr (fun method hmem found => ?_) found
      rw [← hmethods] at hmembers
      obtain ⟨row, -, hmethod⟩ :=
        Outcome.exists_of_forall₂_right (Outcome.mapM_eq_ok.mp hmembers) hmem
      unfold collectMethod
      rw [candidate?_of_addsMarker h hbefore hbehind hmethod]
      simp only [h.after_eq, Assembly.warnUnsuited_withAttributes]

end

end NativeExports
