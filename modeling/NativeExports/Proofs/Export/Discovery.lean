import Mathlib.Logic.Relation
import NativeExports.Proofs.Editing.Runs
import NativeExports.Proofs.Export.AddedMarkers
import NativeExports.Proofs.Export.MarkerRemoval

/-!
# The search for marked methods

Marked methods are looked at in order until one of them is at fault.  Its error is the outcome; the
conditions on a method are checked in a fixed order, and whether it is marked for an entry point of
its own depends on the methods in front of it only.  If none is at fault, all are found.
-/

namespace NativeExports

variable {assembly : Assembly}

theorem EntryPoint.ofValue?_eq_some {value : Int} {entryPoint : EntryPoint} :
    ofValue? value = some entryPoint ↔ value = entryPoint.value := by
  constructor
  · intro h
    unfold ofValue? at h
    split at h
    · rename_i n
      obtain ⟨hlt, h⟩ := List.getElem?_eq_some_iff.mp h
      have hall : ∀ n : Fin all.length, ((all.get n).value : Int) = n.val := by decide
      rw [← h]
      exact (hall ⟨n, hlt⟩).symm
    · cases h
  · rintro rfl
    exact ofValue?_value entryPoint

/-- The number that an attribute carries. -/
def Marker.valueOf (assembly : Assembly) (row : Nat) : Except Error Int := do
  AttributeValue.int32.parse
    (← assembly.columnBlob .customAttribute row CustomAttribute.valueColumn)

namespace MarkedMethod

/-! ## What is expected of a marked method -/

/-- The marker of a method names an entry point. -/
def IsFor (assembly : Assembly) (x : MarkedMethod) (entryPoint : EntryPoint) : Prop :=
  Marker.valueOf assembly x.marker = .ok entryPoint.value

theorem IsFor.unique {x : MarkedMethod} {entryPoint entryPoint' : EntryPoint}
    (h : x.IsFor assembly entryPoint) (h' : x.IsFor assembly entryPoint') :
    entryPoint = entryPoint' := by
  have hvalue := Except.ok.inj (h.symm.trans h')
  exact Option.some.inj ((EntryPoint.ofValue?_value entryPoint).symm.trans
    (EntryPoint.ofValue?_eq_some.mpr hvalue))

/-- A method is public and static. -/
def Visible (assembly : Assembly) (x : MarkedMethod) : Prop :=
  ∃ flags, assembly.tables.value .methodDef x.method MethodDef.flagsColumn = .ok flags ∧
    MethodFlags.isPublic flags = true ∧ MethodFlags.isStatic flags = true

/-- A candidate is a marked method, with the names and the entry point of that method. -/
structure Describes (assembly : Assembly) (x : MarkedMethod) (candidate : Candidate) : Prop where
  isFor : x.IsFor assembly candidate.entryPoint
  method : candidate.method = Token.ofRow .methodDef x.method
  name : assembly.columnString .methodDef x.method MethodDef.nameColumn = .ok candidate.name
  type : assembly.nameOfTypeDef x.type = .ok (candidate.typeSpace, candidate.typeName)
  visible : x.Visible assembly
  isPublic : candidate.isPublic = true
  isStatic : candidate.isStatic = true

/-- What is wrong with a marked method behind methods that are marked for some entry points: the
value of its marker cannot be read, or is that of no entry point, or that of an earlier one, or the
method cannot be called from outside. -/
inductive Refused (assembly : Assembly) (earlier : List EntryPoint) (x : MarkedMethod) :
    Error → Prop
  | unreadable {e : Error} (h : Marker.valueOf assembly x.marker = .error e) :
      Refused assembly earlier x e
  | unknown {value : Int} (h : Marker.valueOf assembly x.marker = .ok value)
      (hnone : ∀ entryPoint : EntryPoint, value ≠ entryPoint.value) :
      Refused assembly earlier x (.unknownEntryPoint value)
  | duplicate {entryPoint : EntryPoint} (h : x.IsFor assembly entryPoint)
      (hmem : entryPoint ∈ earlier) :
      Refused assembly earlier x (.duplicateExport entryPoint)
  | hidden {entryPoint : EntryPoint} {space typeName name : String}
      (h : x.IsFor assembly entryPoint)
      (hfresh : entryPoint ∉ earlier) (hhidden : ¬x.Visible assembly)
      (htype : assembly.nameOfTypeDef x.type = .ok (space, typeName))
      (hname : assembly.columnString .methodDef x.method MethodDef.nameColumn = .ok name) :
      Refused assembly earlier x (.invalidExport (memberName space typeName name) entryPoint)

/-- A look at marked methods in order, behind candidates that were found. -/
inductive Scans (assembly : Assembly) :
    List Candidate → List MarkedMethod → Except Error (List Candidate) → Prop
  | done {found : List Candidate} : Scans assembly found [] (.ok found)
  | refused {found : List Candidate} {x : MarkedMethod} {rest : List MarkedMethod} {e : Error}
      (h : x.Refused assembly (found.map Candidate.entryPoint) e) :
      Scans assembly found (x :: rest) (.error e)
  | admitted {found : List Candidate} {x : MarkedMethod} {candidate : Candidate}
      {rest : List MarkedMethod} {outcome : Except Error (List Candidate)}
      (h : x.Describes assembly candidate)
      (hfresh : candidate.entryPoint ∉ found.map Candidate.entryPoint)
      (hrest : Scans assembly (found ++ [candidate]) rest outcome) :
      Scans assembly found (x :: rest) outcome

variable {found : List Candidate} {marked front back : List MarkedMethod} {e : Error}

theorem Scans.append {next : List Candidate} {outcome : Except Error (List Candidate)}
    (h : Scans assembly found front (.ok next)) (hback : Scans assembly next back outcome) :
    Scans assembly found (front ++ back) outcome := by
  generalize hnext : (Except.ok next : Except Error (List Candidate)) = result at h
  induction h with
  | done =>
      obtain rfl := Except.ok.inj hnext
      exact hback
  | refused => cases hnext
  | admitted h hfresh _ ih => exact .admitted h hfresh (ih hnext)

theorem Scans.append_error (h : Scans assembly found front (.error e)) (back : List MarkedMethod) :
    Scans assembly found (front ++ back) (.error e) := by
  generalize hresult : (Except.error e : Except Error (List Candidate)) = result at h
  induction h with
  | done => cases hresult
  | refused h =>
      obtain rfl := Except.error.inj hresult
      exact .refused h
  | admitted h hfresh _ ih => exact .admitted h hfresh (ih hresult)

theorem nodup_admitted {candidate : Candidate} (h : (found.map Candidate.entryPoint).Nodup)
    (hfresh : candidate.entryPoint ∉ found.map Candidate.entryPoint) :
    ((found ++ [candidate]).map Candidate.entryPoint).Nodup := by
  rw [List.map_append]
  exact h.append (List.nodup_singleton _) (List.disjoint_singleton.mpr hfresh)

/-- If no method is at fault, then every method is found, each for an entry point of its own. -/
theorem Scans.of_ok {next : List Candidate} (h : Scans assembly found marked (.ok next))
    (hdistinct : (found.map Candidate.entryPoint).Nodup) :
    ∃ candidates, next = found ++ candidates ∧
      List.Forall₂ (Describes assembly) marked candidates ∧
        (next.map Candidate.entryPoint).Nodup := by
  generalize hnext : (Except.ok next : Except Error (List Candidate)) = result at h
  induction h with
  | done =>
      obtain rfl := Except.ok.inj hnext
      exact ⟨[], (List.append_nil _).symm, .nil, hdistinct⟩
  | refused => cases hnext
  | @admitted found x candidate rest _ h hfresh _ ih =>
      obtain ⟨candidates, rfl, hdescribes, hnodup⟩ :=
        ih (nodup_admitted hdistinct hfresh) hnext
      exact ⟨candidate :: candidates, by simp, .cons h hdescribes, hnodup⟩

/-- The error is that of the first method at fault. -/
theorem Scans.of_error (h : Scans assembly found marked (.error e))
    (hdistinct : (found.map Candidate.entryPoint).Nodup) : ∃ front x back candidates,
      marked = front ++ x :: back ∧ List.Forall₂ (Describes assembly) front candidates ∧
        ((found ++ candidates).map Candidate.entryPoint).Nodup ∧
          x.Refused assembly ((found ++ candidates).map Candidate.entryPoint) e := by
  generalize hresult : (Except.error e : Except Error (List Candidate)) = result at h
  induction h with
  | done => cases hresult
  | @refused found x rest e h =>
      obtain rfl := Except.error.inj hresult
      exact ⟨[], x, rest, [], rfl, .nil, by simpa using hdistinct, by simpa using h⟩
  | @admitted found x candidate rest _ h hfresh _ ih =>
      obtain ⟨front, y, back, candidates, rfl, hdescribes, hnodup, hrefused⟩ :=
        ih (nodup_admitted hdistinct hfresh) hresult
      exact ⟨x :: front, y, back, candidate :: candidates, rfl, .cons h hdescribes,
        by simpa using hnodup, by simpa using hrefused⟩

/-! ## Looking at one method -/

open MarkedMethods

variable {markers : List Marker} {marker : Marker} {type : TypeSummary} {method : MethodSummary}
  {x : MarkedMethod}

theorem entryPointOf_eq (assembly : Assembly) (marker : Marker) :
    entryPointOf assembly marker = Marker.valueOf assembly marker.row >>= fun value =>
      match EntryPoint.ofValue? value with
      | some entryPoint => .ok entryPoint
      | none => .error (.unknownEntryPoint value) := by
  unfold entryPointOf Marker.valueOf
  cases assembly.columnBlob .customAttribute marker.row CustomAttribute.valueColumn with
  | error e => rfl
  | ok blob =>
      simp only [Outcome.ok_bind]
      cases AttributeValue.int32.parse blob with
      | error e => rfl
      | ok value => rfl

theorem typeSummary_eq_ok {row : Nat} (h : assembly.typeSummary row = .ok type) :
    assembly.nameOfTypeDef row = .ok (type.space, type.name) ∧
      assembly.methodRun row = .ok type.methods := by
  obtain ⟨⟨space, name⟩, hname, h⟩ := Outcome.bind_eq_ok.mp h
  obtain ⟨flags, -, h⟩ := Outcome.bind_eq_ok.mp h
  obtain ⟨methods, hmethods, h⟩ := Outcome.bind_eq_ok.mp h
  obtain rfl := Outcome.pure_eq_ok.mp h
  exact ⟨hname, hmethods⟩

theorem flags_of_methodSummary {row : Nat} (h : assembly.methodSummary row = .ok method) :
    assembly.tables.value .methodDef row MethodDef.flagsColumn = .ok method.flags := by
  obtain ⟨name, -, h⟩ := Outcome.bind_eq_ok.mp h
  obtain ⟨flags, hflags, h⟩ := Outcome.bind_eq_ok.mp h
  obtain ⟨signature, -, h⟩ := Outcome.bind_eq_ok.mp h
  obtain rfl := Outcome.pure_eq_ok.mp h
  exact hflags

/-- A marked method is found or is at fault. -/
theorem candidate?_cases (found : List Candidate) (htype : assembly.typeSummary x.type = .ok type)
    (hmethod : assembly.methodSummary x.method = .ok method)
    (hfind : markers.find? (fun marker => marker.parent = method.token) = some marker)
    (hrow : marker.row = x.marker) :
    (∃ candidate, candidate? assembly markers found type method = .ok (some candidate) ∧
        x.Describes assembly candidate ∧ candidate.entryPoint ∉ found.map Candidate.entryPoint) ∨
      ∃ e, candidate? assembly markers found type method = .error e ∧
        x.Refused assembly (found.map Candidate.entryPoint) e := by
  obtain ⟨htoken, hname⟩ := methodSummary_eq_ok hmethod
  obtain ⟨htypeName, -⟩ := typeSummary_eq_ok htype
  have hflags := flags_of_methodSummary hmethod
  unfold candidate?
  rw [hfind]
  dsimp only
  rw [entryPointOf_eq, hrow]
  cases hvalue : Marker.valueOf assembly x.marker with
  | error e => exact .inr ⟨e, rfl, .unreadable hvalue⟩
  | ok value =>
      rw [Outcome.ok_bind]
      cases hentry : EntryPoint.ofValue? value with
      | none =>
          refine .inr ⟨_, rfl, .unknown hvalue fun entryPoint heq => ?_⟩
          rw [EntryPoint.ofValue?_eq_some.mpr heq] at hentry
          cases hentry
      | some entryPoint =>
          have hfor : x.IsFor assembly entryPoint := by
            rw [IsFor, hvalue, EntryPoint.ofValue?_eq_some.mp hentry]
          dsimp only
          rw [Outcome.ok_bind]
          split
          · rename_i hany
            obtain ⟨other, hother, hsame⟩ := List.any_eq_true.mp hany
            exact .inr ⟨_, rfl, .duplicate hfor
              (List.mem_map.mpr ⟨other, hother, of_decide_eq_true hsame⟩)⟩
          · rename_i hnone
            have hfresh : entryPoint ∉ found.map Candidate.entryPoint := by
              rintro hmem
              obtain ⟨other, hother, rfl⟩ := List.mem_map.mp hmem
              exact hnone (List.any_eq_true.mpr ⟨other, hother, decide_eq_true rfl⟩)
            split
            · rename_i hhidden
              refine .inr ⟨_, rfl, .hidden hfor hfresh ?_ htypeName hname⟩
              rintro ⟨flags, hflags', hpublic, hstatic⟩
              obtain rfl := Except.ok.inj (hflags.symm.trans hflags')
              simp [hpublic, hstatic] at hhidden
            · rename_i hvisible
              simp only [Bool.or_eq_true, Bool.not_eq_true', not_or, Bool.not_eq_false] at hvisible
              exact .inl ⟨_, rfl, ⟨hfor, htoken, hname, htypeName,
                ⟨method.flags, hflags, hvisible.1, hvisible.2⟩, hvisible.1, hvisible.2⟩, hfresh⟩

/-! ## Looking at all methods -/

theorem outcome_collectMethod (found : List Candidate) :
    (collectMethod assembly markers type found method).outcome =
      (candidate? assembly markers found type method).map fun candidate? =>
        found ++ candidate?.toList := by
  unfold collectMethod
  rw [Logged.outcome_bind, Logged.outcome_monadLift]
  cases candidate? assembly markers found type method with
  | error e => rfl
  | ok candidate? =>
      cases candidate? with
      | none => simp [Except.map]
      | some candidate => simp [Except.map, outcome_warnUnsuited, Logged.debug]

/-- The marked ones of some methods of a type are looked at in order. -/
theorem scans_methods (markers : List Marker) {row : Nat} {rows : List Nat}
    {methods : List MethodSummary}
    (htype : assembly.typeSummary row = .ok type)
    (hmethods : List.Forall₂
      (fun row method => assembly.methodSummary row = .ok method) rows methods)
    (found : List Candidate) : Scans assembly found (ofRows markers row rows)
      (methods.foldlM
        (fun found method => (collectMethod assembly markers type found method).outcome)
        found) := by
  induction hmethods generalizing found with
  | nil => exact .done
  | @cons methodRow method rows methods hmethod _ ih =>
      obtain ⟨htoken, -⟩ := methodSummary_eq_ok hmethod
      rw [List.foldlM_cons, outcome_collectMethod]
      cases hfind : markers.find? fun marker =>
        marker.parent = Token.ofRow .methodDef methodRow with
      | none =>
          have hnone : candidate? assembly markers found type method = .ok none := by
            rw [candidate?, htoken, hfind]
          have hrows : ofRows markers row (methodRow :: rows) = ofRows markers row rows :=
            List.filterMap_cons_none (by rw [hfind]; rfl)
          rw [hrows, hnone]
          simpa [Except.map] using ih found
      | some marker =>
          have hrows : ofRows markers row (methodRow :: rows) =
              ⟨row, methodRow, marker.row⟩ :: ofRows markers row rows :=
            List.filterMap_cons_some (by rw [hfind]; rfl)
          rw [hrows]
          rcases candidate?_cases (x := ⟨row, methodRow, marker.row⟩) found htype hmethod
            (by rw [htoken]; exact hfind) rfl with
            ⟨candidate, hok, hdescribes, hfresh⟩ | ⟨e, herror, hrefused⟩
          · rw [hok]
            exact .admitted hdescribes hfresh (ih (found ++ [candidate]))
          · rw [herror]
            exact .refused hrefused

end MarkedMethod

namespace Assembly

/-- All rows that are looked at can be read: attributes, types, and the methods of types. -/
structure Decodable (assembly : Assembly) : Prop where
  attributes : ∀ row ∈ assembly.rowNumbers .customAttribute,
    ∃ marker?, Marker.ofRow? assembly row = .ok marker?
  types : ∀ row ∈ assembly.rowNumbers .typeDef, ∃ type, assembly.typeSummary row = .ok type
  methods : ∀ row ∈ assembly.rowNumbers .typeDef, ∀ method ∈ assembly.methodRows row,
    ∃ summary, assembly.methodSummary method = .ok summary

end Assembly

namespace MarkedMethod

open MarkedMethods

variable {markers : List Marker}

theorem methodRows_eq {row : Nat} {type : TypeSummary} (h : assembly.typeSummary row = .ok type) :
    assembly.methodRows row = List.range' type.methods.1 (type.methods.2 - type.methods.1) := by
  rw [Assembly.methodRows, (typeSummary_eq_ok h).2]

/-- The marked methods of some types are looked at in order. -/
theorem scans_types (hdecodable : assembly.Decodable) {rows : List Nat} {types : List TypeSummary}
    (hrows : ∀ row ∈ rows, row ∈ assembly.rowNumbers .typeDef)
    (htypes : List.Forall₂ (fun row type => assembly.typeSummary row = .ok type) rows types)
    (found : List Candidate) : Scans assembly found (ofTypes assembly markers rows)
      (types.foldlM (fun found type => (collectType assembly markers found type).outcome)
        found) := by
  induction htypes generalizing found with
  | nil => exact .done
  | @cons row type rows types htype _ ih =>
      obtain ⟨hrow, hrest⟩ := List.forall_mem_cons.mp hrows
      obtain ⟨methods, hmethods⟩ := Outcome.exists_mapM (hdecodable.methods row hrow)
      have hcollect : (collectType assembly markers found type).outcome = methods.foldlM
          (fun found method =>
            (collectMethod assembly markers type found method).outcome) found := by
        unfold collectType Assembly.methodsOf
        rw [Logged.outcome_bind, Logged.outcome_monadLift, ← methodRows_eq htype, hmethods,
          Outcome.ok_bind, Logged.outcome_foldlM]
      have hscans := scans_methods markers htype (Outcome.mapM_eq_ok.mp hmethods) found
      rw [List.foldlM_cons, hcollect]
      unfold ofTypes
      rw [List.flatMap_cons]
      cases houtcome : methods.foldlM
          (fun found method =>
            (collectMethod assembly markers type found method).outcome) found with
      | error e =>
          rw [houtcome] at hscans
          exact hscans.append_error _
      | ok next =>
          rw [houtcome] at hscans
          exact hscans.append (ih hrest next)

/-- The search looks at the listed methods in order. -/
theorem scans_markedMethods (hdecodable : assembly.Decodable) (horder : assembly.MethodsInOrder) :
    ∃ marked, Listed assembly marked ∧
      Scans assembly [] marked (markedMethods assembly).outcome := by
  obtain ⟨found, hfound⟩ := Outcome.exists_mapM hdecodable.attributes
  have hmarkers : Marker.all assembly = .ok (found.filterMap id) := by
    rw [Marker.all, hfound]
    rfl
  obtain ⟨types, htypes⟩ := Outcome.exists_mapM hdecodable.types
  refine ⟨_, listed_ofTypes hmarkers horder fun row hrow => ?_, ?_⟩
  · obtain ⟨type, htype⟩ := hdecodable.types row hrow
    exact ⟨_, (typeSummary_eq_ok htype).2⟩
  · unfold markedMethods Assembly.types
    simp only [Logged.outcome_bind, Logged.outcome_monadLift, Logged.outcome_foldlM, hmarkers,
      htypes, Outcome.ok_bind]
    exact scans_types hdecodable (fun _ hmem => hmem) (Outcome.mapM_eq_ok.mp htypes) []

/-- What describes some methods has their entry points. -/
theorem isFor_of_describes {marked : List MarkedMethod} {candidates : List Candidate}
    (h : List.Forall₂ (Describes assembly) marked candidates) :
    List.Forall₂ (IsFor assembly) marked (candidates.map Candidate.entryPoint) :=
  List.forall₂_map_right_iff.mpr (h.imp fun _ _ hdescribes => hdescribes.isFor)

theorem visible_of_describes {marked : List MarkedMethod} {candidates : List Candidate}
    (h : List.Forall₂ (Describes assembly) marked candidates) :
    ∀ x ∈ marked, x.Visible assembly := by
  intro x hmem
  obtain ⟨candidate, -, hdescribes⟩ := Outcome.exists_of_forall₂_left h hmem
  exact hdescribes.visible

/-- A method that is at fault is not marked for an entry point of its own, or cannot be called. -/
theorem not_refused {x : MarkedMethod} {earlier : List EntryPoint}
    {entryPoint : EntryPoint} {e : Error}
    (hfor : x.IsFor assembly entryPoint) (hfresh : entryPoint ∉ earlier)
    (hvisible : x.Visible assembly) :
    ¬x.Refused assembly earlier e := by
  rintro (h | ⟨h, hnone⟩ | ⟨h, hmem⟩ | ⟨-, -, hhidden, -, -⟩)
  · cases h.symm.trans hfor
  · exact hnone entryPoint (Except.ok.inj (h.symm.trans hfor))
  · exact hfresh (h.unique hfor ▸ hmem)
  · exact hhidden hvisible

/-- The search succeeds exactly if all marked methods are visible and marked for different entry
points, and then finds them in order.  Otherwise its error is that of the first method at fault.
Markers in further rows that are not the first ones of a method make no difference. -/
theorem markedMethods_first_fault (hdecodable : assembly.Decodable)
    (horder : assembly.MethodsInOrder) :
    (∃ marked, Listed assembly marked) ∧ ∀ marked, Listed assembly marked →
      ((∃ found, (markedMethods assembly).outcome = .ok found) ↔
        (∃ entryPoints, List.Forall₂ (IsFor assembly) marked entryPoints ∧ entryPoints.Nodup) ∧
          ∀ x ∈ marked, x.Visible assembly) ∧
      (∀ found, (markedMethods assembly).outcome = .ok found →
        List.Forall₂ (Describes assembly) marked found) ∧
      (∀ e, (markedMethods assembly).outcome = .error e → ∃ front x back entryPoints,
        marked = front ++ x :: back ∧ List.Forall₂ (IsFor assembly) front entryPoints ∧
          entryPoints.Nodup ∧ (∀ y ∈ front, y.Visible assembly) ∧
            x.Refused assembly entryPoints e) ∧
      ∀ after, Relation.ReflTransGen
        (fun before after => ∃ front columns back, AddsMarker before after front columns back)
        assembly after → markedMethods after = markedMethods assembly := by
  obtain ⟨marked, hlisted, hscans⟩ := scans_markedMethods hdecodable horder
  refine ⟨⟨marked, hlisted⟩, fun marked' hlisted' => ?_⟩
  obtain rfl := hlisted.unique hlisted'
  have hok : ∀ found, (markedMethods assembly).outcome = .ok found →
      List.Forall₂ (Describes assembly) marked found ∧ (found.map Candidate.entryPoint).Nodup := by
    intro found hfound
    obtain ⟨candidates, rfl, hdescribes, hnodup⟩ := (hfound ▸ hscans).of_ok List.nodup_nil
    exact ⟨hdescribes, hnodup⟩
  have herror : ∀ e, (markedMethods assembly).outcome = .error e → ∃ front x back entryPoints,
      marked = front ++ x :: back ∧ List.Forall₂ (IsFor assembly) front entryPoints ∧
        entryPoints.Nodup ∧ (∀ y ∈ front, y.Visible assembly) ∧
          x.Refused assembly entryPoints e := by
    intro e he
    obtain ⟨front, x, back, candidates, hsplit, hdescribes, hnodup, hrefused⟩ :=
      (he ▸ hscans).of_error List.nodup_nil
    exact ⟨front, x, back, _, hsplit, isFor_of_describes hdescribes, hnodup,
      visible_of_describes hdescribes, hrefused⟩
  refine ⟨⟨?_, ?_⟩, fun found hfound => (hok found hfound).1, herror, ?_⟩
  · rintro ⟨found, hfound⟩
    obtain ⟨hdescribes, hnodup⟩ := hok found hfound
    exact ⟨⟨_, isFor_of_describes hdescribes, hnodup⟩, visible_of_describes hdescribes⟩
  · rintro ⟨⟨entryPoints, hfor, hnodup⟩, hvisible⟩
    cases houtcome : (markedMethods assembly).outcome with
    | ok found => exact ⟨found, rfl⟩
    | error e =>
        obtain ⟨front, x, back, earlier, rfl, hearlier, -, -, hrefused⟩ := herror e houtcome
        obtain ⟨first, second, hfirst, hsecond, rfl⟩ := Outcome.forall₂_append_left hfor
        obtain rfl := List.right_unique_forall₂' (fun _ _ _ h h' => h.unique h') hearlier hfirst
        cases hsecond with
        | @cons _ entryPoint _ rest hx _ =>
            have hfresh : entryPoint ∉ earlier := fun hmem =>
              (List.nodup_append.mp hnodup).2.2 entryPoint hmem entryPoint (.head _) rfl
            exact absurd hrefused (not_refused hx hfresh (hvisible x (by simp)))
  · intro after hafter
    induction hafter with
    | refl => rfl
    | tail _ hstep ih =>
        obtain ⟨front, columns, back, hadds⟩ := hstep
        exact (markedMethods_of_addsMarker hadds).trans ih

/-- A library with two marked methods, of which the second one is marked first. -/
def twoMarked : Assembly :=
  { MarkerRemoval.marked 0 with
    tables := (((MarkerRemoval.markedTables.setRows .typeDef
      [[0, 1, 0, 0, 1, 1], [0, 1, 0, 0, 1, 1]]).setRows .methodDef
        [[0, 0, 0x16, 1, 1, 1], [0, 0, 0x16, 1, 1, 1]]).setRows .customAttribute
          [[64, 11, 5], [32, 11, 14]])
    blobs := ⟨[0, 3, 0x20, 0, 1, 8, 1, 0, 0, 0, 0, 0, 0, 0, 8, 1, 0, 1, 0, 0, 0, 0, 0]⟩ }

/-- The same library with a second marker for its second method. -/
def markedAgain : Assembly :=
  twoMarked.withAttributes [[64, 11, 5], [32, 11, 14], [64, 11, 14]]

theorem decodable_twoMarked : twoMarked.Decodable where
  attributes row hrow := Outcome.exists_of_isOk (by revert row; decide +kernel)
  types row hrow := Outcome.exists_of_isOk (by revert row; decide +kernel)
  methods row hrow method hmethod := Outcome.exists_of_isOk (by revert row method; decide +kernel)

theorem addsMarker_markedAgain :
    AddsMarker twoMarked markedAgain [[64, 11, 5], [32, 11, 14]] [64, 11, 14] [] where
  rows_eq := rfl
  after_eq := rfl
  isMarker := ⟨11, "", Outcome.eq_ok_of_toOption (by decide +kernel),
    Outcome.eq_ok_of_toOption (by decide +kernel)⟩
  hasParent := Outcome.exists_of_isOk (by decide +kernel)
  behind := by
    rintro method hmethod ⟨-, hparent⟩
    refine ⟨1, by decide, ⟨11, "", Outcome.eq_ok_of_toOption (by decide +kernel),
      Outcome.eq_ok_of_toOption (by decide +kernel)⟩, ?_⟩
    have hsame : markedAgain.attributeParent 1 = .ok (Token.ofRow .methodDef 2) :=
      Outcome.eq_ok_of_toOption (by decide +kernel)
    have hadded : markedAgain.attributeParent 3 = .ok (Token.ofRow .methodDef 2) :=
      Outcome.eq_ok_of_toOption (by decide +kernel)
    exact hsame.trans (hadded.symm.trans hparent)

theorem markedMethods_first_fault_twoMarked : twoMarked.Decodable ∧ twoMarked.MethodsInOrder ∧
    (∃ marked found, Listed twoMarked marked ∧ (markedMethods twoMarked).outcome = .ok found ∧
      List.Forall₂ (Describes twoMarked) marked found ∧
      found.map Candidate.entryPoint = [.versionQuery, .simpleCall]) ∧
    markedMethods markedAgain = markedMethods twoMarked := by
  have hruns : twoMarked.tables.RunsOrdered := .of_ones (by decide)
  have horder : twoMarked.MethodsInOrder := fun row row' first first' hle h h' =>
    hruns.ascending .typeDef TypeDef.methodColumn .methodDef row row' first first' rfl hle h h'
  obtain ⟨⟨marked, hlisted⟩, hdecided⟩ := markedMethods_first_fault decodable_twoMarked horder
  obtain ⟨-, hfinds, -, hsame⟩ := hdecided marked hlisted
  obtain ⟨found, hfound⟩ : ∃ found, (markedMethods twoMarked).outcome = .ok found :=
    Outcome.exists_of_isOk (by decide +kernel)
  have hentries : (markedMethods twoMarked).outcome.toOption.map (List.map Candidate.entryPoint) =
      some [.versionQuery, .simpleCall] := by decide +kernel
  rw [hfound] at hentries
  exact ⟨decodable_twoMarked, horder,
    ⟨marked, found, hlisted, hfound, hfinds found hfound, Option.some.inj hentries⟩,
    hsame markedAgain (.single ⟨_, _, _, addsMarker_markedAgain⟩)⟩

end MarkedMethod

end NativeExports
