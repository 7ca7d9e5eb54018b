import NativeExports.Proofs.Host.Paths
import NativeExports.Proofs.Outcome

/-!
# What file operations leave alone

An operation on a file changes what stands at one place, and makes and removes no directory.  Where
a path leads depends on the directories only, so such operations do not redirect any path.  In
particular nothing that happens to an output file shows in the file that it is going to replace.
-/

namespace NativeExports.Disk

variable {disk disk' disk'' : Disk} {place other : Location}

/-! ## Entries -/

theorem entry?_eq_lookup (h : place ≠ []) : disk.entry? place = disk.entries.lookup place := by
  unfold entry?
  rw [if_neg (by simpa using h)]

theorem ne_nil_of_not_directory (h : disk.entry? place ≠ some .directory) : place ≠ [] := by
  rintro rfl
  exact h rfl

theorem lookup_filter (entries : List (Location × DiskEntry)) (hne : other ≠ place) :
    (entries.filter fun entry => entry.1 != place).lookup other = entries.lookup other := by
  induction entries with
  | nil => rfl
  | cons entry entries ih =>
      obtain ⟨here, content⟩ := entry
      by_cases hhere : here = place
      · subst hhere
        rw [List.filter_cons_of_neg (by simp), ih, List.lookup_cons, beq_eq_false_iff_ne.mpr hne]
      · rw [List.filter_cons_of_pos (by simpa using hhere), List.lookup_cons, List.lookup_cons, ih]

theorem lookup_filter_self (entries : List (Location × DiskEntry)) (place : Location) :
    (entries.filter fun entry => entry.1 != place).lookup place = none := by
  rw [List.lookup_eq_none_iff]
  intro entry hmem
  have hne := (List.mem_filter.mp hmem).2
  exact bne_iff_ne.mpr (bne_iff_ne.mp hne).symm

theorem entry?_erase (hne : other ≠ place) :
    entry? (disk.erase place) other = disk.entry? other := by
  unfold entry? erase
  rw [lookup_filter _ hne]

theorem entry?_erase_self (h : place ≠ []) : entry? (disk.erase place) place = none := by
  rw [entry?_eq_lookup h]
  exact lookup_filter_self _ _

theorem entry?_insert {entry : DiskEntry} (hne : other ≠ place) :
    entry? (disk.insert place entry) other = disk.entry? other := by
  rw [← show entry? (disk.erase place) other = _ from entry?_erase hne]
  unfold entry? insert
  rw [List.lookup_cons, beq_eq_false_iff_ne.mpr hne]

theorem entry?_insert_self {entry : DiskEntry} (h : place ≠ []) :
    entry? (disk.insert place entry) place = some entry := by
  rw [entry?_eq_lookup h, insert, List.lookup_cons, beq_self_eq_true]

/-! ## Walks -/

/-- One step of a walk. -/
def advance (disk : Disk) (place : Location) (step : String) : Except FileFault Location :=
  match disk.entry? place with
  | none => .error .notFound
  | some (.file _ _) => .error .notADirectory
  | some .directory =>
    if Path.isIdle step then .ok place
    else if step == ".." then .ok place.dropLast
    else if Path.stepLimit < step.utf8ByteSize then .error .nameTooLong
    else .ok (place ++ [step])

theorem walk_eq_foldlM (disk : Disk) (place : Location) (steps : List String) :
    disk.walk place steps = steps.foldlM disk.advance place := by
  induction steps generalizing place with
  | nil => rfl
  | cons step steps ih =>
      rw [List.foldlM_cons, walk, advance]
      cases disk.entry? place with
      | none => rfl
      | some entry =>
          cases entry with
          | file content isProgram => rfl
          | directory =>
              dsimp only
              split
              · exact ih place
              · split
                · exact ih place.dropLast
                · split
                  · rfl
                  · exact ih (place ++ [step])

theorem advance_congr (h : disk'.entry? place = disk.entry? place) (step : String) :
    disk'.advance place step = disk.advance place step := by
  rw [advance, advance, h]

/-- Only directories are stepped out of. -/
theorem directory_of_advance {step : String} {goal : Location}
    (h : disk.advance place step = .ok goal) : disk.entry? place = some .directory := by
  unfold advance at h
  split at h
  · cases h
  · cases h
  · assumption

/-- A step to a name arrives there, unless the name is too long. -/
theorem advance_name {step : String} (hplace : disk.entry? place = some .directory)
    (hidle : Path.isIdle step = false) (hup : step ≠ "..") :
    disk.advance place step =
      if Path.stepLimit < step.utf8ByteSize then .error .nameTooLong else
        .ok (place ++ [step]) := by
  rw [advance, hplace]
  dsimp only
  rw [if_neg (by simp [hidle]), if_neg (by simpa using hup)]

/-- A walk that arrives does so wherever the same directories are. -/
theorem walk_eq_ok (hsame : ∀ place, disk.entry? place = some .directory →
    disk'.entry? place = some .directory) {steps : List String} {goal : Location}
    (h : disk.walk place steps = .ok goal) : disk'.walk place steps = .ok goal := by
  rw [walk_eq_foldlM] at h ⊢
  induction steps generalizing place with
  | nil => exact h
  | cons step steps ih =>
      rw [List.foldlM_cons] at h ⊢
      obtain ⟨next, hnext, h⟩ := Outcome.bind_eq_ok.mp h
      have hplace := directory_of_advance hnext
      rw [advance_congr ((hsame place hplace).trans hplace.symm), hnext]
      exact ih h

theorem walk_congr (hsame : ∀ place, disk'.entry? place = disk.entry? place) (place : Location)
    (steps : List String) : disk'.walk place steps = disk.walk place steps := by
  rw [walk_eq_foldlM, walk_eq_foldlM,
    show disk'.advance = disk.advance from funext₂ fun place => advance_congr (hsame place)]

/-- Idle steps arrive nowhere else, and depend on nothing but what stands there. -/
theorem walk_idle {steps : List String} (hidle : ∀ step ∈ steps, Path.isIdle step = true)
    (hsame : disk'.entry? place = disk.entry? place) :
    disk'.walk place steps = disk.walk place steps ∧
      ∀ goal, disk.walk place steps = .ok goal → goal = place := by
  induction steps with
  | nil => exact ⟨rfl, fun goal h => (Except.ok.inj h).symm⟩
  | cons step steps ih =>
      obtain ⟨hwalk, hgoal⟩ := ih fun other hmem => hidle other (.tail _ hmem)
      unfold walk
      rw [hsame, if_pos (hidle step (.head _)), if_pos (hidle step (.head _)), hwalk]
      refine ⟨rfl, fun goal h => ?_⟩
      split at h
      · cases h
      · cases h
      · exact hgoal goal h

theorem locate_eq_ok (hsame : ∀ place, disk.entry? place = some .directory →
    disk'.entry? place = some .directory) {path : String} (h : disk.locate path = .ok place) :
    disk'.locate path = .ok place := by
  unfold locate at h ⊢
  split at h
  · cases h
  · rename_i hempty
    rw [if_neg hempty]
    split at h
    · cases h
    · rename_i hshort
      rw [if_neg hshort]
      exact walk_eq_ok hsame h

theorem walk_of_locate {path : String} (h : disk.locate path = .ok place) :
    disk.walk [] (Path.steps path) = .ok place := by
  unfold locate at h
  split at h
  · cases h
  · split at h
    · cases h
    · exact h

/-- A walk that arrives by a name comes out of a directory. -/
theorem walk_concat_name {front : List String} {name : String} {goal : Location}
    (hidle : Path.isIdle name = false) (hup : name ≠ "..")
    (h : disk.walk other (front ++ [name]) = .ok goal) :
    ∃ place, disk.walk other front = .ok place ∧ disk.entry? place = some .directory ∧
      goal = place ++ [name] := by
  rw [walk_eq_foldlM, List.foldlM_append] at h
  obtain ⟨place, hfront, h⟩ := Outcome.bind_eq_ok.mp h
  rw [List.foldlM_cons] at h
  obtain ⟨last, hstep, h⟩ := Outcome.bind_eq_ok.mp h
  obtain rfl := Outcome.pure_eq_ok.mp h
  have hplace := directory_of_advance hstep
  rw [advance_name hplace hidle hup] at hstep
  split at hstep
  · cases hstep
  · exact ⟨place, (walk_eq_foldlM _ _ _).trans hfront, hplace, (Except.ok.inj hstep).symm⟩

/-! ## Disks that differ at one path -/

/-- The disks have the same directories, and differ in no other file than the one at a path. -/
structure SameBut (path : String) (disk disk' : Disk) : Prop where
  directories : ∀ place, disk'.entry? place = some .directory ↔ disk.entry? place = some .directory
  others : ∀ place, disk.locate path ≠ .ok place → disk'.entry? place = disk.entry? place

variable {path : String}

theorem SameBut.of_entries (h : ∀ place, disk'.entry? place = disk.entry? place) :
    SameBut path disk disk' :=
  ⟨fun place => by rw [h place], fun place _ => h place⟩

theorem SameBut.refl (path : String) (disk : Disk) : SameBut path disk disk :=
  .of_entries fun _ => rfl

/-- Paths lead to the same places. -/
theorem SameBut.locate (h : SameBut path disk disk') (other : String) (place : Location) :
    disk'.locate other = .ok place ↔ disk.locate other = .ok place :=
  ⟨locate_eq_ok fun place => (h.directories place).mp,
    locate_eq_ok fun place => (h.directories place).mpr⟩

theorem SameBut.trans (h : SameBut path disk disk') (h' : SameBut path disk' disk'') :
    SameBut path disk disk'' where
  directories := fun place => (h'.directories place).trans (h.directories place)
  others := fun place hplace => (h'.others place fun heq =>
    hplace ((h.locate path place).mp heq)).trans (h.others place hplace)

/-- Putting a file where a path leads, or taking it away. -/
theorem SameBut.of_others (hlocate : disk.locate path = .ok place)
    (hfile : disk.entry? place ≠ some .directory) (hfile' : disk'.entry? place ≠ some .directory)
    (hothers : ∀ other, other ≠ place → disk'.entry? other = disk.entry? other) :
    SameBut path disk disk' where
  directories := fun other => by
    by_cases heq : other = place
    · rw [heq]
      exact ⟨fun h => absurd h hfile', fun h => absurd h hfile⟩
    · rw [hothers other heq]
  others := fun other hother => hothers other fun heq => hother (heq ▸ hlocate)

theorem sameBut_of_write {content : Bytes} (h : disk.write path content = .ok disk') :
    SameBut path disk disk' := by
  obtain ⟨place, hlocate, h⟩ := Outcome.bind_eq_ok.mp h
  have hput : ∀ isProgram, disk.entry? place ≠ some .directory →
      SameBut path disk (disk.insert place (.file content isProgram)) := fun isProgram hfile =>
    .of_others hlocate hfile
      (by rw [entry?_insert_self (ne_nil_of_not_directory hfile)]; nofun) fun other => entry?_insert
  split at h
  · cases h
  · rename_i hfile
    obtain rfl := Outcome.pure_eq_ok.mp h
    exact hput _ (by rw [hfile]; nofun)
  · rename_i hfile
    obtain rfl := Outcome.pure_eq_ok.mp h
    exact hput _ (by rw [hfile]; nofun)

theorem sameBut_of_remove (h : disk.remove path = .ok disk') : SameBut path disk disk' := by
  obtain ⟨⟨place, entry⟩, hfind, h⟩ := Outcome.bind_eq_ok.mp h
  obtain ⟨place', hlocate, hfind⟩ := Outcome.bind_eq_ok.mp hfind
  split at hfind
  · rename_i entry' hentry
    obtain ⟨rfl, rfl⟩ := Prod.mk.inj (Outcome.pure_eq_ok.mp hfind)
    split at h
    · rename_i place'' content isProgram heq
      obtain ⟨rfl, rfl⟩ := Prod.mk.inj heq
      obtain rfl := Outcome.pure_eq_ok.mp h
      have hfile : disk.entry? place' ≠ some .directory := by
        rw [hentry]
        nofun
      exact .of_others hlocate hfile
        (by rw [entry?_erase_self (ne_nil_of_not_directory hfile)]; nofun)
        fun other => entry?_erase
    · cases h
  · cases hfind

/-- Disks with the same entries have the same files. -/
theorem find_congr (h : ∀ place, disk'.entry? place = disk.entry? place) (path : String) :
    disk'.find path = disk.find path := by
  unfold find locate
  simp only [walk_congr h, h]

theorem find_eq_ok {entry : DiskEntry} (hlocate : disk.locate path = .ok place)
    (hentry : disk.entry? place = some entry) : disk.find path = .ok (place, entry) := by
  rw [find, hlocate, Outcome.ok_bind, hentry]
  rfl

theorem locate_of_find {entry : DiskEntry} (h : disk.find path = .ok (place, entry)) :
    disk.locate path = .ok place ∧ disk.entry? place = some entry := by
  obtain ⟨place', hlocate, h⟩ := Outcome.bind_eq_ok.mp h
  split at h
  · rename_i entry' hentry
    obtain ⟨rfl, rfl⟩ := Prod.mk.inj (Outcome.pure_eq_ok.mp h)
    exact ⟨hlocate, hentry⟩
  · cases h

/-- A file that was written can be found. -/
theorem find_of_write {content : Bytes} (h : disk.write path content = .ok disk') :
    ∃ place isProgram, disk'.find path = .ok (place, .file content isProgram) := by
  have hsame := sameBut_of_write h
  obtain ⟨place, hlocate, h⟩ := Outcome.bind_eq_ok.mp h
  have hlocate' := (hsame.locate path place).mpr hlocate
  have hfind : ∀ isProgram, disk.entry? place ≠ some .directory →
      disk' = disk.insert place (.file content isProgram) →
        ∃ place isProgram, disk'.find path = .ok (place, .file content isProgram) := by
    rintro isProgram hfile rfl
    exact ⟨place, isProgram,
      find_eq_ok hlocate' (entry?_insert_self (ne_nil_of_not_directory hfile))⟩
  split at h
  · cases h
  · rename_i hfile
    exact hfind _ (by rw [hfile]; nofun) (Outcome.pure_eq_ok.mp h).symm
  · rename_i hfile
    exact hfind _ (by rw [hfile]; nofun) (Outcome.pure_eq_ok.mp h).symm

/-- A file that is moved can be read where it went. -/
theorem read_of_rename {source target : String} {content : Bytes} {isProgram : Bool}
    (h : disk.rename source target = .ok disk')
    (hsource : disk.find source = .ok (place, .file content isProgram)) :
    disk'.read target = .ok content := by
  obtain ⟨⟨place', entry⟩, hfind, h⟩ := Outcome.bind_eq_ok.mp h
  obtain ⟨rfl, rfl⟩ := Prod.mk.inj (Except.ok.inj (hsource.symm.trans hfind))
  obtain ⟨goal, hgoal, h⟩ := Outcome.bind_eq_ok.mp h
  have hplace := (locate_of_find hsource).2
  split at h
  · cases h
  rename_i hfile
  obtain rfl := Outcome.pure_eq_ok.mp h
  have hdirectories : ∀ other, disk.entry? other = some .directory →
      entry? ((disk.erase place).insert goal (.file content isProgram)) other =
        some .directory := by
    intro other hother
    have hne : other ≠ goal := fun heq => hfile (heq ▸ hother)
    have hne' : other ≠ place := fun heq => by
      rw [heq, hplace] at hother
      cases hother
    rw [entry?_insert hne, entry?_erase hne']
    exact hother
  have hlocate := locate_eq_ok hdirectories hgoal
  rw [Disk.read, find_eq_ok hlocate (entry?_insert_self (ne_nil_of_not_directory hfile)),
    Outcome.ok_bind]
  rfl

/-! ## The file to be replaced -/

/-- What stands where a walk arrives. -/
def arrive (disk : Disk) (place : Location) (steps : List String) :
    Except FileFault (Location × Option DiskEntry) :=
  disk.walk place steps >>= fun goal => .ok (goal, disk.entry? goal)

/-- Reading depends on what stands where a path leads. -/
theorem read_congr
    (h : disk'.arrive [] (Path.steps path) = disk.arrive [] (Path.steps path)) :
    disk'.read path = disk.read path := by
  have hread : ∀ disk : Disk, disk.read path =
      if path.isEmpty then .error .notFound
      else if Path.limit < path.utf8ByteSize then .error .nameTooLong
      else disk.arrive [] (Path.steps path) >>= fun found =>
        match found.2 with
        | some (.file content _) => .ok content
        | some .directory => .error .isADirectory
        | none => .error .notFound := by
    intro disk
    unfold Disk.read Disk.find Disk.locate arrive
    split
    · rfl
    · split
      · rfl
      · cases disk.walk [] (Path.steps path) with
        | error fault => rfl
        | ok place =>
            simp only [Outcome.ok_bind]
            rcases disk.entry? place with _ | ⟨content, isProgram⟩ | _ <;> rfl
  rw [hread, hread, h]

theorem arrive_idle {steps : List String} (hidle : ∀ step ∈ steps, Path.isIdle step = true)
    (hsame : disk'.entry? place = disk.entry? place) :
    disk'.arrive place steps = disk.arrive place steps := by
  obtain ⟨hwalk, hgoal⟩ := walk_idle hidle hsame
  rw [arrive, arrive, hwalk]
  cases hplace : disk.walk place steps with
  | error fault => rfl
  | ok goal =>
      rw [hgoal goal hplace, Outcome.ok_bind, Outcome.ok_bind, hsame]

theorem arrive_append {front back : List String} (h : disk.walk other front = .ok place) :
    disk.arrive other (front ++ back) = disk.arrive place back := by
  rw [walk_eq_foldlM] at h
  rw [arrive, arrive, walk_eq_foldlM, walk_eq_foldlM, List.foldlM_append, h, Outcome.ok_bind]

theorem arrive_name {name : String} {steps : List String}
    (hplace : disk.entry? place = some .directory) (hidle : Path.isIdle name = false)
    (hup : name ≠ "..") : disk.arrive place (name :: steps) =
      if Path.stepLimit < name.utf8ByteSize then .error .nameTooLong
      else disk.arrive (place ++ [name]) steps := by
  rw [arrive, walk_eq_foldlM, List.foldlM_cons, advance_name hplace hidle hup, arrive,
    walk_eq_foldlM]
  split <;> rfl

/-- What happens to an output file does not show in the file to be replaced. -/
theorem SameBut.read (h : SameBut (Output.temporaryPath path) disk disk') :
    disk'.read path = disk.read path := by
  refine read_congr ?_
  cases htemporary : disk.locate (Output.temporaryPath path) with
  | error fault =>
      -- The output file cannot be reached, so nothing has changed at all.
      have hsame : ∀ place, disk'.entry? place = disk.entry? place := fun place =>
        h.others place fun heq => by rw [htemporary] at heq; cases heq
      simp only [arrive, walk_congr hsame, hsame]
  | ok goal =>
      obtain ⟨common, rest, name, hpath, hnamed, hidle, hup, hrest⟩ :=
        Output.steps_temporaryPath path
      obtain ⟨place, hcommon, hplace, rfl⟩ :=
        walk_concat_name hidle hup (hnamed ▸ walk_of_locate htemporary)
      have hothers : ∀ other, other ≠ place ++ [name] → disk'.entry? other = disk.entry? other :=
        fun other hne => h.others other fun heq => by
          rw [htemporary] at heq
          exact hne (Except.ok.inj heq).symm
      rw [hpath, arrive_append hcommon,
        arrive_append (walk_eq_ok (fun other => (h.directories other).mpr) hcommon)]
      rcases hrest with ⟨own, idle, rfl, hown, hown', hne, hrest⟩ | hrest
      · rw [arrive_name hplace hown hown',
          arrive_name ((h.directories place).mpr hplace) hown hown']
        split
        · rfl
        · refine arrive_idle hrest (hothers _ fun heq => hne ?_)
          exact (List.singleton_inj.mp (List.append_cancel_left heq)).symm
      · exact arrive_idle hrest (hothers _ fun heq => by simpa using congrArg List.length heq)

end NativeExports.Disk
