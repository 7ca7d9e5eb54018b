import NativeExports.Proofs.Host.Disk
import NativeExports.Proofs.Writing.Filling

/-!
# Output files that are given up

Producing a file touches nothing but the file itself until it is complete.  So if that fails, at
whatever point, the target is as it was before.  No tool runs meanwhile.
-/

namespace NativeExports

namespace Job

variable {α β : Type} {job : Job α} {next : α → Job β}

/-! ## Evaluation -/

theorem bind_of_ok {host host' : Host} {entries : List LogEntry} {a : α}
    (h : job host = (⟨entries, .ok a⟩, host')) :
    (job >>= next) host = (⟨entries ++ (next a host').1.entries, (next a host').1.outcome⟩,
      (next a host').2) := by
  change Job.andThen job next host = _
  rw [andThen, h]

theorem bind_of_error {host host' : Host} {entries : List LogEntry} {e : Error}
    (h : job host = (⟨entries, .error e⟩, host')) :
    (job >>= next) host = (⟨entries, .error e⟩, host') := by
  change Job.andThen job next host = _
  rw [andThen, h]

/-- What a job comes to has a property, unless it fails. -/
def Yields (p : α → Prop) (job : Job α) : Prop :=
  ∀ host a, (job host).1.outcome = .ok a → p a

theorem yields_pure {p : α → Prop} {a : α} (h : p a) : Yields p (pure a) := by
  rintro host _ hok
  obtain rfl := Except.ok.inj hok
  exact h

theorem Yields.andThen {q : α → Prop} {p : β → Prop} (h : Yields q job)
    (hnext : ∀ a, q a → Yields p (next a)) : Yields p (job >>= next) := by
  intro host b hok
  rcases hjob : job host with ⟨⟨entries, outcome⟩, host'⟩
  cases outcome with
  | error e =>
      rw [bind_of_error hjob] at hok
      cases hok
  | ok a =>
      rw [bind_of_ok hjob] at hok
      exact hnext a (h host a (by rw [hjob])) host' b hok

theorem Yields.bind {p : β → Prop} (h : ∀ a, Yields p (next a)) : Yields p (job >>= next) :=
  Yields.andThen (fun _ _ _ => trivial) fun a (_ : True) => h a

/-! ## Effects on the disk -/

/-- What holds if a job fails, and what holds if it does not. -/
def EndsIn (failed : Prop) (done : α → Prop) : Except Error α → Prop
  | .error _ => failed
  | .ok a => done a

/-- A job runs no tool, and its effect on the disk is as said. -/
def Does (effect : Disk → Except Error α → Disk → Prop) (job : Job α) : Prop :=
  ∀ disk, ∃ entries outcome disk', effect disk outcome disk' ∧
    ∀ tools, job ⟨disk, tools⟩ = (⟨entries, outcome⟩, ⟨disk', tools⟩)

variable {effect : Disk → Except Error α → Disk → Prop}
  {effect' : Disk → Except Error β → Disk → Prop}

theorem Does.imp {effect' : Disk → Except Error α → Disk → Prop} (h : Does effect job)
    (himp : ∀ disk outcome disk', effect disk outcome disk' → effect' disk outcome disk') :
    Does effect' job := by
  intro disk
  obtain ⟨entries, outcome, disk', heffect, hjob⟩ := h disk
  exact ⟨entries, outcome, disk', himp _ _ _ heffect, hjob⟩

theorem does_ofLogged (x : Logged α) :
    Does (fun disk outcome disk' => outcome = x.outcome ∧ disk' = disk) (ofLogged x) :=
  fun disk => ⟨x.entries, x.outcome, disk, ⟨rfl, rfl⟩, fun _ => rfl⟩

/-- The effect of two jobs in a row. -/
theorem Does.bind (h : Does effect job)
    (hfailed : ∀ disk e disk', effect disk (.error e) disk' → effect' disk (.error e) disk')
    (hnext : ∀ disk a middle, effect disk (.ok a) middle →
      Does (fun start outcome disk' => start = middle → effect' disk outcome disk') (next a)) :
    Does effect' (job >>= next) := by
  intro disk
  obtain ⟨entries, outcome, middle, heffect, hjob⟩ := h disk
  cases outcome with
  | error e =>
      exact ⟨entries, .error e, middle, hfailed _ _ _ heffect,
        fun tools => bind_of_error (hjob tools)⟩
  | ok a =>
      obtain ⟨entries', outcome', disk', hdone, hnext⟩ := hnext disk a middle heffect middle
      refine ⟨entries ++ entries', outcome', disk', hdone rfl, fun tools => ?_⟩
      rw [bind_of_ok (hjob tools), hnext tools]

theorem not_exists_ok {p : α → Prop} (e : Error) :
    ¬∃ a, (.error e : Except Error α) = .ok a ∧ p a := by
  rintro ⟨a, h, -⟩
  cases h

theorem Does.attempt (h : Does effect job) :
    Does (fun disk outcome disk' => ∃ found, outcome = .ok found ∧ effect disk found disk')
      job.attempt := by
  intro disk
  obtain ⟨entries, outcome, disk', heffect, hjob⟩ := h disk
  refine ⟨entries, .ok outcome, disk', ⟨outcome, rfl, heffect⟩, fun tools => ?_⟩
  rw [Job.attempt, hjob tools]

/-- A job that is followed by a clean-up if it fails. -/
theorem Does.orElse {cleanup : Job Unit} {cleaned : Disk → Except Error Unit → Disk → Prop}
    {effect' : Disk → Except Error α → Disk → Prop} (h : Does effect job)
    (hcleanup : Does cleaned cleanup)
    (hok : ∀ disk a disk', effect disk (.ok a) disk' → effect' disk (.ok a) disk')
    (hfailed : ∀ disk e middle outcome disk', effect disk (.error e) middle →
      cleaned middle outcome disk' → effect' disk (.error e) disk') :
    Does effect' (job.orElse cleanup) := by
  refine h.attempt.bind (fun disk e disk' hno => absurd hno (not_exists_ok e)) ?_
  rintro disk found middle ⟨_, hfound, hdone⟩
  obtain rfl := Except.ok.inj hfound
  cases found with
  | ok a =>
      refine (does_ofLogged (pure a)).imp ?_
      rintro _ _ _ ⟨rfl, rfl⟩ rfl
      exact hok _ _ _ hdone
  | error e =>
      refine hcleanup.attempt.bind (fun disk e disk' hno => absurd hno (not_exists_ok e)) ?_
      rintro start outcome cleared ⟨_, -, hcleaned⟩
      refine (does_ofLogged (throw e)).imp ?_
      rintro _ _ _ ⟨rfl, rfl⟩ rfl rfl
      exact hfailed _ _ _ _ _ hdone hcleaned

/-! ## File operations -/

/-- Disks with the same entries. -/
def SameEntries (disk disk' : Disk) : Prop :=
  ∀ place, disk'.entry? place = disk.entry? place

/-- An operation on a disk is carried out, or its fault is the answer. -/
theorem does_update (operation : Disk → Except FileFault Disk) :
    Does (fun disk outcome disk' => ∃ start, SameEntries disk start ∧
      ((∃ fault, outcome = .ok (.error fault) ∧ disk' = start) ∨
        outcome = .ok (.ok ()) ∧ operation start = .ok disk')) (update operation) := by
  intro disk
  have hstart : SameEntries disk disk.nextFault.2 := by
    intro place
    unfold Disk.nextFault
    split <;> rfl
  refine ⟨[], .ok (disk.update operation).1, (disk.update operation).2, ⟨_, hstart, ?_⟩,
    fun tools => rfl⟩
  unfold Disk.update
  rcases disk.nextFault with ⟨_ | fault, start⟩
  · dsimp only
    cases hoperation : operation start with
    | ok disk' => exact .inr ⟨rfl, rfl⟩
    | error fault => exact .inl ⟨fault, rfl, rfl⟩
  · exact .inl ⟨fault, rfl, rfl⟩

theorem does_orFail_update (operation : Disk → Except FileFault Disk) :
    Does (fun disk outcome disk' => ∃ start, SameEntries disk start ∧
      ((∃ e, outcome = .error e ∧ disk' = start) ∨
        outcome = .ok () ∧ operation start = .ok disk')) (orFail (update operation)) := by
  refine (does_update operation).bind ?_ ?_
  · rintro disk e disk' ⟨start, -, ⟨fault, h, -⟩ | ⟨h, -⟩⟩ <;> cases h
  · rintro disk answer middle ⟨start, hsame, ⟨fault, h, rfl⟩ | ⟨h, hdone⟩⟩
    · obtain rfl := Except.ok.inj h
      refine (does_ofLogged (throw (.file fault))).imp ?_
      rintro _ _ _ ⟨rfl, rfl⟩ rfl
      exact ⟨_, hsame, .inl ⟨_, rfl, rfl⟩⟩
    · obtain rfl := Except.ok.inj h
      refine (does_ofLogged (pure ())).imp ?_
      rintro _ _ _ ⟨rfl, rfl⟩ rfl
      exact ⟨start, hsame, .inr ⟨rfl, hdone⟩⟩

variable {path : String}

/-- Writing a file touches nothing else, and a file that is written can be found. -/
theorem does_writeFile (path : String) (content : Bytes) :
    Does (fun disk outcome disk' => disk.SameBut path disk' ∧ EndsIn True (fun _ =>
      ∃ place isProgram, disk'.find path = .ok (place, .file content isProgram)) outcome)
      (writeFile path content) := by
  refine (does_orFail_update _).imp ?_
  rintro disk outcome disk' ⟨start, hsame, ⟨e, rfl, rfl⟩ | ⟨rfl, hdone⟩⟩
  · exact ⟨.of_entries hsame, trivial⟩
  · exact ⟨(Disk.SameBut.of_entries hsame).trans (Disk.sameBut_of_write hdone),
      Disk.find_of_write hdone⟩

theorem does_removeFile (path : String) :
    Does (fun disk _ disk' => disk.SameBut path disk') (removeFile path) := by
  refine (does_update _).imp ?_
  rintro disk outcome disk' ⟨start, hsame, ⟨fault, -, rfl⟩ | ⟨-, hdone⟩⟩
  · exact .of_entries hsame
  · exact (Disk.SameBut.of_entries hsame).trans (Disk.sameBut_of_remove hdone)

end Job

/-! ## Output files -/

namespace Output

open Job

theorem does_discard (output : Output) :
    Does (fun disk _ disk' => disk.SameBut output.temporary disk') output.discard := by
  refine (does_removeFile _).bind (fun _ _ _ h => h) fun disk answer middle hmiddle => ?_
  refine (does_ofLogged (pure ())).imp ?_
  rintro _ _ _ ⟨-, rfl⟩ rfl
  exact hmiddle

/-- An output file is begun with the given size. -/
theorem does_create (target : String) (size : Nat) :
    Does (fun disk outcome disk' => disk.SameBut (temporaryPath target) disk' ∧ EndsIn True
      (fun output => output = ⟨target, temporaryPath target, Bytes.zeros size⟩) outcome)
      (create target size) := by
  refine (does_writeFile _ _).bind (fun _ _ _ h => ⟨h.1, trivial⟩) fun disk _ first hfirst => ?_
  refine (does_writeFile _ _).bind ?_ fun start _ second hsecond => ?_
  · rintro _ _ _ ⟨h, -⟩ rfl
    exact ⟨hfirst.1.trans h, trivial⟩
  · refine (does_ofLogged (pure _)).imp ?_
    rintro _ _ _ ⟨rfl, rfl⟩ rfl rfl
    exact ⟨hfirst.1.trans hsecond.1, rfl⟩

/-- A complete file is where its target was; a failure leaves the target alone. -/
theorem does_complete (output : Output) :
    Does (fun disk outcome disk' => EndsIn (disk.SameBut output.temporary disk')
      (fun _ => disk'.read output.target = .ok output.content) outcome) output.complete := by
  have hwritten : Does (fun disk outcome disk' => EndsIn (disk.SameBut output.temporary disk')
      (fun _ => disk'.read output.target = .ok output.content) outcome)
      (do writeFile output.temporary output.content
          renameFile output.temporary output.target) := by
    refine (does_writeFile _ _).bind (fun _ _ _ h => h.1) ?_
    rintro disk _ written ⟨hsame, place, isProgram, hfound⟩
    refine (does_orFail_update _).imp ?_
    rintro _ outcome disk' ⟨start, hstart, ⟨e, rfl, rfl⟩ | ⟨rfl, hdone⟩⟩ rfl
    · exact hsame.trans (.of_entries hstart)
    · exact Disk.read_of_rename hdone ((Disk.find_congr hstart _).trans hfound)
  exact hwritten.orElse output.does_discard (fun _ _ _ hdone => hdone)
    fun _ _ _ _ _ hfailed hcleaned => Disk.SameBut.trans hfailed hcleaned

/-- A file that is produced is where its target was; a failure leaves the target alone. -/
theorem does_produce (target : String) (size : Nat) {fill : Output → Except Error Output}
    (hfill : ∀ output output', fill output = .ok output' →
      output'.target = output.target ∧ output'.temporary = output.temporary) :
    Does (fun disk outcome disk' => EndsIn (disk.SameBut (temporaryPath target) disk')
      (fun _ => ∃ output, fill ⟨target, temporaryPath target, Bytes.zeros size⟩ = .ok output ∧
        disk'.read target = .ok output.content) outcome) (produce target size fill) := by
  refine (does_create target size).bind (fun _ _ _ h => h.1) ?_
  rintro disk output begun ⟨hbegun, rfl⟩
  split
  · rename_i filled hfilled
    obtain ⟨htarget, htemporary⟩ := hfill _ _ hfilled
    refine filled.does_complete.imp ?_
    rintro _ outcome disk' hends rfl
    rw [htarget, htemporary] at hends
    cases outcome with
    | error e => exact hbegun.trans hends
    | ok done => exact ⟨filled, hfilled, hends⟩
  · rename_i e hfailed
    refine (does_discard _).bind ?_ fun start _ discarded hdiscarded => ?_
    · rintro _ _ _ h rfl
      exact hbegun.trans h
    · refine (does_ofLogged (throw e)).imp ?_
      rintro _ _ _ ⟨rfl, rfl⟩ rfl rfl
      exact hbegun.trans hdiscarded

end Output

/-- Saving an assembly replaces the file by the filled output, or leaves it as it was. -/
theorem Assembly.does_save (assembly : Assembly) (path : String) :
    Job.Does (fun disk outcome disk' =>
      Job.EndsIn (disk.SameBut (Output.temporaryPath path) disk') (fun _ => ∃ plan output,
        assembly.plan = .ok plan ∧
        assembly.fill plan ⟨path, Output.temporaryPath path, Bytes.zeros plan.placement.newSize⟩ =
          .ok output ∧ disk'.read path = .ok output.content) outcome) (assembly.save path) := by
  refine (Job.does_ofLogged (Logged.ofExcept assembly.plan)).bind ?_ ?_
  · rintro disk e _ ⟨-, rfl⟩
    exact .refl _ _
  · rintro disk plan _ ⟨hplan, rfl⟩
    refine (Job.does_ofLogged (Logged.debug plan.message)).bind ?_ ?_
    · rintro _ e _ ⟨h, -⟩
      cases h
    · rintro start _ _ ⟨-, rfl⟩
      refine (Output.does_produce path plan.placement.newSize fun output output' hfill => ?_).imp ?_
      · obtain ⟨found, -, -, hpatched, -⟩ := fill_eq_ok hfill
        exact ⟨hpatched.target, hpatched.temporary⟩
      · rintro _ outcome disk' hends rfl rfl
        cases outcome with
        | error e => exact hends
        | ok done =>
            obtain ⟨output, hfill, hread⟩ := hends
            exact ⟨plan, output, hplan.symm, hfill, hread⟩

end NativeExports
