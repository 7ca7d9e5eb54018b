import NativeExports.Proofs.Host.Output

/-!
# File operations and faults

A fault can strike any operation on a file.  If none does, what can be read is read, and can be
written again.
-/

namespace NativeExports

/-- None of the next operations on a disk is struck by a fault. -/
def Disk.Quiet (disk : Disk) (count : Nat) : Prop :=
  ∀ fault ∈ disk.faults.take count, fault = none

variable {host : Host} {disk : Disk} {path : String} {data : Bytes}

theorem Disk.nextFault_of_quiet {count : Nat} (h : disk.Quiet (count + 1)) :
    ∃ start, disk.nextFault = (none, start) ∧ Job.SameEntries disk start ∧ start.Quiet count := by
  unfold Disk.nextFault
  unfold Disk.Quiet at h
  split
  · rename_i hnone
    exact ⟨disk, rfl, fun _ => rfl, by simp [Disk.Quiet, hnone]⟩
  · rename_i fault faults hfaults
    rw [hfaults, List.take_succ_cons] at h
    obtain ⟨rfl, hquiet⟩ := List.forall_mem_cons.mp h
    exact ⟨_, rfl, fun _ => rfl, hquiet⟩

theorem Disk.read_congr_entries {disk' : Disk} (h : Job.SameEntries disk disk') (path : String) :
    disk'.read path = disk.read path := by
  unfold Disk.read
  rw [Disk.find_congr h]

/-- What can be read can be written. -/
theorem Disk.exists_write (h : disk.read path = .ok data) (content : Bytes) :
    ∃ disk', disk.write path content = .ok disk' := by
  obtain ⟨⟨place, entry⟩, hfind, h⟩ := Outcome.bind_eq_ok.mp h
  obtain ⟨hlocate, hentry⟩ := Disk.locate_of_find hfind
  unfold Disk.write
  rw [hlocate, Outcome.ok_bind, hentry]
  cases entry with
  | file old isProgram => exact ⟨_, rfl⟩
  | directory => cases h

namespace Job

theorem does_readFile (path : String) :
    Does (fun disk outcome disk' => SameEntries disk disk' ∧
      EndsIn True (fun data => disk.read path = .ok data) outcome) (readFile path) := by
  have hquery : Does (fun disk outcome disk' => SameEntries disk disk' ∧
      ∃ answer, outcome = .ok answer ∧ ∀ data, answer = .ok data → disk.read path = .ok data)
      (query fun disk => disk.read path) := by
    intro disk
    have hsame : SameEntries disk disk.nextFault.2 := by
      intro place
      unfold Disk.nextFault
      split <;> rfl
    refine ⟨[], .ok (disk.query fun disk => disk.read path).1, disk.nextFault.2,
      ⟨hsame, _, rfl, fun data h => ?_⟩, fun tools => ?_⟩
    · unfold Disk.query at h
      split at h
      · cases h
      · rename_i start hnext
        rw [hnext] at hsame
        rw [← Disk.read_congr_entries hsame]
        exact h
    · unfold query Disk.query
      rcases disk.nextFault with ⟨_ | fault, start⟩ <;> rfl
  refine hquery.bind (fun _ _ _ h => ⟨h.1, trivial⟩) ?_
  rintro disk found middle ⟨hsame, answer, hok, hread⟩
  obtain rfl := Except.ok.inj hok
  cases found with
  | ok data =>
      refine (does_ofLogged (pure data)).imp ?_
      rintro _ _ _ ⟨rfl, rfl⟩ rfl
      exact ⟨hsame, hread data rfl⟩
  | error fault =>
      refine (does_ofLogged (throw (.file fault))).imp ?_
      rintro _ _ _ ⟨rfl, rfl⟩ rfl
      exact ⟨hsame, trivial⟩

variable {α β : Type} {next : α → Job β}

/-- What is done with a value that is there. -/
theorem liftM_ok_bind (a : α) : ((liftM (.ok a : Except Error α) : Job α) >>= next) = next a :=
  rfl

/-- What is done with a value that need not be there. -/
theorem Does.bindExcept {x : Except Error α} {effect : Disk → Except Error β → Disk → Prop}
    (hfailed : ∀ e disk, x = .error e → effect disk (.error e) disk)
    (hnext : ∀ a, x = .ok a → Does effect (next a)) : Does effect (liftM x >>= next) := by
  cases x with
  | error e => exact fun disk => ⟨[], .error e, disk, hfailed e disk rfl, fun _ => rfl⟩
  | ok a => exact hnext a rfl

theorem readFile_of_quiet {count : Nat} (hquiet : host.disk.Quiet (count + 1))
    (hread : host.disk.read path = .ok data) :
    ∃ disk, readFile path host = (⟨[], .ok data⟩, { host with disk }) ∧
      SameEntries host.disk disk ∧ disk.Quiet count := by
  obtain ⟨start, hnext, hsame, hquiet⟩ := Disk.nextFault_of_quiet hquiet
  refine ⟨start, ?_, hsame, hquiet⟩
  have hquery : query (fun disk => disk.read path) host =
      (⟨[], .ok (.ok data)⟩, { host with disk := start }) := by
    unfold query Disk.query
    rw [hnext]
    dsimp only
    rw [Disk.read_congr_entries hsame, hread]
    rfl
  exact bind_of_ok hquery

theorem writeFile_of_quiet (hquiet : host.disk.Quiet 1) {content : Bytes}
    (hread : host.disk.read path = .ok data) :
    ∃ disk, writeFile path content host = (⟨[], .ok ()⟩, { host with disk }) := by
  obtain ⟨start, hnext, hsame, -⟩ := Disk.nextFault_of_quiet hquiet
  rw [← Disk.read_congr_entries hsame] at hread
  obtain ⟨disk, hwrite⟩ := Disk.exists_write hread content
  refine ⟨disk, ?_⟩
  have hupdate : update (fun disk => disk.write path content) host =
      (⟨[], .ok (.ok ())⟩, { host with disk }) := by
    unfold update Disk.update
    rw [hnext]
    dsimp only
    rw [hwrite]
    rfl
  exact bind_of_ok hupdate

end Job

end NativeExports
