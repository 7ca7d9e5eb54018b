import NativeExports.Assembly.Loading
import NativeExports.Proofs.Host.Output
import NativeExports.Proofs.Metadata.CliHeader
import NativeExports.Proofs.Renumbering.AddedBodies
import NativeExports.Proofs.Writing.Content
import NativeExports.Proofs.Writing.Headers

/-!
# Addresses in a file that was written

Code and metadata refer to each other by addresses, so a file that is written has to have everything
at the addresses it had.  The old sections keep theirs although their content moves in the file, and
the new section adds the bodies and the metadata at addresses that were free.
-/

namespace NativeExports

namespace Image

theorem bytesAt_eq_ok {image : Image} {rva count : Nat} {bytes : Bytes} :
    image.bytesAt rva count = .ok bytes ↔ ∃ start, image.offsetOf rva = .ok start ∧
      start + count ≤ image.data.length ∧ bytes = (image.data.drop start).take count := by
  unfold bytesAt
  rw [Outcome.bind_eq_ok]
  refine exists_congr fun start => and_congr_right fun _ => ?_
  unfold Bytes.slice?
  by_cases hfit : start + count ≤ image.data.length
  · rw [if_pos hfit]
    exact Outcome.pure_eq_ok.trans (eq_comm.trans (and_iff_right hfit).symm)
  · rw [if_neg hfit]
    exact iff_of_false (by rintro ⟨⟩) fun h => hfit h.1

/-- The number in the four bytes from an address on. -/
def wordAt (image : Image) (rva : Nat) : Except Error Nat :=
  Bytes.leValue <$> image.bytesAt rva 4

end Image

theorem Assembly.Ascending.nodup {bodies : List (Nat × Bytes)} (h : Ascending bodies) :
    (bodies.map Prod.fst).Nodup :=
  List.pairwise_map.mpr (h.imp Nat.ne_of_lt)

theorem Metadata.length_pos_of_build {version : String} {flags : Nat} {tables : Tables}
    {heaps : Heaps}
    {data : Bytes} (h : build version flags tables heaps = .ok data) : 0 < data.length := by
  obtain ⟨tablesStream, -, rfl⟩ := build_eq_ok h
  rw [List.length_append, Root.length_write, Root.headerSize]
  omega

namespace Assembly

open Bytes (field)

/-- What an image holds, with its CLI header, to which an assembly was written with some tables and
metadata. -/
structure Written (assembly : Assembly) (filled : Tables) (metadata : Bytes) (image : Image)
    (cli : CliHeader) : Prop where
  /-- Addresses in the old sections lead to the same bytes, except for those that change. -/
  kept : ∀ s ∈ assembly.image.sections, ∀ rva count, s.Holds rva count → 0 < count →
    ∃ start old new, assembly.image.offsetOf rva = .ok start ∧
      assembly.image.bytesAt rva count = .ok old ∧ image.bytesAt rva count = .ok new ∧
      ∀ k < count, ¬assembly.Changes (start + k) → new[k]? = old[k]?
  /-- The old metadata is wiped. -/
  wiped : image.bytesAt assembly.cli.metadataRva assembly.cli.metadataSize =
    .ok (Bytes.zeros assembly.cli.metadataSize)
  /-- The positions in the debug directory lead to the same bytes, if they lead into sections. -/
  debugPointers : ∀ rva size n, assembly.image.debug = some (rva, size) →
    n < size / debugEntrySize →
    image.debug = some (rva, size) ∧ ∃ old new,
      assembly.image.wordAt (rva + n * debugEntrySize + debugPointerOffset) = .ok old ∧
      image.wordAt (rva + n * debugEntrySize + debugPointerOffset) = .ok new ∧
      (old ≠ 0 → assembly.image.InSection old (old + 1) →
        ∀ k, assembly.image.InSection (old + k) (old + k + 1) → ¬assembly.Changes (old + k) →
          image.data[new + k]? = assembly.image.data[old + k]?)
  metadata : image.bytesAt cli.metadataRva cli.metadataSize = .ok metadata
  bodies : ∀ entry ∈ assembly.addedBodies, ∃ rva,
    filled.value .methodDef entry.1 MethodDef.rvaColumn = .ok rva ∧
      image.bytesAt rva entry.2.length = .ok entry.2

namespace Filled

variable {assembly : Assembly} {plan : WritePlan} {found : Found} {content : Bytes}

/-- What an old section holds stands in the new file where it moved. -/
theorem bytesAt_old (h : Filled assembly plan found content) {range : Nat × Nat}
    (hholds : assembly.image.Holds range) (hcount : 0 < range.2) :
    ∃ start, assembly.image.offsetOf range.1 = .ok start ∧
      assembly.image.InSection start (start + range.2) ∧
      assembly.image.bytesAt range.1 range.2 =
        .ok ((assembly.image.data.drop start).take range.2) ∧
      (plan.placement.extend assembly.image newSectionName content).bytesAt range.1 range.2 =
        .ok ((content.drop (start + plan.placement.rawShift)).take range.2) := by
  obtain ⟨start, hstart, hin⟩ := h.fits.regular.inSection hholds hcount
  obtain ⟨s, hmem, hholds⟩ := hholds
  have hoffset := h.fits.regular.offsetOf_of_holds hmem hholds hcount
  obtain rfl := Except.ok.inj (hstart.symm.trans hoffset)
  obtain ⟨hend, hdata⟩ := h.fits.regular.within hmem hholds hcount
  obtain ⟨-, -, hbehind⟩ := h.fits.placement.of_inSection hin
  refine ⟨_, hstart, hin, Image.bytesAt_eq_ok.mpr ⟨_, hstart, Nat.le_trans hend hdata, rfl⟩,
    Image.bytesAt_eq_ok.mpr ⟨_,
      h.fits.placement.offsetOf_old h.fits.regular h.fits.order hmem hholds
      hcount newSectionName content, ?_, rfl⟩⟩
  have hlength : content.length = plan.placement.rawPointer + plan.placement.rawSize := h.length_eq
  change _ ≤ content.length
  omega

/-- The new section holds the new content. -/
theorem bytesAt_new (h : Filled assembly plan found content) {offset count : Nat}
    (hoffset : offset < plan.content.length) (hcount : offset + count ≤ plan.content.length) :
    (plan.placement.extend assembly.image newSectionName content).bytesAt
        (plan.placement.virtualAddress + offset) count =
      .ok ((plan.content.drop offset).take count) := by
  refine Image.bytesAt_eq_ok.mpr ⟨_, h.fits.placement.offsetOf_new h.fits.regular hoffset
    newSectionName content, ?_, (h.take_drop_content hcount).symm⟩
  have hlength : content.length = plan.placement.rawPointer + plan.placement.rawSize := h.length_eq
  have hsize := h.fits.placement.rawSize
  change _ ≤ content.length
  omega

/-- The position of data that the debug directory gives moves with the data. -/
theorem wordAt_debug (h : Filled assembly plan found content) {rva size n : Nat}
    (hdebug : assembly.image.debug = some (rva, size)) (hn : n < size / debugEntrySize) :
    ∃ old new,
      assembly.image.wordAt (rva + n * debugEntrySize + debugPointerOffset) = .ok old ∧
      (plan.placement.extend assembly.image newSectionName content).wordAt
        (rva + n * debugEntrySize + debugPointerOffset) = .ok new ∧
      (old ≠ 0 → assembly.image.InSection old (old + 1) → new = old + plan.placement.rawShift) := by
  have hpart : (rva, size) ∈ assembly.parts := .tail _ (.tail _ (Option.mem_toList.mpr hdebug))
  have hend : n * debugEntrySize + debugPointerOffset + 4 ≤ size := by
    have hlt := (Nat.lt_div_iff_mul_lt (by decide)).mp hn
    unfold debugEntrySize debugPointerOffset at *
    omega
  obtain ⟨entries, hentries, -⟩ :=
    h.bytesAt_old (h.fits.parts.held _ hpart) (h.fits.positive _ hpart)
  obtain ⟨hholds, hoffset⟩ := h.fits.regular.offsetOf_add (h.fits.parts.held _ hpart) hentries hend
    (by decide)
  rw [Nat.add_assoc]
  obtain ⟨start, hstart, hin, hold, hnew⟩ := h.bytesAt_old hholds (show 0 < 4 by decide)
  obtain rfl := Except.ok.inj (hstart.symm.trans hoffset)
  generalize hfield : entries + (n * debugEntrySize + debugPointerOffset) = field at *
  have hmem : field ∈ debugFields assembly.image := mem_debugFields.mpr
    ⟨rva, size, entries, n, hdebug, hentries, hn, hfield ▸ (Nat.add_assoc ..).symm⟩
  refine ⟨_, _, Outcome.map_eq_ok.mpr ⟨_, hold, rfl⟩, Outcome.map_eq_ok.mpr ⟨_, hnew, rfl⟩,
    fun hne htarget => ?_⟩
  by_cases hshift : plan.placement.rawShift = 0
  · -- Without a shift the position is not among the updates.
    obtain ⟨-, hcli, hmetadata⟩ := h.fits.debugField hmem
    have hsame : Bytes.SameOn assembly.image.data content field (field + 4) := by
      intro p hlo hhi
      have hkept := h.getElem?_moved (hin.mono hlo hhi) fun part hpart => ?_
      · rwa [hshift] at hkept
      · rcases mem_partUpdates.mp hpart with rfl | hupdate | hupdate
        · rw [Bytes.length_zeros]
          dsimp only
          omega
        · exact absurd hshift (mem_debugUpdates.mp hupdate).1
        · have hwithin := cliPatches_within hupdate
          omega
    rw [hshift]
    exact congrArg Bytes.leValue (Bytes.take_drop_eq_of_sameOn hsame)
  · obtain ⟨hmove, -, -⟩ := h.fits.placement.of_inSection htarget
    have hupdate : (field, Bytes.leBytes 4 (plan.placement.move
        (Bytes.field assembly.image.data field 4))) ∈ partUpdates assembly plan found :=
      mem_partUpdates.mpr (.inr (.inl (mem_debugUpdates.mpr ⟨hshift, field, hmem, hne, rfl⟩)))
    exact (h.field_part hupdate ((h.moves hshift).debug field hmem hne)).trans hmove

/-- The CLI header in the new file locates the new metadata. -/
theorem stored_cliHeader (h : Filled assembly plan found content)
    (hsize : plan.metadataOffset + plan.metadataSize = plan.content.length) {header : Bytes}
    (hheader : (plan.placement.extend assembly.image newSectionName content).bytesAt
      assembly.image.cli.1 CliHeader.size = .ok header) :
    (CliHeader.stored header).metadataRva = plan.placement.virtualAddress + plan.metadataOffset ∧
      (CliHeader.stored header).metadataSize = plan.metadataSize := by
  obtain ⟨start, hstart, -, -, hnew⟩ := h.bytesAt_old
    (h.fits.parts.held _ (.head _)) (h.fits.positive _ (.head _))
  obtain rfl := Except.ok.inj (hstart.symm.trans h.fits.cliHeader)
  obtain rfl := Except.ok.inj (hheader.symm.trans hnew)
  have haddresses := h.addresses
  constructor
  · refine (Image.field_take_drop (show 8 + 4 ≤ CliHeader.size by decide)).trans ?_
    rw [Nat.add_right_comm]
    exact h.field_part (mem_partUpdates.mpr (.inr (.inr (.head _)))) (by omega)
  · refine (Image.field_take_drop (show 12 + 4 ≤ CliHeader.size by decide)).trans ?_
    rw [Nat.add_right_comm]
    exact h.field_part (mem_partUpdates.mpr (.inr (.inr (.tail _ (.head _))))) (by omega)

/-- The new file holds everything at its address. -/
theorem written (h : Filled assembly plan found content) {filled : Tables} {address : Nat → Nat}
    {metadata header : Bytes} (hplan : plan.Fits assembly filled address metadata)
    (hheader : (plan.placement.extend assembly.image newSectionName content).bytesAt
      assembly.image.cli.1 CliHeader.size = .ok header) :
    assembly.Written filled metadata (plan.placement.extend assembly.image newSectionName content)
      (.stored header) := by
  obtain ⟨hend, hmetadata⟩ := hplan.content
  have hpositive := Metadata.length_pos_of_build hplan.built
  constructor
  case kept =>
    intro s hmem rva count hholds hcount
    have hheld : assembly.image.Holds (rva, count) := ⟨s, hmem, hholds⟩
    obtain ⟨start, hstart, hin, hold, hnew⟩ := h.bytesAt_old hheld hcount
    refine ⟨start, _, _, hstart, hold, hnew, fun k hk hkept => ?_⟩
    rw [List.getElem?_take_of_lt hk, List.getElem?_take_of_lt hk, List.getElem?_drop,
      List.getElem?_drop, Nat.add_right_comm]
    exact h.kept (hin.mono (Nat.le_add_right _ _) (by dsimp only; omega)) hkept
  case wiped =>
    have hpart : (assembly.cli.metadataRva, assembly.cli.metadataSize) ∈ assembly.parts :=
      .tail _ (.head _)
    obtain ⟨start, hstart, -, -, hnew⟩ :=
      h.bytesAt_old (h.fits.parts.held _ hpart) (h.fits.positive _ hpart)
    obtain rfl := Except.ok.inj (hstart.symm.trans h.fits.oldMetadata)
    have hzero := h.take_drop_part (mem_partUpdates.mpr (.inl rfl))
    rw [Bytes.length_zeros] at hzero
    exact hnew.trans (congrArg _ hzero)
  case debugPointers =>
    intro rva size n hdebug hn
    obtain ⟨old, new, hold, hnew, hmoved⟩ := h.wordAt_debug hdebug hn
    refine ⟨hdebug, old, new, hold, hnew, fun hne hin k hk hkept => ?_⟩
    rw [hmoved hne hin, Nat.add_right_comm]
    exact h.kept hk hkept
  case metadata =>
    obtain ⟨hrva, hsize⟩ := h.stored_cliHeader (hplan.size ▸ hend) hheader
    rw [hrva, hsize, hplan.size, h.bytesAt_new (by omega) (by omega), hmetadata]
  case bodies =>
    intro entry hmem
    obtain ⟨offset, hvalue, hfit, hbody⟩ := hplan.bodies entry hmem
    exact ⟨_, hvalue, (h.bytesAt_new (by omega) (by omega)).trans (congrArg _ hbody)⟩

end Filled

/-- Filling an output as planned. -/
theorem filled_of_fill {assembly : Assembly} {plan : WritePlan} {target temporary : String}
    {output : Output} {filled : Tables} {address : Nat → Nat} {metadata : Bytes}
    (hregular : assembly.image.Regular) (horder : assembly.image.HeadersInOrder)
    (hparts : assembly.PartsInSections) (hpositive : ∀ part ∈ assembly.parts, 0 < part.2)
    (hplan : plan.Fits assembly filled address metadata)
    (hfill : assembly.fill plan ⟨target, temporary, Bytes.zeros plan.placement.newSize⟩ =
      .ok output) :
    ∃ found, assembly.Filled plan found output.content := by
  obtain ⟨found, hold, hheader, hpatched, hmoves, hsize⟩ := fill_eq_ok hfill
  have hplacement := Placement.fits_of_behind hregular.fileUnit hregular.addressUnit hplan.placement
  refine ⟨found, ⟨hregular, horder, hparts, hpositive, hplacement, hold, hheader⟩, hmoves, ?_,
    hpatched.content, ?_⟩
  · rw [max_one_of_isPowerOfTwo hregular.addressUnit, hplacement.virtualSize] at hsize
    exact Nat.lt_of_le_of_lt (le_roundUp hregular.addressUnit) hsize
  · have hinside := hpatched.fit
    rwa [Bytes.length_zeros] at hinside

/-- What loading makes of the CLI header. -/
theorem cli_of_load {image : Image} {assembly : Assembly}
    (h : (load image).outcome = .ok assembly) :
    assembly.image = image ∧ assembly.addedBodies = [] ∧ ∃ header,
      image.bytesAt image.cli.1 CliHeader.size = .ok header ∧ assembly.cli = .stored header ∧
        assembly.cli.metadataSize ≠ 0 := by
  unfold load at h
  simp only [Logged.outcome_bind, Logged.outcome_monadLift] at h
  obtain ⟨header, hheader, h⟩ := Outcome.bind_eq_ok.mp h
  obtain ⟨cli, hcli, h⟩ := Outcome.bind_eq_ok.mp h
  obtain ⟨metadata, -, h⟩ := Outcome.bind_eq_ok.mp h
  obtain ⟨root, -, h⟩ := Outcome.bind_eq_ok.mp h
  obtain ⟨streams, -, h⟩ := Outcome.bind_eq_ok.mp h
  obtain ⟨-, rfl, -, -, hsize⟩ := CliHeader.read_eq_ok.mp hcli
  split at h
  · cases h
  · obtain rfl := Except.ok.inj h
    exact ⟨rfl, rfl, header, hheader, rfl, hsize⟩

/-- The header values of an assembly are those in its image, as they are once it is loaded, and its
added bodies are in order. -/
structure Intact (assembly : Assembly) : Prop where
  image : assembly.image.AsStored
  metadata : assembly.cli.metadataSize ≠ 0
  bodies : Ascending assembly.addedBodies

theorem intact_of_load [Image.Parser] (hparser : Image.Parser.Faithful) {data : Bytes}
    {image : Image}
    {assembly : Assembly} (hread : Image.read data = .ok image)
    (h : (load image).outcome = .ok assembly) : assembly.Intact := by
  obtain ⟨-, hstored⟩ := Image.asStored_of_read hparser hread
  obtain ⟨himage, hbodies, -, -, -, hsize⟩ := cli_of_load h
  exact ⟨himage ▸ hstored, hsize, hbodies ▸ .nil⟩

theorem Intact.setBody {assembly : Assembly} (h : assembly.Intact) (method : Nat) (body : Bytes) :
    (assembly.setBody method body).Intact :=
  ⟨h.image, h.metadata, ascending_insertBody h.bodies⟩

theorem Intact.positive {assembly : Assembly} (h : assembly.Intact) {part : Nat × Nat}
    (hpart : part ∈ assembly.parts) : 0 < part.2 := by
  rcases List.mem_cons.mp hpart with rfl | hpart
  · exact show 0 < CliHeader.size by decide
  rcases List.mem_cons.mp hpart with rfl | hpart
  · exact Nat.pos_of_ne_zero h.metadata
  · have hdebug := Option.mem_toList.mp hpart
    rw [h.image.stored] at hdebug
    obtain ⟨-, hsize⟩ := Option.filter_eq_some_iff.mp hdebug
    exact Nat.pos_of_ne_zero (bne_iff_ne.mp (Bool.and_eq_true_iff.mp hsize).2)

/-- A file holds an assembly, if it is loaded from there: with the metadata of its tables, in which
the added methods have got addresses, and with everything else at its address. -/
def SavedIn [Image.Parser] (assembly : Assembly) (content : Bytes) : Prop :=
  ∃ filled address metadata,
    assembly.tables.Located (assembly.addedBodies.map Prod.fst) address filled ∧
    Metadata.build assembly.version assembly.rootFlags filled assembly.heaps = .ok metadata ∧
    ∀ image output, Image.read content = .ok image → (load image).outcome = .ok output →
      assembly.Written filled metadata output.image output.cli

/-- Saving keeps all addresses. -/
theorem save_keeps_addresses [Image.Parser] (hparser : Image.Parser.Faithful) {assembly : Assembly}
    {path : String} {host : Host} (hintact : assembly.Intact) (hregular : assembly.image.Regular)
    (horder : assembly.image.HeadersInOrder) (hparts : assembly.PartsInSections)
    (hsave : (assembly.save path host).1.outcome = .ok ()) :
    ∃ content, (assembly.save path host).2.disk.read path = .ok content ∧
      assembly.SavedIn content := by
  obtain ⟨entries, outcome, disk, hends, hjob⟩ := assembly.does_save path host.disk
  have hjob := hjob host.tools
  rw [hjob] at hsave ⊢
  obtain rfl : outcome = .ok () := hsave
  obtain ⟨plan, output, hplan, hfill, hread⟩ := hends
  obtain ⟨filled, address, metadata, hfits⟩ := fits_of_plan hintact.bodies.nodup hplan
  obtain ⟨found, hfilled⟩ := filled_of_fill hregular horder hparts (fun _ => hintact.positive) hfits
    hfill
  refine ⟨output.content, hread, filled, address, metadata, hfits.located, hfits.built, ?_⟩
  intro image loaded himage hload
  obtain ⟨hdata, hstored⟩ := Image.asStored_of_read hparser himage
  obtain ⟨hloaded, -, header, hheader, hcli, -⟩ := cli_of_load hload
  have himage' : image = Image.stored output.content := hdata ▸ hstored.stored
  rw [himage'] at hheader
  obtain ⟨start, hfound, -⟩ := Image.bytesAt_eq_ok.mp hheader
  have hextend := hfilled.stored_eq_extend hintact.image
    (hfilled.room_of_offsetOf hintact.image hfound)
  rw [hextend] at himage' hheader
  rw [hloaded, hcli, himage']
  exact hfilled.written hfits hheader

/-! ## Small libraries -/

/-- The headers of a 32-bit library, up to the end of the section table. -/
def libraryHeaders (peOffset cliHeader : Nat) (debug : Nat × Nat) (sections : List ImageSection) :
    Bytes :=
  [0x4D, 0x5A] ++ Bytes.zeros 58 ++ Bytes.leBytes 4 peOffset ++ Bytes.zeros (peOffset - 64) ++
    -- The signature and the file header.
    [0x50, 0x45, 0, 0] ++ Bytes.leBytes 2 0x14C ++ Bytes.leBytes 2 sections.length ++
    Bytes.zeros 12 ++ Bytes.leBytes 2 224 ++ Bytes.leBytes 2 0x2102 ++
    -- The optional header, with the debug directory and the CLI header among 16 directories.
    Bytes.leBytes 2 0x10B ++ Bytes.zeros 30 ++ Bytes.leBytes 4 0x2000 ++ Bytes.leBytes 4 0x200 ++
    Bytes.zeros 20 ++ Bytes.leBytes 4 0x200 ++ Bytes.zeros 28 ++ Bytes.leBytes 4 16 ++
    Bytes.zeros 48 ++ Bytes.leBytes 4 debug.1 ++ Bytes.leBytes 4 debug.2 ++ Bytes.zeros 56 ++
    Bytes.leBytes 4 cliHeader ++ Bytes.leBytes 4 CliHeader.size ++ Bytes.zeros 8 ++
    sections.flatMap fun s =>
      Placement.header ⟨s.virtualAddress, s.virtualSize, s.rawPointer, s.rawSize, 0, 0, 0⟩ s.name

/-- A CLI header, an entry of a debug directory with four bytes of data, and metadata, for an
address and a position in the file. -/
def libraryContent (rva position : Nat) (metadata : Bytes) : Bytes :=
  Bytes.leBytes 4 CliHeader.size ++ Bytes.zeros 4 ++ Bytes.leBytes 4 (rva + 104) ++
    Bytes.leBytes 4 metadata.length ++ Bytes.leBytes 4 3 ++ Bytes.zeros 52 ++
    -- The debug directory.
    Bytes.zeros 16 ++ Bytes.leBytes 4 4 ++ Bytes.leBytes 4 (rva + 100) ++
    Bytes.leBytes 4 (position + 100) ++ [1, 2, 3, 4] ++ metadata

def smallMetadata : Bytes :=
  (Metadata.build "v4.0.30319" 5 Metadata.smallTables Metadata.smallHeaps).toOption.getD []

/-- A library in which the first section begins in the section table. -/
def overlappingLibrary : Bytes :=
  libraryHeaders 0xE0 0x2030 (0, 0)
      [⟨".text", 0x200, 0x2000, 0x200, 0x200, 0⟩, ⟨".data", 0x10, 0x4000, 0x200, 0x400, 0⟩] ++
    Bytes.zeros 8 ++ libraryContent 0x2030 0x230 smallMetadata ++ Bytes.zeros 120 ++
    List.replicate 16 7 ++ Bytes.zeros 0x1F0

/-- A library whose debug directory stands at the end of the metadata. -/
def enclosingLibrary : Bytes :=
  libraryHeaders 0x80 0x2000 (0x2158, 28) [⟨".text", 0x174, 0x2000, 0x200, 0x200, 0⟩] ++
    Bytes.zeros 96 ++
    libraryContent 0x2000 0x200 (smallMetadata ++ Bytes.zeros 24 ++ Bytes.leBytes 4 0x264) ++
    Bytes.zeros 140

/-- A host without files. -/
def emptyHost : Host :=
  ⟨⟨[], []⟩, fun _ _ disk => (⟨0, [], []⟩, disk)⟩

def smallPath : String := "Small.dll"

/-- The assembly in an image, the file it is saved in after a change, and what is loaded from
there. -/
def saveSmall (change : Assembly → Assembly) (data : Bytes) :
    Except Error (Assembly × Bytes × Assembly) := do
  let assembly ← (load (← Image.read data)).outcome
  (Assembly.save (change assembly) smallPath emptyHost).1.outcome
  match (Assembly.save (change assembly) smallPath emptyHost).2.disk.read smallPath with
  | .error fault => throw (.file fault)
  | .ok content => return (assembly, content, ← (load (← Image.read content)).outcome)

theorem saveSmall_eq_ok {change : Assembly → Assembly} {data content : Bytes}
    {assembly output : Assembly} (h : saveSmall change data = .ok (assembly, content, output)) :
    assembly.Intact ∧ (Assembly.save (change assembly) smallPath emptyHost).1.outcome = .ok () ∧
      (Assembly.save (change assembly) smallPath emptyHost).2.disk.read smallPath = .ok content ∧
      ∃ image, Image.read content = .ok image ∧ (load image).outcome = .ok output := by
  obtain ⟨image, hread, h⟩ := Outcome.bind_eq_ok.mp h
  obtain ⟨loaded, hload, h⟩ := Outcome.bind_eq_ok.mp h
  obtain ⟨_, hsave, h⟩ := Outcome.bind_eq_ok.mp h
  split at h
  · cases h
  · rename_i found hfound
    obtain ⟨image', hread', h⟩ := Outcome.bind_eq_ok.mp h
    obtain ⟨output', hload', h⟩ := Outcome.bind_eq_ok.mp h
    obtain ⟨rfl, hrest⟩ := Prod.mk.inj (Outcome.pure_eq_ok.mp h)
    obtain ⟨rfl, rfl⟩ := Prod.mk.inj hrest
    exact ⟨intact_of_load Image.linkedParser_faithful hread hload, hsave, hfound, image', hread',
      hload'⟩

theorem exists_saveSmall (change : Assembly → Assembly) (data : Bytes)
    {p : Assembly → Assembly → Prop} [∀ assembly output, Decidable (p assembly output)]
    (h : (saveSmall change data).toOption.any (fun saved => p saved.1 saved.2.2) = true) :
    ∃ assembly content output, saveSmall change data = .ok (assembly, content, output) ∧
      p assembly output := by
  cases hsaved : saveSmall change data with
  | error e =>
      rw [hsaved] at h
      cases h
  | ok saved =>
      rw [hsaved] at h
      exact ⟨saved.1, saved.2.1, saved.2.2, rfl, of_decide_eq_true h⟩

/-- Saving a library whose content has to move, with a body added. -/
theorem save_keeps_addresses_small :
    @Image.Parser.Faithful Image.linkedParser ∧ ∃ assembly content output,
      saveSmall (·.setBody 1 [6, 0x2A]) (Image.smallLibrary smallMetadata) =
        .ok (assembly, content, output) ∧
      assembly.image.Regular ∧ assembly.image.HeadersInOrder ∧
      (assembly.setBody 1 [6, 0x2A]).PartsInSections ∧
      (assembly.setBody 1 [6, 0x2A]).SavedIn content := by
  obtain ⟨assembly, content, output, hsaved, hregular, horder, hparts⟩ :=
    exists_saveSmall (·.setBody 1 [6, 0x2A]) (Image.smallLibrary smallMetadata)
      (p := fun assembly _ => assembly.image.Regular ∧ assembly.image.HeadersInOrder ∧
        (assembly.setBody 1 [6, 0x2A]).PartsInSections) (by decide +kernel)
  obtain ⟨hintact, hsave, hcontent, -⟩ := saveSmall_eq_ok hsaved
  obtain ⟨content', hcontent', hsaved'⟩ := save_keeps_addresses Image.linkedParser_faithful
    (hintact.setBody 1 [6, 0x2A]) hregular horder hparts hsave
  obtain rfl := Except.ok.inj (hcontent'.symm.trans hcontent)
  exact ⟨Image.linkedParser_faithful, assembly, content', output, hsaved, hregular, horder, hparts,
    hsaved'⟩

/-- The order of the headers and the place of the debug directory matter.  If a section begins in
the section table, then another section is lost; if the debug directory stands in the metadata, then
it is wiped with it. -/
theorem save_loses_addresses :
    (∃ assembly content output, saveSmall id overlappingLibrary = .ok (assembly, content, output) ∧
      assembly.image.Regular ∧ assembly.PartsInSections ∧ ¬assembly.SavedIn content) ∧
    ∃ assembly content output, saveSmall id enclosingLibrary = .ok (assembly, content, output) ∧
      assembly.image.Regular ∧ assembly.image.HeadersInOrder ∧
      assembly.image.Holds (assembly.image.cli.1, CliHeader.size) ∧
      assembly.image.Holds (assembly.cli.metadataRva, assembly.cli.metadataSize) ∧
      assembly.image.Apart (assembly.image.cli.1, CliHeader.size)
        (assembly.cli.metadataRva, assembly.cli.metadataSize) ∧ ¬assembly.SavedIn content := by
  constructor
  · obtain ⟨assembly, content, output, hsaved, hregular, hparts, ⟨s, hmem, hholds⟩, hlost⟩ :=
      exists_saveSmall id overlappingLibrary
        (p := fun assembly output => assembly.image.Regular ∧ assembly.PartsInSections ∧
          assembly.image.Holds (0x4000, 1) ∧ (output.image.bytesAt 0x4000 1).isOk = false)
        (by decide +kernel)
    refine ⟨assembly, content, output, hsaved, hregular, hparts, ?_⟩
    rintro ⟨filled, address, metadata, -, -, hwritten⟩
    obtain ⟨-, -, -, image, hread, hload⟩ := saveSmall_eq_ok hsaved
    obtain ⟨_, _, new, -, -, hnew, -⟩ :=
      (hwritten image output hread hload).kept s hmem 0x4000 1 hholds (by decide)
    rw [hnew] at hlost
    cases hlost
  · obtain ⟨assembly, content, output, hsaved, hregular, horder, hcli, hmetadata, hapart, hdebug,
        hold, hnew, hin, hkept, hlost⟩ :=
      exists_saveSmall id enclosingLibrary
        (p := fun assembly output => assembly.image.Regular ∧ assembly.image.HeadersInOrder ∧
          assembly.image.Holds (assembly.image.cli.1, CliHeader.size) ∧
          assembly.image.Holds (assembly.cli.metadataRva, assembly.cli.metadataSize) ∧
          assembly.image.Apart (assembly.image.cli.1, CliHeader.size)
            (assembly.cli.metadataRva, assembly.cli.metadataSize) ∧
          assembly.image.debug = some (0x2158, 28) ∧
          (assembly.image.wordAt 0x2170).toOption = some 0x264 ∧
          (output.image.wordAt 0x2170).toOption = some 0 ∧
          assembly.image.InSection 0x264 0x265 ∧
          ((assembly.image.offsetOf assembly.image.cli.1).toOption = some 0x200 ∧
            (assembly.image.offsetOf assembly.cli.metadataRva).toOption = some 0x268 ∧
            debugFields assembly.image = [0x370]) ∧
          output.image.data[0]? ≠ assembly.image.data[0x264]?)
        (by decide +kernel)
    refine ⟨assembly, content, output, hsaved, hregular, horder, hcli, hmetadata, hapart, ?_⟩
    rintro ⟨filled, address, metadata, -, -, hwritten⟩
    obtain ⟨-, -, -, image, hread, hload⟩ := saveSmall_eq_ok hsaved
    obtain ⟨-, old, new, hold', hnew', hsame⟩ :=
      (hwritten image output hread hload).debugPointers 0x2158 28 0 hdebug (by decide)
    obtain rfl := Except.ok.inj (hold'.symm.trans (Outcome.eq_ok_of_toOption hold))
    obtain rfl := Except.ok.inj (hnew'.symm.trans (Outcome.eq_ok_of_toOption hnew))
    refine hlost (hsame (by decide) hin 0 hin ?_)
    obtain ⟨hheader, hstart, hfields⟩ := hkept
    rintro (⟨hfound, hlo, hhi⟩ | ⟨hfound, hlo, hhi⟩ | ⟨hfound, hlo, hhi⟩ | ⟨hfield, hlo, hhi⟩)
    · obtain rfl := Except.ok.inj (hfound.symm.trans (Outcome.eq_ok_of_toOption hheader))
      exact absurd hhi (by decide)
    · obtain rfl := Except.ok.inj (hfound.symm.trans (Outcome.eq_ok_of_toOption hheader))
      exact absurd hhi (by decide)
    · obtain rfl := Except.ok.inj (hfound.symm.trans (Outcome.eq_ok_of_toOption hstart))
      exact absurd hlo (by decide)
    · rw [hfields] at hfield
      obtain rfl := List.mem_singleton.mp hfield
      exact absurd hlo (by decide)

end Assembly

end NativeExports
