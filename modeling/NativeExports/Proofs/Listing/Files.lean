import NativeExports.Proofs.Host.Faults
import NativeExports.Proofs.Listing.Encodings
import NativeExports.Proofs.Listing.Insertion
import NativeExports.Proofs.Text.Lines

/-!
# Directives in the file of a listing

A listing is read from a file, its text is cut in front of a method, and the directives are put in
between.  Whatever its encoding was, it is in UTF-8 afterwards; without the directives, it is the
text that it was.  A listing that cannot take directives, or that is none, is left alone.
-/

namespace NativeExports

namespace Listing

variable {directives : List Directive} {path ending text patched : String} {data : Bytes}

/-! ## Texts -/

/-- A text with directives in it: they are put in front of a method, with the ending of the lines
of the text, and nothing else is different. -/
def Inserted (directives : List Directive) (ending text patched : String) : Prop :=
  ∃ before method after rest, InsertionPoint (Text.lines text) before method after ∧
    text = Text.ended ending before ++ rest ∧ Text.lines rest = method :: after ∧
    patched =
      Text.ended ending before ++ Text.ended ending (exportBlock directives) ++ rest

theorem InsertionPoint.mem_of_lines {before after : List String} {method : String}
    (h : InsertionPoint (Text.lines text) before method after) : '\n' ∈ text.toList := by
  refine Text.mem_of_lines ?_
  obtain ⟨front, header, middle, rfl, -⟩ := h.behind
  rw [h.lines_eq]
  simp
  omega

/-- A text takes directives exactly if there is a place for them. -/
theorem exists_inserted_iff (h : Text.UsesEnding ending text) :
    (∃ patched, Inserted directives ending text patched) ↔
      ∃ before method after, InsertionPoint (Text.lines text) before method after := by
  constructor
  · rintro ⟨-, before, method, after, -, hpoint, -⟩
    exact ⟨before, method, after, hpoint⟩
  · rintro ⟨before, method, after, hpoint⟩
    obtain ⟨rest, htext, hrest, -⟩ := Text.exists_cut (Text.ending_cases h)
      (Text.lined_of_usesEnding h) hpoint.lines_eq (List.cons_ne_nil _ _)
    exact ⟨_, before, method, after, rest, hpoint, htext, hrest, rfl⟩

theorem insertInText_eq_ok (hne : directives ≠ []) (h : Text.UsesEnding ending text) :
    insertInText text directives = .ok patched ↔ Inserted directives ending text patched := by
  -- What the lines are joined to again, if there is a place for directives.
  have hjoined : ∀ {before method after}, InsertionPoint (Text.lines text) before method after →
      ∃ rest, text = Text.ended ending before ++ rest ∧ Text.lines rest = method :: after ∧
        (Text.lineEnding text).intercalate
            (before ++ exportBlock directives ++ method :: after) ++
            (if Text.endsLine text then Text.lineEnding text else "") =
          Text.ended ending before ++ Text.ended ending (exportBlock directives) ++ rest := by
    intro before method after hpoint
    rw [Text.lineEnding_eq h hpoint.mem_of_lines]
    exact Text.intercalate_inserted (Text.ending_cases h)
      (Text.lined_of_usesEnding h) hpoint.lines_eq
      (List.cons_ne_nil _ _) _
  constructor
  · intro hpatched
    obtain ⟨out, hout, hpatched⟩ := Outcome.bind_eq_ok.mp hpatched
    obtain ⟨before, method, after, hpoint, rfl⟩ := (insertInLines_eq_ok hne).mp hout
    obtain ⟨rest, htext, hrest, hjoined⟩ := hjoined hpoint
    exact ⟨before, method, after, rest, hpoint, htext, hrest,
      (Outcome.pure_eq_ok.mp hpatched).symm.trans hjoined⟩
  · rintro ⟨before, method, after, rest, hpoint, htext, -, rfl⟩
    obtain ⟨rest', htext', -, hjoined⟩ := hjoined hpoint
    obtain rfl : rest' = rest := (String.append_right_inj _).mp (htext'.symm.trans htext)
    exact Outcome.bind_eq_ok.mpr ⟨_,
      (insertInLines_eq_ok hne).mpr ⟨before, method, after, hpoint, rfl⟩,
      Outcome.pure_eq_ok.mpr hjoined⟩

/-! ## Files -/

open Job

variable {host : Host}

/-- Putting directives into a file fails and leaves all files alone, or puts them into the text of
that file and leaves the others alone. -/
theorem does_insertInFile [Utf16.Decoder] (hne : directives ≠ []) (path : String) :
    Does (fun disk outcome disk' => EndsIn (SameEntries disk disk') (fun _ => ∃ data text patched,
      disk.read path = .ok data ∧ decode data = .ok text ∧
        insertInText text directives = .ok patched ∧
        disk.SameBut path disk' ∧ disk'.read path = .ok (Utf8.encode patched)) outcome)
      (insertInFile path directives) := by
  unfold insertInFile
  rw [if_neg (by simpa using hne)]
  refine (does_readFile path).bind (fun _ _ _ h => h.1) ?_
  rintro disk data middle ⟨hsame, hread⟩
  refine .bindExcept ?_ fun text htext => .bindExcept ?_ fun patched hpatched => ?_
  · rintro e _ - rfl
    exact hsame
  · rintro e _ - rfl
    exact hsame
  refine (does_orFail_update _).bind ?_ ?_
  · rintro _ e disk' ⟨start, hstart, ⟨-, -, rfl⟩ | ⟨h, -⟩⟩ rfl
    · exact fun place => (hstart place).trans (hsame place)
    · cases h
  · rintro middle' _ written ⟨start, hstart, ⟨e, h, -⟩ | ⟨-, hwrite⟩⟩
    · cases h
    refine (does_ofLogged _).imp ?_
    rintro _ _ _ ⟨rfl, rfl⟩ rfl rfl
    have hentries : SameEntries disk start := fun place => (hstart place).trans (hsame place)
    obtain ⟨place, isProgram, hfind⟩ := Disk.find_of_write hwrite
    refine ⟨data, text, patched, hread, htext, hpatched,
      (Disk.SameBut.of_entries hentries).trans (Disk.sameBut_of_write hwrite), ?_⟩
    rw [Disk.read, hfind]
    rfl

/-- Whether directives can be put into a file depends on its text only. -/
theorem insertInFile_of_quiet [Utf16.Decoder] (hne : directives ≠ [])
    (hquiet : host.disk.Quiet 2) (hread : host.disk.read path = .ok data) :
    (insertInFile path directives host).1.outcome =
      (decode data >>= fun text => insertInText text directives >>= fun _ => .ok ()) := by
  obtain ⟨disk, hjob, hsame, hquiet⟩ := readFile_of_quiet hquiet hread
  rw [← Disk.read_congr_entries hsame] at hread
  unfold insertInFile
  rw [if_neg (by simpa using hne), bind_of_ok hjob]
  dsimp only
  cases decode data with
  | error e => rfl
  | ok text =>
      rw [Outcome.ok_bind, liftM_ok_bind]
      cases insertInText text directives with
      | error e => rfl
      | ok patched =>
          obtain ⟨disk', hwrite⟩ : ∃ disk',
              writeFile path (Utf8.encode patched) { host with disk } =
              (⟨[], .ok ()⟩, { host with disk := disk' }) := writeFile_of_quiet hquiet hread
          rw [Outcome.ok_bind, liftM_ok_bind, bind_of_ok hwrite]
          rfl

/-- A file with a listing takes directives exactly if there is a place for them in its text; then
they are the only thing in which the text of the file is different, and no other file is. A file
that does not take them stays as it is, and so does one without a text. -/
theorem insertInFile_preserves [Utf16.Decoder] (hdecoder : Utf16.Decoder.Faithful)
    (hne : directives ≠ []) (hquiet : host.disk.Quiet 2) (hread : host.disk.read path = .ok data) :
    (∀ text ending, Encodes text data → Text.UsesEnding ending text →
      decode data = .ok text ∧
      ((insertInFile path directives host).1.outcome = .ok () ↔
        ∃ before method after, InsertionPoint (Text.lines text) before method after) ∧
      ((insertInFile path directives host).1.outcome = .ok () →
        host.disk.SameBut path (insertInFile path directives host).2.disk ∧
        ∃ patched, Inserted directives ending text patched ∧
          (insertInFile path directives host).2.disk.read path = .ok (Utf8.encode patched))) ∧
    ((∀ text, ¬Encodes text data) → (insertInFile path directives host).1.outcome ≠ .ok ()) ∧
    ((insertInFile path directives host).1.outcome ≠ .ok () →
      SameEntries host.disk (insertInFile path directives host).2.disk) := by
  obtain ⟨entries, outcome, disk', heffect, hjob⟩ := does_insertInFile hne path host.disk
  have hresult : insertInFile path directives host = (⟨entries, outcome⟩, ⟨disk', host.tools⟩) :=
    hjob host.tools
  have houtcome := insertInFile_of_quiet hne hquiet hread
  rw [hresult] at houtcome ⊢
  dsimp only at houtcome ⊢
  refine ⟨fun text ending hdata hending => ?_, fun hnone hok => ?_, fun hfailed => ?_⟩
  · have htext := (decode_eq_ok hdecoder).mpr hdata
    refine ⟨htext, ?_, ?_⟩
    · have hplace := @exists_inserted_iff directives _ _ hending
      rw [houtcome, htext, Outcome.ok_bind, Outcome.bind_eq_ok, ← hplace]
      simp only [insertInText_eq_ok hne hending, and_true]
    · rintro rfl
      obtain ⟨data', text', patched, hread', htext', hpatched, hsame, hwritten⟩ := heffect
      obtain rfl := Except.ok.inj (hread.symm.trans hread')
      obtain rfl := Except.ok.inj (htext.symm.trans htext')
      exact ⟨hsame, patched, (insertInText_eq_ok hne hending).mp hpatched, hwritten⟩
  · rw [hok] at houtcome
    obtain ⟨text, htext, -⟩ := Outcome.bind_eq_ok.mp houtcome.symm
    exact hnone text ((decode_eq_ok hdecoder).mp htext)
  · cases outcome with
    | ok done => exact absurd rfl hfailed
    | error e => exact heffect

/-- A listing of a class with one method, with line endings of two characters and a character that
takes two units. -/
def oneMethodListing : String :=
  ".class public auto ansi sealed 'Arma3.DllExport'.'DllExportWrapper'\r\n" ++
    "\x7b // 𝄞\r\n  .method a\r\n\x7d\r\n"

/-- The same listing with one export. -/
def oneExportListing : String :=
  ".class public auto ansi sealed 'Arma3.DllExport'.'DllExportWrapper'\r\n" ++
    "\x7b // 𝄞\r\n    .vtentry 1 : 1\r\n    .export [1] as a\r\n  .method a\r\n\x7d\r\n"

/-- A disk with the listing of a method in UTF-16. -/
def oneMethodHost : Host where
  disk :=
    ⟨[(["w.il"], .file (utf16Mark ++ (Utf16.encode oneMethodListing).flatMap (Bytes.leBytes 2))
    false)], []⟩
  tools _ _ disk := (⟨0, [], []⟩, disk)

theorem insertionPoint_oneMethodListing :
    InsertionPoint (Text.lines oneMethodListing)
      [".class public auto ansi sealed 'Arma3.DllExport'.'DllExportWrapper'", "\x7b // 𝄞"]
      "  .method a" ["\x7d"] where
  lines_eq := by decide +kernel
  declares := by decide +kernel
  behind := by
    refine ⟨[], _, ["\x7b // 𝄞"], rfl, by simp, ?_, ?_⟩
    · decide +kernel
    · decide +kernel

theorem insertInFile_preserves_twoUnits :
    @Utf16.Decoder.Faithful Utf16.linkedDecoder ∧ [Directive.mk 1 "a"] ≠ [] ∧
      oneMethodHost.disk.Quiet 2 ∧
      oneMethodHost.disk.read "w.il" =
        .ok (utf16Mark ++ (Utf16.encode oneMethodListing).flatMap (Bytes.leBytes 2)) ∧
      Inserted [Directive.mk 1 "a"] "\r\n" oneMethodListing oneExportListing ∧
      (insertInFile "w.il" [Directive.mk 1 "a"] oneMethodHost).2.disk.read "w.il" =
        .ok (Utf8.encode oneExportListing) := by
  have hne : [Directive.mk 1 "a"] ≠ [] := List.cons_ne_nil _ _
  have hquiet : oneMethodHost.disk.Quiet 2 := nofun
  have hread : oneMethodHost.disk.read "w.il" =
      .ok (utf16Mark ++ (Utf16.encode oneMethodListing).flatMap (Bytes.leBytes 2)) := by
    rfl
  have hending : Text.UsesEnding "\r\n" oneMethodListing := by decide +kernel
  have hpatched : insertInText oneMethodListing [Directive.mk 1 "a"] = .ok oneExportListing := by
    decide +kernel
  obtain ⟨-, hsucceeds, hcontent⟩ :=
    (insertInFile_preserves Utf16.linkedDecoder_faithful hne hquiet hread).1 _ _ .utf16 hending
  obtain ⟨-, patched, hinserted, hwritten⟩ :=
    hcontent (hsucceeds.mpr ⟨_, _, _, insertionPoint_oneMethodListing⟩)
  obtain rfl := Except.ok.inj (((insertInText_eq_ok hne hending).mpr hinserted).symm.trans hpatched)
  exact ⟨Utf16.linkedDecoder_faithful, hne, hquiet, hread, hinserted, hwritten⟩

end Listing

end NativeExports
