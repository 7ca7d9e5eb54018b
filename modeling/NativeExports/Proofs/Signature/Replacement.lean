import NativeExports.Proofs.Pieces

/-!
# Replacing the tokens of a signature

A signature whose tokens are replaced reads like the one it came from, piece by piece, with every
token mapped and everything else as it was.  The reason is that no walk looks at a token that it
passes: what is passed next depends on the bytes between the tokens only.
-/

namespace NativeExports

namespace Piece

/-- What becomes of a piece: a token becomes a related one that can be read, anything else stays. -/
inductive MapsTo (related : Token → Token → Prop) : Piece → Piece → Prop
  | raw (data : Bytes) : MapsTo related (.raw data) (.raw data)
  | token {old new : Token} {stored stored' : Bytes} (h : related old new)
      (hform : Compressed.TokenForm stored' new) :
      MapsTo related (.token old stored) (.token new stored')

variable {related : Token → Token → Prop}

theorem forall₂_tokens {pieces pieces' : List Piece}
    (h : List.Forall₂ (MapsTo related) pieces pieces') :
    List.Forall₂ related (pieces.filterMap token?) (pieces'.filterMap token?) := by
  induction h with
  | nil => exact .nil
  | cons hpiece hrest ih =>
      cases hpiece with
      | raw data => exact ih
      | token h hform => exact .cons h ih

end Piece

namespace Walk

variable {α β : Type} {related : Token → Token → Prop}

/-- A walk passes replaced pieces as it has passed the old ones, whatever follows. -/
def Replays (related : Token → Token → Prop) (walk : Walk α) : Prop :=
  ∀ data pieces a rest, walk data = (pieces, .ok (a, rest)) →
    ∀ pieces', List.Forall₂ (Piece.MapsTo related) pieces pieces' →
      ∀ rest', walk (pieces'.flatMap Piece.bytes ++ rest') = (pieces', .ok (a, rest'))

theorem bind_of_eq_ok {walk : Walk α} {next : α → Walk β} {data mid rest : Bytes}
    {first second : List Piece} {a : α} {b : β} (hfirst : walk data = (first, .ok (a, mid)))
    (hsecond : next a mid = (second, .ok (b, rest))) :
    (walk >>= next) data = (first ++ second, .ok (b, rest)) := by
  simp only [bind]
  rw [hfirst]
  dsimp only
  rw [hsecond]

theorem Replays.pure (a : α) : Replays related (Pure.pure a) := by
  intro data pieces b rest h pieces' hpieces rest'
  change ([], Except.ok (a, data)) = _ at h
  obtain ⟨rfl, houtcome⟩ := Prod.mk.inj h
  obtain ⟨rfl, rfl⟩ := Prod.mk.inj (Except.ok.inj houtcome)
  cases hpieces
  rfl

theorem Replays.bind {walk : Walk α} {next : α → Walk β} (h : Replays related walk)
    (h' : ∀ a, Replays related (next a)) : Replays related (walk >>= next) := by
  intro data pieces b rest hwalk pieces' hpieces rest'
  obtain ⟨first, a, mid, second, hfirst, hsecond, rfl⟩ := bind_eq_ok hwalk
  obtain ⟨first', second', hfirst', hsecond', rfl⟩ := Outcome.forall₂_append_left hpieces
  rw [List.flatMap_append, List.append_assoc]
  exact bind_of_eq_ok (h _ _ _ _ hfirst first' hfirst' _)
    (h' a _ _ _ _ hsecond second' hsecond' rest')

theorem Replays.malformed (cause : Malformation) :
    Replays related (Walk.malformed cause : Walk α) := by
  intro data pieces a rest h
  cases (Prod.mk.inj h).2

theorem pass_of_eq_ok {reader : Reader α} {piece : α → Bytes → Piece} {front rest : Bytes} {a : α}
    (h : reader (front ++ rest) = .ok a rest) :
    Walk.pass reader piece (front ++ rest) = ([piece a front], .ok (a, rest)) := by
  simp only [Walk.pass, h, List.length_append, Nat.add_sub_cancel, List.take_left]

/-- Bytes between tokens are passed as before. -/
theorem Replays.raw {reader : Reader α} (h : reader.IsLocal) :
    Replays related (Walk.pass reader fun _ => .raw) := by
  intro data pieces a rest hwalk pieces' hpieces rest'
  unfold Walk.pass at hwalk
  split at hwalk
  · rename_i b mid hread
    obtain ⟨front, rfl, htakes⟩ := h _ _ _ hread
    rw [List.length_append, Nat.add_sub_cancel, List.take_left] at hwalk
    obtain ⟨rfl, houtcome⟩ := Prod.mk.inj hwalk
    obtain ⟨rfl, rfl⟩ := Prod.mk.inj (Except.ok.inj houtcome)
    cases hpieces with
    | cons hpiece hnil =>
        cases hpiece
        cases hnil
        rw [List.flatMap_singleton]
        exact pass_of_eq_ok (htakes rest')
  · cases (Prod.mk.inj hwalk).2

/-- Another token is passed in place of a token. -/
theorem Replays.token : Replays related Walk.token := by
  intro data pieces a rest hwalk pieces' hpieces rest'
  obtain ⟨first, b, mid, second, hfirst, hsecond, rfl⟩ := bind_eq_ok hwalk
  obtain ⟨rfl, -⟩ := Prod.mk.inj hsecond
  unfold Walk.pass at hfirst
  split at hfirst
  · obtain ⟨rfl, -⟩ := Prod.mk.inj hfirst
    cases hpieces with
    | cons hpiece hnil =>
        cases hpiece with
        | @token _ new _ stored' _ hform =>
            cases hnil
            rw [List.flatMap_singleton]
            obtain ⟨n, table, hn, htable, hnew⟩ := hform
            have hread : Compressed.readToken (stored' ++ rest') = .ok new rest' :=
              Compressed.readToken_eq_ok.mpr ⟨stored', n, table, rfl, hn, htable, hnew⟩
            have hend : (return : Walk Unit) rest' = ([], Except.ok ((), rest')) := rfl
            exact bind_of_eq_ok (pass_of_eq_ok hread) hend
  · cases (Prod.mk.inj hfirst).2

theorem Replays.byte : Replays related Walk.byte :=
  .raw .byte

theorem Replays.number : Replays related Walk.number := by
  refine .raw fun data a rest h => ?_
  obtain ⟨front, rfl, hform⟩ := Compressed.read_eq_ok.mp h
  exact ⟨front, rfl, fun rest => Compressed.read_eq_ok.mpr ⟨front, rfl, hform⟩⟩

theorem Replays.times {walk : Walk Unit} (h : Replays related walk) (count : Nat) :
    Replays related (Walk.times walk count) := by
  induction count with
  | zero => exact .pure ()
  | succ count ih => exact h.bind fun _ => ih

theorem Replays.numbers : Replays related Walk.numbers :=
  Replays.number.bind fun count => Replays.times (Replays.number.bind fun _ => .pure ()) count

theorem Replays.method {type : Walk Unit} (h : Replays related type) :
    Replays related (Walk.method type) := by
  refine Replays.byte.bind fun lead => ?_
  have hrest : Replays related (do
      let count ← Walk.number
      type
      Walk.times type count) :=
    Replays.number.bind fun count => h.bind fun _ => h.times count
  dsimp only
  split
  · exact Replays.number.bind fun _ => hrest
  · exact hrest

theorem Replays.body {inner : Walk Unit} (h : Replays related inner) (lead : Nat) :
    Replays related (Walk.body inner lead) := by
  unfold Walk.body
  split
  · exact .pure ()
  · exact h
  · exact h
  · exact h
  · exact h
  · exact h
  · exact .token
  · exact .token
  · exact Replays.number.bind fun _ => .pure ()
  · exact Replays.number.bind fun _ => .pure ()
  · exact Replays.token.bind fun _ => h
  · exact Replays.token.bind fun _ => h
  · exact h.bind fun _ => Replays.number.bind fun _ => Replays.numbers.bind fun _ => .numbers
  · refine Replays.byte.bind fun base => ?_
    have hrest : Replays related (do
        Walk.token
        let count ← Walk.number
        Walk.times inner count) :=
      Replays.token.bind fun _ => Replays.number.bind fun count => h.times count
    dsimp only
    split
    · exact (Replays.malformed _).bind fun _ => hrest
    · exact hrest
  · exact .method h
  · exact .malformed _

/-- The induction is on the levels of nesting left. -/
theorem Replays.type (room : Nat) : Replays related (Walk.type room) := by
  induction room with
  | zero => exact .malformed _
  | succ room ih => exact Replays.byte.bind fun lead => ih.body lead

/-! ## The first byte

A walk over a signature looks at the first byte before it passes it.  That byte is no token. -/

/-- The first piece that a walk passes is a byte. -/
def TakesByte (walk : Walk α) : Prop :=
  ∀ data pieces a rest, walk data = (pieces, .ok (a, rest)) →
    ∃ lead more, data.head? = some lead ∧ pieces = .raw [lead] :: more

theorem TakesByte.byte_bind {next : Nat → Walk α} : TakesByte (Walk.byte >>= next) := by
  intro data pieces a rest hwalk
  obtain ⟨first, b, mid, second, hfirst, -, rfl⟩ := bind_eq_ok hwalk
  unfold Walk.byte Walk.pass at hfirst
  split at hfirst
  · rename_i lead after hread
    obtain ⟨lead, rfl, -⟩ := Reader.byte_eq_ok.mp hread
    obtain ⟨rfl, -⟩ := Prod.mk.inj hfirst
    exact ⟨lead, second, rfl, by simp⟩
  · cases (Prod.mk.inj hfirst).2

theorem peek_cons (lead : UInt8) (rest : Bytes) :
    Walk.peek (lead :: rest) = ([], .ok (lead.toNat, lead :: rest)) :=
  rfl

/-- What is passed after a look at the first byte does not depend on where the byte was seen. -/
theorem Replays.peek_bind {next : Nat → Walk α} (h : ∀ lead, Replays related (next lead))
    (hbyte : ∀ lead, (next lead).TakesByte) : Replays related (Walk.peek >>= next) := by
  intro data pieces a rest hwalk pieces' hpieces rest'
  obtain ⟨first, lead, mid, second, hfirst, hsecond, rfl⟩ := bind_eq_ok hwalk
  cases data with
  | nil => cases (Prod.mk.inj hfirst).2
  | cons b data =>
      rw [peek_cons] at hfirst
      obtain ⟨rfl, houtcome⟩ := Prod.mk.inj hfirst
      obtain ⟨rfl, rfl⟩ := Prod.mk.inj (Except.ok.inj houtcome)
      obtain ⟨b', more, hhead, rfl⟩ := hbyte _ _ _ _ _ hsecond
      obtain rfl : b = b' := Option.some.inj hhead
      have hreplay := h _ _ _ _ _ hsecond pieces' hpieces rest'
      cases hpieces with
      | @cons _ piece' _ more' hpiece hmore =>
          cases hpiece
          exact bind_of_eq_ok (peek_cons b _) hreplay

theorem TakesByte.method (type : Walk Unit) : TakesByte (Walk.method type) :=
  .byte_bind

/-- Whatever the first byte tells, it is passed next. -/
theorem takesByte_kinds (type : Walk Unit) (lead : Nat) : TakesByte (
    if lead = SignatureLead.field then do
      let _ ← Walk.byte
      type
    else if lead = SignatureLead.locals ∨ lead = SignatureLead.methodInstance then do
      let _ ← Walk.byte
      let count ← Walk.number
      Walk.times type count
    else if lead % 16 = SignatureLead.property then do
      let _ ← Walk.byte
      let count ← Walk.number
      type
      Walk.times type count
    else Walk.method type) := by
  split
  · exact .byte_bind
  · split
    · exact .byte_bind
    · split
      · exact .byte_bind
      · exact .method type

theorem TakesByte.signature (type : Walk Unit) : TakesByte (Walk.signature type) := by
  intro data pieces a rest hwalk
  obtain ⟨first, lead, mid, second, hfirst, hsecond, rfl⟩ := bind_eq_ok hwalk
  cases data with
  | nil => cases (Prod.mk.inj hfirst).2
  | cons b data =>
      obtain ⟨rfl, houtcome⟩ := Prod.mk.inj hfirst
      obtain ⟨-, rfl⟩ := Prod.mk.inj (Except.ok.inj houtcome)
      exact takesByte_kinds type _ _ _ _ _ hsecond

theorem Replays.signature {type : Walk Unit} (h : Replays related type) :
    Replays related (Walk.signature type) := by
  refine Replays.peek_bind (fun lead => ?_) (takesByte_kinds type)
  split
  · exact Replays.byte.bind fun _ => h
  · split
    · exact Replays.byte.bind fun _ => Replays.number.bind fun count => h.times count
    · split
      · exact Replays.byte.bind fun _ => Replays.number.bind fun count =>
          h.bind fun _ => h.times count
      · exact h.method

end Walk

namespace BlobForm

variable {shape : BlobForm} {map : Token → Except Error Token} {blob updated : Bytes}

theorem replays_walk (related : Token → Token → Prop) (shape : BlobForm) :
    shape.walk.Replays related := by
  cases shape with
  | type => exact .type _
  | signature => exact (Walk.Replays.type _).signature

theorem takesByte_walk (shape : BlobForm) : shape.walk.TakesByte := by
  cases shape with
  | type => exact .byte_bind
  | signature => exact .signature _

theorem mapTokens_eq_ok :
    shape.mapTokens map blob = .ok updated ↔
      ∃ pieces rest mapped, shape.walk blob = (pieces, .ok ((), rest)) ∧
        pieces.mapM (Piece.mapToken map) = .ok mapped ∧ updated = mapped.flatten ++ rest := by
  unfold mapTokens
  rcases hwalk : shape.walk blob with ⟨pieces, e | ⟨⟨⟩, rest⟩⟩
  · dsimp only
    constructor
    · intro h
      obtain ⟨mapped, -, h⟩ := Outcome.bind_eq_ok.mp h
      cases h
    · rintro ⟨pieces', rest, mapped, heq, -⟩
      cases (Prod.mk.inj heq).2
  · dsimp only
    constructor
    · intro h
      obtain ⟨mapped, hmapped, h⟩ := Outcome.bind_eq_ok.mp h
      exact ⟨pieces, rest, mapped, rfl, hmapped, (Outcome.pure_eq_ok.mp h).symm⟩
    · rintro ⟨pieces', rest', mapped, heq, hmapped, rfl⟩
      obtain ⟨rfl, hrest⟩ := Prod.mk.inj heq
      obtain ⟨-, rfl⟩ := Prod.mk.inj (Except.ok.inj hrest)
      rw [hmapped]
      rfl

/-- The pieces of a signature after its tokens are replaced. -/
theorem forall₂_of_mapM_mapToken {pieces : List Piece} {mapped : List Bytes}
    (hmap : ∀ old ∈ pieces.filterMap Piece.token?, ∀ new, map old = .ok new → new.value < 2 ^ 32)
    (h : pieces.mapM (Piece.mapToken map) = .ok mapped) :
    ∃ pieces', List.Forall₂ (Piece.MapsTo fun old new => map old = .ok new) pieces pieces' ∧
      pieces'.flatMap Piece.bytes = mapped.flatten := by
  replace h := Outcome.mapM_eq_ok.mp h
  induction h with
  | nil => exact ⟨[], .nil, rfl⟩
  | @cons piece bytes pieces mapped hpiece hrest ih =>
      obtain ⟨pieces', hpieces', hbytes⟩ := ih fun old hmem =>
        hmap old (by
          obtain ⟨other, hother, htoken⟩ := List.mem_filterMap.mp hmem
          exact List.mem_filterMap.mpr ⟨other, .tail _ hother, htoken⟩)
      cases piece with
      | raw data =>
          obtain rfl := Except.ok.inj hpiece
          exact ⟨.raw data :: pieces', .cons (.raw data) hpieces', by
            rw [List.flatMap_cons, List.flatten_cons, hbytes, Piece.bytes]⟩
      | token named stored =>
          obtain ⟨new, hnew, hstored⟩ := Outcome.bind_eq_ok.mp hpiece
          have hv := hmap named (List.mem_filterMap.mpr ⟨_, .head _, rfl⟩) new hnew
          exact ⟨.token new bytes :: pieces',
            .cons (.token hnew (Compressed.encodeToken_form hv hstored)) hpieces', by
              rw [List.flatMap_cons, List.flatten_cons, hbytes, Piece.bytes]⟩

/-- A signature with its tokens replaced holds the images of the tokens it held. -/
theorem tokens_of_mapTokens
    (hmap : ∀ old new, map old = .ok new → old.value < 2 ^ 32 → new.value < 2 ^ 32)
    (h : shape.mapTokens map blob = .ok updated) :
    ∃ tokens tokens', shape.tokens blob = .ok tokens ∧ shape.tokens updated = .ok tokens' ∧
      List.Forall₂ (fun old new => map old = .ok new) tokens tokens' := by
  obtain ⟨pieces, rest, mapped, hwalk, hmapped, rfl⟩ := mapTokens_eq_ok.mp h
  have htokens : shape.tokens blob = .ok (pieces.filterMap Piece.token?) := by
    rw [BlobForm.tokens, hwalk]
    rfl
  have hvalue : ∀ old ∈ pieces.filterMap Piece.token?, old.value < 2 ^ 32 := by
    intro old hmem
    obtain ⟨table, row, -, rfl⟩ := exists_ofRow_of_mem_tokens htokens hmem
    exact Token.ofRow_lt table row
  obtain ⟨pieces', hpieces', hbytes⟩ := forall₂_of_mapM_mapToken
    (fun old hmem new hnew => hmap old new hnew (hvalue old hmem)) hmapped
  refine ⟨_, pieces'.filterMap Piece.token?, htokens, ?_, Piece.forall₂_tokens hpieces'⟩
  rw [BlobForm.tokens, ← hbytes, replays_walk _ shape _ _ _ _ hwalk pieces' hpieces' rest]
  rfl

/-- If the tokens of a signature can be replaced, each has an image. -/
theorem exists_image_of_mapTokens {tokens : List Token} {token : Token}
    (h : shape.mapTokens map blob = .ok updated) (htokens : shape.tokens blob = .ok tokens)
    (hmem : token ∈ tokens) : ∃ new, map token = .ok new := by
  obtain ⟨pieces, rest, mapped, hwalk, hmapped, rfl⟩ := mapTokens_eq_ok.mp h
  rw [BlobForm.tokens, hwalk] at htokens
  obtain rfl := Except.ok.inj htokens
  obtain ⟨piece, hpiece, htoken⟩ := List.mem_filterMap.mp hmem
  obtain ⟨bytes, -, hbytes⟩ :=
    Outcome.exists_of_forall₂_left (Outcome.mapM_eq_ok.mp hmapped) hpiece
  cases piece with
  | raw data => cases htoken
  | token named stored =>
      obtain rfl := Option.some.inj htoken
      obtain ⟨new, hnew, -⟩ := Outcome.bind_eq_ok.mp hbytes
      exact ⟨new, hnew⟩

/-- Replacing tokens fails as finding the image of one of them does. -/
theorem failsOnly_mapTokens {kind : Error → Prop} {tokens : List Token}
    (htokens : shape.tokens blob = .ok tokens)
    (h : ∀ token ∈ tokens, Outcome.FailsOnly kind (map token) ∧
      ∀ new, map token = .ok new → new.table? = token.table?) :
    Outcome.FailsOnly kind (shape.mapTokens map blob) := by
  obtain ⟨pieces, rest, hwalk, rfl, -, hfits⟩ := tokens_eq_ok htokens
  rw [mapTokens, hwalk]
  refine (Outcome.FailsOnly.mapM fun piece hmem => ?_).bind fun mapped _ =>
    .ok (mapped.flatten ++ rest)
  exact Piece.failsOnly_mapToken (hfits piece hmem) fun token htoken =>
    h token (List.mem_filterMap.mpr ⟨piece, hmem, htoken⟩)

/-- Tokens that are replaced by tokens of lower rows make a signature no longer. -/
theorem length_mapTokens_le {tokens : List Token} (htokens : shape.tokens blob = .ok tokens)
    (hmap : ∀ token ∈ tokens, ∀ new, map token = .ok new →
      new.table? = token.table? ∧ new.row ≤ token.row)
    (h : shape.mapTokens map blob = .ok updated) : updated.length ≤ blob.length := by
  obtain ⟨pieces, rest, hwalk, rfl, hblob, hfits⟩ := tokens_eq_ok htokens
  obtain ⟨pieces', rest', mapped, hwalk', hmapped, rfl⟩ := mapTokens_eq_ok.mp h
  obtain ⟨rfl, hrest⟩ := Prod.mk.inj (hwalk.symm.trans hwalk')
  obtain ⟨-, rfl⟩ := Prod.mk.inj (Except.ok.inj hrest)
  rw [hblob, List.length_append, List.length_append]
  exact Nat.add_le_add_right (Piece.length_mapM_mapToken_le hfits hmap hmapped) _

theorem ne_nil_of_mapTokens (h : shape.mapTokens map blob = .ok updated) : updated ≠ [] := by
  obtain ⟨pieces, rest, mapped, hwalk, hmapped, rfl⟩ := mapTokens_eq_ok.mp h
  obtain ⟨lead, more, -, rfl⟩ := shape.takesByte_walk _ _ _ _ hwalk
  rw [List.mapM_cons] at hmapped
  obtain ⟨first, hfirst, hmapped⟩ := Outcome.bind_eq_ok.mp hmapped
  obtain rfl := Except.ok.inj hfirst
  obtain ⟨others, -, hmapped⟩ := Outcome.bind_eq_ok.mp hmapped
  rw [← Outcome.pure_eq_ok.mp hmapped]
  simp

end BlobForm

end NativeExports
