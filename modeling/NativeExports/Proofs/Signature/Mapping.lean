import NativeExports.Proofs.Signature.Grammar

/-!
# Maps of tokens

A map of tokens acts on a signature piece by piece: the new signature has the pieces of the old one
with the tokens mapped.  Two maps one after the other act as their composition does.  The map that
changes no token may still change bytes, because tokens are written in their shortest form and with
24 bits for the row; where it does not is told by the stored forms alone.
-/

namespace NativeExports

namespace Compressed

/-- Bytes are a form of one number only. -/
theorem Form.unique {front : Bytes} {n m : Nat} (h : Form front n) (h' : Form front m) : n = m := by
  cases h <;> cases h' <;> rfl

/-- A number has one form of each length. -/
theorem Form.eq_of_length {front other : Bytes} {n m : Nat} (h : Form front n) (h' : Form other m)
    (hlength : front.length = other.length) (hvalue : n = m) : front = other := by
  have hbyte : ∀ {b c : UInt8}, b.toNat = c.toNat → b = c := UInt8.toNat_inj.mp
  cases h with
  | @one b h =>
      cases h' with
      | @one c h' => rw [hbyte hvalue]
      | two | four => simp at hlength
  | @two b₁ b₂ hlo hhi =>
      cases h' with
      | @two c₁ c₂ hlo' hhi' =>
          have := b₂.toNat_lt
          have := c₂.toNat_lt
          rw [hbyte (b := b₁) (c := c₁) (by omega), hbyte (b := b₂) (c := c₂) (by omega)]
      | one | four => simp at hlength
  | @four b₁ b₂ b₃ b₄ hlo hhi =>
      cases h' with
      | @four c₁ c₂ c₃ c₄ hlo' hhi' =>
          have := b₂.toNat_lt
          have := b₃.toNat_lt
          have := b₄.toNat_lt
          have := c₂.toNat_lt
          have := c₃.toNat_lt
          have := c₄.toNat_lt
          rw [hbyte (b := b₁) (c := c₁) (by omega), hbyte (b := b₂) (c := c₂) (by omega),
            hbyte (b := b₃) (c := c₃) (by omega), hbyte (b := b₄) (c := c₄) (by omega)]
      | one | two => simp at hlength

/-- The bytes are the shortest form of a number. -/
def Shortest (front : Bytes) (n : Nat) : Prop :=
  Form front n ∧ ∀ other, Form other n → front.length ≤ other.length

/-- A number is written in its shortest form. -/
theorem encode_eq_ok {front : Bytes} {n : Nat} : encode n = .ok front ↔ Shortest front n := by
  constructor
  · intro h
    exact ⟨encode_form h, fun other hother => hother.length_encode_le (Nat.le_refl n) h⟩
  · rintro ⟨hform, hshortest⟩
    obtain ⟨short, hshort⟩ := exists_encode hform.lt_limit
    have hle := hshortest short (encode_form hshort)
    have hge := hform.length_encode_le (Nat.le_refl n) hshort
    rw [hshort, (encode_form hshort).eq_of_length hform (Nat.le_antisymm hge hle) rfl]

/-- A token of a table that signatures may name is written as the number of its row and table. -/
theorem encodeToken_ofRow {table : Table} {tag row : Nat}
    (htable : tokenTables[tag]? = some table) :
    encodeToken (.ofRow table row) = encode (row % Token.rowLimit * 4 + tag) := by
  rw [encodeToken, tag?_eq_some (Token.table?_ofRow table row) htable, Token.row_ofRow]

end Compressed

/-! ## Pieces -/

namespace Piece

/-- A token in its shortest form, with a row of 24 bits.  Other pieces have one form only. -/
def Compact : Piece → Prop
  | .raw _ => True
  | .token _ stored => ∃ n, Compressed.Shortest stored n ∧ n / 4 < Token.rowLimit

/-- A token is written as it is stored exactly if it is compact. -/
theorem mapToken_ok_eq_ok {piece : Piece} (hfits : piece.Fits) :
    piece.mapToken .ok = .ok piece.bytes ↔ piece.Compact := by
  cases piece with
  | raw data => exact iff_of_true rfl trivial
  | token named stored =>
      have hwritten : mapToken .ok (.token named stored) = Compressed.encodeToken named := rfl
      obtain ⟨n, table, hform, htable, htoken⟩ := hfits
      rw [hwritten, ← htoken, Compressed.encodeToken_ofRow htable, bytes, Compressed.encode_eq_ok]
      constructor
      · intro hshortest
        have hn := hform.unique hshortest.1
        have hrow : n / 4 % Token.rowLimit < Token.rowLimit := Nat.mod_lt _ (by decide)
        rw [← hn] at hshortest
        exact ⟨n, hshortest, by omega⟩
      · rintro ⟨m, hshortest, hrow⟩
        obtain rfl := hform.unique hshortest.1
        rw [Nat.mod_eq_of_lt hrow, show n / 4 * 4 + n % 4 = n by omega]
        exact hshortest

variable {map next : Token → Except Error Token} {pieces pieces' : List Piece}

/-- To map a token that is the image of another is to map that one twice. -/
theorem MapsTo.mapToken_eq {piece piece' : Piece}
    (h : MapsTo (fun old new => map old = .ok new) piece piece') :
    piece'.mapToken next = piece.mapToken fun token => map token >>= next := by
  cases h with
  | raw data => rfl
  | token h hform =>
      simp only [mapToken, h]
      rfl

theorem mapM_mapToken_eq
    (h : List.Forall₂ (MapsTo fun old new => map old = .ok new) pieces pieces') :
    pieces'.mapM (mapToken next) = pieces.mapM (mapToken fun token => map token >>= next) := by
  induction h with
  | nil => rfl
  | cons hpiece hrest ih => rw [List.mapM_cons, List.mapM_cons, hpiece.mapToken_eq, ih]

/-- If the pieces are as long together as what is written for them, every one of them is, since
none gets longer. -/
theorem compact_of_flatten_eq {mapped : List Bytes} (hfits : ∀ piece ∈ pieces, piece.Fits)
    (hmapped : List.Forall₂ (fun piece written => piece.mapToken .ok = .ok written) pieces mapped)
    (h : mapped.flatten = pieces.flatMap bytes) : ∀ piece ∈ pieces, piece.Compact := by
  have hkept : ∀ token new : Token, Except.ok (ε := Error) token = .ok new →
      new.table? = token.table? ∧ new.row ≤ token.row := by
    intro token new hnew
    obtain rfl := Except.ok.inj hnew
    exact ⟨rfl, Nat.le_refl _⟩
  induction hmapped with
  | nil => exact nofun
  | @cons piece written pieces mapped hpiece hrest ih =>
      have hfits' : ∀ other ∈ pieces, other.Fits := fun other hmem => hfits other (.tail _ hmem)
      have hfirst := length_mapToken_le (hfits piece (.head _)) (fun token _ => hkept token) hpiece
      have hothers := length_mapM_mapToken_le hfits' (fun token _ => hkept token)
        (Outcome.mapM_eq_ok.mpr hrest)
      rw [List.flatten_cons, List.flatMap_cons] at h
      have hlengths := congrArg List.length h
      rw [List.length_append, List.length_append] at hlengths
      obtain ⟨rfl, hflatten⟩ := List.append_inj h (by omega)
      exact List.forall_mem_cons.mpr
        ⟨(mapToken_ok_eq_ok (hfits piece (.head _))).mp hpiece, ih hfits' hflatten⟩

/-- Pieces whose tokens are kept are written as they are stored exactly if all are compact. -/
theorem mapM_mapToken_ok (hfits : ∀ piece ∈ pieces, piece.Fits) :
    (∃ mapped, pieces.mapM (mapToken .ok) = .ok mapped ∧ mapped.flatten = pieces.flatMap bytes) ↔
      ∀ piece ∈ pieces, piece.Compact := by
  constructor
  · rintro ⟨mapped, hmapped, hflatten⟩
    exact compact_of_flatten_eq hfits (Outcome.mapM_eq_ok.mp hmapped) hflatten
  · intro hcompact
    refine ⟨pieces.map bytes, Outcome.mapM_eq_ok.mpr ?_, by rw [List.flatMap_def]⟩
    rw [List.forall₂_map_right_iff, List.forall₂_same]
    exact fun piece hmem => (mapToken_ok_eq_ok (hfits piece hmem)).mpr (hcompact piece hmem)

end Piece

/-! ## Signatures -/

namespace BlobForm

variable {shape : BlobForm} {map : Token → Except Error Token} {blob updated : Bytes}

/-- One signature comes from another by a map of tokens. -/
structure Mapped (shape : BlobForm) (map : Token → Except Error Token) (blob updated : Bytes) :
    Prop where
  /-- Both are of the grammar, piece by piece, followed by the same bytes. Only tokens differ. -/
  pieces : ∃ pieces pieces' rest, blob = pieces.flatMap Piece.bytes ++ rest ∧
    updated = pieces'.flatMap Piece.bytes ++ rest ∧ shape.Grammar pieces ∧ shape.Grammar pieces' ∧
      List.Forall₂ (Piece.MapsTo fun old new => map old = .ok new) pieces pieces'
  /-- The tokens of one are the images of those of the other, in order. -/
  tokens : ∃ tokens tokens', shape.tokens blob = .ok tokens ∧ shape.tokens updated = .ok tokens' ∧
    tokens.mapM map = .ok tokens'
  /-- Another map acts as its composition with this one. -/
  again : ∀ next, shape.mapTokens next updated =
    shape.mapTokens (fun token => map token >>= next) blob

theorem mapped_of_mapTokens
    (hmap : ∀ old new, map old = .ok new → old.value < 2 ^ 32 → new.value < 2 ^ 32)
    (h : shape.mapTokens map blob = .ok updated) : shape.Mapped map blob updated := by
  obtain ⟨tokens, tokens', htokens, htokens', himages⟩ := tokens_of_mapTokens hmap h
  obtain ⟨pieces, rest, mapped, hwalk, hmapped, rfl⟩ := mapTokens_eq_ok.mp h
  obtain ⟨hblob, hgrammar⟩ := (shape.passes_walk _ _ _ _).mp hwalk
  obtain ⟨_, _, hwalk', rfl, -, -⟩ := tokens_eq_ok htokens
  obtain ⟨rfl, -⟩ := Prod.mk.inj (hwalk.symm.trans hwalk')
  obtain ⟨pieces', hpieces', hbytes⟩ := forall₂_of_mapM_mapToken (fun old hmem new hnew => by
    obtain ⟨table, row, -, rfl⟩ := exists_ofRow_of_mem_tokens htokens hmem
    exact hmap _ new hnew (Token.ofRow_lt table row)) hmapped
  have hreplay := shape.replays_walk _ _ _ _ _ hwalk pieces' hpieces' rest
  rw [← hbytes]
  refine ⟨⟨pieces, pieces', rest, hblob, rfl, hgrammar,
    ((shape.passes_walk _ _ _ _).mp hreplay).2, hpieces'⟩,
    ⟨_, tokens', htokens, by rw [hbytes]; exact htokens', Outcome.mapM_eq_ok.mpr himages⟩,
    fun next => ?_⟩
  rw [mapTokens, mapTokens, hreplay, hwalk]
  dsimp only
  rw [Piece.mapM_mapToken_eq hpieces']

/-- The map that keeps all tokens keeps a signature exactly if its tokens are compact. -/
theorem mapTokens_ok_eq_ok : shape.mapTokens .ok blob = .ok blob ↔
    ∃ pieces rest, blob = pieces.flatMap Piece.bytes ++ rest ∧ shape.Grammar pieces ∧
      ∀ piece ∈ pieces, piece.Compact := by
  rw [mapTokens_eq_ok]
  constructor
  · rintro ⟨pieces, rest, mapped, hwalk, hmapped, hblob⟩
    obtain ⟨hpieces, hgrammar⟩ := (shape.passes_walk _ _ _ _).mp hwalk
    have hfits := (shape.cuts_walk _ _ _ _ hwalk).2
    exact ⟨pieces, rest, hpieces, hgrammar, (Piece.mapM_mapToken_ok hfits).mp
      ⟨mapped, hmapped, List.append_cancel_right (hblob.symm.trans hpieces)⟩⟩
  · rintro ⟨pieces, rest, hblob, hgrammar, hcompact⟩
    have hwalk := (shape.passes_walk _ _ () _).mpr ⟨hblob, hgrammar⟩
    have hfits := (shape.cuts_walk _ _ _ _ hwalk).2
    obtain ⟨mapped, hmapped, hflatten⟩ := (Piece.mapM_mapToken_ok hfits).mpr hcompact
    exact ⟨pieces, rest, mapped, hwalk, hmapped, by rw [hflatten]; exact hblob⟩

/-- A map of tokens acts on the tokens of a signature and on nothing else, and the map that keeps
every token keeps every byte of exactly those signatures whose tokens are stored as they would be
written. -/
theorem mapTokens_acts_on_tokens (shape : BlobForm) (map : Token → Except Error Token)
    (blob : Bytes)
    (hmap : ∀ old new, map old = .ok new → old.value < 2 ^ 32 → new.value < 2 ^ 32) :
    (∀ updated, shape.mapTokens map blob = .ok updated → shape.Mapped map blob updated) ∧
      (shape.mapTokens .ok blob = .ok blob ↔
        ∃ pieces rest, blob = pieces.flatMap Piece.bytes ++ rest ∧ shape.Grammar pieces ∧
          ∀ piece ∈ pieces, piece.Compact) :=
  ⟨fun _ h => mapped_of_mapTokens hmap h, mapTokens_ok_eq_ok⟩

/-- A method that returns an instance of a generic type and takes a pointer to a function with a
modified parameter.  The last byte is padding. -/
def nestedTokens : Bytes :=
  [0x20, 0x02, 0x15, 0x12, 0x09, 0x01, 0x1C, 0x0E, 0x1B, 0x00, 0x01, 0x01, 0x1F, 0x0D, 0x12, 0x05,
    0x00]

/-- Makes room for thirty rows in front of the referenced types. -/
def moveTypeRefs (token : Token) : Except Error Token :=
  .ok (if token.table? = some .typeRef then .ofRow .typeRef (token.row + 30) else token)

/-- Tokens that need a second byte after they are moved make the signature longer. -/
theorem mapTokens_acts_on_tokens_nestedTokens :
    BlobForm.signature.mapTokens moveTypeRefs nestedTokens = .ok
        [0x20, 0x02, 0x15, 0x12, 0x80, 0x81, 0x01, 0x1C, 0x0E, 0x1B, 0x00, 0x01, 0x01, 0x1F,
          0x80, 0x85, 0x12, 0x7D, 0x00] ∧
      (∀ updated, BlobForm.signature.mapTokens moveTypeRefs nestedTokens = .ok updated →
        BlobForm.signature.Mapped moveTypeRefs nestedTokens updated) ∧
      (BlobForm.signature.mapTokens .ok nestedTokens = .ok nestedTokens ↔
        ∃ pieces rest, nestedTokens = pieces.flatMap Piece.bytes ++ rest ∧
          BlobForm.signature.Grammar pieces ∧ ∀ piece ∈ pieces, piece.Compact) := by
  refine ⟨by decide +kernel, mapTokens_acts_on_tokens .signature moveTypeRefs nestedTokens ?_⟩
  intro old new h hold
  obtain rfl := Except.ok.inj h
  split
  · exact Token.ofRow_lt _ _
  · exact hold

end BlobForm

end NativeExports
