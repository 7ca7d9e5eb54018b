import NativeExports.Metadata.SignatureColumns
import NativeExports.Proofs.Compressed

/-!
# Signatures in pieces

A walk over a signature cuts it into pieces without losing a byte, and the bytes of a token piece
are a form of that token.  So a signature whose tokens are replaced by tokens of lower rows gets no
longer.
-/

namespace NativeExports

/-- The bytes of a token piece are a form of its token. -/
def Piece.Fits : Piece → Prop
  | .raw _ => True
  | .token named stored => Compressed.TokenForm stored named

namespace Walk

variable {α β : Type}

/-- A walk that succeeds has cut what it passed. -/
def Cuts (walk : Walk α) : Prop :=
  ∀ data pieces a rest, walk data = (pieces, .ok (a, rest)) →
    data = pieces.flatMap Piece.bytes ++ rest ∧ ∀ piece ∈ pieces, piece.Fits

theorem bind_eq_ok {walk : Walk α} {next : α → Walk β} {data rest : Bytes} {pieces : List Piece}
    {b : β} (h : (walk >>= next) data = (pieces, .ok (b, rest))) :
    ∃ first a mid second, walk data = (first, .ok (a, mid)) ∧
      next a mid = (second, .ok (b, rest)) ∧ pieces = first ++ second := by
  simp only [bind] at h
  rcases hwalk : walk data with ⟨first, e | ⟨a, mid⟩⟩
  · rw [hwalk] at h
    cases (Prod.mk.inj h).2
  · rw [hwalk] at h
    obtain ⟨hpieces, houtcome⟩ := Prod.mk.inj h
    exact ⟨first, a, mid, (next a mid).1, rfl, Prod.ext rfl houtcome, hpieces.symm⟩

theorem Cuts.pure (a : α) : Cuts (Pure.pure a) := by
  intro data pieces b rest h
  change ([], Except.ok (a, data)) = _ at h
  obtain ⟨rfl, houtcome⟩ := Prod.mk.inj h
  obtain ⟨-, rfl⟩ := Prod.mk.inj (Except.ok.inj houtcome)
  exact ⟨rfl, nofun⟩

theorem Cuts.bind {walk : Walk α} {next : α → Walk β} (h : walk.Cuts) (h' : ∀ a, (next a).Cuts) :
    (walk >>= next).Cuts := by
  intro data pieces b rest hwalk
  obtain ⟨first, a, mid, second, hfirst, hsecond, rfl⟩ := bind_eq_ok hwalk
  obtain ⟨rfl, hfits⟩ := h _ _ _ _ hfirst
  obtain ⟨rfl, hfits'⟩ := h' a _ _ _ _ hsecond
  refine ⟨by rw [List.flatMap_append, List.append_assoc], fun piece hmem => ?_⟩
  rcases List.mem_append.mp hmem with hmem | hmem
  · exact hfits piece hmem
  · exact hfits' piece hmem

theorem Cuts.malformed (cause : Malformation) : Cuts (Walk.malformed cause : Walk α) := by
  intro data pieces a rest h
  cases (Prod.mk.inj h).2

theorem Cuts.pass {reader : Reader α} {piece : α → Bytes → Piece}
    (h : ∀ data a rest, reader data = .ok a rest →
      ∃ front, data = front ++ rest ∧ (piece a front).bytes = front ∧ (piece a front).Fits) :
    (Walk.pass reader piece).Cuts := by
  intro data pieces a rest hwalk
  unfold Walk.pass at hwalk
  split at hwalk
  · rename_i b mid hread
    obtain ⟨front, rfl, hbytes, hfits⟩ := h _ _ _ hread
    rw [List.length_append, Nat.add_sub_cancel, List.take_left] at hwalk
    obtain ⟨rfl, houtcome⟩ := Prod.mk.inj hwalk
    obtain ⟨rfl, rfl⟩ := Prod.mk.inj (Except.ok.inj houtcome)
    refine ⟨by simp [hbytes], fun other hmem => ?_⟩
    obtain rfl := List.mem_singleton.mp hmem
    exact hfits
  · cases (Prod.mk.inj hwalk).2

theorem Cuts.byte : Cuts Walk.byte := by
  refine Cuts.pass fun data a rest h => ?_
  obtain ⟨front, rfl, -⟩ := Reader.IsLocal.byte _ _ _ h
  exact ⟨front, rfl, rfl, trivial⟩

theorem Cuts.number : Cuts Walk.number := by
  refine Cuts.pass fun data a rest h => ?_
  obtain ⟨front, rfl, -⟩ := Compressed.read_eq_ok.mp h
  exact ⟨front, rfl, rfl, trivial⟩

theorem Cuts.token : Cuts Walk.token := by
  refine Cuts.bind (Cuts.pass fun data a rest h => ?_) fun _ => .pure ()
  obtain ⟨front, n, table, rfl, hform, htable, htoken⟩ := Compressed.readToken_eq_ok.mp h
  exact ⟨front, rfl, rfl, n, table, hform, htable, htoken⟩

theorem Cuts.peek : Cuts Walk.peek := by
  intro data pieces a rest h
  cases data with
  | nil => cases (Prod.mk.inj h).2
  | cons b data =>
      obtain ⟨rfl, houtcome⟩ := Prod.mk.inj h
      obtain ⟨-, rfl⟩ := Prod.mk.inj (Except.ok.inj houtcome)
      exact ⟨rfl, nofun⟩

theorem Cuts.times {walk : Walk Unit} (h : walk.Cuts) (count : Nat) :
    (Walk.times walk count).Cuts := by
  induction count with
  | zero => exact .pure ()
  | succ count ih => exact h.bind fun _ => ih

theorem Cuts.numbers : Cuts Walk.numbers :=
  Cuts.number.bind fun count => Cuts.times (Cuts.number.bind fun _ => .pure ()) count

theorem Cuts.method {type : Walk Unit} (h : type.Cuts) : (Walk.method type).Cuts := by
  refine Cuts.byte.bind fun lead => ?_
  have hrest : Cuts (do
      let count ← Walk.number
      type
      Walk.times type count) :=
    Cuts.number.bind fun count => h.bind fun _ => h.times count
  dsimp only
  split
  · exact Cuts.number.bind fun _ => hrest
  · exact hrest

theorem Cuts.body {inner : Walk Unit} (h : inner.Cuts) (lead : Nat) :
    (Walk.body inner lead).Cuts := by
  unfold Walk.body
  split
  · exact .pure ()
  · exact h
  · exact h
  · exact h
  · exact h
  · exact h
  · exact Cuts.token
  · exact Cuts.token
  · exact Cuts.number.bind fun _ => .pure ()
  · exact Cuts.number.bind fun _ => .pure ()
  · exact Cuts.token.bind fun _ => h
  · exact Cuts.token.bind fun _ => h
  · exact h.bind fun _ => Cuts.number.bind fun _ => Cuts.numbers.bind fun _ => Cuts.numbers
  · refine Cuts.byte.bind fun base => ?_
    have hrest : Cuts (do
        Walk.token
        let count ← Walk.number
        Walk.times inner count) :=
      Cuts.token.bind fun _ => Cuts.number.bind fun count => h.times count
    dsimp only
    split
    · exact (Cuts.malformed _).bind fun _ => hrest
    · exact hrest
  · exact Cuts.method h
  · exact .malformed _

/-- The induction is on the levels of nesting left. -/
theorem Cuts.type (room : Nat) : (Walk.type room).Cuts := by
  induction room with
  | zero => exact .malformed _
  | succ room ih => exact Cuts.byte.bind fun lead => ih.body lead

theorem Cuts.signature {type : Walk Unit} (h : type.Cuts) : (Walk.signature type).Cuts := by
  refine Cuts.peek.bind fun lead => ?_
  split
  · exact Cuts.byte.bind fun _ => h
  · split
    · exact Cuts.byte.bind fun _ => Cuts.number.bind fun count => h.times count
    · split
      · exact Cuts.byte.bind fun _ => Cuts.number.bind fun count => h.bind fun _ => h.times count
      · exact h.method

end Walk

namespace Piece

/-- Replacing a token fails as finding its image does, if that keeps to the table of the token. -/
theorem failsOnly_mapToken {kind : Error → Prop} {map : Token → Except Error Token} {piece : Piece}
    (hfits : piece.Fits)
    (hmap : ∀ token, piece.token? = some token → Outcome.FailsOnly kind (map token) ∧
      ∀ new, map token = .ok new → new.table? = token.table?) :
    Outcome.FailsOnly kind (piece.mapToken map) := by
  cases piece with
  | raw data => exact .ok data
  | token named stored =>
      obtain ⟨hfails, htable⟩ := hmap named rfl
      refine hfails.bind fun new hnew => ?_
      obtain ⟨short, hshort⟩ :=
        Compressed.TokenForm.exists_encodeToken hfits (htable new hnew)
      exact .of_eq_ok hshort

theorem length_mapToken_le {map : Token → Except Error Token} {piece : Piece} {bytes : Bytes}
    (hfits : piece.Fits)
    (hmap : ∀ token, piece.token? = some token → ∀ new, map token = .ok new →
      new.table? = token.table? ∧ new.row ≤ token.row)
    (h : piece.mapToken map = .ok bytes) : bytes.length ≤ piece.bytes.length := by
  cases piece with
  | raw data =>
      obtain rfl := Except.ok.inj h
      exact Nat.le_refl _
  | token named stored =>
      obtain ⟨new, hnew, hbytes⟩ := Outcome.bind_eq_ok.mp h
      obtain ⟨htable, hrow⟩ := hmap named rfl new hnew
      exact hfits.length_encodeToken_le htable hrow hbytes

theorem length_mapM_mapToken_le {map : Token → Except Error Token} {pieces : List Piece}
    {mapped : List Bytes} (hfits : ∀ piece ∈ pieces, piece.Fits)
    (hmap : ∀ token ∈ pieces.filterMap Piece.token?, ∀ new, map token = .ok new →
      new.table? = token.table? ∧ new.row ≤ token.row)
    (h : pieces.mapM (Piece.mapToken map) = .ok mapped) :
    mapped.flatten.length ≤ (pieces.flatMap Piece.bytes).length := by
  replace h := Outcome.mapM_eq_ok.mp h
  induction h with
  | nil => exact Nat.le_refl _
  | @cons piece bytes pieces mapped hpiece hrest ih =>
      have hfirst := length_mapToken_le (hfits piece (.head _)) (fun token htoken =>
        hmap token (List.mem_filterMap.mpr ⟨piece, .head _, htoken⟩)) hpiece
      have hothers := ih (fun other hmem => hfits other (.tail _ hmem)) fun token hmem => by
        obtain ⟨other, hother, htoken⟩ := List.mem_filterMap.mp hmem
        exact hmap token (List.mem_filterMap.mpr ⟨other, .tail _ hother, htoken⟩)
      rw [List.flatten_cons, List.flatMap_cons, List.length_append, List.length_append]
      exact Nat.add_le_add hfirst hothers

end Piece

namespace BlobForm

theorem cuts_walk (shape : BlobForm) : shape.walk.Cuts := by
  cases shape with
  | type => exact .type _
  | signature => exact (Walk.Cuts.type _).signature

theorem tokens_eq_ok {shape : BlobForm} {blob : Bytes} {tokens : List Token}
    (h : shape.tokens blob = .ok tokens) :
    ∃ pieces rest, shape.walk blob = (pieces, .ok ((), rest)) ∧
      pieces.filterMap Piece.token? = tokens ∧ blob = pieces.flatMap Piece.bytes ++ rest ∧
        ∀ piece ∈ pieces, piece.Fits := by
  unfold BlobForm.tokens at h
  rcases hwalk : shape.walk blob with ⟨pieces, e | ⟨⟨⟩, rest⟩⟩
  · rw [hwalk] at h
    cases h
  · rw [hwalk] at h
    obtain ⟨hblob, hfits⟩ := shape.cuts_walk _ _ _ _ hwalk
    exact ⟨pieces, rest, rfl, Except.ok.inj h, hblob, hfits⟩

/-- A signature holds tokens of certain tables only. -/
theorem exists_ofRow_of_mem_tokens {shape : BlobForm} {blob : Bytes} {tokens : List Token}
    {token : Token} (h : shape.tokens blob = .ok tokens) (hmem : token ∈ tokens) :
    ∃ table row, table.isSignatureTarget = true ∧ token = Token.ofRow table row := by
  obtain ⟨pieces, rest, -, rfl, -, hfits⟩ := tokens_eq_ok h
  obtain ⟨piece, hpiece, htoken⟩ := List.mem_filterMap.mp hmem
  have hfit := hfits piece hpiece
  have hall : ∀ table ∈ Compressed.tokenTables, table.isSignatureTarget = true := by decide
  cases piece with
  | raw data => cases htoken
  | token named stored =>
      obtain ⟨n, table, -, htables, rfl⟩ := hfit
      exact ⟨table, n / 4, hall table (List.mem_of_getElem? htables), (Option.some.inj htoken).symm⟩

theorem isSignatureTarget_of_mem_tokens {shape : BlobForm} {blob : Bytes} {tokens : List Token}
    {token : Token} {table : Table} (h : shape.tokens blob = .ok tokens) (hmem : token ∈ tokens)
    (htable : token.table? = some table) : table.isSignatureTarget = true := by
  obtain ⟨found, row, hfound, rfl⟩ := exists_ofRow_of_mem_tokens h hmem
  rw [Token.table?_ofRow] at htable
  rw [← Option.some.inj htable]
  exact hfound

end BlobForm

end NativeExports
