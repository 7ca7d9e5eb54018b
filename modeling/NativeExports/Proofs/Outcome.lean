import Mathlib.Data.List.Forall2
import NativeExports.Logged

/-!
# Taking failing computations apart

Most operations of the library may fail.  A computation that succeeds has succeeded at each of its
steps; the lemmas below hand out the steps of a sequence, of a traversal and of a fold, so that
later proofs never unfold the monad.  Each comes with a converse where success has to be shown.
-/

namespace NativeExports

theorem Logged.outcome_foldlM {α σ : Type} (step : σ → α → Logged σ) (as : List α) (s : σ) :
    (as.foldlM step s).outcome = as.foldlM (fun s a => (step s a).outcome) s := by
  induction as generalizing s with
  | nil => rfl
  | cons a as ih =>
      rw [List.foldlM_cons, List.foldlM_cons, outcome_bind]
      simp only [ih]

namespace Outcome

variable {ε α β σ : Type}

/-- A sequence succeeds if both of its steps do. -/
theorem bind_eq_ok {x : Except ε α} {f : α → Except ε β} {b : β} :
    x >>= f = .ok b ↔ ∃ a, x = .ok a ∧ f a = .ok b := by
  cases x with
  | ok a => exact ⟨fun h => ⟨a, rfl, h⟩, fun ⟨_, ha, hb⟩ => Except.ok.inj ha ▸ hb⟩
  | error e => exact ⟨nofun, nofun⟩

theorem map_eq_ok {x : Except ε α} {f : α → β} {b : β} :
    f <$> x = .ok b ↔ ∃ a, x = .ok a ∧ f a = b := by
  cases x with
  | ok a => exact ⟨fun h => ⟨a, rfl, Except.ok.inj h⟩, fun ⟨_, ha, hb⟩ =>
      congrArg Except.ok (Except.ok.inj ha ▸ hb)⟩
  | error e => exact ⟨nofun, nofun⟩

@[simp]
theorem pure_eq_ok {a b : α} : (pure a : Except ε α) = .ok b ↔ a = b :=
  Except.ok.injEq a b ▸ Iff.rfl

@[simp]
theorem ok_bind (a : α) (f : α → Except ε β) : (Except.ok a >>= f) = f a :=
  rfl

@[simp]
theorem error_bind (e : ε) (f : α → Except ε β) : (Except.error e >>= f) = .error e :=
  rfl

theorem eq_ok_of_toOption {x : Except ε α} {a : α} (h : x.toOption = some a) : x = .ok a := by
  cases x with
  | ok b => exact congrArg Except.ok (Option.some.inj h)
  | error e => cases h

theorem exists_of_isOk {x : Except ε α} (h : x.isOk = true) : ∃ a, x = .ok a := by
  cases x with
  | ok a => exact ⟨a, rfl⟩
  | error e => cases h

/-- A computation succeeds if its first part does, and then what follows. -/
theorem exists_bind {x : Except ε α} {f : α → Except ε β} (hx : ∃ a, x = .ok a)
    (hf : ∀ a, x = .ok a → ∃ b, f a = .ok b) : ∃ b, (x >>= f) = .ok b := by
  obtain ⟨a, rfl⟩ := hx
  exact hf a rfl

/-- A traversal succeeds if it does at every entry. -/
theorem mapM_eq_ok {f : α → Except ε β} {as : List α} {bs : List β} :
    as.mapM f = .ok bs ↔ List.Forall₂ (fun a b => f a = .ok b) as bs := by
  induction as generalizing bs with
  | nil =>
      rw [List.mapM_nil, pure_eq_ok]
      exact ⟨fun h => h ▸ .nil, fun h => (List.forall₂_nil_left_iff.mp h).symm⟩
  | cons a as ih =>
      rw [List.mapM_cons, bind_eq_ok]
      constructor
      · rintro ⟨b, hb, hrest⟩
        obtain ⟨bs', hbs, h⟩ := bind_eq_ok.mp hrest
        rw [← pure_eq_ok.mp h]
        exact .cons hb (ih.mp hbs)
      · intro h
        cases h with
        | cons hb hbs => exact ⟨_, hb, bind_eq_ok.mpr ⟨_, ih.mpr hbs, rfl⟩⟩

theorem mapM_map {f : β → Except ε σ} {g : α → β} {as : List α} :
    (as.map g).mapM f = as.mapM fun a => f (g a) := by
  induction as with
  | nil => rfl
  | cons a as ih => rw [List.map_cons, List.mapM_cons, List.mapM_cons, ih]

theorem exists_mapM {f : α → Except ε β} {as : List α} (h : ∀ a ∈ as, ∃ b, f a = .ok b) :
    ∃ bs, as.mapM f = .ok bs := by
  induction as with
  | nil => exact ⟨[], rfl⟩
  | cons a as ih =>
      obtain ⟨b, hb⟩ := h a (.head _)
      obtain ⟨bs, hbs⟩ := ih fun x hx => h x (.tail _ hx)
      exact ⟨b :: bs, mapM_eq_ok.mpr (.cons hb (mapM_eq_ok.mp hbs))⟩

/-- A traversal fails at the first entry at which it does. -/
theorem mapM_eq_error {f : α → Except ε β} {as : List α} {e : ε} :
    as.mapM f = .error e ↔ ∃ front a back, as = front ++ a :: back ∧
      (∀ x ∈ front, ∃ b, f x = .ok b) ∧ f a = .error e := by
  induction as with
  | nil => simp [pure, Except.pure]
  | cons a as ih =>
      rw [List.mapM_cons]
      constructor
      · intro h
        cases hfirst : f a with
        | error e' =>
            rw [hfirst] at h
            obtain rfl := Except.error.inj h
            exact ⟨[], a, as, rfl, nofun, hfirst⟩
        | ok b =>
            rw [hfirst, ok_bind] at h
            cases hrest : as.mapM f with
            | ok bs =>
                rw [hrest] at h
                cases h
            | error e' =>
                rw [hrest] at h
                obtain rfl := Except.error.inj h
                obtain ⟨front, x, back, rfl, hfront, hx⟩ := ih.mp hrest
                exact ⟨a :: front, x, back, rfl, List.forall_mem_cons.mpr ⟨⟨b, hfirst⟩, hfront⟩, hx⟩
      · rintro ⟨front, x, back, hsplit, hfront, hx⟩
        cases front with
        | nil =>
            obtain ⟨rfl, rfl⟩ := List.cons.inj hsplit
            rw [hx]
            rfl
        | cons c front =>
            obtain ⟨rfl, rfl⟩ := List.cons.inj hsplit
            obtain ⟨b, hb⟩ := hfront a (.head _)
            have hrest := ih.mpr ⟨front, x, back, rfl, fun y hy => hfront y (.tail _ hy), hx⟩
            rw [hb, ok_bind, hrest]
            rfl

/-- A traversal whose steps check their entry and then compute does so for all of them. -/
theorem mapM_eq_ok_map {f : α → Except ε β} {g : α → β} {p : α → Prop}
    (hf : ∀ a b, f a = .ok b ↔ p a ∧ b = g a) {as : List α} {bs : List β} :
    as.mapM f = .ok bs ↔ (∀ a ∈ as, p a) ∧ bs = as.map g := by
  rw [mapM_eq_ok]
  induction as generalizing bs with
  | nil => simp
  | cons a as ih =>
      rw [List.forall₂_cons_left_iff, List.forall_mem_cons]
      constructor
      · rintro ⟨b, bs', hb, hbs, rfl⟩
        obtain ⟨hp, rfl⟩ := (hf a b).mp hb
        obtain ⟨hall, rfl⟩ := ih.mp hbs
        exact ⟨⟨hp, hall⟩, rfl⟩
      · rintro ⟨⟨hp, hall⟩, rfl⟩
        exact ⟨g a, as.map g, (hf a _).mpr ⟨hp, rfl⟩, ih.mpr ⟨hall, rfl⟩, rfl⟩

theorem exists_of_forall₂_left {R : α → β → Prop} {as : List α} {bs : List β}
    (h : List.Forall₂ R as bs) {a : α} (ha : a ∈ as) : ∃ b ∈ bs, R a b := by
  induction h with
  | nil => cases ha
  | @cons a' b as bs hab hrest ih =>
      rcases List.mem_cons.mp ha with rfl | ha
      · exact ⟨b, .head _, hab⟩
      · obtain ⟨b', hmem, hab'⟩ := ih ha
        exact ⟨b', .tail _ hmem, hab'⟩

theorem exists_of_forall₂_right {R : α → β → Prop} {as : List α} {bs : List β}
    (h : List.Forall₂ R as bs) {b : β} (hb : b ∈ bs) : ∃ a ∈ as, R a b :=
  exists_of_forall₂_left h.flip hb

/-- What corresponds to a list in two parts is in two parts. -/
theorem forall₂_append_left {R : α → β → Prop} {first second : List α} {bs : List β}
    (h : List.Forall₂ R (first ++ second) bs) :
    ∃ first' second', List.Forall₂ R first first' ∧ List.Forall₂ R second second' ∧
      bs = first' ++ second' := by
  have hfirst := List.forall₂_take first.length h
  have hsecond := List.forall₂_drop first.length h
  rw [List.take_left] at hfirst
  rw [List.drop_left] at hsecond
  exact ⟨_, _, hfirst, hsecond, (List.take_append_drop ..).symm⟩

/-- What every step of a fold preserves, the fold preserves. -/
theorem foldlM_preserves {step : σ → α → Except ε σ} {motive : σ → Prop} {as : List α} {s t : σ}
    (hstep : ∀ a ∈ as, ∀ s t, motive s → step s a = .ok t → motive t)
    (hs : motive s) (h : as.foldlM step s = .ok t) : motive t := by
  induction as generalizing s with
  | nil => exact pure_eq_ok.mp h ▸ hs
  | cons a as ih =>
      rw [List.foldlM_cons, bind_eq_ok] at h
      obtain ⟨u, hu, h⟩ := h
      exact ih (fun x hx => hstep x (.tail _ hx)) (hstep a (.head _) s u hs hu) h

/-- What every step of a fold makes of a property of the entries that are still to come. -/
theorem foldlM_induct {step : σ → α → Except ε σ} {motive : List α → σ → Prop} {as : List α}
    {s t : σ}
    (hstep : ∀ a rest s t, motive (a :: rest) s → step s a = .ok t → motive rest t)
    (hs : motive as s) (h : as.foldlM step s = .ok t) : motive [] t := by
  induction as generalizing s with
  | nil => exact pure_eq_ok.mp h ▸ hs
  | cons a as ih =>
      rw [List.foldlM_cons, bind_eq_ok] at h
      obtain ⟨u, hu, h⟩ := h
      exact ih (hstep a as s u hs hu) h

/-- What a fold collects is what its steps collect. -/
theorem foldlM_collects {step : σ → α → Except ε σ} (holds : σ → Prop) {adds : α → Prop}
    {as : List α} {s t : σ}
    (hstep : ∀ a ∈ as, ∀ s t, step s a = .ok t → (holds t ↔ holds s ∨ adds a))
    (h : as.foldlM step s = .ok t) : holds t ↔ holds s ∨ ∃ a ∈ as, adds a := by
  induction as generalizing s with
  | nil =>
      rw [pure_eq_ok.mp h]
      simp
  | cons a as ih =>
      rw [List.foldlM_cons, bind_eq_ok] at h
      obtain ⟨u, hu, h⟩ := h
      have hrest := ih (fun x hx => hstep x (.tail _ hx)) h
      rw [hrest, hstep a (.head _) s u hu, or_assoc]
      simp

/-- If a fold succeeds, every step of it does. -/
theorem exists_step_of_foldlM {step : σ → α → Except ε σ} {as : List α} {s t : σ}
    (h : as.foldlM step s = .ok t) {a : α} (hmem : a ∈ as) : ∃ u v, step u a = .ok v := by
  induction as generalizing s with
  | nil => cases hmem
  | cons b as ih =>
      rw [List.foldlM_cons, bind_eq_ok] at h
      obtain ⟨u, hu, h⟩ := h
      rcases List.mem_cons.mp hmem with rfl | hmem
      · exact ⟨s, u, hu⟩
      · exact ih h hmem

/-- A fold succeeds if every step does from the states that the fold reaches. -/
theorem exists_foldlM {step : σ → α → Except ε σ} {motive : List α → σ → Prop} {as : List α} {s : σ}
    (hstep : ∀ a rest s, motive (a :: rest) s → ∃ t, step s a = .ok t ∧ motive rest t)
    (hs : motive as s) : ∃ t, as.foldlM step s = .ok t ∧ motive [] t := by
  induction as generalizing s with
  | nil => exact ⟨s, rfl, hs⟩
  | cons a as ih =>
      obtain ⟨u, hu, hm⟩ := hstep a as s hs
      obtain ⟨t, ht, hmt⟩ := ih hm
      refine ⟨t, ?_, hmt⟩
      rw [List.foldlM_cons]
      exact bind_eq_ok.mpr ⟨u, hu, ht⟩

/-! ## How a computation can fail -/

/-- A computation that fails, if at all, with errors of a kind.  If there is no such error, it
succeeds. -/
def FailsOnly (kind : ε → Prop) (x : Except ε α) : Prop :=
  ∀ e, x = .error e → kind e

variable {kind : ε → Prop}

theorem exists_of_failsOnly {x : Except ε α} (h : FailsOnly (fun _ => False) x) :
    ∃ a, x = .ok a := by
  cases x with
  | ok a => exact ⟨a, rfl⟩
  | error e => exact (h e rfl).elim

theorem FailsOnly.exists_error {x : Except ε α} (h : FailsOnly kind x) (hnot : ¬∃ a, x = .ok a) :
    ∃ e, x = .error e ∧ kind e := by
  cases x with
  | ok a => exact absurd ⟨a, rfl⟩ hnot
  | error e => exact ⟨e, rfl, h e rfl⟩

theorem FailsOnly.ok (a : α) : FailsOnly kind (.ok a : Except ε α) :=
  nofun

theorem FailsOnly.of_eq_ok {x : Except ε α} {a : α} (h : x = .ok a) : FailsOnly kind x :=
  h ▸ .ok a

theorem FailsOnly.bind {x : Except ε α} {f : α → Except ε β} (h : FailsOnly kind x)
    (h' : ∀ a, x = .ok a → FailsOnly kind (f a)) : FailsOnly kind (x >>= f) := by
  cases x with
  | ok a => exact h' a rfl
  | error e =>
      rintro e' heq
      obtain rfl := Except.error.inj heq
      exact h e rfl

theorem FailsOnly.mapM {f : α → Except ε β} {as : List α} (h : ∀ a ∈ as, FailsOnly kind (f a)) :
    FailsOnly kind (as.mapM f) := by
  induction as with
  | nil => exact .ok []
  | cons a as ih =>
      rw [List.mapM_cons]
      exact (h a (.head _)).bind fun b _ =>
        (ih fun x hx => h x (.tail _ hx)).bind fun bs _ => .ok (b :: bs)

/-- A fold fails as its steps do from the states that the fold reaches. -/
theorem FailsOnly.foldlM {step : σ → α → Except ε σ} {motive : List α → σ → Prop} {as : List α}
    {s : σ}
    (hstep : ∀ a rest s, motive (a :: rest) s →
      FailsOnly kind (step s a) ∧ ∀ t, step s a = .ok t → motive rest t)
    (hs : motive as s) : FailsOnly kind (as.foldlM step s) := by
  induction as generalizing s with
  | nil => exact .ok s
  | cons a as ih =>
      rw [List.foldlM_cons]
      obtain ⟨hfails, hmotive⟩ := hstep a as s hs
      exact hfails.bind fun t ht => ih (hmotive t ht)

/-- A computation that succeeds exactly if something holds, and otherwise fails with one error. -/
def SucceedsIff (e : ε) (p : Prop) (x : Except ε α) : Prop :=
  (p ∧ ∃ a, x = .ok a) ∨ (¬p ∧ x = .error e)

namespace SucceedsIff

variable {e : ε} {p q : Prop} {x : Except ε α}

theorem of_exists (h : ∃ a, x = .ok a) : SucceedsIff e True x :=
  .inl ⟨trivial, h⟩

theorem congr (h : SucceedsIff e p x) (hiff : p ↔ q) : SucceedsIff e q x := by
  unfold SucceedsIff at h ⊢
  rwa [← hiff]

theorem exists_ok (h : SucceedsIff e p x) (hp : p) : ∃ a, x = .ok a := by
  rcases h with ⟨-, hok⟩ | ⟨hp', -⟩
  · exact hok
  · exact absurd hp hp'

theorem eq_error (h : SucceedsIff e p x) (hp : ¬p) : x = .error e := by
  rcases h with ⟨hp', -⟩ | ⟨-, herror⟩
  · exact absurd hp' hp
  · exact herror

/-- A sequence succeeds if both of its steps do, and they fail alike. -/
theorem bind {f : α → Except ε β} (h : SucceedsIff e p x)
    (h' : ∀ a, x = .ok a → SucceedsIff e q (f a)) : SucceedsIff e (p ∧ q) (x >>= f) := by
  rcases h with ⟨hp, a, rfl⟩ | ⟨hp, rfl⟩
  · exact (h' a rfl).congr (and_iff_right hp).symm
  · exact .inr ⟨fun hpq => hp hpq.1, rfl⟩

theorem bind_pure {f : α → β} (h : SucceedsIff e p x) :
    SucceedsIff e p (x >>= fun a => Pure.pure (f a)) := by
  apply (h.bind fun a _ => .of_exists ⟨f a, rfl⟩).congr
  exact and_iff_left trivial

/-- A first step that succeeds in any case decides nothing. -/
theorem after {f : α → Except ε β} (h : ∃ a, x = .ok a) (h' : ∀ a, SucceedsIff e q (f a)) :
    SucceedsIff e q (x >>= f) := by
  obtain ⟨a, rfl⟩ := h
  exact h' a

theorem mapM {f : α → Except ε β} {p : α → Prop} {as : List α}
    (h : ∀ a ∈ as, SucceedsIff e (p a) (f a)) : SucceedsIff e (∀ a ∈ as, p a) (as.mapM f) := by
  induction as with
  | nil => exact .inl ⟨nofun, [], rfl⟩
  | cons a as ih =>
      obtain ⟨hfirst, hrest⟩ := List.forall_mem_cons.mp h
      rw [List.mapM_cons]
      apply (hfirst.bind fun b _ => (ih hrest).bind_pure).congr
      exact List.forall_mem_cons.symm

end SucceedsIff

/-! ## Selections -/

theorem filterAuxM_eq_ok {f : α → Except ε Bool} {as seen found : List α}
    (h : as.filterAuxM f seen = .ok found) :
    ∃ kept : List α, found = kept.reverse ++ seen ∧ kept.Sublist as ∧
      ∀ a, a ∈ kept ↔ a ∈ as ∧ f a = .ok true := by
  induction as generalizing seen with
  | nil =>
      obtain rfl := pure_eq_ok.mp h
      exact ⟨[], rfl, .slnil, by simp⟩
  | cons a as ih =>
      obtain ⟨keep, hkeep, h⟩ := bind_eq_ok.mp h
      obtain ⟨kept, rfl, hsub, hmem⟩ := ih h
      cases keep with
      | true =>
          refine ⟨a :: kept, by simp, hsub.cons_cons a, fun x => ?_⟩
          rw [List.mem_cons, List.mem_cons, hmem]
          constructor
          · rintro (rfl | ⟨hx, htrue⟩)
            · exact ⟨.inl rfl, hkeep⟩
            · exact ⟨.inr hx, htrue⟩
          · rintro ⟨rfl | hx, htrue⟩
            · exact .inl rfl
            · exact .inr ⟨hx, htrue⟩
      | false =>
          refine ⟨kept, rfl, hsub.cons a, fun x => ?_⟩
          rw [List.mem_cons, hmem]
          constructor
          · rintro ⟨hx, htrue⟩
            exact ⟨.inr hx, htrue⟩
          · rintro ⟨rfl | hx, htrue⟩
            · rw [hkeep] at htrue
              cases htrue
            · exact ⟨hx, htrue⟩

/-- A selection that succeeds keeps what the test accepts, in order. -/
theorem filterM_eq_ok {f : α → Except ε Bool} {as found : List α}
    (h : as.filterM f = .ok found) :
    found.Sublist as ∧ ∀ a, a ∈ found ↔ a ∈ as ∧ f a = .ok true := by
  obtain ⟨reversed, hreversed, h⟩ := bind_eq_ok.mp h
  obtain rfl := pure_eq_ok.mp h
  obtain ⟨kept, rfl, hsub, hmem⟩ := filterAuxM_eq_ok hreversed
  rw [List.append_nil, List.reverse_reverse]
  exact ⟨hsub, hmem⟩

theorem exists_filterAuxM {f : α → Except ε Bool} {as : List α} (seen : List α)
    (h : ∀ a ∈ as, ∃ keep, f a = .ok keep) : ∃ found, as.filterAuxM f seen = .ok found := by
  induction as generalizing seen with
  | nil => exact ⟨seen, rfl⟩
  | cons a as ih =>
      obtain ⟨keep, hkeep⟩ := h a (.head _)
      obtain ⟨found, hfound⟩ := ih (bif keep then a :: seen else seen) fun x hx => h x (.tail _ hx)
      exact ⟨found, bind_eq_ok.mpr ⟨keep, hkeep, hfound⟩⟩

theorem exists_filterM {f : α → Except ε Bool} {as : List α}
    (h : ∀ a ∈ as, ∃ keep, f a = .ok keep) : ∃ found, as.filterM f = .ok found := by
  obtain ⟨reversed, hreversed⟩ := exists_filterAuxM [] h
  exact ⟨reversed.reverse, bind_eq_ok.mpr ⟨reversed, hreversed, rfl⟩⟩

end Outcome

end NativeExports
