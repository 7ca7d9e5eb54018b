import NativeExports.Proofs.Editing.Sorting

/-!
# The order of rows by key

The order in which sorting puts the rows of a table is the one that a stable sort by the key columns
has: keys ascend, compared from the most significant column on, and rows with equal keys stay in the
order they were in.  Rows whose keys ascend already are left alone.
-/

namespace NativeExports

namespace Assembly

/-! ## Stable sorting -/

/-- In a list without repetition only one of two entries comes first. -/
theorem not_sublist_swap {α : Type} {a b : α} {entries : List α} (h : entries.Nodup)
    (hfirst : [a, b].Sublist entries) : ¬[b, a].Sublist entries := by
  intro hsecond
  induction entries with
  | nil => cases hfirst
  | cons first rest ih =>
      obtain ⟨hfresh, hnodup⟩ := List.nodup_cons.mp h
      cases hfirst with
      | cons _ hfirst =>
          cases hsecond with
          | cons _ hsecond => exact ih hnodup hfirst hsecond
          | cons_cons _ hsecond => exact hfresh (hfirst.subset (by simp))
      | cons_cons _ hfirst =>
          cases hsecond with
          | cons _ hsecond => exact hfresh (hsecond.subset (by simp))
          | cons_cons _ hsecond => exact hfresh (hfirst.subset (by simp))

/-- Entries that are equal to the comparison stay in the order they were in. -/
theorem pairwise_mergeSort_stable {α : Type} {le : α → α → Bool} {earlier : α → α → Prop}
    {entries : List α} (htrans : ∀ a b c, le a b → le b c → le a c)
    (htotal : ∀ a b, le a b || le b a) (hasymm : ∀ a b, earlier a b → ¬earlier b a)
    (h : entries.Pairwise earlier) :
    (entries.mergeSort le).Pairwise fun a b => le a b ∧ (le b a → earlier a b) := by
  have hperm := List.mergeSort_perm entries le
  have hnodup : (entries.mergeSort le).Nodup :=
    hperm.nodup_iff.mpr (h.imp fun hab heq => by subst heq; exact hasymm _ _ hab hab)
  rw [List.pairwise_iff_forall_sublist]
  intro a b hsorted
  refine ⟨List.pairwise_iff_forall_sublist.mp (List.pairwise_mergeSort htrans htotal entries)
    hsorted, fun hback => ?_⟩
  obtain ⟨front, back, rfl⟩ := List.append_of_mem (hperm.subset (hsorted.subset (.head [b])))
  have hb := hperm.subset (hsorted.subset (.tail a (.head [])))
  rcases List.mem_append.mp hb with hfront | hrest
  · -- If the second entry was in front, a stable sort would have left it there.
    have hswap : [b, a].Sublist (front ++ a :: back) :=
      (List.singleton_sublist.mpr hfront).append (List.singleton_sublist.mpr (.head back))
    exact (not_sublist_swap hnodup hsorted
      (List.pair_sublist_mergeSort htrans htotal hback hswap)).elim
  · rcases List.mem_cons.mp hrest with rfl | hmem
    · exact (List.nodup_cons.mp (hnodup.sublist hsorted)).1 (.head []) |>.elim
    · exact List.pairwise_iff_forall_sublist.mp h
        (((List.singleton_sublist.mpr hmem).cons_cons a).trans (List.sublist_append_right _ _))

/-! ## Keys -/

/-- Keys are compared from the most significant column on. -/
theorem keyLe_iff (a b : List Nat) : keyLe a b = true ↔ a ≤ b := by
  have hlex : keyLe a b = true ↔ List.Lex (· < ·) a b ∨ a = b := by
    induction a generalizing b with
    | nil => cases b <;> simp [keyLe]
    | cons x a ih =>
        cases b with
        | nil => simp [keyLe]
        | cons y b =>
            simp only [keyLe, Bool.or_eq_true, Bool.and_eq_true, decide_eq_true_eq, beq_iff_eq, ih,
              List.cons_lex_cons_iff, List.cons.injEq]
            tauto
  exact hlex.trans (le_iff_lt_or_eq (a := a) (b := b)).symm

variable {key : List Nat} {rows : List Row}

/-- The rows of a table with their numbers, as they are compared. -/
def keyed (key : List Nat) (rows : List Row) : List (List Nat × Nat) :=
  (rows.map (keyOf key)).zip (List.range' 1 rows.length)

theorem keyOrder_eq (key : List Nat) (rows : List Row) :
    keyOrder key rows = ((keyed key rows).mergeSort fun a b => keyLe a.1 b.1).map Prod.snd :=
  rfl

theorem map_snd_keyed (key : List Nat) (rows : List Row) :
    (keyed key rows).map Prod.snd = List.range' 1 rows.length :=
  List.map_snd_zip (Nat.le_of_eq (by rw [List.length_range', List.length_map]))

theorem pairwise_keyed (key : List Nat) (rows : List Row) :
    (keyed key rows).Pairwise fun a b => a.2 < b.2 := by
  have hrange := List.pairwise_lt_range' (s := 1) (n := rows.length)
  rw [← map_snd_keyed key rows] at hrange
  exact List.pairwise_map.mp hrange

theorem getElem?_keyed {n : Nat} {entry : List Nat × Nat} (h : (keyed key rows)[n]? = some entry) :
    ∃ columns, rows[n]? = some columns ∧ entry = (keyOf key columns, n + 1) := by
  obtain ⟨hkey, hnumber⟩ := List.getElem?_zip_eq_some.mp h
  rw [List.getElem?_map] at hkey
  obtain ⟨columns, hcolumns, hkey⟩ := Option.map_eq_some_iff.mp hkey
  rw [List.getElem?_range' (List.getElem?_eq_some_iff.mp hcolumns).1] at hnumber
  refine ⟨columns, hcolumns, Prod.ext hkey.symm ?_⟩
  have := Option.some.inj hnumber
  dsimp only
  omega

theorem fst_of_mem_keyed {entry : List Nat × Nat} (h : entry ∈ keyed key rows) {columns : Row}
    (hrow : rows[entry.2 - 1]? = some columns) : entry.1 = keyOf key columns := by
  obtain ⟨n, hn⟩ := List.mem_iff_getElem?.mp h
  obtain ⟨old, hold, rfl⟩ := getElem?_keyed hn
  rw [Nat.add_sub_cancel, hold] at hrow
  rw [Option.some.inj hrow]

theorem keyLe_trans (a b c : List Nat × Nat) (hab : keyLe a.1 b.1 = true)
    (hbc : keyLe b.1 c.1 = true) : keyLe a.1 c.1 = true := by
  rw [keyLe_iff] at hab hbc ⊢
  exact le_trans hab hbc

theorem keyLe_total (a b : List Nat × Nat) : (keyLe a.1 b.1 || keyLe b.1 a.1) = true := by
  rw [Bool.or_eq_true, keyLe_iff, keyLe_iff]
  exact le_total a.1 b.1

/-- Where the rows of a table come from in the order of their keys: keys ascend, and rows with equal
keys keep their order. -/
theorem pairwise_keyOrder (key : List Nat) (rows : List Row) :
    (keyOrder key rows).Pairwise fun p q => ∀ a b, rows[p - 1]? = some a → rows[q - 1]? = some b →
      keyOf key a ≤ keyOf key b ∧ (keyOf key a = keyOf key b → p < q) := by
  have hperm := List.mergeSort_perm (keyed key rows) fun a b => keyLe a.1 b.1
  have hstable := pairwise_mergeSort_stable keyLe_trans keyLe_total (fun _ _ => Nat.lt_asymm)
    (pairwise_keyed key rows)
  rw [keyOrder_eq, List.pairwise_map]
  refine hstable.imp_of_mem fun ha hb hab first second hfirst hsecond => ?_
  rw [← fst_of_mem_keyed (hperm.subset ha) hfirst, ← fst_of_mem_keyed (hperm.subset hb) hsecond]
  rw [keyLe_iff, keyLe_iff] at hab
  exact ⟨hab.1, fun heq => hab.2 (le_of_eq heq.symm)⟩

end Assembly

end NativeExports
