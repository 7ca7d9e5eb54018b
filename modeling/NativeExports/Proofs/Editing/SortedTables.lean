import Mathlib.Logic.Function.Basic
import NativeExports.Proofs.Editing.KeyOrder

/-!
# What sorting all tables does

Sorting goes from table to table, and sorting one table renumbers its rows, which are named by
columns of others.  The key of a table that was sorted before names no row of a table that is sorted
after, so what is in order stays in order.  In the end all tables with a key are in order at once,
each holds its old rows, and every reference names the row that it named before.
-/

namespace NativeExports

/-! ## Keys and the tables that they refer to -/

/-- Whether a column of this kind can refer to rows of a table. -/
def ColumnKind.refersTo (table : Table) : ColumnKind → Bool
  | .index target | .list target => target = table
  | .coded named => named.contains table
  | _ => false

/-- Sorting `other` leaves the key columns of `table` alone. -/
def Table.KeyApart (table other : Table) : Prop :=
  ∀ key ∈ table.orderKey?, ∀ c ∈ key, ∃ kind ∈ table.columns[c]?, kind.refersTo other = false

instance (table other : Table) : Decidable (table.KeyApart other) :=
  inferInstanceAs (Decidable (∀ key ∈ table.orderKey?, ∀ c ∈ key, ∃ kind ∈ table.columns[c]?,
    kind.refersTo other = false))

theorem Table.keyApart_self : ∀ table : Table, table.KeyApart table := by
  decide +kernel

/-- Tables are sorted in an order in which no table upsets one that was sorted before. -/
theorem Assembly.pairwise_sortingOrder :
    sortingOrder.Pairwise fun table other => other.orderKey? ≠ none → table.KeyApart other := by
  decide +kernel

theorem Table.isCodeTarget_of_orderKey : ∀ table : Table, table.orderKey? ≠ none →
    table.isCodeTarget = false := by
  decide

/-! ## New row numbers -/

/-- A row stands at `row'` once the rows of its table are in the order `order`.  No row remains
none. -/
def StandsAt (order : List Nat) (row row' : Nat) : Prop :=
  row = 0 ∧ row' = 0 ∨ 1 ≤ row' ∧ order[row' - 1]? = some row

theorem standsAt_range' {count row : Nat} (h : row ≤ count) :
    StandsAt (List.range' 1 count) row row := by
  rcases Nat.eq_zero_or_pos row with rfl | hpos
  · exact .inl ⟨rfl, rfl⟩
  · refine .inr ⟨hpos, ?_⟩
    rw [List.getElem?_range' (by omega)]
    congr 1
    omega

theorem eq_of_standsAt_range' {count row row' : Nat} (h : StandsAt (List.range' 1 count) row row') :
    row' = row := by
  rcases h with ⟨rfl, rfl⟩ | ⟨hpos, hget⟩
  · rfl
  · rw [List.getElem?_range' (by simpa using (List.getElem?_eq_some_iff.mp hget).1)] at hget
    have := Option.some.inj hget
    omega

/-- A single row stands in each place. -/
theorem StandsAt.unique {order : List Nat} {row other row' : Nat} (hpos : 1 ≤ row')
    (h : StandsAt order row row') (h' : StandsAt order other row') : row = other := by
  rcases h with ⟨-, rfl⟩ | ⟨-, hget⟩
  · omega
  · rcases h' with ⟨-, rfl⟩ | ⟨-, hget'⟩
    · omega
    · exact Option.some.inj (hget.symm.trans hget')

namespace Renumbering

variable {table : Table} {order : List Nat} {renumbering : Renumbering}

/-- Where the rows of a reordered table stand. -/
theorem standsAt_of_newRow (h : permutation table order = .ok renumbering) {row row' : Nat}
    (hrow : row ≤ order.length) (hnew : renumbering.newRow row = some row') :
    StandsAt order row row' := by
  rcases Nat.eq_zero_or_pos row with rfl | hpos
  · rw [newRow_zero] at hnew
    exact .inl ⟨rfl, (Option.some.inj hnew).symm⟩
  · obtain ⟨numbers, rfl, hperm, hnumbers⟩ := permutation_eq_ok h
    obtain ⟨k, hk⟩ := List.mem_iff_getElem?.mp
      (hperm.mem_iff.mpr (List.mem_range'_1.mpr ⟨hpos, by omega⟩))
    rw [newRow, if_neg (by omega), if_neg (Nat.not_lt.mpr hrow)] at hnew
    obtain rfl : 1 + k = row' := Option.some.inj ((hnumbers k row hk).symm.trans hnew)
    exact .inr ⟨by omega, by rw [Nat.add_sub_cancel_left, hk]⟩

theorem newRow_of_standsAt (h : permutation table order = .ok renumbering) {row row' : Nat}
    (hstands : StandsAt order row row') : renumbering.newRow row = some row' := by
  rcases hstands with ⟨rfl, rfl⟩ | ⟨hpos, hget⟩
  · exact newRow_zero _
  · obtain ⟨numbers, rfl, hperm, hnumbers⟩ := permutation_eq_ok h
    have hin := List.mem_range'_1.mp (hperm.mem_iff.mp (List.mem_of_getElem? hget))
    have hle : row ≤ order.length := by omega
    rw [newRow, if_neg (by omega), if_neg (Nat.not_lt.mpr hle)]
    refine (hnumbers (row' - 1) row hget).trans ?_
    congr 1
    omega

/-- Rows keep their numbers exactly if the order is the one they are in. -/
theorem isIdentity_permutation (h : permutation table order = .ok renumbering) :
    renumbering.isIdentity = true ↔ order = List.range' 1 order.length := by
  have hcounts : renumbering.newCount = renumbering.oldCount ∧
      renumbering.oldCount = order.length := by
    obtain ⟨numbers, rfl, -⟩ := permutation_eq_ok h
    exact ⟨rfl, rfl⟩
  rw [isIdentity, hcounts.1, hcounts.2, beq_self_eq_true, Bool.true_and, List.all_eq_true]
  simp only [List.mem_range, beq_iff_eq]
  constructor
  · intro hall
    refine List.ext_getElem? fun k => ?_
    rcases Nat.lt_or_ge k order.length with hlt | hge
    · rcases standsAt_of_newRow h (by omega) (hall k hlt) with ⟨hzero, -⟩ | ⟨-, hget⟩
      · omega
      · rw [Nat.add_sub_cancel] at hget
        rw [hget, List.getElem?_range' hlt, Nat.add_comm, Nat.one_mul]
    · rw [List.getElem?_eq_none hge, List.getElem?_eq_none (by simpa using hge)]
  · intro horder n hlt
    obtain ⟨new, hnew⟩ := exists_newRow_permutation h (n + 1)
    have hstands := standsAt_of_newRow h (by omega) hnew
    rw [horder] at hstands
    rw [hnew, eq_of_standsAt_range' hstands]

end Renumbering

/-! ## Tables in order -/

namespace Tables

/-- A column while tables are sorted: only references to those in `done` have moved. -/
def ColumnMoved (done : List Table) (order : Table → List Nat) (kind : ColumnKind)
    (value value' : Nat) : Prop :=
  match kind with
  | .index target => StandsAt (order target) value value'
  | .coded coded => ∃ target row row', coded.decode value = .ok (target, row) ∧
      StandsAt (order target) row row' ∧
      (row' = row ∧ value' = value ∨ target ∈ done ∧ coded.encode target row' = .ok value')
  | _ => value' = value

/-- Rows are put in another order, where only references to the tables in `done` move. -/
structure Moved (done : List Table) (order : Table → List Nat) (before after : Tables) : Prop where
  perm : ∀ table, (order table).Perm (List.range' 1 (before.count table))
  counts : ∀ table, after.count table = before.count table
  rows : ∀ table row row' columns, before.row? table row = some columns →
    StandsAt (order table) row row' →
      ∃ columns', after.row? table row' = some columns' ∧ columns'.length = columns.length ∧
        ∀ (c : Nat) kind value, table.columns[c]? = some kind → columns[c]? = some value →
          ∃ value', columns'[c]? = some value' ∧ ColumnMoved done order kind value value'

/-- How far sorting has come when the tables in `done` are sorted. -/
structure Reached (done : List Table) (order : Table → List Nat) (before after : Tables) : Prop
    extends Moved done order before after where
  unsorted : ∀ table, table ∉ done ∨ table.orderKey? = none →
    order table = List.range' 1 (before.count table)
  ascends : ∀ table ∈ done, ∀ key ∈ table.orderKey?, ∀ p q a b, p < q →
    after.row? table p = some a → after.row? table q = some b →
      Assembly.keyOf key a ≤ Assembly.keyOf key b ∧
        (Assembly.keyOf key a = Assembly.keyOf key b → ∀ old old',
          StandsAt (order table) old p → StandsAt (order table) old' q → old < old')

/-- Rows have the columns of their table, and what refers to a row leads to an existing one, or to
none. -/
structure WellFormed (tables : Tables) : Prop where
  arity : ∀ table, ∀ columns ∈ tables.rows table, columns.length = table.columns.length
  inRange : ∀ table, ∀ columns ∈ tables.rows table, ∀ (c : Nat) kind value,
    table.columns[c]? = some kind → columns[c]? = some value → tables.InRange kind value

/-- One table is put in another order. -/
def reorder (tables : Tables) (table : Table) (order : List Nat) : Table → List Nat :=
  Function.update (fun other => List.range' 1 (tables.count other)) table order

variable {done : List Table} {order : Table → List Nat} {before middle after : Tables}

theorem reorder_self (tables : Tables) (table : Table) (order : List Nat) :
    tables.reorder table order table = order :=
  Function.update_self ..

theorem reorder_of_ne (tables : Tables) {table other : Table} (order : List Nat)
    (h : other ≠ table) : tables.reorder table order other = List.range' 1 (tables.count other) :=
  Function.update_of_ne h ..

/-- A row that stands somewhere stands within its table. -/
theorem Moved.le_count (h : Moved done order before after) {table : Table} {row row' : Nat}
    (hstands : StandsAt (order table) row row') : row' ≤ before.count table := by
  rcases hstands with ⟨-, rfl⟩ | ⟨hpos, hget⟩
  · exact Nat.zero_le _
  · have hlt := (List.getElem?_eq_some_iff.mp hget).1
    rw [(h.perm table).length_eq, List.length_range'] at hlt
    omega

/-- Every row stands where an old one went. -/
theorem Moved.origin (h : Moved done order before after) {table : Table} {row' : Nat}
    {columns' : Row} (hrow' : after.row? table row' = some columns') :
    ∃ row columns, before.row? table row = some columns ∧ StandsAt (order table) row row' := by
  obtain ⟨hpos, hle⟩ := Tables.exists_row?.mp ⟨columns', hrow'⟩
  have hlength := (h.perm table).length_eq
  rw [List.length_range'] at hlength
  rw [h.counts, ← hlength] at hle
  have hget := List.getElem?_eq_getElem (show row' - 1 < (order table).length by omega)
  have hin := List.mem_range'_1.mp ((h.perm table).mem_iff.mp (List.mem_of_getElem? hget))
  obtain ⟨columns, hrow⟩ := Tables.exists_row?.mpr ⟨hin.1, show _ ≤ before.count table by omega⟩
  exact ⟨_, columns, hrow, .inr ⟨hpos, hget⟩⟩

/-- References still lead to existing rows. -/
theorem Moved.wellFormed (h : Moved done order before after) (hwf : before.WellFormed) :
    after.WellFormed := by
  have hback : ∀ table, ∀ columns' ∈ after.rows table, ∃ columns ∈ before.rows table,
      columns'.length = columns.length ∧
        ∀ (c : Nat) kind value, table.columns[c]? = some kind → columns[c]? = some value →
          ∃ value', columns'[c]? = some value' ∧ ColumnMoved done order kind value value' := by
    intro table columns' hmem
    obtain ⟨row', hrow'⟩ := mem_rows.mp hmem
    obtain ⟨row, columns, hrow, hstands⟩ := h.origin hrow'
    obtain ⟨columns'', hrow'', hcolumns⟩ := h.rows table row row' columns hrow hstands
    obtain rfl := Option.some.inj (hrow'.symm.trans hrow'')
    exact ⟨columns, mem_rows.mpr ⟨row, hrow⟩, hcolumns⟩
  refine ⟨fun table columns' hmem => ?_, fun table columns' hmem c kind value' hkind hvalue' => ?_⟩
  · obtain ⟨columns, hold, hlength, -⟩ := hback table columns' hmem
    rw [hlength, hwf.arity table columns hold]
  obtain ⟨columns, hold, hlength, hcolumns⟩ := hback table columns' hmem
  have hlt : c < columns.length := hlength ▸ (List.getElem?_eq_some_iff.mp hvalue').1
  have hvalue := List.getElem?_eq_getElem hlt
  obtain ⟨value'', hvalue'', hmoved⟩ := hcolumns c kind _ hkind hvalue
  obtain rfl := Option.some.inj (hvalue'.symm.trans hvalue'')
  have hin := hwf.inRange table columns hold c kind _ hkind hvalue
  cases kind with
  | index target =>
      change _ ≤ after.count target
      rw [h.counts]
      exact h.le_count hmoved
  | coded coded =>
      obtain ⟨target, named, named', hdecode, hnamed, ⟨-, hsame⟩ | ⟨-, hencode⟩⟩ := hmoved
      · obtain ⟨target', named'', hdecode', hle⟩ := hin
        exact ⟨target', named'', hsame ▸ hdecode', (h.counts target').symm ▸ hle⟩
      · refine ⟨target, _, CodedKind.decode_encode hencode, ?_⟩
        rw [h.counts]
        exact Nat.le_trans (Nat.mod_le _ _) (h.le_count hnamed)
  | _ => trivial

/-- A column that refers to none of the tables in question stays. -/
theorem ColumnMoved.eq_of_refersTo {tables : Tables} {table : Table} {reordered : List Nat}
    {kind : ColumnKind} {value value' : Nat} (hkind : kind.refersTo table = false)
    (h : ColumnMoved [table] (tables.reorder table reordered) kind value value') :
    value' = value := by
  cases kind with
  | index target =>
      have hne : target ≠ table := by simpa [ColumnKind.refersTo] using hkind
      change StandsAt _ _ _ at h
      rw [tables.reorder_of_ne _ hne] at h
      exact eq_of_standsAt_range' h
  | coded coded =>
      obtain ⟨target, row, row', hdecode, -, ⟨-, hsame⟩ | ⟨hmem, -⟩⟩ := h
      · exact hsame
      · obtain rfl := List.mem_singleton.mp hmem
        rw [ColumnKind.refersTo, CodedKind.contains_of_decode hdecode] at hkind
        cases hkind
  | _ => exact h

/-- A key that does not refer to the table stays. -/
theorem Moved.keyOf_eq {table other : Table} {reordered : List Nat}
    (h : Moved [other] (before.reorder other reordered) before after)
    (hapart : table.KeyApart other) {key : List Nat} (hkey : key ∈ table.orderKey?) {row' : Nat}
    {columns' : Row} (hrow' : after.row? table row' = some columns') :
    ∃ row columns, before.row? table row = some columns ∧
      StandsAt (before.reorder other reordered table) row row' ∧
      Assembly.keyOf key columns' = Assembly.keyOf key columns := by
  obtain ⟨row, columns, hrow, hstands⟩ := h.origin hrow'
  obtain ⟨columns'', hrow'', hlength, hcolumns⟩ := h.rows table row row' columns hrow hstands
  obtain rfl := Option.some.inj (hrow'.symm.trans hrow'')
  refine ⟨row, columns, hrow, hstands, List.map_congr_left fun c hc => ?_⟩
  obtain ⟨kind, hkind, hrefers⟩ := hapart key hkey c hc
  rw [List.getD_eq_getElem?_getD, List.getD_eq_getElem?_getD]
  rcases hvalue : columns[c]? with - | value
  · rw [List.getElem?_eq_none_iff] at hvalue
    rw [List.getElem?_eq_none (hlength ▸ hvalue)]
  · obtain ⟨value', hvalue', hmoved⟩ := hcolumns c kind value hkind hvalue
    rw [hvalue', hmoved.eq_of_refersTo hrefers]

/-- Nothing moves. -/
theorem Moved.refl (done : List Table) (hwf : before.WellFormed) :
    Moved done (fun table => List.range' 1 (before.count table)) before before where
  perm _ := .refl _
  counts _ := rfl
  rows table row row' columns hrow hstands := by
    obtain rfl := eq_of_standsAt_range' hstands
    refine ⟨columns, hrow, rfl, fun c kind value hkind hvalue => ⟨value, hvalue, ?_⟩⟩
    have hin := hwf.inRange table columns (mem_rows.mpr ⟨_, hrow⟩) c kind value hkind hvalue
    cases kind with
    | index target => exact standsAt_range' hin
    | coded coded =>
        obtain ⟨target, row, hdecode, hle⟩ := hin
        exact ⟨target, row, row, hdecode, standsAt_range' hle, .inl ⟨rfl, rfl⟩⟩
    | _ => rfl

section Step

variable {table : Table} {reordered : List Nat}

/-- A column that moves twice, the second time because of a table that has not moved before. -/
theorem ColumnMoved.trans (hfresh : table ∉ done)
    (hstays : order table = List.range' 1 (before.count table)) {kind : ColumnKind}
    {value value' value'' : Nat} (h : ColumnMoved done order kind value value')
    (h' : ColumnMoved [table] (middle.reorder table reordered) kind value' value'') :
    ColumnMoved (done ++ [table]) (Function.update order table reordered) kind value value'' := by
  cases kind with
  | index target =>
      change StandsAt _ _ _ at h h' ⊢
      by_cases htarget : target = table
      · subst htarget
        rw [hstays] at h
        rw [reorder_self] at h'
        rw [Function.update_self, ← eq_of_standsAt_range' h]
        exact h'
      · rw [reorder_of_ne _ _ htarget] at h'
        rw [Function.update_of_ne htarget, eq_of_standsAt_range' h']
        exact h
  | coded coded =>
      obtain ⟨target, row, row', hdecode, hrow, hfirst⟩ := h
      obtain ⟨target', named, named', hdecode', hnamed, hsecond⟩ := h'
      by_cases htarget : target = table
      · subst htarget
        rw [hstays] at hrow
        obtain rfl := eq_of_standsAt_range' hrow
        rcases hfirst with ⟨-, rfl⟩ | ⟨hmem, -⟩
        · obtain ⟨rfl, rfl⟩ := Prod.mk.inj (Except.ok.inj (hdecode.symm.trans hdecode'))
          rw [reorder_self] at hnamed
          refine ⟨_, _, named', hdecode, by rwa [Function.update_self], ?_⟩
          exact hsecond.imp id fun hmoved => ⟨List.mem_append_right _ hmoved.1, hmoved.2⟩
        · exact absurd hmem hfresh
      · -- What was moved before still names a row of the table it named.
        have hsame : target' = target := by
          rcases hfirst with ⟨-, rfl⟩ | ⟨-, hencode⟩
          · exact (Prod.mk.inj (Except.ok.inj (hdecode'.symm.trans hdecode))).1
          · exact (Prod.mk.inj
              (Except.ok.inj (hdecode'.symm.trans (CodedKind.decode_encode hencode)))).1
        rcases hsecond with ⟨-, rfl⟩ | ⟨hmem, -⟩
        · refine ⟨target, row, row', hdecode, by rwa [Function.update_of_ne htarget], ?_⟩
          exact hfirst.imp id fun hmoved => ⟨List.mem_append_left _ hmoved.1, hmoved.2⟩
        · exact absurd (hsame.symm.trans (List.mem_singleton.mp hmem)) htarget
  | _ => exact Eq.trans h' h

theorem Moved.trans (h : Moved done order before middle)
    (h' : Moved [table] (middle.reorder table reordered) middle after) (hfresh : table ∉ done)
    (hstays : order table = List.range' 1 (before.count table)) :
    Moved (done ++ [table]) (Function.update order table reordered) before after where
  perm other := by
    by_cases hother : other = table
    · subst hother
      have hperm := h'.perm other
      rw [reorder_self, h.counts] at hperm
      rwa [Function.update_self]
    · rw [Function.update_of_ne hother]
      exact h.perm other
  counts other := (h'.counts other).trans (h.counts other)
  rows other row row'' columns hrow hstands := by
    obtain ⟨row', hfirst, hsecond⟩ : ∃ row', StandsAt (order other) row row' ∧
        StandsAt (middle.reorder table reordered other) row' row'' := by
      by_cases hother : other = table
      · subst hother
        rw [Function.update_self] at hstands
        refine ⟨row, ?_, by rwa [reorder_self]⟩
        rw [hstays]
        exact standsAt_range' (Tables.exists_row?.mp ⟨columns, hrow⟩).2
      · rw [Function.update_of_ne hother] at hstands
        refine ⟨row'', hstands, ?_⟩
        rw [reorder_of_ne _ _ hother, h.counts]
        exact standsAt_range' (h.le_count hstands)
    obtain ⟨columns', hrow', hlength, hcolumns⟩ := h.rows other row row' columns hrow hfirst
    obtain ⟨columns'', hrow'', hlength', hcolumns'⟩ :=
      h'.rows other row' row'' columns' hrow' hsecond
    refine ⟨columns'', hrow'', hlength'.trans hlength, fun c kind value hkind hvalue => ?_⟩
    obtain ⟨value', hvalue', hmoved⟩ := hcolumns c kind value hkind hvalue
    obtain ⟨value'', hvalue'', hmoved'⟩ := hcolumns' c kind value' hkind hvalue'
    exact ⟨value'', hvalue'', hmoved.trans hfresh hstays hmoved'⟩

/-- A table without a key is passed over. -/
theorem Reached.skip (h : Reached done order before middle) (hkey : table.orderKey? = none)
    (hfresh : table ∉ done) : Reached (done ++ [table]) order before middle where
  perm := h.perm
  counts := h.counts
  rows other row row' columns hrow hstands := by
    obtain ⟨columns', hrow', hlength, hcolumns⟩ := h.rows other row row' columns hrow hstands
    refine ⟨columns', hrow', hlength, fun c kind value hkind hvalue => ?_⟩
    obtain ⟨value', hvalue', hmoved⟩ := hcolumns c kind value hkind hvalue
    refine ⟨value', hvalue', ?_⟩
    cases kind with
    | coded coded =>
        obtain ⟨target, row, row', hdecode, hplace, hcases⟩ := hmoved
        exact ⟨target, row, row', hdecode, hplace,
          hcases.imp id fun hmoved => ⟨List.mem_append_left _ hmoved.1, hmoved.2⟩⟩
    | _ => exact hmoved
  unsorted other hother := by
    refine h.unsorted other (hother.imp_left fun hnot hmem => hnot (List.mem_append_left _ hmem))
  ascends other hmem key hother := by
    rcases List.mem_append.mp hmem with hmem | hmem
    · exact h.ascends other hmem key hother
    · obtain rfl := List.mem_singleton.mp hmem
      rw [hkey] at hother
      cases hother

/-- The rows of a table in the order of their keys. -/
theorem ascends_keyOrder {key : List Nat} {rows : List Row} {p q old old' : Nat} {a b : Row}
    (hp : 1 ≤ p) (hpq : p < q) (hold : StandsAt (Assembly.keyOrder key rows) old p)
    (hold' : StandsAt (Assembly.keyOrder key rows) old' q) (ha : rows[old - 1]? = some a)
    (hb : rows[old' - 1]? = some b) :
    Assembly.keyOf key a ≤ Assembly.keyOf key b ∧
      (Assembly.keyOf key a = Assembly.keyOf key b → old < old') := by
  rcases hold with ⟨-, hzero⟩ | ⟨-, hget⟩
  · omega
  rcases hold' with ⟨-, hzero⟩ | ⟨-, hget'⟩
  · omega
  obtain ⟨hlt, rfl⟩ := List.getElem?_eq_some_iff.mp hget
  obtain ⟨hlt', rfl⟩ := List.getElem?_eq_some_iff.mp hget'
  exact List.pairwise_iff_getElem.mp (Assembly.pairwise_keyOrder key rows) (p - 1) (q - 1) hlt hlt'
    (by omega) a b ha hb

/-- A table with a key is put in order; the tables that were in order before stay so. -/
theorem Reached.step (h : Reached done order before middle) {key : List Nat}
    (hkey : table.orderKey? = some key)
    (hmoved : Moved [table] (middle.reorder table (Assembly.keyOrder key (middle.rows table)))
      middle after) (hfresh : table ∉ done) (hapart : ∀ other ∈ done, other.KeyApart table) :
    Reached (done ++ [table])
      (Function.update order table (Assembly.keyOrder key (middle.rows table))) before after where
  toMoved := h.toMoved.trans hmoved hfresh (h.unsorted table (.inl hfresh))
  unsorted other hother := by
    have hne : other ≠ table := by
      rintro rfl
      rcases hother with hnot | hnone
      · exact hnot (List.mem_append_right _ (.head _))
      · rw [hkey] at hnone
        cases hnone
    rw [Function.update_of_ne hne]
    exact h.unsorted other (hother.imp_left fun hnot hmem => hnot (List.mem_append_left _ hmem))
  ascends other hmem key' hkey' p q a b hpq ha hb := by
    by_cases hother : other = table
    · subst hother
      obtain rfl : key = key' := Option.some.inj (hkey.symm.trans hkey')
      obtain ⟨old, columns, hrow, hold, hkeys⟩ := hmoved.keyOf_eq other.keyApart_self hkey' ha
      obtain ⟨old', columns', hrow', hold', hkeys'⟩ := hmoved.keyOf_eq other.keyApart_self hkey' hb
      rw [reorder_self] at hold hold'
      have hp := (Tables.exists_row?.mp ⟨a, ha⟩).1
      obtain ⟨hle, hlt⟩ := ascends_keyOrder hp hpq hold hold' (Tables.row?_eq_some.mp hrow).2
        (Tables.row?_eq_some.mp hrow').2
      rw [hkeys, hkeys', Function.update_self]
      refine ⟨hle, fun heq first second hfirst hsecond => ?_⟩
      rw [hfirst.unique hp hold, hsecond.unique (by omega) hold']
      exact hlt heq
    · have hdone : other ∈ done := by
        rcases List.mem_append.mp hmem with hmem | hmem
        · exact hmem
        · exact absurd (List.mem_singleton.mp hmem) hother
      have hapart' := hapart other hdone
      obtain ⟨old, columns, hrow, hold, hkeys⟩ := hmoved.keyOf_eq hapart' hkey' ha
      obtain ⟨old', columns', hrow', hold', hkeys'⟩ := hmoved.keyOf_eq hapart' hkey' hb
      rw [reorder_of_ne _ _ hother] at hold hold'
      obtain rfl := eq_of_standsAt_range' hold
      obtain rfl := eq_of_standsAt_range' hold'
      rw [hkeys, hkeys', Function.update_of_ne hother]
      exact h.ascends other hdone key' hkey' _ _ columns columns' hpq hrow hrow'

end Step

/-- Nothing is sorted at first. -/
theorem Reached.start (hwf : before.WellFormed) :
    Reached [] (fun table => List.range' 1 (before.count table)) before before where
  toMoved := .refl [] hwf
  unsorted _ _ := rfl
  ascends := nofun

end Tables

end NativeExports
