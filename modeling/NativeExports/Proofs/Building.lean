import NativeExports.Assembly.Building
import NativeExports.Proofs.Compressed
import NativeExports.Proofs.Strings
import NativeExports.Proofs.Tables

/-!
# What additions leave alone

References, types and names are added behind what is there: rows keep their numbers and columns,
offsets of names and blobs keep resolving, and nothing outside the tables and heaps changes.
-/

namespace NativeExports

namespace Edit

variable {α β : Type} {before after : Assembly}

theorem bind_eq_ok {x : Edit α} {f : α → Edit β} {b : β} :
    (x >>= f) before = .ok (b, after) ↔
      ∃ a middle, x before = .ok (a, middle) ∧ f a middle = .ok (b, after) := by
  constructor
  · intro h
    obtain ⟨⟨a, middle⟩, hx, hf⟩ := Outcome.bind_eq_ok.mp h
    exact ⟨a, middle, hx, hf⟩
  · rintro ⟨a, middle, hx, hf⟩
    exact Outcome.bind_eq_ok.mpr ⟨(a, middle), hx, hf⟩

theorem pure_eq_ok {a b : α} :
    (pure a : Edit α) before = .ok (b, after) ↔ a = b ∧ before = after := by
  constructor
  · intro h
    obtain ⟨rfl, rfl⟩ := Prod.mk.inj (Except.ok.inj h)
    exact ⟨rfl, rfl⟩
  · rintro ⟨rfl, rfl⟩
    rfl

theorem lift_eq_ok {x : Except Error α} {a : α} :
    (monadLift x : Edit α) before = .ok (a, after) ↔ x = .ok a ∧ before = after := by
  constructor
  · intro h
    obtain ⟨b, hx, h⟩ := Outcome.bind_eq_ok.mp h
    obtain ⟨rfl, rfl⟩ := Prod.mk.inj (Except.ok.inj h)
    exact ⟨hx, rfl⟩
  · rintro ⟨rfl, rfl⟩
    rfl

theorem get_eq_ok {found : Assembly} :
    (get : Edit Assembly) before = .ok (found, after) ↔ before = found ∧ before = after := by
  constructor
  · intro h
    obtain ⟨rfl, rfl⟩ := Prod.mk.inj (Except.ok.inj h)
    exact ⟨rfl, rfl⟩
  · rintro ⟨rfl, rfl⟩
    rfl

end Edit

namespace Tables

variable {tables : Tables} {table : Table} {row : Row}

theorem rows_push (other : Table) :
    (tables.push table row).rows other =
      if other = table then tables.rows table ++ [row] else tables.rows other := by
  unfold push
  split
  · rename_i heq
    subst heq
    exact rows_setRows_self ..
  · rename_i hne
    exact rows_setRows_ne hne

theorem row?_push_self : (tables.push table row).row? table ((tables.push table row).count table) =
    some row := by
  rw [row?_eq_some, Tables.count, rows_push, if_pos rfl]
  simp

end Tables

namespace Assembly

/-- The assembly after additions to some of its tables and to its heaps. -/
structure Extended (grown : List Table) (before after : Assembly) : Prop where
  rest : after =
    { before with tables := after.tables, strings := after.strings, blobs := after.blobs }
  rows : ∀ table, before.tables.rows table <+: after.tables.rows table
  same : ∀ table, table ∉ grown → after.tables.rows table = before.tables.rows table
  strings : before.strings.data <+: after.strings.data
  blobs : before.blobs.data <+: after.blobs.data

section

variable {grown grown' : List Table} {before middle after : Assembly}

namespace Extended

theorem refl (grown : List Table) (assembly : Assembly) : Extended grown assembly assembly where
  rest := rfl
  rows := fun _ => List.prefix_refl _
  same := fun _ _ => rfl
  strings := List.prefix_refl _
  blobs := List.prefix_refl _

theorem trans (h : Extended grown before middle) (h' : Extended grown' middle after) :
    Extended (grown ++ grown') before after where
  rest := by
    rw [h'.rest, h.rest]
  rows := fun table => (h.rows table).trans (h'.rows table)
  same := by
    intro table hout
    rw [List.mem_append, not_or] at hout
    rw [h'.same table hout.2, h.same table hout.1]
  strings := h.strings.trans h'.strings
  blobs := h.blobs.trans h'.blobs

theorem mono (h : Extended grown before after) (hsubset : grown ⊆ grown') :
    Extended grown' before after :=
  { h with same := fun table hout => h.same table fun hin => hout (hsubset hin) }

theorem row? (h : Extended grown before after) {table : Table} {row : Nat} {columns : Row}
    (hrow : before.tables.row? table row = some columns) :
    after.tables.row? table row = some columns := by
  obtain ⟨hlo, hget⟩ := Tables.row?_eq_some.mp hrow
  obtain ⟨more, hmore⟩ := h.rows table
  apply Tables.row?_eq_some.mpr ⟨hlo, _⟩
  rw [← hmore, List.getElem?_append_left (List.getElem?_eq_some_iff.mp hget).1]
  exact hget

theorem count_le (h : Extended grown before after) (table : Table) :
    before.tables.count table ≤ after.tables.count table :=
  (h.rows table).length_le

theorem value (h : Extended grown before after) {table : Table} {row c value : Nat}
    (hvalue : before.tables.value table row c = .ok value) :
    after.tables.value table row c = .ok value := by
  obtain ⟨columns, hrow, hget⟩ := Tables.value_eq_ok.mp hvalue
  exact Tables.value_eq_ok.mpr ⟨columns, h.row? hrow, hget⟩

theorem columnString (h : Extended grown before after) {table : Table} {row c : Nat} {name : String}
    (hname : before.columnString table row c = .ok name) :
    after.columnString table row c = .ok name := by
  obtain ⟨index, hindex, hget⟩ := Outcome.bind_eq_ok.mp hname
  unfold Assembly.columnString
  rw [h.value hindex]
  exact StringHeap.get_of_prefix h.strings hget

theorem qualifiedName (h : Extended grown before after) {table : Table} {c c' row : Nat}
    {name : String × String} (hname : before.qualifiedName table c c' row = .ok name) :
    after.qualifiedName table c c' row = .ok name := by
  obtain ⟨space, hspace, hname⟩ := Outcome.bind_eq_ok.mp hname
  obtain ⟨own, hown, hname⟩ := Outcome.bind_eq_ok.mp hname
  unfold Assembly.qualifiedName
  rw [h.columnString hspace, h.columnString hown]
  exact hname

end Extended

/-! ## The elementary additions -/

theorem appendBlob_eq_ok {blob : Bytes} {index : Nat}
    (h : appendBlob blob before = .ok (index, after)) : Extended [] before after := by
  obtain ⟨⟨found, blobs⟩, hblobs, h⟩ := Outcome.bind_eq_ok.mp h
  obtain ⟨rfl, rfl⟩ := Prod.mk.inj (Except.ok.inj h)
  refine { Extended.refl [] before with rest := rfl, blobs := ?_ }
  exact BlobHeap.append_prefix hblobs

theorem appendRow_eq_ok {table : Table} {columns : Row} {row : Nat}
    (h : appendRow table columns before = .ok (row, after)) :
    Extended [table] before after ∧ after.tables.row? table row = some columns ∧
      row = before.tables.count table + 1 := by
  obtain ⟨rfl, rfl⟩ := Prod.mk.inj (Except.ok.inj h)
  refine ⟨?_, Tables.row?_push_self, ?_⟩
  · refine { Extended.refl [table] before with rest := rfl, rows := ?_, same := ?_ }
    · intro other
      dsimp only
      rw [Tables.rows_push]
      split
      · rename_i heq
        subst heq
        exact List.prefix_append _ _
      · exact List.prefix_refl _
    · intro other hout
      dsimp only
      rw [Tables.rows_push, if_neg fun heq => hout (List.mem_singleton.mpr heq)]
  · unfold Tables.count
    rw [Tables.rows_push, if_pos rfl, List.length_append]
    rfl

/-! ## References and types -/

/-- The row of a type without members. -/
def typeDefRow (tables : Tables) (flags name space base : Nat) : Row :=
  [flags, name, space, base, tables.count .field + 1, tables.count .methodDef + 1]

/-- A type without members owns empty runs at the ends of the other tables. -/
theorem value_typeDefRow {tables : Tables} {flags name space base : Nat} (c : Nat) (target : Table)
    (value : Nat) (hkind : Table.typeDef.columns[c]? = some (.list target))
    (hvalue : (typeDefRow tables flags name space base)[c]? = some value) :
    value = tables.count target + 1 := by
  rcases c with _ | _ | _ | _ | _ | _ | c
  case succ.succ.succ.succ.zero | succ.succ.succ.succ.succ.zero =>
    obtain rfl := ColumnKind.list.inj (Option.some.inj hkind)
    exact (Option.some.inj hvalue).symm
  all_goals cases hkind

theorem addMarshalling_eq_ok {row : Nat} {params : List ParamDraft} {u : Unit}
    (h : addMarshalling row params before = .ok (u, after)) :
    Extended [.fieldMarshal] before after := by
  induction params generalizing row before with
  | nil =>
      obtain ⟨-, rfl⟩ := Edit.pure_eq_ok.mp h
      exact .refl _ _
  | cons param rest ih =>
      unfold addMarshalling at h
      split at h
      · obtain ⟨parent, middle, hparent, h⟩ := Edit.bind_eq_ok.mp h
        obtain ⟨-, rfl⟩ := Edit.lift_eq_ok.mp hparent
        obtain ⟨blob, marshalled, hblob, h⟩ := Edit.bind_eq_ok.mp h
        obtain ⟨added, pushed, hpushed, h⟩ := Edit.bind_eq_ok.mp h
        have hextended := (appendBlob_eq_ok hblob).trans (appendRow_eq_ok hpushed).1
        exact (hextended.trans (ih h)).mono (by simp)
      · exact ih h

/-- The row of a method without an address. -/
def methodRow (method : MethodDraft) (name signature param : Nat) : Row :=
  [0, method.implFlags, method.flags, name, signature, param]

end

end Assembly

end NativeExports
