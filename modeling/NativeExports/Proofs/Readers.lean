import NativeExports.Bytes.Reader

/-!
# What readers take

A reader takes a front off a byte string.  Most readers look at nothing behind the front they take:
they yield the same value whatever follows.  For such readers, reading and writing can be related
one front at a time.
-/

namespace NativeExports.Reader

variable {α β : Type}

/-- The reader takes exactly `front` off every byte string that begins with it, and yields `a`. -/
def Takes (reader : Reader α) (front : Bytes) (a : α) : Prop :=
  ∀ rest, reader (front ++ rest) = .ok a rest

/-- What the reader yields depends on the front that it takes only. -/
def IsLocal (reader : Reader α) : Prop :=
  ∀ data a rest, reader data = .ok a rest → ∃ front, data = front ++ rest ∧ reader.Takes front a

theorem bind_eq_ok {reader : Reader α} {next : α → Reader β} {data rest : Bytes} {b : β} :
    (reader >>= next) data = .ok b rest ↔
      ∃ a mid, reader data = .ok a mid ∧ next a mid = .ok b rest := by
  change EStateM.bind reader next data = _ ↔ _
  unfold EStateM.bind
  cases h : reader data with
  | ok a mid =>
      simp only [EStateM.Result.ok.injEq]
      exact ⟨fun hb => ⟨a, mid, ⟨rfl, rfl⟩, hb⟩, fun ⟨_, _, ⟨ha, hmid⟩, hb⟩ => ha ▸ hmid ▸ hb⟩
  | error e mid => simp

theorem map_eq_ok {reader : Reader α} {f : α → β} {data rest : Bytes} {b : β} :
    (f <$> reader) data = .ok b rest ↔ ∃ a, reader data = .ok a rest ∧ f a = b := by
  change EStateM.map f reader data = _ ↔ _
  unfold EStateM.map
  cases h : reader data with
  | ok a mid =>
      simp only [EStateM.Result.ok.injEq]
      exact ⟨fun ⟨hb, hrest⟩ => ⟨a, ⟨rfl, hrest⟩, hb⟩, fun ⟨_, ⟨ha, hrest⟩, hb⟩ => ⟨ha ▸ hb, hrest⟩⟩
  | error e mid => simp

theorem pure_eq_ok {data rest : Bytes} {a b : α} :
    (pure a : Reader α) data = .ok b rest ↔ a = b ∧ data = rest := by
  change EStateM.Result.ok a data = _ ↔ _
  simp

@[simp]
theorem throw_ne_ok {data rest : Bytes} {e : Error} {b : α} :
    (throw e : Reader α) data = .ok b rest ↔ False := by
  change EStateM.Result.error e data = _ ↔ _
  simp

theorem Takes.pure (a : α) : Takes (Pure.pure a) [] a :=
  fun _ => rfl

theorem Takes.bind {reader : Reader α} {next : α → Reader β} {front back : Bytes} {a : α} {b : β}
    (h : reader.Takes front a) (h' : (next a).Takes back b) :
    (reader >>= next).Takes (front ++ back) b := by
  intro rest
  rw [List.append_assoc]
  exact bind_eq_ok.mpr ⟨a, _, h _, h' rest⟩

theorem Takes.map {reader : Reader α} {f : α → β} {front : Bytes} {a : α}
    (h : reader.Takes front a) : (f <$> reader).Takes front (f a) :=
  fun rest => map_eq_ok.mpr ⟨a, h rest, rfl⟩

theorem Takes.bind_pure {reader : Reader α} {f : α → β} {front : Bytes} {a : α}
    (h : reader.Takes front a) : (reader >>= fun a => Pure.pure (f a)).Takes front (f a) :=
  fun rest => bind_eq_ok.mpr ⟨a, rest, h rest, rfl⟩

theorem IsLocal.pure (a : α) : IsLocal (Pure.pure a) := by
  intro data b rest h
  obtain ⟨rfl, rfl⟩ := pure_eq_ok.mp h
  exact ⟨[], rfl, .pure a⟩

theorem IsLocal.bind {reader : Reader α} {next : α → Reader β} (h : reader.IsLocal)
    (h' : ∀ a, (next a).IsLocal) : (reader >>= next).IsLocal := by
  intro data b rest hread
  obtain ⟨a, mid, ha, hb⟩ := bind_eq_ok.mp hread
  obtain ⟨front, rfl, hfront⟩ := h _ _ _ ha
  obtain ⟨back, rfl, hback⟩ := h' a _ _ _ hb
  exact ⟨front ++ back, (List.append_assoc ..).symm, hfront.bind hback⟩

theorem IsLocal.map {reader : Reader α} {f : α → β} (h : reader.IsLocal) :
    (f <$> reader).IsLocal := by
  intro data b rest hread
  obtain ⟨a, ha, rfl⟩ := map_eq_ok.mp hread
  obtain ⟨front, rfl, hfront⟩ := h _ _ _ ha
  exact ⟨front, rfl, hfront.map⟩

/-! ## The elementary readers -/

theorem bytes_eq_ok {count : Nat} {data rest front : Bytes} :
    bytes count data = .ok front rest ↔ data = front ++ rest ∧ front.length = count := by
  unfold bytes
  constructor
  · intro h
    split at h
    · rename_i hlength
      simp only [EStateM.Result.ok.injEq] at h
      obtain ⟨rfl, rfl⟩ := h
      exact ⟨(List.take_append_drop count data).symm, hlength⟩
    · simp at h
  · rintro ⟨rfl, rfl⟩
    simp

theorem bytes_takes (front : Bytes) : (bytes front.length).Takes front front :=
  fun _ => bytes_eq_ok.mpr ⟨rfl, rfl⟩

theorem le_eq_ok {width value : Nat} {data rest : Bytes} :
    le width data = .ok value rest ↔
      ∃ front, data = front ++ rest ∧ front.length = width ∧ Bytes.leValue front = value := by
  unfold le
  rw [map_eq_ok]
  constructor
  · rintro ⟨front, h, rfl⟩
    obtain ⟨rfl, hlength⟩ := bytes_eq_ok.mp h
    exact ⟨front, rfl, hlength, rfl⟩
  · rintro ⟨front, rfl, rfl, rfl⟩
    exact ⟨front, bytes_takes front rest, rfl⟩

theorem le_takes (front : Bytes) : (le front.length).Takes front (Bytes.leValue front) :=
  fun _ => le_eq_ok.mpr ⟨front, rfl, rfl, rfl⟩

theorem le_takes_leBytes {width value : Nat} (h : value < 256 ^ width) :
    (le width).Takes (Bytes.leBytes width value) value := by
  intro rest
  rw [le_eq_ok]
  exact ⟨_, rfl, Bytes.length_leBytes _ _, by rw [Bytes.leValue_leBytes, Nat.mod_eq_of_lt h]⟩

theorem le_of_length {width : Nat} {data : Bytes} (h : width ≤ data.length) :
    le width data = .ok (Bytes.field data 0 width) (data.drop width) :=
  le_eq_ok.mpr ⟨data.take width, (List.take_append_drop width data).symm,
    List.length_take_of_le h, rfl⟩

theorem le_bind {width : Nat} {data : Bytes} (next : Nat → Reader α) (h : width ≤ data.length) :
    (le width >>= next) data = next (Bytes.field data 0 width) (data.drop width) := by
  change EStateM.bind (le width) next data = _
  rw [EStateM.bind, le_of_length h]

theorem IsLocal.bytes (count : Nat) : (bytes count).IsLocal := by
  intro data front rest h
  obtain ⟨rfl, rfl⟩ := bytes_eq_ok.mp h
  exact ⟨front, rfl, bytes_takes front⟩

theorem IsLocal.le (width : Nat) : (le width).IsLocal :=
  (IsLocal.bytes width).map

theorem IsLocal.signedLe (width : Nat) : (signedLe width).IsLocal :=
  (IsLocal.le width).map

theorem IsLocal.byte : byte.IsLocal :=
  IsLocal.le 1

theorem IsLocal.timesFrom {item : Reader α} (h : item.IsLocal) (seen : List α) (count : Nat) :
    (timesFrom item seen count).IsLocal := by
  induction count generalizing seen with
  | zero => exact .pure _
  | succ count ih => exact h.bind fun a => ih (a :: seen)

theorem IsLocal.times {item : Reader α} (h : item.IsLocal) (count : Nat) :
    (times item count).IsLocal :=
  h.timesFrom [] count

theorem Takes.timesFrom {item : Reader α} {stored : α → Bytes} (seen : List α) {items : List α}
    (h : ∀ a ∈ items, item.Takes (stored a) a) :
    (timesFrom item seen items.length).Takes (items.flatMap stored) (seen.reverse ++ items) := by
  induction items generalizing seen with
  | nil =>
      rw [List.append_nil]
      exact .pure _
  | cons a items ih =>
      have hrest := ih (a :: seen) fun b hb => h b (.tail _ hb)
      rw [List.reverse_cons, List.append_assoc, List.singleton_append] at hrest
      exact (h a (.head _)).bind hrest

/-- Items that are stored one after the other are read one after the other. -/
theorem Takes.times {item : Reader α} {stored : α → Bytes} {items : List α}
    (h : ∀ a ∈ items, item.Takes (stored a) a) :
    (times item items.length).Takes (items.flatMap stored) items :=
  Takes.timesFrom [] h

/-- A reader whose items take `width` bytes each takes as many times that. -/
theorem length_of_timesFrom {item : Reader α} {width : Nat}
    (hitem : ∀ data a rest, item data = .ok a rest → data.length = width + rest.length)
    {seen items : List α} {count : Nat} {data rest : Bytes}
    (h : timesFrom item seen count data = .ok items rest) :
    data.length = count * width + rest.length := by
  induction count generalizing seen data with
  | zero =>
      obtain ⟨-, rfl⟩ := pure_eq_ok.mp h
      simp
  | succ count ih =>
      obtain ⟨a, mid, ha, hrest⟩ := bind_eq_ok.mp h
      have hwidth := hitem _ _ _ ha
      have hmid := ih hrest
      rw [Nat.succ_mul]
      omega

theorem length_of_le {width value : Nat} {data rest : Bytes}
    (h : le width data = .ok value rest) : data.length = width + rest.length := by
  obtain ⟨front, rfl, rfl, -⟩ := le_eq_ok.mp h
  exact List.length_append

theorem length_of_signedLe {width : Nat} {value : Int} {data rest : Bytes}
    (h : signedLe width data = .ok value rest) : data.length = width + rest.length := by
  obtain ⟨n, hn, -⟩ := map_eq_ok.mp h
  exact length_of_le hn

/-! ## What a reader accepts -/

/-- Whatever the reader yields has a property, and its stored form is what the reader took. -/
def Accepts (reader : Reader α) (stored : α → Bytes) (p : α → Prop) : Prop :=
  ∀ data a rest, reader data = .ok a rest → data = stored a ++ rest ∧ p a

/-- A number is stored in one way only. -/
theorem accepts_le (width : Nat) :
    (le width).Accepts (Bytes.leBytes width) fun value => value < 256 ^ width := by
  intro data value rest h
  obtain ⟨front, rfl, rfl, rfl⟩ := le_eq_ok.mp h
  exact ⟨by rw [Bytes.leBytes_leValue], Bytes.leValue_lt front⟩

/-- Reading goes on behind the stored form of the first number. -/
theorem le_bind_eq_ok {width : Nat} {next : Nat → Reader β} {data rest : Bytes} {b : β} :
    (le width >>= next) data = .ok b rest ↔
      ∃ value mid, data = Bytes.leBytes width value ++ mid ∧ value < 256 ^ width ∧
        next value mid = .ok b rest := by
  rw [bind_eq_ok]
  constructor
  · rintro ⟨value, mid, hvalue, h⟩
    obtain ⟨hdata, hlt⟩ := accepts_le width _ _ _ hvalue
    exact ⟨value, mid, hdata, hlt, h⟩
  · rintro ⟨value, mid, rfl, hlt, h⟩
    exact ⟨value, mid, le_takes_leBytes hlt mid, h⟩

theorem Accepts.timesFrom {item : Reader α} {stored : α → Bytes} {p : α → Prop}
    (hitem : item.Accepts stored p) {seen items : List α} {count : Nat} {data rest : Bytes}
    (h : timesFrom item seen count data = .ok items rest) :
    ∃ read : List α, items = seen.reverse ++ read ∧ data = read.flatMap stored ++ rest ∧
      read.length = count ∧ ∀ a ∈ read, p a := by
  induction count generalizing seen data with
  | zero =>
      obtain ⟨rfl, rfl⟩ := pure_eq_ok.mp h
      exact ⟨[], by simp, rfl, rfl, nofun⟩
  | succ count ih =>
      obtain ⟨a, mid, ha, hrest⟩ := bind_eq_ok.mp h
      obtain ⟨rfl, hp⟩ := hitem _ _ _ ha
      obtain ⟨read, rfl, rfl, rfl, hread⟩ := ih hrest
      refine ⟨a :: read, by simp, by simp, rfl, ?_⟩
      exact List.forall_mem_cons.mpr ⟨hp, hread⟩

/-- Items that are read one after the other were stored one after the other. -/
theorem Accepts.times {item : Reader α} {stored : α → Bytes} {p : α → Prop}
    (hitem : item.Accepts stored p) (count : Nat) :
    (times item count).Accepts (fun items => items.flatMap stored) fun items =>
      items.length = count ∧ ∀ a ∈ items, p a := by
  intro data items rest h
  obtain ⟨read, rfl, hdata, hlength, hread⟩ := hitem.timesFrom h
  exact ⟨hdata, hlength, hread⟩

end NativeExports.Reader
