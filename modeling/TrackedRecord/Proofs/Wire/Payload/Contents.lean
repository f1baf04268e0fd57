import TrackedRecord.Proofs.Wire.Payload.Reader
import TrackedRecord.Proofs.Wire.Plain.Reuse

/-!
# What a payload holds

The bits and the readable fields of a payload do not depend on the record that they are decoded into;
they are put into its slots in the end.
-/

namespace TrackedRecord.Wire.Payload

variable {registry : Registry} {settings : Settings} {layout : Layout}

structure Contents where
  dirty : FieldBits
  readable : FieldBits
  /-- The readable fields by their indices. -/
  values : List (Nat × Value)

/-- The slots with the values at their indices. -/
def store (slots : List Value) (values : List (Nat × Value)) : List Value :=
  values.foldl (fun slots (index, value) => slots.set index value) slots

/-- The record with the contents instead of its bits and the slots that they fill. -/
def Contents.onto (contents : Contents) (target : Record Value) : Record Value :=
  ⟨target.layout, store target.slots contents.values, contents.dirty, contents.readable⟩

/-- The fields of the given indices, decoded in place of none. -/
def readFields (registry : Registry) (settings : Settings) (layout : Layout) :
    List Nat → Decoder (List (Nat × Value))
  | [] => return []
  | index :: rest =>
    match layout.fields[index]? with
    | none => throw (.outOfRange index layout.fieldCount)
    | some field => do
      let value ← Decoder.within s!"{layout.name}.{field.name}" (readField registry settings field none)
      let values ← readFields registry settings layout rest
      return (index, value) :: values

def read (registry : Registry) (settings : Settings) (layout : Layout) : Decoder Contents := do
  let dirty ← decodeBitmap layout "dirty"
  let readable ← decodeBitmap layout "readable"
  let values ← readFields registry settings layout readable.ones
  return ⟨dirty, readable, values⟩

/-- The contents of bytes that are a payload and no more. -/
def contentsOf (registry : Registry) (settings : Settings) (layout : Layout) (bytes : List UInt8) :
    Except Error Contents :=
  match (read registry settings layout).whole (Cursor.start bytes) with
  | .ok contents _ => .ok contents
  | .error e _ => .error e

/-! ### Slots -/

theorem store_cons (slots : List Value) (index : Nat) (value : Value) (values : List (Nat × Value)) :
    store slots ((index, value) :: values) = store (slots.set index value) values := rfl

theorem store_length (slots : List Value) (values : List (Nat × Value)) :
    (store slots values).length = slots.length := by
  induction values generalizing slots with
  | nil => rfl
  | cons entry rest ih =>
    obtain ⟨index, value⟩ := entry
    rw [store_cons, ih, List.length_set]

theorem store_of_notMem {slots : List Value} {values : List (Nat × Value)} {i : Nat}
    (absent : i ∉ values.map Prod.fst) : (store slots values)[i]? = slots[i]? := by
  induction values generalizing slots with
  | nil => rfl
  | cons entry rest ih =>
    obtain ⟨index, value⟩ := entry
    rw [List.map_cons, List.mem_cons, not_or] at absent
    rw [store_cons, ih absent.2, List.getElem?_set_ne (Ne.symm absent.1)]

theorem store_of_mem {slots : List Value} {values : List (Nat × Value)} {i : Nat} {value : Value}
    (distinct : (values.map Prod.fst).Nodup) (member : (i, value) ∈ values) (inside : i < slots.length) :
    (store slots values)[i]? = some value := by
  induction values generalizing slots with
  | nil => cases member
  | cons entry rest ih =>
    rw [List.map_cons, List.nodup_cons] at distinct
    rw [store_cons]
    rcases List.mem_cons.mp member with rfl | later
    · rw [store_of_notMem distinct.1, List.getElem?_set_self inside]
    · exact ih distinct.2 later (by rwa [List.length_set])

theorem readFields_indices {indices : List Nat} {values : List (Nat × Value)} {c c' : Cursor}
    (h : readFields registry settings layout indices c = .ok values c') :
    values.map Prod.fst = indices ∧ ∀ index ∈ indices, index < layout.fieldCount := by
  induction indices generalizing values c with
  | nil =>
    obtain ⟨rfl, _⟩ := Decoder.pure_ok h
    exact ⟨rfl, List.forall_mem_nil _⟩
  | cons index rest ih =>
    unfold readFields at h
    cases found : layout.fields[index]? with
    | none =>
      rw [found] at h
      exact (Decoder.throw_ok h).elim
    | some field =>
      rw [found] at h
      obtain ⟨value, _, _, h⟩ := Decoder.bind_ok h
      obtain ⟨values, _, others, h⟩ := Decoder.bind_ok h
      obtain ⟨rfl, rfl⟩ := Decoder.pure_ok h
      obtain ⟨same, inside⟩ := ih others
      refine ⟨by rw [List.map_cons, same], ?_⟩
      intro i member
      rcases List.mem_cons.mp member with rfl | later
      · exact (List.getElem?_eq_some_iff.mp found).1
      · exact inside i later

theorem contentsOf_ok {bytes : List UInt8} {contents : Contents}
    (h : contentsOf registry settings layout bytes = .ok contents) :
    ∃ c, read registry settings layout (Cursor.start bytes) = .ok contents c ∧ c.rest = [] := by
  unfold contentsOf at h
  split at h
  · cases h
    exact ⟨_, Decoder.whole_ok ‹_›⟩
  · cases h

theorem read_ok {contents : Contents} {c c' : Cursor}
    (h : read registry settings layout c = .ok contents c') :
    ∃ c₁ c₂, decodeBitmap layout "dirty" c = .ok contents.dirty c₁ ∧
      decodeBitmap layout "readable" c₁ = .ok contents.readable c₂ ∧
        readFields registry settings layout contents.readable.ones c₂ = .ok contents.values c' := by
  obtain ⟨dirty, c₁, first, h⟩ := Decoder.bind_ok h
  obtain ⟨readable, c₂, second, h⟩ := Decoder.bind_ok h
  obtain ⟨values, c₃, fields, h⟩ := Decoder.bind_ok h
  obtain ⟨rfl, rfl⟩ := Decoder.pure_ok h
  exact ⟨c₁, c₂, first, second, fields⟩

/-- One value for each readable field, and no field beyond the layout. -/
structure Contents.Fits (contents : Contents) (layout : Layout) : Prop where
  indices : contents.values.map Prod.fst = contents.readable.ones
  inside : ∀ index ∈ contents.readable.ones, index < layout.fieldCount

theorem contentsOf_fits {bytes : List UInt8} {contents : Contents}
    (h : contentsOf registry settings layout bytes = .ok contents) : contents.Fits layout := by
  obtain ⟨c, front, _⟩ := contentsOf_ok h
  obtain ⟨_, _, _, _, fields⟩ := read_ok front
  obtain ⟨indices, inside⟩ := readFields_indices fields
  exact ⟨indices, inside⟩

namespace Contents.Fits

variable {contents : Contents} {target : Record Value} {i : Nat}

theorem exists_value (fits : contents.Fits layout) (readable : contents.readable.get i = true) :
    ∃ value, (i, value) ∈ contents.values := by
  have member := FieldBits.mem_ones.mpr readable
  rw [← fits.indices] at member
  obtain ⟨⟨_, value⟩, present, rfl⟩ := List.mem_map.mp member
  exact ⟨value, present⟩

/-- A readable field shows its value. -/
theorem slot_readable (fits : contents.Fits layout) (length : target.slots.length = layout.fieldCount)
    {value : Value}
    (member : (i, value) ∈ contents.values) : (contents.onto target).slot i = value := by
  have distinct : (contents.values.map Prod.fst).Nodup := fits.indices ▸ contents.readable.ones_nodup
  have inside : i < target.slots.length := by
    rw [length]
    exact fits.inside i (fits.indices ▸ List.mem_map_of_mem (f := Prod.fst) member)
  rw [Record.slot, Contents.onto, List.getD_eq_getElem?_getD, store_of_mem distinct member inside]
  rfl

/-- Any other field shows what was there before. -/
theorem slot_unreadable (fits : contents.Fits layout) (unreadable : contents.readable.get i = false) :
    (contents.onto target).slot i = target.slot i := by
  have absent : i ∉ contents.values.map Prod.fst := by
    rw [fits.indices, FieldBits.mem_ones, unreadable]
    exact Bool.false_ne_true
  rw [Record.slot, Contents.onto, List.getD_eq_getElem?_getD, store_of_notMem absent, Record.slot,
    List.getD_eq_getElem?_getD]

end Contents.Fits

/-! ### Decoding into a record -/

theorem readField_reuse (sound : registry.Sound) (field : Field) :
    Plain.Indifferent registry (readField registry settings field) := by
  intro reuse formed
  unfold readField
  rw [Plain.decode_reuse sound _ _ reuse formed]

/-- The slots of the indices are read before any of them is written. -/
theorem decodeFields_eq_store (sound : registry.Sound) {indices : List Nat} (distinct : indices.Nodup)
    {slots : List Value}
    (length : slots.length = layout.fieldCount)
    (formed : ∀ index ∈ indices, ∀ value, slots[index]? = some value → value.WellFormed registry) :
    decodeFields registry settings layout indices slots =
      store slots <$> readFields registry settings layout indices := by
  induction indices generalizing slots with
  | nil => rfl
  | cons index rest ih =>
    obtain ⟨fresh, distinctRest⟩ := List.nodup_cons.mp distinct
    unfold decodeFields readFields
    cases found : layout.fields[index]? with
    | none => rfl
    | some field =>
      have inside : index < slots.length := by
        rw [length]
        exact (List.getElem?_eq_some_iff.mp found).1
      have present := List.getElem?_eq_getElem inside
      have same : readField registry settings field (some slots[index]) =
        readField registry settings field none :=
        (readField_reuse sound field).inPlace (formed index List.mem_cons_self _ present)
      have others (value : Value) : decodeFields registry settings layout rest (slots.set index value) =
          store (slots.set index value) <$> readFields registry settings layout rest := by
        refine ih distinctRest (by rw [List.length_set, length]) ?_
        intro i later old here
        have different : index ≠ i := fun same => fresh (same ▸ later)
        rw [List.getElem?_set_ne different] at here
        exact formed i (List.mem_cons_of_mem _ later) old here
      simp only [decodeField_some present, same, others, map_eq_pure_bind, bind_assoc, pure_bind, store_cons]

theorem fill_eq (sound : registry.Sound) {target : Record Value}
    (length : target.slots.length = layout.fieldCount)
    (formed : ∀ slot ∈ target.slots, slot.WellFormed registry) :
    fill registry settings layout target =
      (fun contents => contents.onto target) <$> read registry settings layout := by
  have fields (readable : FieldBits) : decodeFields registry settings layout readable.ones target.slots =
      store target.slots <$> readFields registry settings layout readable.ones :=
    decodeFields_eq_store sound readable.ones_nodup length
      fun _ _ value here => formed value (List.mem_of_getElem? here)
  simp only [fill, read, fields, map_eq_pure_bind, bind_assoc, pure_bind, Contents.onto]

end TrackedRecord.Wire.Payload
