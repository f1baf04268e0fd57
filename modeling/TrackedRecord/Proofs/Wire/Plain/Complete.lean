import TrackedRecord.Proofs.Record.Typed

/-!
# When a plain value is written

The writer looks at every slot of every record in a value. It succeeds if the value conforms to its schema,
all slots of the records inside conform to the schemas of their fields, and records nest no deeper than
allowed, and only then.
-/

namespace TrackedRecord

/-- Every slot conforms to the schema of its field; none that may not be null is left so. -/
def Record.Filled (r : Record Value) : Prop :=
  ∀ i field, r.layout.field? i = some field → (r.slot i).conforms field.schema = true

/-- A slot for each field. -/
def Record.Sized (r : Record Value) : Prop := r.slots.length = r.layout.fieldCount

namespace Value

theorem WellFormed.sized {registry : Registry} {value : Value} (formed : value.WellFormed registry) :
    value.Every Record.Sized :=
  formed.fitted.mono fun _ fitted => fitted.slots

/-- The records inside are filled, and nest at most `k` deep. -/
def Complete (k : Nat) (value : Value) : Prop := value.Every Record.Filled ∧ value.depth ≤ k

theorem complete_array {items : List Value} {k : Nat} :
    (array items).Complete k ↔ ∀ item ∈ items, item.Complete k := by
  simp only [Complete, every_array, depth_array_le]
  constructor
  · rintro ⟨filled, deep⟩ item inside
    exact ⟨filled item inside, deep item inside⟩
  · intro each
    exact ⟨fun item inside => (each item inside).1, fun item inside => (each item inside).2⟩

theorem complete_map {m : StateMap Value} {k : Nat} :
    (map m).Complete k ↔ ∀ entry ∈ m.entries, entry.2.Complete k := by
  simp only [Complete, every_map, depth_map_le]
  constructor
  · rintro ⟨filled, deep⟩ entry inside
    exact ⟨filled entry inside, deep entry inside⟩
  · intro each
    exact ⟨fun entry inside => (each entry inside).1, fun entry inside => (each entry inside).2⟩

theorem complete_union {branch : Nat} {value : Value} {k : Nat} :
    (union branch value).Complete k ↔ value.Complete k := by
  rw [Complete, Complete, every_union, depth_union]

theorem complete_record {r : Record Value} {k : Nat} :
    (record r).Complete (k + 1) ↔ r.Filled ∧ ∀ slot ∈ r.slots, slot.Complete k := by
  simp only [Complete, every_record, depth_record_le, and_assoc]
  refine and_congr_right fun _ => ?_
  constructor
  · rintro ⟨filled, deep⟩ slot inside
    exact ⟨filled slot inside, deep slot inside⟩
  · intro each
    exact ⟨fun slot inside => (each slot inside).1, fun slot inside => (each slot inside).2⟩

theorem Flat.complete {value : Value} (flat : value.Flat) (k : Nat) : value.Complete k := by
  refine ⟨flat.every, ?_⟩
  obtain ⟨none, other⟩ := flat
  cases value with
  | record r => exact absurd rfl (other r)
  | array items =>
    obtain rfl : items = [] := none
    exact Nat.zero_le k
  | map m =>
    have none : m.entries = [] := List.map_eq_nil_iff.mp none
    rw [depth_map_le, none]
    exact List.forall_mem_nil _
  | union branch value => cases none
  | _ => exact Nat.zero_le k

end Value

namespace Wire.Plain

/-- There is an encoding. -/
def Writes (x : Except Error (List UInt8)) : Prop := ∃ bytes, x = .ok bytes

theorem writes_part {x : Except Error (List UInt8)} {f : List UInt8 → List UInt8} :
    Writes (do let a ← x; return f a) ↔ Writes x := by
  simp only [Writes, Result.part_ok]
  exact ⟨fun ⟨_, a, made, _⟩ => ⟨a, made⟩, fun ⟨a, made⟩ => ⟨_, a, made, rfl⟩⟩

theorem writes_parts {x y : Except Error (List UInt8)} {f : List UInt8 → List UInt8 → List UInt8} :
    Writes (do let a ← x; let b ← y; return f a b) ↔ Writes x ∧ Writes y := by
  simp only [Writes, Result.parts_ok]
  exact ⟨fun ⟨_, a, b, first, second, _⟩ => ⟨⟨a, first⟩, b, second⟩,
    fun ⟨⟨a, first⟩, b, second⟩ => ⟨_, a, b, first, second, rfl⟩⟩

theorem writes_inside {segment : String} {x : Except Error (List UInt8)} :
    Writes (inside segment x) ↔ Writes x := by
  simp only [Writes, inside_ok]

/-! ### Lists of values -/

theorem encodeItems_writes {encode : Value → Except Error (List UInt8)} {items : List Value} {i : Nat} :
    Writes (encodeItems encode i items) ↔ ∀ item ∈ items, Writes (encode item) := by
  induction items generalizing i with
  | nil => exact ⟨fun _ => List.forall_mem_nil _, fun _ => ⟨[], rfl⟩⟩
  | cons item rest ih => rw [encodeItems, writes_parts, writes_inside, ih, List.forall_mem_cons]

theorem encodeEntries_writes {encode : Value → Except Error (List UInt8)} {entries : List (String × Value)} :
    Writes (encodeEntries encode entries) ↔ ∀ entry ∈ entries, Writes (encode (Prod.snd entry)) := by
  induction entries with
  | nil => exact ⟨fun _ => List.forall_mem_nil _, fun _ => ⟨[], rfl⟩⟩
  | cons entry rest ih => rw [encodeEntries, writes_parts, writes_inside, ih, List.forall_mem_cons]

theorem encodeFields_writes {encode : Schema → Value → Except Error (List UInt8)} {name : String}
    {fields : List Field} {values : List Value} (length : values.length = fields.length) :
    Writes (encodeFields encode name fields values) ↔
      ∀ i field, fields[i]? = some field → Writes (encode field.schema (values.getD i .null)) := by
  induction fields generalizing values with
  | nil =>
    obtain rfl := List.length_eq_zero_iff.mp length
    exact ⟨fun _ _ _ => nofun, fun _ => ⟨[], rfl⟩⟩
  | cons field fields ih =>
    cases values with
    | nil => cases length
    | cons value values =>
      rw [encodeFields, writes_parts, writes_inside, ih (Nat.succ.inj length)]
      constructor
      · rintro ⟨first, others⟩ i other found
        cases i with
        | zero =>
          cases found
          exact first
        | succ i => exact others i other found
      · intro each
        exact ⟨each 0 field rfl, fun i other found => each (i + 1) other found⟩

/-! ### Values -/

theorem encodePrimitive_writes {kind : Primitive} {value : Value} :
    Writes (encodePrimitive kind value) ↔ value.conforms (.primitive kind) = true := by
  rw [Value.conforms]
  cases kind <;> cases value <;> simp [encodePrimitive, Value.isPrimitive, Writes]

theorem encodeEnum_writes {e : EnumType} {value : Value} :
    Writes (encodeEnum e value) ↔ value.conforms (.enum e) = true := by
  cases value <;> simp [encodeEnum, Value.conforms, Writes]
  split <;> simp_all

theorem encodeFixed_writes {f : FixedType} {value : Value} :
    Writes (encodeFixed f value) ↔ value.conforms (.fixed f) = true := by
  cases value <;> simp [encodeFixed, Value.conforms, Writes]
  split <;> simp_all

theorem encodeBranch_writes {record : RecordRef → Value → Except Error (List UInt8)} {branches : List Schema}
    {left branch : Nat} {schema : String} {value : Value} :
    Writes (encodeBranch record branches left schema branch value) ↔
      ∃ type, branches[left]? = some type ∧ Writes (encodeWith record type value) := by
  simp only [Writes, encodeBranch_ok]
  exact ⟨fun ⟨_, type, encoded, found, written, _⟩ => ⟨type, found, encoded, written⟩,
    fun ⟨type, found, encoded, written⟩ => ⟨_, type, encoded, found, written, rfl⟩⟩

/-- The writer writes the sized values that conform and are complete, and no others. -/
def WritesComplete (k : Nat) (schema : Schema) (write : Value → Except Error (List UInt8)) : Prop :=
  ∀ value : Value, value.Every Record.Sized →
    (Writes (write value) ↔ value.conforms schema = true ∧ value.Complete k)

section

variable {record : RecordRef → Value → Except Error (List UInt8)} {k : Nat}

theorem encodeArray_writes {element : Schema} (each : WritesComplete k element (encodeWith record element)) :
    WritesComplete k (.array element) (encodeWith record (.array element)) := by
  intro value sized
  cases value with
  | array items =>
    have parts : (∀ item ∈ items, Writes (encodeWith record element item)) ↔
        ∀ item ∈ items, item.conforms element = true ∧ item.Complete k :=
      forall₂_congr fun item inside => each item (Value.every_array.mp sized item inside)
    rw [encodeWith, writes_part, encodeItems_writes, parts, Value.complete_array, Value.conforms,
      List.all_eq_true]
    exact ⟨fun h => ⟨fun item inside => (h item inside).1, fun item inside => (h item inside).2⟩,
      fun h item inside => ⟨h.1 item inside, h.2 item inside⟩⟩
  | _ => simp [encodeWith, Value.conforms, Writes]

theorem encodeMap_writes {schema : Schema} (each : WritesComplete k schema (encodeWith record schema)) :
    WritesComplete k (.map schema) (encodeWith record (.map schema)) := by
  intro value sized
  cases value with
  | map m =>
    have parts : (∀ entry ∈ m.entries, Writes (encodeWith record schema (Prod.snd entry))) ↔
        ∀ entry ∈ m.entries, entry.2.conforms schema = true ∧ entry.2.Complete k :=
      forall₂_congr fun entry inside => each entry.2 (Value.every_map.mp sized entry inside)
    rw [encodeWith, writes_part, encodeEntries_writes, parts, Value.complete_map, Value.conforms,
      List.all_eq_true]
    exact ⟨fun h => ⟨fun entry inside => (h entry inside).1, fun entry inside => (h entry inside).2⟩,
      fun h entry inside => ⟨h.1 entry inside, h.2 entry inside⟩⟩
  | _ => simp [encodeWith, Value.conforms, Writes]

/-- A value is written in a branch if the branch is there and its writer writes the value. -/
theorem encodeBranch_complete {branches : List Schema}
    (each : ∀ type ∈ branches, WritesComplete k type (encodeWith record type)) {value : Value}
    (sized : value.Every Record.Sized) (left branch : Nat) (schema : String) :
    Writes (encodeBranch record branches left schema branch value) ↔
      (∃ type, branches[left]? = some type ∧ value.conforms type = true) ∧ value.Complete k := by
  rw [encodeBranch_writes]
  constructor
  · rintro ⟨type, found, written⟩
    obtain ⟨fits, complete⟩ := (each type (List.mem_of_getElem? found) value sized).mp written
    exact ⟨⟨type, found, fits⟩, complete⟩
  · rintro ⟨⟨type, found, fits⟩, complete⟩
    exact ⟨type, found, (each type (List.mem_of_getElem? found) value sized).mpr ⟨fits, complete⟩⟩

theorem encodeUnion_writes {branches : List Schema}
    (each : ∀ type ∈ branches, WritesComplete k type (encodeWith record type)) :
    WritesComplete k (.union branches) (encodeWith record (.union branches)) := by
  intro value sized
  cases nullable : Schema.nullPosition? branches with
  | some position =>
    rw [encodeUnion_eq, nullable, Value.conforms_nullable nullable]
    dsimp only
    cases isNull : value.isNull with
    | true =>
      obtain rfl := Value.eq_null_of_isNull isNull
      exact ⟨fun _ => ⟨Or.inl rfl, Value.flat_null.complete k⟩, fun _ => ⟨_, rfl⟩⟩
    | false =>
      have different : value ≠ .null := by
        rintro rfl
        cases isNull
      rw [if_neg Bool.false_ne_true, encodeBranch_complete each sized]
      simp only [different, false_or]
  | none =>
    rw [encodeUnion_eq, nullable]
    cases value with
    | union branch inner =>
      dsimp only
      rw [encodeBranch_complete each (Value.every_union.mp sized), Value.complete_union,
        Value.conforms_branch nullable]
    | _ => simp [Writes, Value.conforms_union, nullable]

theorem encodeWith_writes (nested : ∀ type, WritesComplete k (.record type) (record type)) (schema : Schema) :
    WritesComplete k schema (encodeWith record schema) := by
  induction schema using Schema.induction with
  | primitive kind =>
    intro value _
    rw [encodeWith, encodePrimitive_writes]
    exact ⟨fun fits => ⟨fits, (Value.flat_of_primitive fits).complete k⟩, And.left⟩
  | enum e =>
    intro value _
    rw [encodeWith, encodeEnum_writes]
    refine ⟨fun fits => ⟨fits, ?_⟩, And.left⟩
    obtain ⟨ordinal, rfl, _⟩ := Value.conforms_enum.mp fits
    exact (Value.flat_enum ordinal).complete k
  | fixed f =>
    intro value _
    rw [encodeWith, encodeFixed_writes]
    refine ⟨fun fits => ⟨fits, ?_⟩, And.left⟩
    obtain ⟨data, rfl, _⟩ := Value.conforms_fixed.mp fits
    exact (Value.flat_fixed data).complete k
  | record type =>
    intro value sized
    rw [encodeWith]
    exact nested type value sized
  | array element ih => exact encodeArray_writes ih
  | map schema ih => exact encodeMap_writes ih
  | union branches ih => exact encodeUnion_writes ih

end

/-- All fields of a record are written if it is filled, and so are the records in its slots. -/
theorem encodeSlots_writes {record : RecordRef → Value → Except Error (List UInt8)} {k : Nat}
    (nested : ∀ type, WritesComplete k (.record type) (record type)) {r : Record Value}
    (sized : (Value.record r).Every Record.Sized) :
    Writes (encodeFields (encodeWith record) r.layout.name r.layout.fields r.slots) ↔
      (Value.record r).Complete (k + 1) := by
  obtain ⟨size, _⟩ := Value.every_record.mp sized
  have each (i : Nat) (field : Field) : Writes (encodeWith record field.schema (r.slot i)) ↔
      (r.slot i).conforms field.schema = true ∧ (r.slot i).Complete k :=
    encodeWith_writes nested field.schema (r.slot i) (Record.every_slot sized i)
  rw [encodeFields_writes size, Value.complete_record]
  constructor
  · intro written
    have complete (i : Nat) (field : Field) (known : r.layout.field? i = some field) :=
      (each i field).mp (written i field known)
    refine ⟨fun i field known => (complete i field known).1, fun slot member => ?_⟩
    obtain ⟨i, inside, rfl⟩ := Record.mem_slots member
    obtain ⟨field, known⟩ := Layout.exists_field (size ▸ inside)
    exact (complete i field known).2
  · rintro ⟨filled, slots⟩ i field known
    have inside : i < r.slots.length := size ▸ Layout.lt_of_field? known
    refine (each i field).mpr ⟨filled i field known, ?_⟩
    rw [Record.slot_of_lt inside]
    exact slots _ (List.getElem_mem inside)

theorem encodeNested_writes (maxDepth left : Nat) (type : RecordRef) :
    WritesComplete left (.record type) (encodeNested maxDepth left type) := by
  induction left generalizing type with
  | zero =>
    intro value _
    constructor
    · rintro ⟨bytes, written⟩
      exact absurd written encodeNested_zero
    · rintro ⟨fits, _, flat⟩
      obtain ⟨r, rfl, _⟩ := Value.conforms_record.mp fits
      rw [Value.depth] at flat
      cases flat
  | succ left ih =>
    intro value sized
    rw [Value.conforms_record]
    constructor
    · rintro ⟨bytes, written⟩
      obtain ⟨r, rfl, named, written⟩ := encodeNested_ok.mp written
      exact ⟨⟨r, rfl, named⟩, (encodeSlots_writes ih sized).mp ⟨bytes, written⟩⟩
    · rintro ⟨⟨r, rfl, named⟩, complete⟩
      obtain ⟨bytes, written⟩ := (encodeSlots_writes ih sized).mpr complete
      exact ⟨bytes, encodeNested_ok.mpr ⟨r, rfl, named, written⟩⟩

/-- A value is written if it conforms, the records in it are filled, and they nest at most `maxDepth` deep;
any other is refused. -/
theorem encode_writes (maxDepth : Nat) (schema : Schema) : WritesComplete maxDepth schema (encode maxDepth schema) :=
  encodeWith_writes (encodeNested_writes maxDepth maxDepth) schema

/-- A record by itself is written if it is filled, too; it does not count for the depth. -/
theorem encodeRecord_writes (maxDepth : Nat) {r : Record Value} (sized : (Value.record r).Every Record.Sized) :
    Writes (encodeRecord maxDepth r) ↔ (Value.record r).Complete (maxDepth + 1) :=
  encodeSlots_writes (encodeNested_writes maxDepth maxDepth) sized

end Wire.Plain

end TrackedRecord
