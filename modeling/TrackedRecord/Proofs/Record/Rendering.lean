import TrackedRecord.Proofs.Decimal.Finite
import TrackedRecord.Proofs.Record.Document
import TrackedRecord.Proofs.Registry.Layouts
import TrackedRecord.Proofs.Wire.Plain.Complete

/-!
# Documents of values

A value without parts is read back from its document as it was, so far as its numbers are finite. The document
of a record has a member for each field that is shown, and the names of the fields tell the members apart.
-/

namespace TrackedRecord

namespace Value

/-- No number in the value is infinite or none at all. -/
structure Finite (value : Value) : Prop where
  float : ∀ {bits}, value.Contains (.float bits) → Decimal.single.IsFinite bits.toNat
  double : ∀ {bits}, value.Contains (.double bits) → Decimal.double.IsFinite bits.toNat

theorem Finite.part {value part : Value} (finite : value.Finite) (part_of : part ∈ value.parts) : part.Finite where
  float contains := finite.float (.inside part_of contains)
  double contains := finite.double (.inside part_of contains)

theorem Finite.of_parts {value : Value}
    (float : ∀ bits, value = .float bits → Decimal.single.IsFinite bits.toNat)
    (double : ∀ bits, value = .double bits → Decimal.double.IsFinite bits.toNat)
    (parts : ∀ part ∈ value.parts, part.Finite) : value.Finite where
  float contains := by
    cases contains with
    | self => exact float _ rfl
    | inside part_of contains => exact (parts _ part_of).float contains
  double contains := by
    cases contains with
    | self => exact double _ rfl
    | inside part_of contains => exact (parts _ part_of).double contains

theorem toJson_core (schema : Schema) (value : Value) : value.toJson schema.core = value.toJson schema := by
  have same : schema.core.core = schema.core := Schema.core_of_tagged (Schema.core_tagged schema)
  cases value <;> simp only [toJson, same]

/-! ### Values without parts -/

theorem ofDouble_finite {bits : UInt64} (finite : Decimal.double.IsFinite bits.toNat) :
    Json.ofDouble bits = .number (.double bits) := by
  obtain ⟨negative, significand, exponent, unpacked⟩ := finite
  rw [Json.ofDouble, unpacked]

/-- A finite single comes back as it was from the double that is written of it. -/
theorem single?_widen {bits : UInt32} (finite : Decimal.single.IsFinite bits.toNat) :
    Document.single? (Json.ofDouble (widen bits)) = some bits := by
  obtain ⟨negative, significand, exponent, unpacked⟩ := finite
  have inside : bits.toNat < 2 * Decimal.single.signBit := bits.toNat_lt
  obtain ⟨below, ⟨wide, exponent', unpacked'⟩, narrow⟩ := Decimal.Format.narrow_widen inside unpacked
  have same : (widen bits).toNat = Decimal.single.convert Decimal.double bits.toNat :=
    UInt64.toNat_ofNat_of_lt' below
  rw [← same] at unpacked' narrow
  rw [ofDouble_finite ⟨_, _, _, unpacked'⟩, Document.single?, Json.double?, Option.map_some, narrow,
    UInt32.ofNat_toNat]

theorem bytesOf_bytesToJson (path : String) (data : List UInt8) :
    Document.bytesOf path (bytesToJson data) = .ok data := by
  have byte (b : UInt8) : Document.byte? (Json.nat b.toNat) = some b := by
    have small : b.toNat < 256 := b.toNat_lt
    have whole : (Json.nat b.toNat).uint64? = some b.toNat := rfl
    rw [Document.byte?, whole, Option.filter_some, if_pos (decide_eq_true small), Option.map_some, UInt8.ofNat_toNat]
  have all : (data.map fun b => Json.nat b.toNat).mapM Document.byte? = some data := by
    induction data with
    | nil => rfl
    | cons b rest ih =>
      rw [List.map_cons, List.mapM_cons, byte, ih]
      rfl
  unfold Document.bytesOf bytesToJson
  rw [Result.bind_of_ok (show Document.require path .notBytes _ = .ok _ from rfl), all]
  rfl

theorem int32?_int (n : Int32) : Document.int32? (Json.int n.toInt) = some n.toInt := by
  have low := n.le_toInt
  have high := n.toInt_lt
  have whole : (Json.int n.toInt).int64? = some n.toInt := if_pos (by omega)
  rw [Document.int32?, whole, Option.filter_some, if_pos]
  simp only [Bool.and_eq_true, decide_eq_true_eq]
  omega

theorem primitiveOf_toJson {kind : Primitive} {value : Value} (schema : Schema)
    (fits : value.conforms (.primitive kind) = true) (finite : value.Finite) (path : String) :
    Document.primitiveOf path kind (value.toJson schema) = .ok value := by
  rw [conforms] at fits
  cases value with
  | null =>
    cases kind <;> cases fits
    rfl
  | boolean b =>
    cases kind <;> cases fits
    rfl
  | int n =>
    cases kind <;> cases fits
    rw [toJson, Document.primitiveOf, int32?_int]
    exact congrArg (fun n => Except.ok (Value.int n)) (Int32.ofInt_toInt n)
  | long n =>
    cases kind <;> cases fits
    have whole : (Json.int n.toInt).int64? = some n.toInt := if_pos n.toInt_lt
    rw [toJson, Document.primitiveOf, whole]
    exact congrArg (fun n => Except.ok (Value.long n)) (Int64.ofInt_toInt n)
  | float bits =>
    cases kind <;> cases fits
    rw [toJson, Document.primitiveOf, single?_widen (finite.float (.self _))]
    rfl
  | double bits =>
    cases kind <;> cases fits
    rw [toJson, Document.primitiveOf, ofDouble_finite (finite.double (.self _))]
    rfl
  | bytes data =>
    cases kind <;> cases fits
    rw [toJson, Document.primitiveOf, bytesOf_bytesToJson]
    rfl
  | string s =>
    cases kind <;> cases fits
    rfl
  | _ => cases kind <;> cases fits

theorem fixedOf_toJson {f : FixedType} {data : List UInt8} (size : data.length = f.size) (path : String) :
    Document.fixedOf path f (bytesToJson data) = .ok (.fixed data) := by
  rw [Document.fixedOf, Result.bind_of_ok (bytesOf_bytesToJson path data), if_neg (not_not_intro size)]
  rfl

theorem enumOf_toJson {e : EnumType} (distinct : e.symbols.Nodup) {ordinal : Nat}
    (small : ordinal < e.symbols.length) (path : String) :
    Document.enumOf path e ((enum ordinal).toJson (.enum e)) = .ok (.enum ordinal) := by
  have here : e.symbols[ordinal]? = some e.symbols[ordinal] := List.getElem?_eq_getElem small
  have json : (enum ordinal).toJson (.enum e) = .string e.symbols[ordinal] := by
    rw [toJson, Schema.core_of_tagged rfl]
    dsimp only
    rw [here]
    rfl
  have first : e.ordinal? e.symbols[ordinal] = some ordinal :=
    Keyed.findIdx?_key (show (e.symbols.map id).Nodup by rwa [List.map_id]) here
  rw [json, Document.enumOf, Result.bind_of_ok (show Document.require path .notSymbol _ = .ok _ from rfl), first]
  rfl

end Value

/-! ### Members -/

theorem Value.fieldsToJson_eq (fields : List Field) (values : List Value) :
    fieldsToJson fields values = (fields.zip values).map fun pair => (pair.1.name, pair.2.toJson pair.1.schema) := by
  induction fields generalizing values with
  | nil => rw [fieldsToJson, List.zip_nil_left, List.map_nil]; exact nofun
  | cons field fields ih =>
    cases values with
    | nil => rw [fieldsToJson, List.zip_nil_right, List.map_nil]; exact nofun
    | cons value values =>
      rw [fieldsToJson, ih]
      rfl

theorem Value.itemsToJson_eq (element : Schema) (items : List Value) :
    itemsToJson element items = items.map (toJson element) := by
  induction items with
  | nil => rw [itemsToJson, List.map_nil]
  | cons item rest ih => rw [itemsToJson, ih, List.map_cons]

theorem Value.entriesToJson_eq (schema : Schema) (entries : List (String × Value)) :
    entriesToJson schema entries = entries.map fun entry => (entry.1, toJson schema entry.2) := by
  induction entries with
  | nil => rw [entriesToJson, List.map_nil]
  | cons entry rest ih => rw [entriesToJson, ih, List.map_cons]

namespace Record

/-- The members for the fields that are shown. -/
def members (r : Record Value) (shown : Nat → Bool) : List (String × Json) :=
  let fields := (r.layout.fields.zip r.slots).filter fun pair => shown pair.1.index
  Keyed.ofList (fields.map fun pair => (pair.1.name, pair.2.toJson pair.1.schema))

theorem readableToJson_eq (r : Record Value) : r.readableToJson = .object (r.members r.isReadable) := rfl

theorem toJson_record (r : Record Value) (schema : Schema) :
    (Value.record r).toJson schema = .object (r.members fun _ => true) := by
  rw [Value.toJson, Value.fieldsToJson_eq, members, List.filter_eq_self.mpr fun _ _ => rfl]
  rfl

/-- The members are the slots that are shown, each under the name of its field. -/
theorem mem_members {r : Record Value} (regular : r.layout.Regular) (sized : r.Sized) {shown : Nat → Bool}
    {member : String × Json} :
    member ∈ r.members shown ↔ ∃ i field, r.layout.field? i = some field ∧ shown i = true ∧
      member = (field.name, (r.slot i).toJson field.schema) := by
  have names : ((r.layout.fields.zip r.slots).map fun pair => pair.1.name) = r.layout.fields.map Field.name := by
    have first := List.map_fst_zip (Nat.le_of_eq sized.symm)
    exact (List.map_map).symm.trans (congrArg (List.map Field.name) first)
  have distinct : (Keyed.keys (((r.layout.fields.zip r.slots).filter fun pair => shown pair.1.index).map
      fun pair => (pair.1.name, pair.2.toJson pair.1.schema))).Nodup := by
    have kept : (((r.layout.fields.zip r.slots).filter fun pair => shown pair.1.index).map
        fun pair => pair.1.name).Sublist ((r.layout.fields.zip r.slots).map fun pair => pair.1.name) :=
      List.filter_sublist.map _
    rw [names] at kept
    rw [Keyed.keys, List.map_map]
    exact regular.names.sublist kept
  rw [members, (Keyed.ofList_perm distinct).mem_iff, List.mem_map]
  constructor
  · rintro ⟨⟨field, value⟩, inside, rfl⟩
    obtain ⟨inside, isShown⟩ := List.mem_filter.mp inside
    obtain ⟨i, here⟩ := List.mem_iff_getElem?.mp inside
    obtain ⟨known, slot⟩ := List.getElem?_zip_eq_some.mp here
    have index : field.index = i := regular.index known
    have same : r.slot i = value := by
      rw [Record.slot, List.getD_eq_getElem?_getD, slot]
      rfl
    exact ⟨i, field, known, index ▸ isShown, by rw [same]⟩
  · rintro ⟨i, field, known, isShown, rfl⟩
    have inside : i < r.slots.length := sized ▸ Layout.lt_of_field? known
    have slot : r.slots[i]? = some (r.slot i) := by
      rw [slot_of_lt inside]
      exact List.getElem?_eq_getElem inside
    have here := List.mem_of_getElem? (List.getElem?_zip_eq_some.mpr ⟨known, slot⟩ :
      (r.layout.fields.zip r.slots)[i]? = some (field, r.slot i))
    have index : field.index = i := regular.index known
    exact ⟨(field, r.slot i), List.mem_filter.mpr ⟨here, (congrArg shown index).trans isShown⟩, rfl⟩

end Record

end TrackedRecord
