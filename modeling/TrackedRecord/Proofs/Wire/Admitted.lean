import TrackedRecord.Proofs.Schema.Mentions
import TrackedRecord.Proofs.Wire.Mismatch
import TrackedRecord.Proofs.Wire.Plain.Complete
import TrackedRecord.Proofs.Wire.RoundTrip

/-!
# What is written, and what is refused

A value is written if it conforms to its schema, the records in it are filled, and no more of them nest than
allowed. Any other is refused as a mismatch. Of a record, a codec looks at the readable slots alone.
-/

namespace TrackedRecord

open Result (Raises)

/-! ### Schemas without records -/

def Schema.Recordless (schema : Schema) : Prop := ∀ type, .record type ∉ schema.mentioned

namespace Schema.Recordless

theorem element {element : Schema} (recordless : (array element).Recordless) : element.Recordless := by
  rwa [Recordless, mentioned] at recordless

theorem value {value : Schema} (recordless : (map value).Recordless) : value.Recordless := by
  rwa [Recordless, mentioned] at recordless

theorem branch {branches : List Schema} (recordless : (union branches).Recordless) {branch : Schema}
    (member : branch ∈ branches) : branch.Recordless :=
  fun type inside => recordless type (mem_mentioned_union.mpr ⟨branch, member, inside⟩)

end Schema.Recordless

/-- No record stands in a value of a schema that mentions none. -/
theorem Value.complete_of_recordless {schema : Schema} (recordless : schema.Recordless) {value : Value}
    (fits : value.conforms schema = true) (k : Nat) : value.Complete k := by
  induction schema using Schema.induction generalizing value with
  | primitive kind => exact (flat_of_primitive fits).complete k
  | enum e =>
    obtain ⟨ordinal, rfl, _⟩ := conforms_enum.mp fits
    exact (flat_enum ordinal).complete k
  | fixed f =>
    obtain ⟨data, rfl, _⟩ := conforms_fixed.mp fits
    exact (flat_fixed data).complete k
  | record type =>
    refine absurd ?_ (recordless type)
    rw [Schema.mentioned]
    exact List.mem_cons_self
  | array element ih =>
    obtain ⟨items, rfl, each⟩ := conforms_array.mp fits
    exact complete_array.mpr fun item inside => ih recordless.element (each item inside)
  | map schema ih =>
    obtain ⟨m, rfl, each⟩ := conforms_map.mp fits
    exact complete_map.mpr fun entry inside => ih recordless.value (each entry inside)
  | union branches ih =>
    cases nullable : Schema.nullPosition? branches with
    | some position =>
      rcases (conforms_nullable nullable).mp fits with rfl | ⟨type, found, fits⟩
      · exact flat_null.complete k
      · have member := List.mem_of_getElem? found
        exact ih type member (recordless.branch member) fits
    | none =>
      obtain ⟨branch, inner, type, rfl, found, fits⟩ := (conforms_tagged nullable).mp fits
      have member := List.mem_of_getElem? found
      exact complete_union.mpr (ih type member (recordless.branch member) fits)

namespace Wire

open Plain (Writes)

/-- There is an encoding just where `fits` holds; otherwise the value does not match. -/
structure Decided (fits : Prop) (x : Except Error (List UInt8)) : Prop where
  written : (∃ bytes, x = .ok bytes) ↔ fits
  refused : ∀ e, x = .error e → e.kind = .valueMismatch

theorem Decided.of_raises {fits : Prop} {x : Except Error (List UInt8)} (written : Writes x ↔ fits)
    (mismatches : Raises Error.Mismatch x) : Decided fits x :=
  ⟨written, fun e failed => (mismatches e failed).kind⟩

/-! ### Payloads -/

namespace Payload

variable {maxDepth : Nat} {layout : Layout}

theorem encodeField_writes {name : String} {field : Field} {value : Value} :
    Writes (encodeField maxDepth name field value) ↔ Writes (Plain.encode maxDepth field.schema value) := by
  unfold encodeField
  rw [Plain.writes_part, Plain.writes_inside]

theorem encodeFields_writes {slots : List Value} {indices : List Nat} :
    Writes (encodeFields maxDepth layout slots indices) ↔
      ∀ i ∈ indices, ∃ field value, layout.field? i = some field ∧ slots[i]? = some value ∧
        Writes (Plain.encode maxDepth field.schema value) := by
  induction indices with
  | nil => exact ⟨fun _ => List.forall_mem_nil _, fun _ => ⟨[], rfl⟩⟩
  | cons index rest ih =>
    rw [List.forall_mem_cons, ← ih]
    constructor
    · rintro ⟨bytes, written⟩
      obtain ⟨field, value, first, others, found, present, head, tail, _⟩ := encodeFields_cons.mp written
      exact ⟨⟨field, value, found, present, encodeField_writes.mp ⟨first, head⟩⟩, others, tail⟩
    · rintro ⟨⟨field, value, found, present, head⟩, others, tail⟩
      obtain ⟨first, head⟩ := encodeField_writes.mpr head
      exact ⟨_, encodeFields_cons.mpr ⟨field, value, first, others, found, present, head, tail, rfl⟩⟩

/-- Where each index has a field and a slot, nothing but a value can be wrong. -/
theorem encodeFields_mismatches {slots : List Value} (length : slots.length = layout.fieldCount)
    {indices : List Nat} (inside : ∀ i ∈ indices, i < layout.fieldCount) :
    Raises Error.Mismatch (encodeFields maxDepth layout slots indices) := by
  induction indices with
  | nil => exact Raises.ok _
  | cons index rest ih =>
    rw [List.forall_mem_cons] at inside
    obtain ⟨field, known⟩ := Layout.exists_field inside.1
    have found : layout.fields[index]? = some field := known
    rw [encodeFields, found, List.getElem?_eq_getElem (length ▸ inside.1)]
    exact (encodeField_mismatches _ _ _ _).parts (ih inside.2)

end Payload

namespace Codec

variable {codec : Codec} {r : Record Value}

/-- A record is written if each of its readable slots is a value of the field that the codec has there. -/
theorem encode_writes_iff (type : r.typeName = codec.typeName) (size : r.Sized)
    (bits : r.readable.len = r.layout.fieldCount)
    (sized : ∀ i, r.isReadable i = true → (r.slot i).Every Record.Sized) :
    Writes (codec.encode r) ↔ ∀ i, r.isReadable i = true → ∃ field, codec.layout.field? i = some field ∧
      (r.slot i).conforms field.schema = true ∧ (r.slot i).Complete codec.settings.maxDepth := by
  rw [encode_of_typeName type, Payload.encode, Plain.writes_part, Payload.encodeFields_writes]
  refine forall_congr' fun i => ?_
  rw [FieldBits.mem_ones]
  refine imp_congr_right fun isReadable => exists_congr fun field => ?_
  have inside : i < r.slots.length := by
    rw [size, ← bits]
    exact FieldBits.lt_of_get isReadable
  have present : r.slots[i]? = some (r.slot i) := by
    rw [Record.slot_of_lt inside]
    exact List.getElem?_eq_getElem inside
  simp only [present, Option.some.injEq, exists_eq_left', exists_and_left]
  rw [Plain.encode_writes _ field.schema (r.slot i) (sized i isReadable)]

/-- A record of the codec's layout that cannot be written has a value that does not match. -/
theorem encode_mismatches (layout : r.layout = codec.layout) (size : r.Sized)
    (bits : r.readable.len = r.layout.fieldCount) : Raises Error.Mismatch (codec.encode r) := by
  have type : r.typeName = codec.typeName := congrArg Layout.fullName layout
  have length : r.slots.length = codec.layout.fieldCount := layout ▸ size
  rw [encode_of_typeName type]
  refine Raises.part (Payload.encodeFields_mismatches length fun i member => ?_)
  rw [← layout, ← bits]
  exact FieldBits.lt_of_get (FieldBits.mem_ones.mp member)

end Codec

end Wire

namespace Node

theorem sample_filled : (Value.record sample).Every Record.Filled := by
  have number {n : Int32} : (Value.int n).Every Record.Filled := Value.Flat.every ⟨rfl, fun _ => nofun⟩
  have inner : (Value.record ⟨layout, [.int 7, .null, .map {}], FieldBits.new 3,
      layout.selectAll⟩).Every Record.Filled := by
    refine Value.every_record.mpr ⟨fun i field known => ?_, ?_⟩
    · rcases i with _ | _ | _ | i <;> cases known <;> rfl
    · simp only [List.forall_mem_cons]
      exact ⟨number, Value.every_null, Value.every_map.mpr (List.forall_mem_nil _), List.forall_mem_nil _⟩
  refine Value.every_record.mpr ⟨fun i field known => ?_, ?_⟩
  · rcases i with _ | _ | _ | i <;> cases known <;> rfl
  · simp only [sample, List.forall_mem_cons]
    exact ⟨number, inner, Value.every_map.mpr (List.forall_mem_singleton.mpr number), List.forall_mem_nil _⟩

end Node

namespace Wire.Codec

/-- A value by itself is decided by its shape, the records in it and their depth, and by its shape alone where
the schema has no records. The top record does not count for the depth of its fields. A codec decides by the
readable slots of a record, whatever is in the others. -/
theorem encode_decided :
    (∀ (maxDepth : Nat) (schema : Schema) (value : Value), value.Every Record.Sized →
      Decided (value.conforms schema = true ∧ value.Every Record.Filled ∧ value.depth ≤ maxDepth)
          (Plain.encode maxDepth schema value) ∧
        (schema.Recordless → Decided (value.conforms schema = true) (Plain.encode maxDepth schema value))) ∧
      (∀ (maxDepth : Nat) (r : Record Value), (Value.record r).Every Record.Sized →
        Decided ((Value.record r).Every Record.Filled ∧ (Value.record r).depth ≤ maxDepth + 1)
          (Plain.encodeRecord maxDepth r)) ∧
      ∀ (codec : Codec) (r : Record Value), r.typeName = codec.typeName → r.Sized →
        r.readable.len = r.layout.fieldCount → (∀ i, r.isReadable i = true → (r.slot i).Every Record.Sized) →
        ((∃ bytes, codec.encode r = .ok bytes) ↔ ∀ i, r.isReadable i = true → ∃ field,
          codec.layout.field? i = some field ∧ (r.slot i).conforms field.schema = true ∧
            (r.slot i).Every Record.Filled ∧ (r.slot i).depth ≤ codec.settings.maxDepth) ∧
        (r.layout = codec.layout → ∀ e, codec.encode r = .error e → e.kind = .valueMismatch) := by
  refine ⟨fun maxDepth schema value sized => ?_, fun maxDepth r sized => ?_, fun codec r type size bits sized => ?_⟩
  · have written := Plain.encode_writes maxDepth schema value sized
    have mismatches := Plain.encode_mismatches maxDepth schema value
    refine ⟨.of_raises written mismatches, fun recordless => .of_raises ?_ mismatches⟩
    exact written.trans ⟨And.left, fun fits => ⟨fits, Value.complete_of_recordless recordless fits maxDepth⟩⟩
  · exact .of_raises (Plain.encodeRecord_writes maxDepth sized)
      (Plain.encodeFields_mismatches (Plain.encode_mismatches maxDepth) _ _ _)
  · refine ⟨encode_writes_iff type size bits sized, fun layout e failed => ?_⟩
    exact (encode_mismatches layout size bits e failed).kind

/-- The sample is two records deep, or one below its top. -/
theorem encode_decided_node :
    (∃ bytes, Plain.encode 2 (.record Node.type) (.record Node.sample) = .ok bytes) ∧
      (¬∃ bytes, Plain.encode 1 (.record Node.type) (.record Node.sample) = .ok bytes) ∧
      (¬∃ bytes, Plain.encode 1 (.map (.primitive .int)) (.map ⟨[("a", .long 1)], []⟩) = .ok bytes) ∧
      (∃ bytes, Plain.encodeRecord 1 Node.sample = .ok bytes) ∧
      ∃ bytes, Node.codec.encode Node.sample = .ok bytes := by
  obtain ⟨values, records, codecs⟩ := encode_decided
  have sized : (Value.record Node.sample).Every Record.Sized :=
    (Value.wellFormed_record.mpr Node.sample_wellFormed).sized
  have long : (Value.map ⟨[("a", .long 1)], []⟩).Every Record.Sized :=
    Value.every_map.mpr (List.forall_mem_singleton.mpr (Value.Flat.every ⟨rfl, fun _ => nofun⟩))
  have recordless : (Schema.map (.primitive .int)).Recordless := fun _ => List.not_mem_nil
  have readable := (codecs Node.codec Node.sample rfl rfl rfl fun i _ => Record.every_slot sized i).1
  refine ⟨(values 2 (.record Node.type) _ sized).1.written.mpr ⟨rfl, Node.sample_filled, by decide⟩, ?_, ?_,
    (records 1 _ sized).written.mpr ⟨Node.sample_filled, by decide⟩, readable.mpr fun i isReadable => ?_⟩
  · rw [(values 1 (.record Node.type) _ sized).1.written]
    exact fun fits => absurd fits.2.2 (by decide)
  · rw [((values 1 _ _ long).2 recordless).written]
    exact Bool.false_ne_true
  · have inside : i < 3 := FieldBits.lt_of_get isReadable
    refine ⟨_, List.getElem?_eq_getElem inside, ?_, Record.every_slot Node.sample_filled i, ?_⟩
    · rcases i with _ | _ | _ | i <;> first | rfl | omega
    · rcases i with _ | _ | _ | i <;> first | decide | omega

end Wire.Codec

end TrackedRecord
