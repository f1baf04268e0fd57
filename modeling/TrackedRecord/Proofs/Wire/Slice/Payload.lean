import TrackedRecord.Proofs.Wire.Payload.Closed
import TrackedRecord.Proofs.Wire.Slice.Reader
import TrackedRecord.Wire.Slice.Payload

/-!
# Payloads in a slice

The checked decoders of plain values and of payloads refine those that run over the bytes, if each record they
decode into has a slot for each field of its own layout. A nested record is filled by its own layout; a payload
is filled by the layout of its codec, so a record with fewer slots than that may trap.
-/

namespace TrackedRecord.Wire.Checked

open Plain (InPlace)

variable {size : Nat} {registry : Registry} {settings : Settings}

/-! ### Plain values -/

theorem primitive_refines (kind : Primitive) :
    Refines size (primitive settings kind) (Plain.decodePrimitive settings kind) := by
  cases kind with
  | null => exact .pure _
  | boolean => exact boolean_refines.map
  | int => exact int32_refines.map
  | long => exact int64_refines.map
  | float => exact float32_refines.map
  | double => exact float64_refines.map
  | bytes => exact byteString_refines.map
  | string => exact text_refines.map

theorem enum_refines (e : EnumType) : Refines size (enum e) (Plain.decodeEnum e) := by
  refine .position fun start inside => varint_refines.bind fun ordinal => ?_
  exact .ite (fun _ => .pure _) fun _ => .refuse (.malformed inside)

theorem fixed_refines (f : FixedType) : Refines size (fixed f) (Plain.decodeFixed f) := (exact_refines f.size).map

/-- The run refines the decoder whatever value is in place, if the records in it have their slots. -/
def RefinesInPlace (size : Nat) (run : Option Value → Checked Value) (d : Option Value → Decoder Value) : Prop :=
  ∀ reuse, InPlace (Value.Every Record.Fitted) reuse → Refines size (run reuse) (d reuse)

variable {run : Option Value → Checked Value} {d : Option Value → Decoder Value}

theorem items_refines (each : RefinesInPlace size run d) (left i : Nat) {previous : List Value}
    (fitted : ∀ value ∈ previous, value.Every Record.Fitted) (before : List Value) :
    Refines size (items run left i previous before) (Plain.decodeItems d left i previous before) := by
  induction left generalizing i previous before with
  | zero => exact .pure _
  | succ left ih =>
    have head : InPlace (Value.Every Record.Fitted) previous.head? :=
      fun value first => fitted value (List.mem_of_head? first)
    refine (each _ head).within.bind fun item => ih _ ?_ _
    exact fun value later => fitted value (List.mem_of_mem_tail later)

theorem entries_refines (each : RefinesInPlace size run d) {previous : StateMap Value}
    (fitted : ∀ entry ∈ previous.entries, entry.2.Every Record.Fitted) (left : Nat) (m : StateMap Value) :
    Refines size (entries settings run previous left m) (Plain.decodeEntries settings d previous left m) := by
  induction left generalizing m with
  | zero => exact .pure _
  | succ left ih =>
    refine .position fun start inside => text_refines.bind fun key => ?_
    have inPlace : InPlace (Value.Every Record.Fitted) (previous.get? key) :=
      fun value found => fitted (key, value) (Keyed.mem_of_get? found)
    exact .ite (fun _ => .refuse (.malformed inside)) fun _ => (each _ inPlace).within.bind fun value => ih _

theorem set_split {slots : List Value} {i : Nat} (inside : i < slots.length) (value : Value) :
    ((slots.set i .null).set i value).drop (i + 1) = slots.drop (i + 1) ∧
      ((slots.set i .null).set i value).take (i + 1) = slots.take i ++ [value] := by
  have front : (slots.take i).length = i := List.length_take_of_le (Nat.le_of_lt inside)
  rw [List.set_set]
  refine ⟨List.drop_set_of_lt (Nat.lt_succ_self i), ?_⟩
  rw [List.set_eq_take_append_cons_drop, if_pos inside, List.take_append, front, Nat.add_sub_cancel_left,
    List.take_of_length_le (by omega)]
  rfl

section

variable {run : Schema → Option Value → Checked Value} {d : Schema → Option Value → Decoder Value}

/-- The slots before number `i` stay as they are. -/
theorem fields_refines (each : ∀ schema, RefinesInPlace size (run schema) (d schema)) (name : String)
    {types : List Field} {i : Nat} {slots : List Value} (length : slots.length = i + types.length)
    (fitted : ∀ value ∈ slots.drop i, value.Every Record.Fitted) :
    Refines size (fields run name types i slots)
      (do let values ← Plain.decodeFields d name types (slots.drop i); return slots.take i ++ values) := by
  induction types generalizing i slots with
  | nil =>
    have whole : slots.take i ++ [] = slots := by
      rw [List.append_nil, List.take_of_length_le (show slots.length ≤ i from Nat.le_of_eq length)]
    rw [fields, Plain.decodeFields, pure_bind, whole]
    exact .pure slots
  | cons field rest ih =>
    rw [List.length_cons] at length
    have inside : i < slots.length := by omega
    rw [List.drop_eq_getElem_cons inside, List.forall_mem_cons] at fitted
    rw [fields, index_eq (List.getElem?_eq_getElem inside), pure_bind, put_eq inside, pure_bind,
      List.drop_eq_getElem_cons inside, Plain.decodeFields, bind_assoc]
    refine (each field.schema _ (.some fitted.1)).within.bind fun value => ?_
    obtain ⟨behind, before⟩ := set_split inside value
    have sized : ((slots.set i .null).set i value).length = i + 1 + rest.length := by
      rw [List.length_set, List.length_set]
      omega
    have next := ih sized (behind ▸ fitted.2)
    rw [behind, before] at next
    rw [put_eq (by rwa [List.length_set]), pure_bind]
    simpa only [bind_assoc, pure_bind, List.append_assoc, List.singleton_append, List.tail_cons] using next

theorem refill_refines (each : ∀ schema, RefinesInPlace size (run schema) (d schema))
    {target : Record Value} (fitted : (Value.record target).Every Record.Fitted) :
    Refines size (refill run target) (Plain.refill d target) := by
  obtain ⟨own, inside⟩ := Value.every_record.mp fitted
  have slots := fields_refines each target.layout.name
    (own.slots.trans (Nat.zero_add target.layout.fields.length).symm) inside
  rw [List.drop_zero, List.take_zero] at slots
  simp only [List.nil_append, bind_pure] at slots
  refine slots.bind fun values => ?_
  rw [setAll_eq (FieldBits.new_wellFormed _), pure_bind]
  exact .pure _

end

section

variable {record : RecordRef → Option Value → Checked Value} {record' : RecordRef → Option Value → Decoder Value}

theorem branch_refines {outside : Error} (placed : outside.Placed size) {branches : List Schema} {reuse : Option Value}
    (each : ∀ type ∈ branches,
      Refines size (value settings record type reuse) (Plain.decodeWith settings record' type reuse)) (number : Nat) :
    Refines size (branch settings record outside branches number reuse)
      (Plain.decodeBranch settings record' outside branches number reuse) := by
  induction branches generalizing number with
  | nil =>
    rw [branch, Plain.decodeBranch]
    exact .refuse placed
  | cons type rest ih =>
    rw [List.forall_mem_cons] at each
    cases number with
    | zero =>
      rw [branch, Plain.decodeBranch]
      exact each.1
    | succ number =>
      rw [branch, Plain.decodeBranch]
      exact ih each.2 number

theorem value_refines (each : ∀ type, RefinesInPlace size (record type) (record' type)) (schema : Schema) :
    RefinesInPlace size (value settings record schema) (Plain.decodeWith settings record' schema) := by
  induction schema using Schema.induction with
  | primitive kind =>
    intro reuse _
    rw [value, Plain.decodeWith]
    exact primitive_refines kind
  | enum e =>
    intro reuse _
    rw [value, Plain.decodeWith]
    exact enum_refines e
  | fixed f =>
    intro reuse _
    rw [value, Plain.decodeWith]
    exact fixed_refines f
  | record type =>
    intro reuse fitted
    rw [value, Plain.decodeWith]
    exact each type reuse fitted
  | array element ih =>
    intro reuse fitted
    have previous := fitted.items fun _ _ part_of fitted => fitted.part part_of
    rw [value, Plain.decodeWith]
    refine count_refines.bind fun count => ?_
    intro s inside
    rw [Result.bind_of_run (remaining_run inside)]
    exact (items_refines ih count 0 previous []).map s inside
  | map schema ih =>
    intro reuse fitted
    have previous := fitted.entries fun _ _ part_of fitted => fitted.part part_of
    rw [value, Plain.decodeWith, Plain.decodeEntriesOf, bind_assoc]
    exact count_refines.bind fun count => (entries_refines ih previous count StateMap.empty).map
  | union branches ih =>
    intro reuse fitted
    have inBranch {outside : Error} (placed : outside.Placed size) {reuse : Option Value}
        (fitted : InPlace (Value.Every Record.Fitted) reuse) :=
      branch_refines placed fun type member => ih type member reuse fitted
    rw [value, Plain.decodeWith]
    refine .position fun start inside => varint_refines.bind fun number => ?_
    dsimp only
    cases Schema.nullPosition? branches with
    | some _ => exact inBranch (.malformed inside) fitted number
    | none =>
      have inner := fitted.branch (fun _ _ part_of fitted => fitted.part part_of) number
      exact (inBranch (.malformed inside) inner number).map

end

theorem targetOf_fitted (sound : registry.Sound) {name : String} {compiled : CompiledRecord}
    (found : registry.record? name = some compiled) {reuse : Option Value}
    (fitted : InPlace (Value.Every Record.Fitted) reuse) :
    (Value.record (Plain.targetOf compiled reuse)).Every Record.Fitted := by
  have fresh := (Value.wellFormed_record.mpr (sound.makes found).2).fitted
  unfold Plain.targetOf
  split
  · split
    · exact fitted _ rfl
    · exact fresh
  · exact fresh

theorem nested_refines (sound : registry.Sound) (maxDepth left : Nat) (type : RecordRef) :
    RefinesInPlace size (nested registry settings maxDepth left type)
      (Plain.decodeNested registry settings maxDepth left type) := by
  induction left generalizing type with
  | zero =>
    intro reuse _
    rw [nested, Plain.decodeNested]
    exact .position fun start inside => .refuse (.malformed inside)
  | succ left ih =>
    intro reuse fitted
    rw [nested, Plain.decodeNested]
    cases found : registry.record? type.fullName with
    | none => exact .refuse .schemaMismatch
    | some compiled => exact (refill_refines (value_refines ih) (targetOf_fitted sound found fitted)).map

theorem plain_refines (sound : registry.Sound) (maxDepth : Nat) (schema : Schema) :
    RefinesInPlace size (plain registry settings maxDepth schema)
      (Plain.decode registry settings maxDepth schema) :=
  value_refines (nested_refines sound maxDepth maxDepth) schema

/-! ### Payloads -/

theorem statesFrom_refines (left : Nat) (states : List (String × EntryState)) :
    Refines size (statesFrom settings left states) (Payload.decodeStatesFrom settings left states) := by
  induction left generalizing states with
  | zero => exact .pure _
  | succ left ih =>
    refine .position fun start inside => text_refines.bind fun key => ?_
    refine .position fun tagStart tagInside => byte_refines.bind fun tag => ?_
    cases EntryState.ofTag? tag with
    | none => exact .refuse (.malformed tagInside)
    | some state => exact .ite (fun _ => .refuse (.malformed inside)) fun _ => ih _

theorem states_refines : Refines size (states settings) (Payload.decodeStates settings) :=
  count_refines.bind fun count => statesFrom_refines count []

theorem fieldStates_refines (type : Field) :
    Refines size (fieldStates settings type) (Payload.fieldStates settings type) :=
  .ite (fun _ => states_refines) fun _ => .pure []

theorem field_refines (sound : registry.Sound) (type : Field) {slots : List Value} {i : Nat}
    (inside : i < slots.length) (fitted : slots[i].Every Record.Fitted) :
    Refines size (field registry settings type slots i)
      (do let value ← Payload.readField registry settings type (some slots[i]); return slots.set i value) := by
  unfold field Payload.readField
  rw [bind_assoc]
  refine (fieldStates_refines type).bind fun states => ?_
  rw [bind_assoc]
  refine .position fun start before => ?_
  rw [index_eq (List.getElem?_eq_getElem inside), pure_bind, put_eq inside, pure_bind, bind_assoc]
  refine (plain_refines sound _ _ _ (.some fitted)).bind fun value => ?_
  cases stated : Payload.withStates start states value with
  | error e =>
    rw [Payload.withStates_error stated]
    exact .refuse (.malformed before)
  | ok value =>
    dsimp only
    rw [put_eq (by rwa [List.length_set]), List.set_set, pure_bind]
    exact .pure _

/-- For a field without a slot the entry states are read, and then there is nothing to decode into. -/
theorem field_refinesUnless (sound : registry.Sound) {missing : Prop} (type : Field) {slots : List Value} {i : Nat}
    (fitted : ∀ value, slots[i]? = some value → value.Every Record.Fitted) (outside : slots.length ≤ i → missing) :
    RefinesUnless missing size (field registry settings type slots i)
      (do let value ← Payload.decodeField registry settings type slots i; return slots.set i value) := by
  by_cases inside : i < slots.length
  · have present := List.getElem?_eq_getElem inside
    rw [Payload.decodeField_some present]
    exact .of (field_refines sound type inside (fitted _ present))
  · have beyond := Nat.not_lt.mp inside
    have absent := List.getElem?_eq_none beyond
    unfold field
    rw [Payload.decodeField_none absent, bind_assoc, index, absent]
    exact (RefinesUnless.of (fieldStates_refines type)).bind fun states => .trap (outside beyond) rfl

/-- The fields are those of the layout, the slots those of any record. -/
theorem numberedFields_refinesUnless (sound : registry.Sound) {missing : Prop} {layout : Layout} {numbers : List Nat}
    (distinct : numbers.Nodup) (known : ∀ i ∈ numbers, i < layout.fieldCount) {slots : List Value}
    (fitted : ∀ i ∈ numbers, ∀ value, slots[i]? = some value → value.Every Record.Fitted)
    (outside : ∀ i ∈ numbers, slots.length ≤ i → missing) :
    RefinesUnless missing size (numberedFields registry settings layout numbers slots)
      (Payload.decodeFields registry settings layout numbers slots) := by
  induction numbers generalizing slots with
  | nil => exact .of (.pure slots)
  | cons i rest ih =>
    obtain ⟨fresh, distinctRest⟩ := List.nodup_cons.mp distinct
    rw [List.forall_mem_cons] at known fitted outside
    obtain ⟨type, found⟩ : ∃ type, layout.fields[i]? = some type := ⟨_, List.getElem?_eq_getElem known.1⟩
    rw [numberedFields, index_eq found, pure_bind, Payload.decodeFields, found]
    dsimp only
    rw [Decoder.within_bind _ _ (slots.set i) (Payload.decodeFields registry settings layout rest)]
    have written : Decoder.Gives (fun slots' => ∃ value, slots' = slots.set i value)
        (do let value ← Payload.decodeField registry settings type slots i; return slots.set i value) :=
      (Decoder.Gives.any _).map fun value _ => ⟨value, rfl⟩
    refine (field_refinesUnless sound type fitted.1 outside.1).within.bind_given written.within ?_
    rintro _ ⟨value, rfl⟩
    refine ih distinctRest known.2 (fun j later old here => ?_) (by rw [List.length_set]; exact outside.2)
    have different : i ≠ j := fun same => fresh (same ▸ later)
    rw [List.getElem?_set_ne different] at here
    exact fitted.2 j later old here

theorem bitmap_refines {layout : Layout} (which : String) :
    Refines size (bitmap layout which) (Payload.decodeBitmap layout which) := by
  refine .position fun start inside => varint_refines.bind_given Decoder.varint_gives fun bits word => ?_
  exact .ite (fun _ => .refuse (.atByte .schemaMismatch inside)) fun _ => packedBits_refines word

theorem fill_refinesUnless (sound : registry.Sound) (layout : Layout) {target : Record Value}
    (fitted : ∀ slot ∈ target.slots, slot.Every Record.Fitted) :
    RefinesUnless (target.slots.length < layout.fieldCount) size (fill registry settings layout target)
      (Payload.fill registry settings layout target) := by
  have shaped : Decoder.Gives (fun bits => bits.WellFormed ∧ bits.len = layout.fieldCount)
      (Payload.decodeBitmap layout "readable") := fun _ _ _ run =>
    ⟨(Payload.decodeBitmap_ok run).1, (Payload.decodeBitmap_ok run).2.1⟩
  refine (RefinesUnless.of (bitmap_refines _)).bind fun dirty =>
    (RefinesUnless.of (bitmap_refines _)).bind_given shaped fun readable shape => ?_
  have known : ∀ i ∈ readable.ones, i < layout.fieldCount := fun i member =>
    shape.2 ▸ FieldBits.lt_of_get (FieldBits.mem_ones.mp member)
  rw [ones_eq shape.1, pure_bind]
  refine (numberedFields_refinesUnless sound readable.ones_nodup known (fun _ _ value here => ?_)
    fun i member outside => ?_).map
  · exact fitted value (List.mem_of_getElem? here)
  · exact Nat.lt_of_le_of_lt outside (known i member)

theorem whole_pure_refines {α : Type} (a : α) : Refines size (whole (pure a)) (Decoder.whole (pure a)) := by
  intro s inside
  have left := inside.rest_length
  have last : s.cursor.rest = [] ↔ s.pos = s.data.length := by
    have := inside.pos
    rw [← List.length_eq_zero_iff, left, inside.length]
    omega
  rw [Decoder.whole_of_ok (show (pure a : Decoder α) s.cursor = .ok a s.cursor from rfl), whole, pure_bind,
    Result.bind_of_run (show atEnd s = .ok (s.pos == s.data.length) s from rfl)]
  by_cases nothing : s.cursor.rest = []
  · rw [if_pos nothing, if_pos (beq_iff_eq.mpr (last.mp nothing))]
    exact .ok inside.onward
  · rw [if_neg nothing, if_neg (mt beq_iff_eq.mp (mt last.mpr nothing)),
      Result.bind_of_run (show position s = .ok s.pos s from rfl), Result.bind_of_run (remaining_run inside), left]
    exact .error inside.onward (.malformed inside.pos)

theorem whole_refinesUnless {α : Type} {missing : Prop} {run : Checked α} {d : Decoder α}
    (inner : RefinesUnless missing size run d) : RefinesUnless missing size (whole run) d.whole :=
  inner.bind fun a => .of (whole_pure_refines a)

theorem payload_refinesUnless (sound : registry.Sound) (layout : Layout) {target : Record Value}
    (fitted : ∀ slot ∈ target.clearState.slots, slot.Every Record.Fitted) :
    RefinesUnless (target.clearState.slots.length < layout.fieldCount) size
      (payload registry settings layout target) (Payload.decode registry settings layout target) := by
  rw [Payload.decode_eq_whole]
  exact whole_refinesUnless (fill_refinesUnless sound layout fitted)

theorem payload_refines (sound : registry.Sound) {target : Record Value}
    (formed : target.clearState.WellFormed registry) :
    Refines size (payload registry settings target.layout target)
      (Payload.decode registry settings target.layout target) := by
  refine (payload_refinesUnless sound target.layout fun slot member => ?_).refines ?_
  · exact (formed.2 slot member).fitted
  · exact Nat.not_lt.mpr (Nat.le_of_eq formed.1.slots.symm)

end TrackedRecord.Wire.Checked
