import TrackedRecord.Proofs.Wire.Plain.Complete
import TrackedRecord.Proofs.Wire.Plain.Typed

/-!
# How deep plain values nest

Whatever the bytes are, the reader gives no value in which more records nest than it may enter. The writer,
where it may go deeper, still writes what it wrote.
-/

namespace TrackedRecord

namespace Value

theorem depthAll_map {f : Value → Value} {values : List Value}
    (each : ∀ value ∈ values, (f value).depth = value.depth) : depthAll (values.map f) = depthAll values := by
  induction values with
  | nil => rfl
  | cons value rest ih =>
    rw [List.forall_mem_cons] at each
    rw [List.map_cons, depthAll, depthAll, each.1, ih each.2]

theorem depthEntries_map {f : Value → Value} {entries : List (String × Value)}
    (each : ∀ entry ∈ entries, (f (Prod.snd entry)).depth = entry.2.depth) :
    depthEntries (entries.map fun entry => (entry.1, f entry.2)) = depthEntries entries := by
  induction entries with
  | nil => rfl
  | cons entry rest ih =>
    rw [List.forall_mem_cons] at each
    rw [List.map_cons, depthEntries, depthEntries, each.1, ih each.2]

theorem depth_plain (value : Value) : value.plain.depth = value.depth := by
  induction value using Value.induction with
  | record layout slots dirty readable ih => rw [plain_record, depth, depth, depthAll_map ih]
  | array items ih => rw [plain_array, depth, depth, depthAll_map ih]
  | map entries states ih => rw [plain_map, depth, depth, depthEntries_map ih]
  | union branch value ih => rw [plain_union, depth, depth, ih]
  | _ => rfl

theorem depth_withTable (states : List (String × EntryState)) (value : Value) :
    (value.withTable states).depth = value.depth := by
  cases value with
  | map m => rw [withTable, depth, depth]
  | _ => rfl

end Value

namespace Wire.Plain

open Decoder (Gives)

variable {registry : Registry} {settings : Settings}

/-! ### Reading -/

/-- The decoder gives values in which at most `k` records nest. -/
abbrev Shallow (k : Nat) (d : Decoder Value) : Prop := Gives (fun value => value.depth ≤ k) d

theorem decodeWith_shallow {record : RecordRef → Option Value → Decoder Value} {k : Nat}
    (nested : ∀ type reuse, Shallow k (record type reuse)) (schema : Schema) (reuse : Option Value) :
    Shallow k (decodeWith settings record schema reuse) := by
  induction schema using Schema.induction generalizing reuse with
  | primitive kind =>
    rw [decodeWith]
    cases kind with
    | null => exact Gives.pure (Nat.zero_le k)
    | _ => exact (Gives.any _).map fun _ _ => Nat.zero_le k
  | enum e =>
    rw [decodeWith]
    refine (Gives.any _).bind fun start _ => (Gives.any _).bind fun ordinal _ => ?_
    exact Gives.ite (fun _ => Gives.pure (Nat.zero_le k)) fun _ => Gives.throw _
  | fixed f =>
    rw [decodeWith]
    exact (Gives.any _).map fun _ _ => Nat.zero_le k
  | record type =>
    rw [decodeWith]
    exact nested type reuse
  | array element ih =>
    have each (reuse : Option Value) (_ : InPlace (fun _ => True) reuse) := ih reuse
    rw [decodeWith]
    refine (Gives.any _).bind fun count _ => Gives.map ?_ fun items => Value.depth_array_le.mpr
    exact decodeItems_gives each count 0 (fun _ _ => trivial) (List.forall_mem_nil _)
  | map schema ih =>
    have each (reuse : Option Value) (_ : InPlace (fun _ => True) reuse) := ih reuse
    rw [decodeWith]
    refine Gives.map (Gives.bind (Gives.any _) fun count _ => ?_) fun m => Value.depth_map_le.mpr
    exact decodeEntries_gives each (fun _ _ => trivial) count (List.forall_mem_nil _)
  | union branches ih =>
    have inBranch (outside : Error) (branch : Nat) (reuse : Option Value) :
        Shallow k (decodeBranch settings record outside branches branch reuse) :=
      decodeBranch_of_each (Gives.throw _) (fun type member => ih type member reuse) branch
    rw [decodeWith]
    refine (Gives.any _).bind fun start _ => (Gives.any _).bind fun branch _ => ?_
    cases Schema.nullPosition? branches with
    | some position => exact inBranch _ branch reuse
    | none =>
      refine (inBranch _ branch _).map fun value => ?_
      rw [Value.depth_union]
      exact id

theorem refill_shallow {decode : Schema → Option Value → Decoder Value} {k : Nat}
    (each : ∀ schema reuse, Shallow k (decode schema reuse)) (target : Record Value) :
    Gives (fun r => ∀ slot ∈ r.slots, slot.depth ≤ k) (refill decode target) := by
  have inPlace (schema : Schema) (reuse : Option Value) (_ : InPlace (fun _ => True) reuse) := each schema reuse
  refine (decodeFields_gives inPlace target.layout.name target.layout.fields fun _ _ => trivial).map ?_
  rintro values ⟨length, shallow⟩ slot member
  obtain ⟨i, inside, rfl⟩ := Record.mem_slots member
  exact shallow i _ (List.getElem?_eq_getElem (length ▸ inside))

/-- A record takes one level from its slots, and where none is left there is no record. -/
theorem decodeNested_shallow (registry : Registry) (settings : Settings) (maxDepth left : Nat)
    (type : RecordRef) (reuse : Option Value) :
    Shallow left (decodeNested registry settings maxDepth left type reuse) := by
  induction left generalizing type reuse with
  | zero =>
    rw [decodeNested]
    exact (Gives.any _).bind fun _ _ => Gives.throw _
  | succ left ih =>
    rw [decodeNested]
    cases registry.record? type.fullName with
    | none => exact Gives.throw _
    | some compiled =>
      exact (refill_shallow (decodeWith_shallow ih) _).map fun r => Value.depth_record_le.mpr

theorem decode_shallow (registry : Registry) (settings : Settings) (maxDepth : Nat) (schema : Schema)
    (reuse : Option Value) : Shallow maxDepth (decode registry settings maxDepth schema reuse) :=
  decodeWith_shallow (decodeNested_shallow registry settings maxDepth maxDepth) schema reuse

/-! ### Writing -/

/-- Whatever the first writer writes, the second one writes too. -/
def Extends (write write' : Value → Except Error (List UInt8)) : Prop :=
  ∀ value bytes, write value = .ok bytes → write' value = .ok bytes

theorem encodeItems_extends {write write' : Value → Except Error (List UInt8)} (more : Extends write write')
    {items : List Value} {i : Nat} {bytes : List UInt8} (written : encodeItems write i items = .ok bytes) :
    encodeItems write' i items = .ok bytes := by
  induction items generalizing i bytes with
  | nil => exact written
  | cons item rest ih =>
    obtain ⟨first, others, head, tail, rfl⟩ := encodeItems_cons.mp written
    exact encodeItems_cons.mpr ⟨first, others, more item first head, ih tail, rfl⟩

theorem encodeEntries_extends {write write' : Value → Except Error (List UInt8)} (more : Extends write write')
    {entries : List (String × Value)} {bytes : List UInt8} (written : encodeEntries write entries = .ok bytes) :
    encodeEntries write' entries = .ok bytes := by
  induction entries generalizing bytes with
  | nil => exact written
  | cons entry rest ih =>
    obtain ⟨first, others, head, tail, rfl⟩ := encodeEntries_cons.mp written
    exact encodeEntries_cons.mpr ⟨first, others, more entry.2 first head, ih tail, rfl⟩

theorem encodeFields_extends {write write' : Schema → Value → Except Error (List UInt8)}
    (more : ∀ schema, Extends (write schema) (write' schema)) {name : String} {fields : List Field}
    {values : List Value} {bytes : List UInt8} (written : encodeFields write name fields values = .ok bytes) :
    encodeFields write' name fields values = .ok bytes := by
  induction fields generalizing values bytes with
  | nil => exact written
  | cons field fields ih =>
    cases values with
    | nil => exact written
    | cons value values =>
      obtain ⟨first, others, head, tail, rfl⟩ := encodeFields_cons.mp written
      exact encodeFields_cons.mpr ⟨first, others, more field.schema value first head, ih tail, rfl⟩

theorem encodeWith_extends {record record' : RecordRef → Value → Except Error (List UInt8)}
    (nested : ∀ type, Extends (record type) (record' type)) (schema : Schema) :
    Extends (encodeWith record schema) (encodeWith record' schema) := by
  induction schema using Schema.induction with
  | primitive kind =>
    intro value bytes written
    rw [encodeWith] at written ⊢
    exact written
  | enum e =>
    intro value bytes written
    rw [encodeWith] at written ⊢
    exact written
  | fixed f =>
    intro value bytes written
    rw [encodeWith] at written ⊢
    exact written
  | record type =>
    intro value bytes written
    rw [encodeWith] at written ⊢
    exact nested type value bytes written
  | array element ih =>
    intro value bytes written
    obtain ⟨items, encoded, rfl, each, rfl⟩ := encodeArray_ok.mp written
    exact encodeArray_ok.mpr ⟨items, encoded, rfl, encodeItems_extends ih each, rfl⟩
  | map schema ih =>
    intro value bytes written
    obtain ⟨m, encoded, rfl, each, rfl⟩ := encodeMap_ok.mp written
    exact encodeMap_ok.mpr ⟨m, encoded, rfl, encodeEntries_extends ih each, rfl⟩
  | union branches ih =>
    intro value bytes written
    cases nullable : Schema.nullPosition? branches with
    | some position =>
      refine (encodeNullable_ok nullable).mpr (((encodeNullable_ok nullable).mp written).imp_right ?_)
      rintro ⟨other, type, encoded, found, inner, rfl⟩
      exact ⟨other, type, encoded, found, ih type (List.mem_of_getElem? found) value encoded inner, rfl⟩
    | none =>
      obtain ⟨branch, inner, type, encoded, rfl, found, held, rfl⟩ := (encodeTagged_ok nullable).mp written
      have member := List.mem_of_getElem? found
      exact (encodeTagged_ok nullable).mpr
        ⟨branch, inner, type, encoded, rfl, found, ih type member inner encoded held, rfl⟩

theorem encodeNested_extends (maxDepth maxDepth' : Nat) {left left' : Nat} (le : left ≤ left') (type : RecordRef) :
    Extends (encodeNested maxDepth left type) (encodeNested maxDepth' left' type) := by
  induction left generalizing left' type with
  | zero => exact fun value bytes written => absurd written encodeNested_zero
  | succ left ih =>
    obtain ⟨left', rfl⟩ : ∃ more, left' = more + 1 := ⟨left' - 1, by omega⟩
    intro value bytes written
    obtain ⟨r, rfl, named, fields⟩ := encodeNested_ok.mp written
    have nested := encodeWith_extends (ih (Nat.le_of_succ_le_succ le))
    exact encodeNested_ok.mpr ⟨r, rfl, named, encodeFields_extends nested fields⟩

/-- What is written within some depth is written alike within a greater one. -/
theorem encode_extends {maxDepth maxDepth' : Nat} (le : maxDepth ≤ maxDepth') (schema : Schema) :
    Extends (encode maxDepth schema) (encode maxDepth' schema) :=
  encodeWith_extends (encodeNested_extends maxDepth maxDepth' le) schema

end Wire.Plain

end TrackedRecord
