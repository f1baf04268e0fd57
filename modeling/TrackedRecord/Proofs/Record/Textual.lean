import TrackedRecord.Proofs.Json.Written
import TrackedRecord.Proofs.Record.Rendering

/-!
# Texts of rendered values

Whatever a value holds, its document is one that a text stands for: numbers have 64 bits or are finite, and the
members of records and maps are sorted.
-/

namespace TrackedRecord

namespace Value

theorem ofDouble_textual (bits : UInt64) : (Json.ofDouble bits).Textual := by
  unfold Json.ofDouble
  split
  · rename_i unpacked
    exact .number ⟨_, _, _, unpacked⟩
  · exact .null

theorem bytesToJson_textual (data : List UInt8) : (bytesToJson data).Textual := by
  refine .array (List.forall_mem_map.mpr fun b _ => .number ?_)
  have small := b.toNat_lt
  exact ⟨by unfold Json.minWhole; omega, by unfold Json.maxWhole; omega⟩

theorem toJson_textual (value : Value) (schema : Schema) : (value.toJson schema).Textual := by
  induction value using Value.induction generalizing schema with
  | null => exact .null
  | boolean b => exact .bool b
  | int n =>
    have low := n.le_toInt
    have high := n.toInt_lt
    exact .number ⟨by unfold Json.minWhole; omega, by unfold Json.maxWhole; omega⟩
  | long n =>
    have low := n.le_toInt
    have high := n.toInt_lt
    exact .number ⟨by unfold Json.minWhole; omega, by unfold Json.maxWhole; omega⟩
  | float bits => exact ofDouble_textual _
  | double bits => exact ofDouble_textual bits
  | bytes data => exact bytesToJson_textual data
  | string s => exact .string s
  | enum ordinal =>
    rw [toJson]
    split
    · rename_i e _
      cases e.symbols[ordinal]? with
      | none => exact .null
      | some symbol => exact .string symbol
    · exact .null
  | fixed data => exact bytesToJson_textual data
  | record layout slots dirty readable ih =>
    rw [toJson, fieldsToJson_eq]
    exact .ofMembers (List.forall_mem_map.mpr fun pair member => ih pair.2 (List.of_mem_zip member).2 _)
  | array items ih =>
    rw [toJson]
    split
    · rw [itemsToJson_eq]
      exact .array (List.forall_mem_map.mpr fun item member => ih item member _)
    · exact .null
  | map entries states ih =>
    rw [toJson]
    split
    · rw [entriesToJson_eq]
      exact .ofMembers (List.forall_mem_map.mpr fun entry member => ih entry member _)
    · exact .null
  | union branch value ih =>
    rw [toJson]
    split
    · split
      · rename_i type _
        split
        · exact .null
        · have one : (Json.ofMembers [(type.typeName, value.toJson type)]).Textual :=
            .ofMembers (List.forall_mem_singleton.mpr (ih type))
          exact one
      · exact .null
    · exact .null

end Value

theorem Record.readableToJson_textual (r : Record Value) : r.readableToJson.Textual :=
  .ofMembers (List.forall_mem_map.mpr fun pair _ => pair.2.toJson_textual _)

end TrackedRecord
