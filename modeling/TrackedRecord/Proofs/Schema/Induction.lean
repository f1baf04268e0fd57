import TrackedRecord.Schema.Basic

/-!
# Induction over schemas

What holds of a union may be shown from what holds of each of its branches.
-/

namespace TrackedRecord.Schema

@[elab_as_elim]
theorem induction {P : Schema → Prop} (primitive : ∀ kind, P (.primitive kind)) (enum : ∀ e, P (.enum e))
    (fixed : ∀ f, P (.fixed f)) (record : ∀ r, P (.record r))
    (array : ∀ element, P element → P (.array element))
    (map : ∀ value, P value → P (.map value))
    (union : ∀ branches, (∀ branch ∈ branches, P branch) → P (.union branches)) (schema : Schema) :
    P schema := by
  refine @Schema.rec P (fun branches => ∀ branch ∈ branches, P branch) primitive enum fixed record array map
    union ?nil ?cons schema
  case nil => exact fun _ member => nomatch member
  case cons =>
    intro head tail first others branch member
    rcases List.mem_cons.mp member with same | later
    · exact same ▸ first
    · exact others branch later

theorem eq_null {schema : Schema} (isNull : schema.isNull = true) : schema = .primitive .null := by
  unfold Schema.isNull at isNull
  split at isNull
  · rfl
  · cases isNull

end TrackedRecord.Schema
