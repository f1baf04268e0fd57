import TrackedRecord.Json.Basic

/-!
# Induction over JSON documents

What holds of a document may be shown from what holds of each document in it.
-/

namespace TrackedRecord.Json

/-- The items of an array and the values of an object. -/
def parts : Json → List Json
  | .array items => items
  | .object members => members.map Prod.snd
  | _ => []

@[elab_as_elim]
theorem induction {P : Json → Prop} (step : ∀ json : Json, (∀ part ∈ json.parts, P part) → P json)
    (json : Json) : P json := by
  have scalar {json : Json} (none : json.parts = []) : P json := by
    refine step json ?_
    rw [none]
    exact List.forall_mem_nil _
  refine @Json.rec P (fun items => ∀ item ∈ items, P item)
    (fun members => ∀ member ∈ members, P (Prod.snd member)) (fun member => P member.2)
    (scalar rfl) (fun _ => scalar rfl) (fun _ => scalar rfl) (fun _ => scalar rfl) (fun items => step (.array items))
    (fun members each => step (.object members) (List.forall_mem_map.mpr each))
    (fun _ member => nomatch member) ?items (fun _ member => nomatch member) ?members (fun _ _ each => each) json
  case items | members =>
    intro head tail first others json member
    rcases List.mem_cons.mp member with same | later
    · exact same ▸ first
    · exact others json later

end TrackedRecord.Json
