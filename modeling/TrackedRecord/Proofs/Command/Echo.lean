import TrackedRecord.Proofs.Command.Summary

/-!
# Summaries of decoded records

A record that comes out of its own payload has the summary of the record that went in.
-/

namespace TrackedRecord

/-! ### Documents of plain values -/

namespace Value

theorem plain_toJson (value : Value) (schema : Schema) : value.plain.toJson schema = value.toJson schema := by
  induction value using Value.induction generalizing schema with
  | record layout slots dirty readable ih =>
    rw [plain_record, toJson, toJson, fieldsToJson_eq, fieldsToJson_eq, List.zip_map_right, List.map_map]
    refine congrArg Json.ofMembers (List.map_congr_left fun pair member => ?_)
    have slot : pair.2 ∈ slots := (List.of_mem_zip (show (pair.1, pair.2) ∈ _ from member)).2
    exact congrArg (Prod.mk pair.1.name) (ih pair.2 slot pair.1.schema)
  | array items ih =>
    rw [plain_array, toJson, toJson]
    split
    · rw [itemsToJson_eq, itemsToJson_eq, List.map_map]
      exact congrArg Json.array (List.map_congr_left fun item member => ih item member _)
    · rfl
  | map entries states ih =>
    rw [plain_map, toJson, toJson]
    split
    · rw [entriesToJson_eq, entriesToJson_eq, List.map_map]
      refine congrArg Json.ofMembers (List.map_congr_left fun entry member => ?_)
      exact congrArg (Prod.mk entry.1) (ih entry member _)
    · rfl
  | union branch value ih =>
    rw [plain_union, toJson, toJson]
    split
    · split
      · rw [ih]
      · rfl
    · rfl
  | null => rfl
  | _ => simp [plain]

theorem withTable_toJson (states : List (String × EntryState)) (value : Value) (schema : Schema) :
    (value.withTable states).toJson schema = value.toJson schema := by
  cases value with
  | map m => rw [withTable, toJson, toJson]
  | _ => rfl

end Value

namespace Wire.Payload

theorem kept_toJson (field : Field) (value : Value) (schema : Schema) :
    (kept field value).toJson schema = value.toJson schema := by
  rw [kept, Value.withTable_toJson, Value.plain_toJson]

end Wire.Payload

/-! ### Summaries -/

/-- Only the keys and their states count. -/
theorem StateMap.stateSummary_congr {m m' : StateMap Value} (keys : m'.keys = m.keys)
    (states : m'.states = m.states) : m'.stateSummary = m.stateSummary := by
  have contains (key : String) : m'.contains key = m.contains key := by
    rw [Bool.eq_iff_iff, StateMap.contains, StateMap.contains, Keyed.contains, Keyed.contains, ← Keyed.mem_keys_iff,
      ← Keyed.mem_keys_iff, ← StateMap.keys, keys, StateMap.keys]
  have state (key : String) : m'.state? key = m.state? key := by
    rw [StateMap.state?, StateMap.state?, states, contains]
  rw [StateMap.stateSummary, StateMap.stateSummary, StateMap.allStates, StateMap.allStates, states, keys]
  simp only [state]

theorem Wire.Payload.kept_stateSummary {field : Field} {value : Value}
    (kind : value.map?.isSome = true → field.kind = .map) :
    (kept field value).map?.map StateMap.stateSummary = value.map?.map StateMap.stateSummary := by
  rw [kept_map?, Option.map_map]
  cases value with
  | map m =>
    have table : tableOf field (.map m) = m.states := if_pos (kind rfl)
    refine congrArg some (StateMap.stateSummary_congr ?_ table)
    exact List.map_map
  | _ => rfl

theorem Keyed.eq_of_mem_iff {α : Type} {as bs : List (String × α)} (sortedA : Sorted as) (sortedB : Sorted bs)
    (same : ∀ entry, entry ∈ as ↔ entry ∈ bs) : as = bs := by
  refine ext sortedA sortedB fun key => Option.ext fun value => ?_
  constructor
  · exact fun found => sortedB.get?_mem ((same _).mp (mem_of_get? found))
  · exact fun found => sortedA.get?_mem ((same _).mpr (mem_of_get? found))

namespace Record.Echoes

variable {r d : Record Value}

theorem readableToJson (echoes : r.Echoes d) (regular : r.layout.Regular) (sized : r.Sized) :
    d.readableToJson = r.readableToJson := by
  have shown : d.isReadable = r.isReadable := funext fun i => congrArg (FieldBits.get · i) echoes.readable
  rw [readableToJson_eq, readableToJson_eq, shown]
  refine congrArg Json.object (Keyed.eq_of_mem_iff (Keyed.sorted_ofList _) (Keyed.sorted_ofList _) fun member => ?_)
  have each (i : Nat) (field : Field) (known : r.layout.field? i = some field) (readable : r.isReadable i = true) :
      (d.slot i).toJson field.schema = (r.slot i).toJson field.schema := by
    obtain ⟨other, same, slot⟩ := echoes.shown i readable
    rw [slot, Wire.Payload.kept_toJson]
  refine (mem_members (echoes.layout ▸ regular) echoes.sized).trans ?_
  refine Iff.trans ?_ (mem_members regular sized).symm
  rw [echoes.layout]
  constructor
  · rintro ⟨i, field, known, readable, rfl⟩
    exact ⟨i, field, known, readable, by rw [each i field known readable]⟩
  · rintro ⟨i, field, known, readable, rfl⟩
    exact ⟨i, field, known, readable, by rw [each i field known readable]⟩

/-- What a document tells of a record it tells of what is decoded. -/
theorem tells (echoes : r.Echoes d) {layout : Layout} {members : List (String × Json)}
    (tells : Document.Tells layout members r) : Document.Tells layout members d where
  sameLayout := echoes.layout.trans tells.sameLayout
  dirtyLen := echoes.dirty ▸ tells.dirtyLen
  readableLen := echoes.readable ▸ tells.readableLen
  dirty i := by rw [isDirty, echoes.dirty]; exact tells.dirty i
  readable i := by rw [isReadable, echoes.readable]; exact tells.readable i
  maps {i field json} known found := by
    have told := tells.maps known found
    have readable := (tells.readable i).mpr ((Document.names_iff known).mpr (by rw [found]; rfl))
    obtain ⟨other, same, slot⟩ := echoes.shown i readable
    rw [tells.sameLayout, known] at same
    obtain rfl := Option.some.inj same
    rw [slot, Wire.Payload.kept_stateSummary, told]
    -- only a map field has a map in its slot
    intro isMap
    obtain ⟨m, holds⟩ := Option.isSome_iff_exists.mp isMap
    rw [holds] at told
    exact Document.kind_of_fieldStates told.symm

end Record.Echoes

end TrackedRecord
