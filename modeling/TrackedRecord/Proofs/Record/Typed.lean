import TrackedRecord.Proofs.Record.Changes
import TrackedRecord.Proofs.Record.Partial
import TrackedRecord.Proofs.Registry.Built
import TrackedRecord.Proofs.Value.Conforms
import TrackedRecord.Proofs.Value.Parts

/-!
# Typed records

A record is typed if it has a slot and two bits for each field of its layout, and every slot is null or
conforms to the schema of its field. Every operation on records keeps that, for the record and for all
records inside it.
-/

namespace TrackedRecord

structure Record.Typed (registry : Registry) (r : Record Value) : Prop where
  shaped : r.Shaped registry
  slots : ∀ i field, r.layout.field? i = some field → r.slot i = .null ∨ (r.slot i).conforms field.schema = true

/-- All records inside are typed. -/
abbrev Value.Typed (registry : Registry) (value : Value) : Prop := value.Every (Record.Typed registry)

namespace Field

variable {field : Field} {value : Value}

theorem conforms_iff :
    value.conforms field.schema = true ↔
      (value = .null ∧ field.isNullable = true) ∨ value.conforms field.valueSchema = true := by
  unfold isNullable valueSchema
  cases nullable : field.schema.nullableInner? with
  | none => simp
  | some inner => simp [Value.conforms_inner nullable]

theorem of_list (kind : field.kind = .list) :
    ∃ element, field.valueSchema = .array element ∧ field.element? = some element := by
  unfold Field.kind at kind
  unfold element?
  split at kind
  · rename_i element same
    exact ⟨element, same, by rw [same]⟩
  all_goals cases kind

theorem of_map (kind : field.kind = .map) :
    ∃ schema, field.valueSchema = .map schema ∧ field.mapValue? = some schema := by
  unfold Field.kind at kind
  unfold mapValue?
  split at kind
  · cases kind
  · rename_i schema same
    exact ⟨schema, same, by rw [same]⟩
  all_goals cases kind

/-- The items in a list field, of which there are none before it is set. -/
theorem items_conform {element : Schema} (list : field.valueSchema = .array element)
    (typed : value = .null ∨ value.conforms field.schema = true) :
    ∀ item ∈ value.array?.getD [], item.conforms element = true := by
  have shape : value = .null ∨ value.conforms field.valueSchema = true :=
    typed.elim Or.inl fun fits => (conforms_iff.mp fits).imp_left And.left
  rcases shape with rfl | fits
  · exact List.forall_mem_nil _
  · rw [list] at fits
    obtain ⟨items, rfl, each⟩ := Value.conforms_array.mp fits
    exact each

theorem entries_conform {schema : Schema} (map : field.valueSchema = .map schema)
    (typed : value = .null ∨ value.conforms field.schema = true) :
    ∀ entry ∈ value.mapOrEmpty.entries, entry.2.conforms schema = true := by
  have shape : value = .null ∨ value.conforms field.valueSchema = true :=
    typed.elim Or.inl fun fits => (conforms_iff.mp fits).imp_left And.left
  rcases shape with rfl | fits
  · exact List.forall_mem_nil _
  · rw [map] at fits
    obtain ⟨m, rfl, each⟩ := Value.conforms_map.mp fits
    exact each

end Field

namespace Change

/-- The value that a call supplies. -/
def supplied? : Change → Option Value
  | .set _ value | .append _ value | .put _ _ value => some value
  | .remove .. | .clear _ => none

theorem Fits.result_conforms {change : Change} {field : Field} {old : Value} (fits : change.Fits field)
    (typed : old = .null ∨ old.conforms field.schema = true) :
    (change.result old).conforms field.schema = true := by
  cases change with
  | set index value => exact fits
  | append index item =>
    obtain ⟨kind, fits⟩ := fits
    obtain ⟨element, list, known⟩ := Field.of_list kind
    refine Field.conforms_iff.mpr (Or.inr ?_)
    rw [list]
    refine Value.conforms_array.mpr ⟨_, rfl, List.forall_mem_append.mpr ⟨?_, ?_⟩⟩
    · exact Field.items_conform list typed
    · exact List.forall_mem_singleton.mpr (fits element known)
  | put index key value =>
    obtain ⟨kind, fits⟩ := fits
    obtain ⟨schema, map, known⟩ := Field.of_map kind
    refine Field.conforms_iff.mpr (Or.inr ?_)
    rw [map]
    refine Value.conforms_map.mpr ⟨_, rfl, fun entry member => ?_⟩
    rcases Keyed.mem_put member with rfl | present
    · exact fits schema known
    · exact Field.entries_conform map typed entry present
  | remove index key =>
    obtain ⟨schema, map, _⟩ := Field.of_map fits
    refine Field.conforms_iff.mpr (Or.inr ?_)
    rw [map]
    refine Value.conforms_map.mpr ⟨_, rfl, fun entry member => ?_⟩
    exact Field.entries_conform map typed entry (List.mem_filter.mp member).1
  | clear index =>
    obtain ⟨schema, map, _⟩ := Field.of_map fits
    refine Field.conforms_iff.mpr (Or.inr ?_)
    rw [map]
    exact Value.conforms_map.mpr ⟨_, rfl, List.forall_mem_nil _⟩

theorem result_every {P : Record Value → Prop} {change : Change} {old : Value} (before : old.Every P)
    (supplied : ∀ value, change.supplied? = some value → value.Every P) : (change.result old).Every P := by
  cases change with
  | set index value => exact supplied value rfl
  | append index item =>
    refine Value.every_array.mpr (List.forall_mem_append.mpr ⟨before.items, ?_⟩)
    exact List.forall_mem_singleton.mpr (supplied item rfl)
  | put index key value =>
    refine Value.every_map.mpr fun entry member => ?_
    rcases Keyed.mem_put member with rfl | present
    · exact supplied value rfl
    · exact before.entries entry present
  | remove index key =>
    exact Value.every_map.mpr fun entry member => before.entries entry (List.mem_filter.mp member).1
  | clear index => exact Value.every_map.mpr (List.forall_mem_nil _)

end Change

namespace Record

variable {registry : Registry} {r r' : Record Value}

theorem every_slot {P : Record Value → Prop} (every : (Value.record r).Every P) (i : Nat) :
    (r.slot i).Every P := by
  rcases slot_mem_or_null r i with present | absent
  · exact (Value.every_record.mp every).2 _ present
  · rw [absent]
    exact Value.every_null

/-- One record in place of another is typed throughout if it is typed and its slots are. -/
theorem typed_of_slots (typed : r.Typed registry) (slots : ∀ i, (r.slot i).Typed registry) :
    (Value.record r).Typed registry := by
  refine Value.every_record.mpr ⟨typed, fun slot member => ?_⟩
  obtain ⟨i, _, rfl⟩ := mem_slots member
  exact slots i

theorem empty_typed {layout : Layout} (known : registry.get? layout.fullName = some layout) :
    (Value.record (empty layout)).Typed registry := by
  refine typed_of_slots ⟨(empty_wellFormed known).1, fun i _ _ => Or.inl (slot_empty layout i)⟩ fun i => ?_
  rw [slot_empty]
  exact Value.every_null

/-- Other bits of the right length, and the same slots but for their entry states. -/
theorem typed_of_same_slots (typed : (Value.record r).Typed registry) (shaped : r'.Shaped registry)
    (layout : r'.layout = r.layout) (slots : ∀ i, r'.slot i = r.slot i ∨ r'.slot i = (r.slot i).clearEntryStates) :
    (Value.record r').Typed registry := by
  have before := (Value.every_record.mp typed).1.slots
  refine typed_of_slots ⟨shaped, fun i field known => ?_⟩ fun i => ?_
  · rw [layout] at known
    have old := before i field known
    rcases slots i with same | cleared
    · rwa [same]
    · rw [cleared]
      refine old.imp (fun null => ?_) fun fits => ?_
      · rw [null]
        rfl
      · rwa [Value.conforms_same field.schema (Value.clearEntryStates_same (r.slot i))]
  · rcases slots i with same | cleared
    · rw [same]
      exact every_slot typed i
    · rw [cleared]
      exact (every_slot typed i).clearEntryStates

theorem setReadable_typed {index : Nat} (typed : (Value.record r).Typed registry)
    (done : r.setReadable index = .ok r') : (Value.record r').Typed registry := by
  obtain ⟨_, _, made⟩ := Result.bind_ok done
  obtain rfl := Result.pure_ok made
  have shaped := (Value.every_record.mp typed).1.shaped
  refine typed_of_same_slots typed ?_ rfl fun i => Or.inl rfl
  exact ⟨shaped.layout, shaped.slots, shaped.dirty, shaped.dirtyLen, shaped.readable.set _,
    (FieldBits.set_len _ _).trans shaped.readableLen⟩

theorem setDirty_typed {index : Nat} (typed : (Value.record r).Typed registry)
    (done : r.setDirty index = .ok r') : (Value.record r').Typed registry := by
  obtain ⟨_, _, made⟩ := Result.bind_ok done
  obtain rfl := Result.pure_ok made
  have shaped := (Value.every_record.mp typed).1.shaped
  refine typed_of_same_slots typed ?_ rfl fun i => Or.inl rfl
  exact ⟨shaped.layout, shaped.slots, shaped.dirty.set _, (FieldBits.set_len _ _).trans shaped.dirtyLen,
    shaped.readable, shaped.readableLen⟩

theorem clearDirty_typed (typed : (Value.record r).Typed registry) :
    (Value.record r.clearDirty).Typed registry := by
  have shaped := (Value.every_record.mp typed).1.shaped
  refine typed_of_same_slots typed ?_ rfl fun i => Or.inl rfl
  exact ⟨shaped.layout, shaped.slots, shaped.dirty.clearAll, shaped.dirtyLen, shaped.readable,
    shaped.readableLen⟩

theorem clearReadable_typed (typed : (Value.record r).Typed registry) :
    (Value.record r.clearReadable).Typed registry := by
  have shaped := (Value.every_record.mp typed).1.shaped
  refine typed_of_same_slots typed ?_ rfl fun i => Or.inl rfl
  exact ⟨shaped.layout, shaped.slots, shaped.dirty, shaped.dirtyLen, shaped.readable.clearAll,
    shaped.readableLen⟩

theorem clearEntryStates_typed (typed : (Value.record r).Typed registry) :
    (Value.record r.clearEntryStates).Typed registry := by
  have shaped := (Value.every_record.mp typed).1.shaped
  refine typed_of_same_slots typed ?_ rfl fun i => Or.inr (slot_clearState r i)
  exact ⟨shaped.layout, (List.length_map _).trans shaped.slots, shaped.dirty, shaped.dirtyLen,
    shaped.readable, shaped.readableLen⟩

theorem clearState_typed (typed : (Value.record r).Typed registry) :
    (Value.record r.clearState).Typed registry :=
  clearEntryStates_typed (clearReadable_typed (clearDirty_typed typed))

theorem restrictTo_typed (typed : (Value.record r).Typed registry) (selection : FieldBits) :
    (Value.record (r.restrictTo selection)).Typed registry :=
  typed_of_same_slots typed ((Value.every_record.mp typed).1.shaped.restrictTo selection) rfl fun _ => Or.inl rfl

/-- A call leaves a typed record if what it supplies is typed. -/
theorem change_typed {change : Change} (typed : (Value.record r).Typed registry)
    (supplied : ∀ value, change.supplied? = some value → value.Typed registry)
    (done : change.apply r = .ok r') : (Value.record r').Typed registry := by
  have self := (Value.every_record.mp typed).1
  obtain ⟨does, shaped⟩ := Change.apply_does self.shaped done
  obtain ⟨written, known, fits⟩ := does.fits
  refine typed_of_slots ⟨shaped, fun i field found => ?_⟩ fun i => ?_
  · rw [does.layout] at found
    rw [does.slot]
    split
    · subst_vars
      obtain rfl := Option.some.inj (known.symm.trans found)
      exact Or.inr (fits.result_conforms (self.slots _ _ known))
    · exact self.slots i field found
  · rw [does.slot]
    split
    · exact Change.result_every (every_slot typed i) supplied
    · exact every_slot typed i

/-! ### Partial records -/

theorem takeFrom_typed {source : Record Value} {index : Nat} (typed : (Value.record r).Typed registry)
    (given : (Value.record source).Typed registry) (layout : source.layout = r.layout)
    (done : takeFrom source r index = .ok r') :
    (Value.record r').Typed registry ∧ r'.layout = r.layout := by
  have self := (Value.every_record.mp typed).1
  have from' := (Value.every_record.mp given).1
  unfold takeFrom at done
  cases found : source.slots[index]? with
  | none =>
    rw [found] at done
    cases done
  | some value =>
    rw [found] at done
    cases done
    obtain ⟨inside, here⟩ := List.getElem?_eq_some_iff.mp found
    have taken : source.slot index = value := (slot_of_lt inside).trans here
    have inside' : index < r.slots.length := by rw [self.shaped.slots, ← layout, ← from'.shaped.slots]; exact inside
    have slot (i : Nat) : (r.putSlot index value).slot i = if i = index then source.slot i else r.slot i := by
      rw [slot_putSlot inside' value i]
      split
      · rw [← taken, ‹i = index›]
      · rfl
    refine ⟨typed_of_slots ⟨?_, fun i field known => ?_⟩ fun i => ?_, rfl⟩
    · refine ⟨self.shaped.layout, List.length_set.trans self.shaped.slots, self.shaped.dirty,
        self.shaped.dirtyLen, self.shaped.readable.set _, ?_⟩
      exact (FieldBits.set_len _ _).trans self.shaped.readableLen
    · change (r.putSlot index value).slot i = .null ∨ ((r.putSlot index value).slot i).conforms _ = true
      rw [slot]
      split
      · exact from'.slots i field (layout ▸ known)
      · exact self.slots i field known
    · change ((r.putSlot index value).slot i).Typed registry
      rw [slot]
      split
      · exact every_slot given i
      · exact every_slot typed i

theorem takeAll_typed {source : Record Value} {indices : List Nat} (typed : (Value.record r).Typed registry)
    (given : (Value.record source).Typed registry) (layout : source.layout = r.layout)
    (done : indices.foldlM (takeFrom source) r = .ok r') : (Value.record r').Typed registry := by
  induction indices generalizing r with
  | nil =>
    obtain rfl := Result.pure_ok done
    exact typed
  | cons index rest ih =>
    rw [List.foldlM_cons] at done
    obtain ⟨next, first, done⟩ := Result.bind_ok done
    obtain ⟨typed, same⟩ := takeFrom_typed typed given layout first
    exact ih typed (layout.trans same.symm) done

theorem materializeFrom_typed {source : Record Value} {selection : FieldBits}
    (typed : (Value.record r).Typed registry) (given : (Value.record source).Typed registry)
    (done : r.materializeFrom source selection = .ok r') : (Value.record r').Typed registry := by
  unfold materializeFrom at done
  split at done
  · cases done
  · rename_i named
    have known := (Value.every_record.mp typed).1.shaped.layout
    have known' := (Value.every_record.mp given).1.shaped.layout
    rw [Classical.not_not.mp named, known] at known'
    exact takeAll_typed (clearReadable_typed typed) given (Option.some.inj known').symm done

end Record

/-- Every maker of instances gives typed ones of the layout that it is handed. -/
def Registry.MakesTyped (registry : Registry) : Prop :=
  ∀ name compiled, registry.record? name = some compiled →
    (compiled.fresh compiled.layout).layout = compiled.layout ∧
      (Value.record (compiled.fresh compiled.layout)).Typed registry

theorem Registry.compile_makesTyped {catalog : Catalog} {roots : List Schema} {registry : Registry}
    (compiled : Registry.compile catalog roots = .ok registry) : registry.MakesTyped := by
  intro name record found
  rw [compile_fresh compiled record (List.mem_of_find?_eq_some found)]
  refine ⟨rfl, Record.empty_typed ?_⟩
  rw [fullName_of_record? found]
  exact get?_of_record? found

end TrackedRecord
