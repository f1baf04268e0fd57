import TrackedRecord.Proofs.Wire.Closed
import TrackedRecord.Proofs.Wire.Plain.Typed

/-!
# What a codec decodes is typed

Whether a payload is decoded into a new record or in place of a typed one, the result is typed throughout:
its bits have the length of the layout, the readable fields are read by their schemas and the other slots
stay as they were.
-/

namespace TrackedRecord.Wire

open Decoder (Gives)
open Plain (Fitting)

variable {registry : Registry} {settings : Settings} {layout : Layout}

theorem Plain.Fitting.withTable {schema : Schema} {value : Value} (fitting : Fitting registry schema value)
    (states : List (String × EntryState)) : Fitting registry schema (value.withTable states) := by
  have same : (value.withTable states).same value = true := by
    rw [Value.withTable_same]
    exact Value.same_refl value
  refine ⟨(Value.conforms_same schema same).trans fitting.1, ?_⟩
  cases value with
  | map m => exact Value.every_map.mpr (Value.every_map (m := m).mp fitting.2)
  | _ => exact fitting.2

namespace Payload

/-- A slot for each field, null or as the field asks, and typed. -/
structure SlotsTyped (registry : Registry) (layout : Layout) (slots : List Value) : Prop where
  length : slots.length = layout.fieldCount
  fits : ∀ i field, layout.field? i = some field →
    slots.getD i .null = .null ∨ (slots.getD i .null).conforms field.schema = true
  typed : ∀ slot ∈ slots, slot.Typed registry

theorem SlotsTyped.set {slots : List Value} (before : SlotsTyped registry layout slots) {index : Nat}
    {field : Field} (known : layout.field? index = some field) {value : Value}
    (fitting : Fitting registry field.schema value) : SlotsTyped registry layout (slots.set index value) := by
  refine ⟨List.length_set.trans before.length, fun i other found => ?_, fun slot member => ?_⟩
  · rw [List.getD_eq_getElem?_getD, List.getElem?_set]
    by_cases here : index = i
    · subst here
      obtain rfl := Option.some.inj (known.symm.trans found)
      have inside : index < slots.length := before.length ▸ Layout.lt_of_field? known
      rw [if_pos rfl, if_pos inside]
      exact Or.inr fitting.1
    · rw [if_neg here, ← List.getD_eq_getElem?_getD]
      exact before.fits i other found
  · rcases List.mem_or_eq_of_mem_set member with old | new
    · exact before.typed slot old
    · exact new ▸ fitting.2

theorem withStates_table {start : Nat} {states : List (String × EntryState)} {value result : Value}
    (done : withStates start states value = .ok result) : ∃ table, result = value.withTable table := by
  cases value with
  | map m =>
    rw [withStates, foldl_setState] at done
    cases done
    exact ⟨_, rfl⟩
  | _ =>
    refine ⟨[], ?_⟩
    unfold withStates at done
    split at done
    · contradiction
    · split at done
      · cases done
        rfl
      · cases done

theorem decodeField_gives (makes : registry.MakesTyped) (field : Field) {slots : List Value}
    (typed : ∀ slot ∈ slots, slot.Typed registry) (index : Nat) :
    Gives (Fitting registry field.schema) (decodeField registry settings field slots index) := by
  cases present : slots[index]? with
  | none =>
    rw [decodeField_none present]
    exact (Gives.any _).bind fun _ _ => Gives.throw _
  | some previous =>
    have inPlace := Plain.InPlace.some (typed previous (List.mem_of_getElem? present))
    rw [decodeField_some present]
    refine (Gives.any _).bind fun states _ => (Gives.any _).bind fun start _ => ?_
    refine (Plain.decode_gives makes settings.maxDepth field.schema inPlace).bind fun value fitting => ?_
    cases given : withStates start states value with
    | error e => exact Gives.throw e
    | ok result =>
      obtain ⟨table, rfl⟩ := withStates_table given
      exact Gives.pure (fitting.withTable table)

theorem decodeFields_gives (makes : registry.MakesTyped) (indices : List Nat) {slots : List Value}
    (before : SlotsTyped registry layout slots) :
    Gives (SlotsTyped registry layout) (decodeFields registry settings layout indices slots) := by
  induction indices generalizing slots with
  | nil => exact Gives.pure before
  | cons index rest ih =>
    unfold decodeFields
    cases found : layout.fields[index]? with
    | none => exact Gives.throw _
    | some field =>
      refine (decodeField_gives makes field before.typed index).within.bind fun value fitting => ?_
      exact ih (before.set found fitting)

theorem decodeBitmap_gives (which : String) :
    Gives (fun bits => bits.WellFormed ∧ bits.len = layout.fieldCount) (decodeBitmap layout which) := by
  intro c bits c' run
  obtain ⟨formed, len, _⟩ := decodeBitmap_ok run
  exact ⟨formed, len⟩

theorem fill_gives (makes : registry.MakesTyped) {target : Record Value}
    (typed : (Value.record target).Typed registry) :
    Gives (fun r => (Value.record r).Typed registry) (fill registry settings target.layout target) := by
  obtain ⟨self, slots⟩ := Value.every_record.mp typed
  refine (decodeBitmap_gives "dirty").bind fun dirty formedDirty => ?_
  refine (decodeBitmap_gives "readable").bind fun readable formedReadable => ?_
  refine (decodeFields_gives makes readable.ones ⟨self.shaped.slots, self.slots, slots⟩).map fun slots after => ?_
  refine Value.every_record.mpr ⟨⟨?_, after.fits⟩, after.typed⟩
  exact ⟨self.shaped.layout, after.length, formedDirty.1, formedDirty.2, formedReadable.1, formedReadable.2⟩

end Payload

namespace Codec

variable {codec : Codec}

theorem decodeInto_typed (makes : codec.registry.MakesTyped) {target r : Record Value}
    (typed : (Value.record target).Typed codec.registry) (layout : target.layout = codec.layout)
    {bytes : List UInt8} (decoded : codec.decodeInto target bytes = .ok r) :
    (Value.record r).Typed codec.registry := by
  obtain ⟨c, run⟩ := decodeInto_ok decoded
  obtain ⟨run, _⟩ := Decoder.whole_ok run
  rw [← layout] at run
  exact Payload.fill_gives makes (Record.clearState_typed typed) _ _ _ run

theorem target_typed (sound : codec.Sound) (makes : codec.registry.MakesTyped) :
    codec.target.1.layout = codec.layout ∧ (Value.record codec.target.1).Typed codec.registry := by
  obtain ⟨layout, typed⟩ := makes _ _ sound.known
  unfold target
  dsimp only
  split
  · cases kept : codec.prototype with
    | none => exact ⟨layout, Record.clearState_typed typed⟩
    | some prototype =>
      obtain rfl := sound.faithful prototype kept
      exact ⟨layout, Record.clearState_typed typed⟩
  · exact ⟨layout, typed⟩

theorem decode_typed (sound : codec.Sound) (makes : codec.registry.MakesTyped) {bytes : List UInt8}
    {reuse : Option (Record Value)} (inPlace : ∀ r, reuse = some r → (Value.record r).Typed codec.registry)
    {r : Record Value} (decoded : (codec.decode bytes reuse).1 = .ok r) :
    (Value.record r).Typed codec.registry := by
  cases reuse with
  | none =>
    obtain ⟨layout, typed⟩ := target_typed sound makes
    rw [decode_none] at decoded
    exact decodeInto_typed makes typed layout decoded
  | some old =>
    have typed := inPlace old rfl
    obtain ⟨_, same, decoded⟩ := Result.bind_ok decoded
    have named : old.typeName = codec.typeName := by
      unfold checkType at same
      split at same
      · assumption
      · cases same
    have layout := (Value.every_record.mp typed).1.shaped.layout
    rw [named, sound.get?] at layout
    exact decodeInto_typed makes typed (Option.some.inj layout).symm decoded

/-- Whatever is decoded by a call is typed throughout, if what it is decoded into is. -/
theorem answer_typed (sound : codec.Sound) (makes : codec.registry.MakesTyped) {call : Call}
    (inPlace : ∀ r, call.reuse = some r → (Value.record r).Typed codec.registry)
    {r : Record Value} {consumed : Option Nat} (answered : (codec.answer call).1 = .ok (r, consumed)) :
    (Value.record r).Typed codec.registry := by
  cases call with
  | payload bytes reuse =>
    obtain ⟨_, decoded, ⟨⟩⟩ := Result.map_ok.mp answered
    exact decode_typed sound makes inPlace decoded
  | source source reuse =>
    obtain ⟨_, decoded, ⟨⟩⟩ := Result.map_ok.mp answered
    cases source with
    | ok bytes => exact decode_typed sound makes inPlace decoded
    | error failure => cases decoded
  | framed bytes reuse =>
    obtain ⟨⟨_, _⟩, decoded, ⟨⟩⟩ := Result.map_ok.mp answered
    split at decoded
    · cases decoded
    · split at decoded
      · cases decoded
      · obtain ⟨_, payload, ⟨⟩⟩ := Result.map_ok.mp decoded
        exact decode_typed sound makes inPlace payload

end Codec

end TrackedRecord.Wire
