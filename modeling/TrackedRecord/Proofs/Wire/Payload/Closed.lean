import TrackedRecord.Proofs.Wire.Payload.Canonical
import TrackedRecord.Proofs.Wire.Plain.Closed

/-!
# Payloads of closed registries

A payload of a type whose fields mention compiled records only is read, or its error is one that the bytes
have caused.
-/

namespace TrackedRecord.Wire.Payload

variable {size : Nat} {registry : Registry} {settings : Settings} {layout : Layout}

theorem decodeBitmap_reports (which : String) : Reports size (decodeBitmap layout which) := by
  refine Reports.position fun start inside => Decoder.varint_reports.bind fun bits => ?_
  exact Reports.ite (Reports.throw (.atByte .schemaMismatch inside)) (Decoder.packedBits_reports bits)

theorem decodeStatesFrom_reports (left : Nat) (states : List (String × EntryState)) :
    Reports size (decodeStatesFrom settings left states) := by
  induction left generalizing states with
  | zero => exact Reports.pure _
  | succ left ih =>
    refine Reports.position fun start inside => Decoder.text_reports.bind fun key => ?_
    refine Reports.position fun tagStart tagInside => Decoder.byte_reports.bind fun tag => ?_
    cases EntryState.ofTag? tag with
    | none => exact Reports.throw (.malformed tagInside nofun)
    | some state => exact Reports.ite (Reports.throw (.malformed inside nofun)) (ih _)

theorem fieldStates_reports (field : Field) : Reports size (fieldStates settings field) :=
  Reports.ite (Decoder.count_reports.bind fun count => decodeStatesFrom_reports count []) (Reports.pure [])

theorem withStates_error {start : Nat} {states : List (String × EntryState)} {value : Value} {e : Error}
    (h : withStates start states value = .error e) : e = .malformed start .statesForNull := by
  unfold withStates at h
  split at h
  · cases h
  · split at h
    · cases h
    · cases h
      rfl

theorem readField_reports (sound : registry.Sound) (closed : registry.Closed) {field : Field}
    (covers : registry.Covers field.schema) : Reports size (readField registry settings field none) := by
  refine (fieldStates_reports field).bind fun states => Reports.position fun start inside => ?_
  refine (Plain.decode_reports sound closed _ covers Plain.wellFormed_none).bind fun value => ?_
  cases stated : withStates start states value with
  | ok value => exact Reports.pure value
  | error e =>
    rw [withStates_error stated]
    exact Reports.throw (.malformed inside nofun)

theorem readFields_reports (sound : registry.Sound) (closed : registry.Closed)
    (covers : ∀ field ∈ layout.fields, registry.Covers field.schema) {indices : List Nat}
    (inside : ∀ index ∈ indices, index < layout.fieldCount) :
    Reports size (readFields registry settings layout indices) := by
  induction indices with
  | nil => exact Reports.pure _
  | cons index rest ih =>
    rw [List.forall_mem_cons] at inside
    have found := List.getElem?_eq_getElem inside.1
    have field := covers _ (List.getElem_mem inside.1)
    simp only [readFields, found]
    exact (readField_reports sound closed field).within.bind fun value => (ih inside.2).map

theorem read_reports (sound : registry.Sound) (closed : registry.Closed)
    (covers : ∀ field ∈ layout.fields, registry.Covers field.schema) :
    Reports size (read registry settings layout) := by
  refine (decodeBitmap_reports _).bind fun dirty => ?_
  refine (decodeBitmap_reports _).bind_given fun readable c c' run => ?_
  refine (readFields_reports sound closed covers fun index member => ?_).map
  obtain ⟨_, length, _⟩ := decodeBitmap_ok run
  exact length ▸ FieldBits.lt_of_get (FieldBits.mem_ones.mp member)


end TrackedRecord.Wire.Payload
