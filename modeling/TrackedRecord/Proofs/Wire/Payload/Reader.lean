import TrackedRecord.Proofs.Wire.Plain.Reader
import TrackedRecord.Wire.Payload

/-!
# The reader of payloads

A payload is a record's bits and fields with nothing behind them. Each field is read on its own, and the
whole of it, up to what comes behind, is read in sequence.
-/

namespace TrackedRecord.Wire

/-- The decoder with nothing left behind it. -/
def Decoder.whole {α : Type} (d : Decoder α) : Decoder α := do
  let a ← d
  let cursor ← get
  unless cursor.atEnd do throw (.malformed cursor.pos (.trailingBytes cursor.remaining))
  return a

namespace Payload

variable {registry : Registry} {settings : Settings} {layout : Layout}

/-- All of a payload, decoded into `target`, with whatever may come behind. -/
def fill (registry : Registry) (settings : Settings) (layout : Layout) (target : Record Value) :
    Decoder (Record Value) := do
  let dirty ← decodeBitmap layout "dirty"
  let readable ← decodeBitmap layout "readable"
  let slots ← decodeFields registry settings layout readable.ones target.slots
  return ⟨target.layout, slots, dirty, readable⟩

theorem decode_eq_whole (target : Record Value) :
    decode registry settings layout target = (fill registry settings layout target.clearState).whole := by
  simp only [decode, fill, Decoder.whole, bind_assoc, pure_bind]

theorem decodeBitmap_sequential (layout : Layout) (which : String) :
    Sequential (decodeBitmap layout which) := by
  refine Sequential.position.bind fun start => Decoder.varint_sequential.bind fun bits => ?_
  exact Sequential.ite (Sequential.throw _) (Decoder.packedBits_sequential bits)

theorem decodeStatesFrom_sequential (left : Nat) (states : List (String × EntryState)) :
    Sequential (decodeStatesFrom settings left states) := by
  induction left generalizing states with
  | zero => exact Sequential.pure _
  | succ left ih =>
    refine Sequential.position.bind fun start => (Decoder.text_sequential settings).bind fun key => ?_
    refine Sequential.position.bind fun tagStart => Decoder.byte_sequential.bind fun tag => ?_
    cases EntryState.ofTag? tag with
    | none => exact Sequential.throw _
    | some state => exact Sequential.ite (Sequential.throw _) (ih _)

theorem decodeStates_sequential : Sequential (decodeStates settings) :=
  (Decoder.count_sequential settings).bind fun count => decodeStatesFrom_sequential count []

/-- The table in front of a field; only a map field has one. -/
def fieldStates (settings : Settings) (field : Field) : Decoder (List (String × EntryState)) :=
  if field.kind = .map then decodeStates settings else pure []

/-- A field with its table, in place of `reuse`. -/
def readField (registry : Registry) (settings : Settings) (field : Field) (reuse : Option Value) :
    Decoder Value := do
  let states ← fieldStates settings field
  let start ← Decoder.position
  let value ← Plain.decode registry settings settings.maxDepth field.schema reuse
  match withStates start states value with
  | .ok value => return value
  | .error e => throw e

theorem decodeField_some {field : Field} {slots : List Value} {index : Nat} {previous : Value}
    (present : slots[index]? = some previous) :
    decodeField registry settings field slots index = readField registry settings field (some previous) := by
  unfold decodeField readField fieldStates
  simp only [present]
  split <;> rfl

theorem decodeField_none {field : Field} {slots : List Value} {index : Nat} (absent : slots[index]? = none) :
    decodeField registry settings field slots index =
      fieldStates settings field >>= fun _ => throw (.outOfRange index slots.length) := by
  unfold decodeField fieldStates
  simp only [absent]
  split <;> rfl

theorem fieldStates_sequential (field : Field) : Sequential (fieldStates settings field) :=
  Sequential.ite decodeStates_sequential (Sequential.pure [])

theorem readField_sequential (field : Field) (reuse : Option Value) :
    Sequential (readField registry settings field reuse) := by
  refine (fieldStates_sequential field).bind fun states => Sequential.position.bind fun start => ?_
  refine (Plain.decode_sequential registry settings settings.maxDepth _ _).bind fun value => ?_
  cases withStates start states value with
  | ok value => exact Sequential.pure _
  | error e => exact Sequential.throw _

theorem decodeField_sequential (field : Field) (slots : List Value) (index : Nat) :
    Sequential (decodeField registry settings field slots index) := by
  cases present : slots[index]? with
  | none =>
    rw [decodeField_none present]
    exact (fieldStates_sequential field).bind fun _ => Sequential.throw _
  | some previous =>
    rw [decodeField_some present]
    exact readField_sequential field _

theorem decodeFields_sequential (indices : List Nat) (slots : List Value) :
    Sequential (decodeFields registry settings layout indices slots) := by
  induction indices generalizing slots with
  | nil => exact Sequential.pure _
  | cons index rest ih =>
    unfold decodeFields
    cases layout.fields[index]? with
    | none => exact Sequential.throw _
    | some field => exact (decodeField_sequential field slots index).within.bind fun value => ih _

theorem fill_sequential (target : Record Value) : Sequential (fill registry settings layout target) := by
  refine (decodeBitmap_sequential layout _).bind fun dirty =>
    (decodeBitmap_sequential layout _).bind fun readable => ?_
  exact (decodeFields_sequential _ _).map

end Payload

namespace Decoder

variable {α : Type} {d : Decoder α}

theorem whole_of_ok {c c' : Cursor} {a : α} (run : d c = .ok a c') :
    d.whole c =
      if c'.rest = [] then .ok a c'
      else .error (.malformed c'.pos (.trailingBytes c'.rest.length)) c' := by
  unfold whole
  rw [bind_of_ok run]
  obtain ⟨rest, pos⟩ := c'
  cases rest <;> rfl

theorem whole_of_error {c c' : Cursor} {e : Error} (run : d c = .error e c') : d.whole c = .error e c' :=
  bind_of_error run

theorem whole_ok {c c' : Cursor} {a : α} (h : d.whole c = .ok a c') : d c = .ok a c' ∧ c'.rest = [] := by
  cases run : d c with
  | error e c₁ =>
    rw [whole_of_error run] at h
    cases h
  | ok b c₁ =>
    rw [whole_of_ok run] at h
    split at h
    · cases h
      exact ⟨rfl, ‹_›⟩
    · cases h

theorem whole_map {β : Type} (f : α → β) : (f <$> d).whole = f <$> d.whole := by
  simp only [whole, map_eq_pure_bind, bind_assoc, pure_bind]
  congr 1
  funext a
  congr 1
  funext cursor
  split <;> rfl

theorem whole_sequential {bytes : List UInt8} {a : α} {c : Cursor} (sequential : Sequential d)
    (accepted : d.whole (Cursor.start bytes) = .ok a c) :
    (∀ part, part <+: bytes → part ≠ bytes →
      ∃ e c, d.whole (Cursor.start part) = .error e c ∧ e.kind = .truncated) ∧
      ∀ more, more ≠ [] → ∃ c, d.whole (Cursor.start (bytes ++ more)) =
        .error (.malformed bytes.length (.trailingBytes more.length)) c := by
  obtain ⟨run, nothing⟩ := whole_ok accepted
  obtain ⟨taken, front, _, takes⟩ := sequential _ _ _ run
  obtain rfl : bytes = taken := by rw [nothing, List.append_nil] at front; exact front
  constructor
  · intro part start different
    obtain ⟨e, c, failed, kind⟩ := takes.short part start different
    exact ⟨e, c, whole_of_error failed, kind⟩
  · intro more present
    have onward : d (Cursor.start (bytes ++ more)) = .ok a ⟨more, 0 + bytes.length⟩ := takes.onward more
    exact ⟨_, by rw [whole_of_ok onward, if_neg present, Nat.zero_add]⟩

end Decoder

end TrackedRecord.Wire
