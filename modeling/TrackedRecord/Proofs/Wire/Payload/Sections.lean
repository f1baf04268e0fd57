import TrackedRecord.Proofs.StateMap
import TrackedRecord.Proofs.Wire.Payload.Canonical

/-!
# Sections of payloads

A readable field stands in a payload as a table of entry states and as a value. Each of the two is read
for itself; the decoder puts the table onto the value and compares nothing.
-/

namespace TrackedRecord.Wire.Payload

variable {registry : Registry} {settings : Settings} {layout : Layout}

/-- A readable field as it stands in a payload. -/
structure Section where
  index : Nat
  states : List (String × EntryState)
  value : Value

namespace Section

def entries (part : Section) : List (String × Value) := part.value.mapOrEmpty.entries

/-- The table and the entries tell the same of each key that is updated or deleted. -/
structure Agrees (part : Section) : Prop where
  updated : ∀ key, Keyed.get? key part.states = some .updated → (Keyed.get? key part.entries).isSome
  deleted : ∀ key, Keyed.get? key part.states = some .deleted → Keyed.get? key part.entries = none

/-- The value with the table that stood in front of it. -/
def joined (part : Section) : Value := part.value.withTable part.states

/-- What is true of every section that is read: keys are in order, and only a map has states. -/
structure Read (part : Section) : Prop where
  entries : Keyed.Sorted part.entries
  states : Keyed.Sorted part.states
  shown : part.joined.mapOrEmpty.states = part.states

theorem joined_entries (part : Section) : part.joined.mapOrEmpty.entries = part.entries := by
  unfold joined entries
  cases part.value <;> rfl

theorem agrees_joined {part : Section} (read : part.Read) : part.joined.mapOrEmpty.Agrees ↔ part.Agrees := by
  rw [StateMap.agrees_iff]
  simp only [StateMap.get?, read.shown, joined_entries]
  exact ⟨fun both => ⟨both.1, both.2⟩, fun agrees => ⟨agrees.updated, agrees.deleted⟩⟩

theorem produced_joined {part : Section} (read : part.Read) : part.joined.mapOrEmpty.Produced ↔
    part.Agrees ∧ ∀ key, Keyed.get? key part.states ≠ some .unchanged := by
  rw [StateMap.produced_iff, agrees_joined read, read.shown]
  · rw [joined_entries]
    exact read.entries
  · rw [read.shown]
    exact read.states

end Section

/-- The sections of the given fields, one behind the other. -/
def readSections (registry : Registry) (settings : Settings) (layout : Layout) :
    List Nat → Decoder (List Section)
  | [] => return []
  | index :: rest =>
    match layout.fields[index]? with
    | none => throw (.outOfRange index layout.fieldCount)
    | some field => do
      let states ← fieldStates settings field
      let value ← Plain.decode registry settings settings.maxDepth field.schema none
      let others ← readSections registry settings layout rest
      return ⟨index, states, value⟩ :: others

structure Sections where
  dirty : FieldBits
  readable : FieldBits
  parts : List Section

def sections (registry : Registry) (settings : Settings) (layout : Layout) : Decoder Sections := do
  let dirty ← decodeBitmap layout "dirty"
  let readable ← decodeBitmap layout "readable"
  let parts ← readSections registry settings layout readable.ones
  return ⟨dirty, readable, parts⟩

/-- The sections of bytes that are a payload and no more. -/
def sectionsOf (registry : Registry) (settings : Settings) (layout : Layout) (bytes : List UInt8) :
    Except Error Sections :=
  match (sections registry settings layout).whole (Cursor.start bytes) with
  | .ok parts _ => .ok parts
  | .error e _ => .error e

/-! ### Fields and their sections -/

theorem readField_section (sound : registry.Sound) {field : Field} {value : Value} {c c' : Cursor}
    (h : readField registry settings field none c = .ok value c') (index : Nat) :
    ∃ c₁, ∃ part : Section, part.index = index ∧ fieldStates settings field c = .ok part.states c₁ ∧
      Plain.decode registry settings settings.maxDepth field.schema none c₁ = .ok part.value c' ∧
      part.Read ∧ value = part.joined := by
  obtain ⟨states, c₁, table, h⟩ := Decoder.bind_ok h
  rw [Decoder.position_bind] at h
  obtain ⟨plain, c₂, read, h⟩ := Decoder.bind_ok h
  cases given : withStates c₁.pos states plain with
  | error e =>
    rw [given] at h
    exact (Decoder.throw_ok h).elim
  | ok result =>
    rw [given] at h
    obtain ⟨rfl, rfl⟩ := Decoder.pure_ok h
    have sorted := (fieldStates_ok table).1
    have settled := (Plain.decode_settled sound settings.maxDepth field.schema read).1
    obtain ⟨rfl, shown⟩ := withStates_ok sorted (plain_states settled.plain) given
    have entries := (Value.mapOrEmpty_wellFormed settled.formed).1.entries
    exact ⟨c₁, ⟨index, states, plain⟩, rfl, table, read, ⟨entries, sorted, shown⟩, rfl⟩

theorem readFields_sections (sound : registry.Sound) {indices : List Nat} {values : List (Nat × Value)}
    {c c' : Cursor} (h : readFields registry settings layout indices c = .ok values c') :
    ∃ parts, readSections registry settings layout indices c = .ok parts c' ∧
      values = parts.map (fun part => (part.index, part.joined)) ∧ ∀ part ∈ parts, part.Read := by
  induction indices generalizing values c with
  | nil =>
    obtain ⟨rfl, rfl⟩ := Decoder.pure_ok h
    exact ⟨[], rfl, rfl, List.forall_mem_nil _⟩
  | cons index rest ih =>
    unfold readFields at h
    unfold readSections
    cases found : layout.fields[index]? with
    | none =>
      rw [found] at h
      exact (Decoder.throw_ok h).elim
    | some field =>
      rw [found] at h
      obtain ⟨value, c₁, first, h⟩ := Decoder.bind_ok h
      obtain ⟨others, c₂, tail, h⟩ := Decoder.bind_ok h
      obtain ⟨rfl, rfl⟩ := Decoder.pure_ok h
      obtain ⟨middle, part, rfl, table, read, wellRead, rfl⟩ :=
        readField_section sound (Decoder.within_ok.mp first) index
      obtain ⟨parts, run, rfl, each⟩ := ih tail
      refine ⟨part :: parts, ?_, rfl, List.forall_mem_cons.mpr ⟨wellRead, each⟩⟩
      dsimp only
      rw [Decoder.bind_of_ok table, Decoder.bind_of_ok read, Decoder.bind_of_ok run]
      rfl

/-- The contents of a payload are its sections, each with its table joined to its value. -/
theorem contentsOf_sections (sound : registry.Sound) {bytes : List UInt8} {contents : Contents}
    (h : contentsOf registry settings layout bytes = .ok contents) :
    ∃ parts, sectionsOf registry settings layout bytes = .ok ⟨contents.dirty, contents.readable, parts⟩ ∧
      contents.values = parts.map (fun part => (part.index, part.joined)) ∧ ∀ part ∈ parts, part.Read := by
  obtain ⟨c, run, nothing⟩ := contentsOf_ok h
  obtain ⟨c₁, c₂, dirty, readable, fields⟩ := read_ok run
  obtain ⟨parts, runParts, values, each⟩ := readFields_sections sound fields
  have whole : sections registry settings layout (Cursor.start bytes) =
      .ok ⟨contents.dirty, contents.readable, parts⟩ c := by
    rw [sections, Decoder.bind_of_ok dirty, Decoder.bind_of_ok readable, Decoder.bind_of_ok runParts]
    rfl
  refine ⟨parts, ?_, values, each⟩
  rw [sectionsOf, Decoder.whole_of_ok whole, if_pos nothing]

end TrackedRecord.Wire.Payload
