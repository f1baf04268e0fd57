import TrackedRecord.Proofs.Result
import TrackedRecord.Proofs.Schema.Induction
import TrackedRecord.Wire.Plain.Writer

/-!
# The writer of plain values

When a value is written, its parts are, and its bytes are theirs in order.
-/

namespace TrackedRecord.Wire.Plain

variable {encode : Value → Except Error (List UInt8)} {record : RecordRef → Value → Except Error (List UInt8)}
variable {bytes : List UInt8}

theorem inside_ok {α : Type} {segment : String} {x : Except Error α} {a : α} :
    inside segment x = .ok a ↔ x = .ok a := by
  cases x <;> simp [inside]

theorem encodeItems_cons {i : Nat} {item : Value} {rest : List Value} :
    encodeItems encode i (item :: rest) = .ok bytes ↔
      ∃ first others, encode item = .ok first ∧ encodeItems encode (i + 1) rest = .ok others ∧
        bytes = first ++ others := by
  rw [encodeItems, Result.parts_ok]
  simp only [inside_ok]

theorem encodeEntries_cons {key : String} {value : Value} {rest : List (String × Value)} :
    encodeEntries encode ((key, value) :: rest) = .ok bytes ↔
      ∃ first others, encode value = .ok first ∧ encodeEntries encode rest = .ok others ∧
        bytes = encodeText key ++ first ++ others := by
  rw [encodeEntries, Result.parts_ok]
  simp only [inside_ok]

theorem encodeFields_cons {encode : Schema → Value → Except Error (List UInt8)} {name : String}
    {field : Field}
    {fields : List Field} {value : Value} {values : List Value} :
    encodeFields encode name (field :: fields) (value :: values) = .ok bytes ↔
      ∃ first others, encode field.schema value = .ok first ∧
        encodeFields encode name fields values = .ok others ∧
        bytes = first ++ others := by
  rw [encodeFields, Result.parts_ok]
  simp only [inside_ok]

theorem encodeBranch_ok {branches : List Schema} {left branch : Nat} {schema : String} {value : Value} :
    encodeBranch record branches left schema branch value = .ok bytes ↔
      ∃ type encoded, branches[left]? = some type ∧ encodeWith record type value = .ok encoded ∧
        bytes = Varint.ofNat branch ++ encoded := by
  induction branches generalizing left with
  | nil =>
    rw [encodeBranch]
    simp
  | cons head rest ih =>
    cases left with
    | zero =>
      rw [encodeBranch, Result.part_ok]
      simp
    | succ left =>
      rw [encodeBranch]
      exact ih

theorem encodeArray_ok {element : Schema} {value : Value} :
    encodeWith record (.array element) value = .ok bytes ↔
      ∃ items encoded, value = .array items ∧ encodeItems (encodeWith record element) 0 items = .ok encoded ∧
        bytes = Varint.ofNat items.length ++ encoded := by
  unfold encodeWith
  constructor
  · intro h
    cases value with
    | array items =>
      obtain ⟨encoded, written⟩ := Result.part_ok.mp h
      exact ⟨items, encoded, rfl, written⟩
    | _ => cases h
  · rintro ⟨items, encoded, rfl, written⟩
    exact Result.part_ok.mpr ⟨encoded, written⟩

theorem encodeMap_ok {schema : Schema} {value : Value} :
    encodeWith record (.map schema) value = .ok bytes ↔
      ∃ m encoded, value = .map m ∧ encodeEntries (encodeWith record schema) m.entries = .ok encoded ∧
        bytes = Varint.ofNat m.entries.length ++ encoded := by
  unfold encodeWith
  constructor
  · intro h
    cases value with
    | map m =>
      obtain ⟨encoded, written⟩ := Result.part_ok.mp h
      exact ⟨m, encoded, rfl, written⟩
    | _ => cases h
  · rintro ⟨m, encoded, rfl, written⟩
    exact Result.part_ok.mpr ⟨encoded, written⟩

theorem encodeUnion_eq (branches : List Schema) (value : Value) :
    encodeWith record (.union branches) value =
      match Schema.nullPosition? branches with
      | some position =>
        if value.isNull then .ok (Varint.ofNat position)
        else encodeBranch record branches (1 - position) (Schema.union branches).display (1 - position) value
      | none =>
        match value with
        | .union branch inner =>
            encodeBranch record branches branch (Schema.union branches).display branch inner
        | _ => .error (shapeError (Schema.union branches).display value) := by
  unfold encodeWith
  rfl

/-- A nullable value is null or stands in the other branch. -/
theorem encodeNullable_ok {branches : List Schema} {position : Nat} {value : Value}
    (nullable : Schema.nullPosition? branches = some position) :
    encodeWith record (.union branches) value = .ok bytes ↔
      (value.isNull = true ∧ bytes = Varint.ofNat position) ∨
        (value.isNull = false ∧ ∃ type encoded, branches[1 - position]? = some type ∧
          encodeWith record type value = .ok encoded ∧ bytes = Varint.ofNat (1 - position) ++ encoded) := by
  rw [encodeUnion_eq, nullable]
  cases value.isNull with
  | true =>
    constructor
    · intro h
      cases h
      exact Or.inl ⟨rfl, rfl⟩
    · rintro (⟨_, rfl⟩ | ⟨absurd, _⟩)
      · rfl
      · cases absurd
  | false =>
    constructor
    · exact fun h => Or.inr ⟨rfl, encodeBranch_ok.mp h⟩
    · rintro (⟨absurd, _⟩ | ⟨_, inBranch⟩)
      · cases absurd
      · exact encodeBranch_ok.mpr inBranch

/-- A value of any other union says its branch. -/
theorem encodeTagged_ok {branches : List Schema} {value : Value}
    (tagged : Schema.nullPosition? branches = none) :
    encodeWith record (.union branches) value = .ok bytes ↔
      ∃ branch inner type encoded, value = .union branch inner ∧ branches[branch]? = some type ∧
        encodeWith record type inner = .ok encoded ∧ bytes = Varint.ofNat branch ++ encoded := by
  rw [encodeUnion_eq, tagged]
  constructor
  · intro h
    cases value with
    | union branch inner =>
      obtain ⟨type, encoded, found, written, same⟩ := encodeBranch_ok.mp h
      exact ⟨branch, inner, type, encoded, rfl, found, written, same⟩
    | _ => cases h
  · rintro ⟨branch, inner, type, encoded, rfl, found, written, same⟩
    exact encodeBranch_ok.mpr ⟨type, encoded, found, written, same⟩

theorem encodeNested_ok {maxDepth left : Nat} {type : RecordRef} {value : Value} :
    encodeNested maxDepth (left + 1) type value = .ok bytes ↔
      ∃ r, value = .record r ∧ r.typeName = type.fullName ∧
        encodeFields (encodeWith (encodeNested maxDepth left)) r.layout.name r.layout.fields r.slots =
          .ok bytes := by
  rw [encodeNested]
  constructor
  · intro h
    obtain ⟨r, held, written⟩ := Result.bind_ok h
    cases value with
    | record inner =>
      rw [recordOf] at held
      split at held
      · cases held
        exact ⟨_, rfl, ‹_›, written⟩
      · cases held
    | _ => cases held
  · rintro ⟨r, rfl, named, written⟩
    rw [recordOf, if_pos named]
    exact written

theorem encodeNested_zero {maxDepth : Nat} {type : RecordRef} {value : Value} :
    ¬encodeNested maxDepth 0 type value = .ok bytes := by
  intro h
  rw [encodeNested] at h
  obtain ⟨_, _, h⟩ := Result.bind_ok h
  cases h

/-- Of two branches the null one stands at the position, and the other one does not. -/
theorem nullPosition?_some {branches : List Schema} {position : Nat}
    (nullable : Schema.nullPosition? branches = some position) :
    position < 2 ∧ branches.length = 2 ∧ branches[position]? = some (.primitive .null) := by
  unfold Schema.nullPosition? at nullable
  split at nullable
  · split at nullable
    · rename_i first _
      cases nullable
      exact ⟨by decide, rfl, congrArg some (Schema.eq_null first)⟩
    · rename_i _ second
      cases nullable
      exact ⟨by decide, rfl, congrArg some (Schema.eq_null second)⟩
    · cases nullable
  · cases nullable

end TrackedRecord.Wire.Plain
