import TrackedRecord.Proofs.Value.Equality
import TrackedRecord.Proofs.Schema.Induction
import TrackedRecord.Proofs.Value.WellFormed
import TrackedRecord.Proofs.Wire.Plain.Writer

/-!
# The plain encoding of values that are the same

The writer looks at a value by its structure only, so values that are the same have one encoding or fail
with one error. Two records of one name have one layout where both are instances of one registry.
-/

namespace TrackedRecord.Wire.Plain

open Value (sameAll sameEntries)

variable {registry : Registry}

/-! ### Lists of values -/

theorem encodeItems_same {encode : Value → Except Error (List UInt8)} {as bs : List Value}
    (same : sameAll as bs = true) (each : ∀ a ∈ as, ∀ b ∈ bs, a.same b = true → encode a = encode b) (i : Nat) :
    encodeItems encode i as = encodeItems encode i bs := by
  induction as generalizing bs i with
  | nil =>
    cases bs with
    | nil => rfl
    | cons b bs => cases same
  | cons a as ih =>
    cases bs with
    | nil => cases same
    | cons b bs =>
      obtain ⟨first, rest⟩ := Value.sameAll_cons.mp same
      have head : encode a = encode b := each a List.mem_cons_self b List.mem_cons_self first
      have tail : encodeItems encode (i + 1) as = encodeItems encode (i + 1) bs :=
        ih rest (fun a inA b inB => each a (List.mem_cons_of_mem _ inA) b (List.mem_cons_of_mem _ inB)) (i + 1)
      rw [encodeItems, encodeItems, head, tail]

theorem encodeEntries_same {encode : Value → Except Error (List UInt8)} {as bs : List (String × Value)}
    (same : sameEntries as bs = true)
    (each : ∀ a ∈ as, ∀ b ∈ bs, (Prod.snd a).same b.2 = true → encode a.2 = encode b.2) :
    encodeEntries encode as = encodeEntries encode bs := by
  induction as generalizing bs with
  | nil =>
    cases bs with
    | nil => rfl
    | cons b bs => cases same
  | cons a as ih =>
    cases bs with
    | nil => cases same
    | cons b bs =>
      obtain ⟨key, value⟩ := a
      obtain ⟨key', value'⟩ := b
      obtain ⟨rfl, first, rest⟩ := Value.sameEntries_cons.mp same
      have head : encode value = encode value' := each _ List.mem_cons_self _ List.mem_cons_self first
      have tail : encodeEntries encode as = encodeEntries encode bs :=
        ih rest fun a inA b inB => each a (List.mem_cons_of_mem _ inA) b (List.mem_cons_of_mem _ inB)
      rw [encodeEntries, encodeEntries, head, tail]

theorem encodeFields_same {encode : Schema → Value → Except Error (List UInt8)} {as bs : List Value}
    (same : sameAll as bs = true)
    (each : ∀ schema, ∀ a ∈ as, ∀ b ∈ bs, a.same b = true → encode schema a = encode schema b)
    (name : String) (fields : List Field) :
    encodeFields encode name fields as = encodeFields encode name fields bs := by
  induction as generalizing bs fields with
  | nil =>
    cases bs with
    | nil => rfl
    | cons b bs => cases same
  | cons a as ih =>
    cases bs with
    | nil => cases same
    | cons b bs =>
      cases fields with
      | nil => rfl
      | cons field fields =>
        obtain ⟨first, rest⟩ := Value.sameAll_cons.mp same
        have head : encode field.schema a = encode field.schema b :=
          each field.schema a List.mem_cons_self b List.mem_cons_self first
        have tail : encodeFields encode name fields as = encodeFields encode name fields bs :=
          ih rest (fun schema a inA b inB =>
            each schema a (List.mem_cons_of_mem _ inA) b (List.mem_cons_of_mem _ inB)) fields
        rw [encodeFields, encodeFields, head, tail]

/-! ### Values -/

theorem encodePrimitive_same {a b : Value} (same : a.same b = true) (kind : Primitive) :
    encodePrimitive kind a = encodePrimitive kind b := by
  rcases Value.same_cases same with rfl | ⟨_, _, rfl, rfl, _⟩ | ⟨_, _, rfl, rfl, _⟩ | ⟨_, _, rfl, rfl, _⟩ |
    ⟨_, _, _, rfl, rfl, _⟩
  · rfl
  all_goals cases kind <;> rfl

theorem encodeBranch_same {record : RecordRef → Value → Except Error (List UInt8)} {branches : List Schema}
    {a b : Value} (each : ∀ type ∈ branches, encodeWith record type a = encodeWith record type b) (left : Nat)
    (schema : String) (branch : Nat) :
    encodeBranch record branches left schema branch a = encodeBranch record branches left schema branch b := by
  induction branches generalizing left with
  | nil => rw [encodeBranch, encodeBranch]
  | cons type rest ih =>
    rw [List.forall_mem_cons] at each
    cases left with
    | zero => rw [encodeBranch, encodeBranch, each.1]
    | succ left =>
      rw [encodeBranch, encodeBranch]
      exact ih each.2 left

/-- How a writer of nested records treats those that are the same. -/
def Respects (registry : Registry) (record : RecordRef → Value → Except Error (List UInt8)) : Prop :=
  ∀ type a b, a.same b = true → a.WellFormed registry → b.WellFormed registry → record type a = record type b

theorem encodeWith_same {record : RecordRef → Value → Except Error (List UInt8)}
    (nested : Respects registry record) (schema : Schema) {a b : Value} (same : a.same b = true)
    (formedA : a.WellFormed registry) (formedB : b.WellFormed registry) :
    encodeWith record schema a = encodeWith record schema b := by
  induction schema using Schema.induction generalizing a b with
  | primitive kind =>
    rw [encodeWith, encodeWith]
    exact encodePrimitive_same same kind
  | enum e =>
    rw [encodeWith, encodeWith]
    rcases Value.same_cases same with rfl | ⟨_, _, rfl, rfl, _⟩ | ⟨_, _, rfl, rfl, _⟩ | ⟨_, _, rfl, rfl, _⟩ |
      ⟨_, _, _, rfl, rfl, _⟩
    all_goals rfl
  | fixed f =>
    rw [encodeWith, encodeWith]
    rcases Value.same_cases same with rfl | ⟨_, _, rfl, rfl, _⟩ | ⟨_, _, rfl, rfl, _⟩ | ⟨_, _, rfl, rfl, _⟩ |
      ⟨_, _, _, rfl, rfl, _⟩
    all_goals rfl
  | record type =>
    rw [encodeWith, encodeWith]
    exact nested type a b same formedA formedB
  | array element ih =>
    rcases Value.same_cases same with rfl | ⟨_, _, rfl, rfl, _⟩ | ⟨items, items', rfl, rfl, inner⟩ |
      ⟨_, _, rfl, rfl, _⟩ | ⟨_, _, _, rfl, rfl, _⟩
    case inr.inr.inl =>
      have each := (Value.wellFormed_array.mp formedA).2
      have each' := (Value.wellFormed_array.mp formedB).2
      have encoded := encodeItems_same inner (fun a inA b inB same => ih same (each a inA) (each' b inB)) 0
      simp only [encodeWith, encoded, Value.sameAll_length inner]
    all_goals simp only [encodeWith, shapeError, Value.kindName]
  | map value ih =>
    rcases Value.same_cases same with rfl | ⟨_, _, rfl, rfl, _⟩ | ⟨_, _, rfl, rfl, _⟩ |
      ⟨m, m', rfl, rfl, inner⟩ | ⟨_, _, _, rfl, rfl, _⟩
    case inr.inr.inr.inl =>
      have each := (Value.wellFormed_map.mp formedA).2
      have each' := (Value.wellFormed_map.mp formedB).2
      have encoded := encodeEntries_same inner fun a inA b inB same => ih same (each a inA) (each' b inB)
      simp only [encodeWith, encoded, StateMap.size, Value.sameEntries_length inner]
    all_goals simp only [encodeWith, shapeError, Value.kindName]
  | union branches ih =>
    rw [encodeUnion_eq, encodeUnion_eq]
    cases Schema.nullPosition? branches with
    | some position =>
      dsimp only
      rw [Value.same_isNull same,
        encodeBranch_same fun type member => ih type member same formedA formedB]
    | none =>
      rcases Value.same_cases same with rfl | ⟨_, _, rfl, rfl, _⟩ | ⟨_, _, rfl, rfl, _⟩ | ⟨_, _, rfl, rfl, _⟩ |
        ⟨branch, value, value', rfl, rfl, inner⟩
      case inr.inr.inr.inr =>
        have formed := (Value.wellFormed_union.mp formedA).2
        have formed' := (Value.wellFormed_union.mp formedB).2
        exact encodeBranch_same (fun type member => ih type member inner formed formed') _ _ _
      all_goals rfl

/-! ### Nested records -/

theorem layout_of_same {r r' : Record Value} (formed : r.WellFormed registry) (formed' : r'.WellFormed registry)
    (named : r.typeName = r'.typeName) : r.layout = r'.layout := by
  have known := formed.1.layout
  rw [named, formed'.1.layout] at known
  exact (Option.some.inj known).symm

theorem encodeNested_same (maxDepth left : Nat) : Respects registry (encodeNested maxDepth left) := by
  induction left with
  | zero =>
    intro type a b same formed formed'
    rw [encodeNested, encodeNested]
    rcases Value.same_cases same with rfl | ⟨r, r', rfl, rfl, alike⟩ | ⟨_, _, rfl, rfl, _⟩ |
      ⟨_, _, rfl, rfl, _⟩ | ⟨_, _, _, rfl, rfl, _⟩
    case inr.inl =>
      have named := (Value.same_record.mp alike).1
      rw [recordOf, recordOf, named]
      split <;> rfl
    all_goals rfl
  | succ left ih =>
    intro type a b same formed formed'
    rw [encodeNested, encodeNested]
    rcases Value.same_cases same with rfl | ⟨r, r', rfl, rfl, alike⟩ | ⟨_, _, rfl, rfl, _⟩ |
      ⟨_, _, rfl, rfl, _⟩ | ⟨_, _, _, rfl, rfl, _⟩
    case inr.inl =>
      rw [Value.wellFormed_record] at formed formed'
      obtain ⟨named, slots⟩ := Value.same_record.mp alike
      have layout := layout_of_same formed formed' named
      have encoded : encodeFields (encodeWith (encodeNested maxDepth left)) r.layout.name r.layout.fields
          r.slots =
          encodeFields (encodeWith (encodeNested maxDepth left)) r'.layout.name r'.layout.fields r'.slots := by
        rw [layout]
        exact encodeFields_same slots (fun schema a inA b inB same =>
          encodeWith_same ih schema same (formed.2 a inA) (formed'.2 b inB)) _ _
      rw [recordOf, recordOf, named]
      split
      · exact encoded
      · rfl
    all_goals rfl

/-- Values that are the same have one encoding, or one error, whatever state is inside them. -/
theorem encode_same (maxDepth : Nat) (schema : Schema) {a b : Value} (same : a.same b = true)
    (formedA : a.WellFormed registry) (formedB : b.WellFormed registry) :
    encode maxDepth schema a = encode maxDepth schema b :=
  encodeWith_same (encodeNested_same maxDepth maxDepth) schema same formedA formedB

end TrackedRecord.Wire.Plain
