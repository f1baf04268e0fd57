import TrackedRecord.Proofs.Schema.Induction
import TrackedRecord.Proofs.Value.Plain
import TrackedRecord.Proofs.Value.Equality
import TrackedRecord.Proofs.Value.Parts
import TrackedRecord.Proofs.Wire.Plain.Writer

/-!
# Which values conform

A nullable schema takes null and what its other branch takes; a value of any other union says its branch.
-/

namespace TrackedRecord

namespace Schema

/-- The one branch of a nullable union beside null. -/
theorem nullableInner?_union (branches : List Schema) :
    (union branches).nullableInner? = (nullPosition? branches).bind fun position => branches[1 - position]? := by
  unfold nullableInner? nullPosition?
  split
  · rename_i a b same
    obtain rfl := union.inj same
    dsimp only
    split <;> rfl
  · rename_i other
    split
    · rename_i a b
      exact absurd rfl (other a b)
    · rfl

theorem nullableInner?_some {schema inner : Schema} (nullable : schema.nullableInner? = some inner) :
    ∃ branches position, schema = .union branches ∧ nullPosition? branches = some position ∧
      branches[1 - position]? = some inner := by
  cases schema with
  | union branches =>
    rw [nullableInner?_union] at nullable
    obtain ⟨position, known, found⟩ := Option.bind_eq_some_iff.mp nullable
    exact ⟨branches, position, rfl, known, found⟩
  | _ => cases nullable

theorem nullPosition?_none {branches : List Schema} (tagged : (union branches).nullableInner? = none) :
    nullPosition? branches = none := by
  cases known : nullPosition? branches with
  | none => rfl
  | some position =>
    obtain ⟨small, length, _⟩ := Wire.Plain.nullPosition?_some known
    rw [nullableInner?_union, known, Option.bind_some, List.getElem?_eq_none_iff] at tagged
    omega

theorem core_of_nullable {schema inner : Schema} (nullable : schema.nullableInner? = some inner) :
    schema.core = inner.core := by
  unfold nullableInner? at nullable
  split at nullable
  · split at nullable
    · rename_i first second
      cases nullable
      rw [core, first, second]
    · rename_i first second
      cases nullable
      rw [core, first, second]
    · cases nullable
  · cases nullable

theorem core_of_tagged {schema : Schema} (tagged : schema.nullableInner? = none) : schema.core = schema := by
  unfold core
  split
  · rename_i a b
    rw [nullableInner?] at tagged
    split at tagged
    · cases tagged
    · cases tagged
    · rfl
  · rfl

/-- Under all null unions there is none. -/
theorem core_tagged (schema : Schema) : schema.core.nullableInner? = none := by
  induction schema using Schema.induction with
  | union branches ih =>
    cases nullable : (union branches).nullableInner? with
    | none => rwa [core_of_tagged nullable]
    | some inner =>
      obtain ⟨_, position, same, _, found⟩ := nullableInner?_some nullable
      obtain rfl := union.inj same
      rw [core_of_nullable nullable]
      exact ih inner (List.mem_of_getElem? found)
  | _ => rfl

end Schema

namespace Value

section

attribute [local simp] conforms conformsBranch

theorem conformsBranch_iff {branches : List Schema} {branch : Nat} {value : Value} :
    conformsBranch branches branch value = true ↔
      ∃ type, branches[branch]? = some type ∧ value.conforms type = true := by
  induction branches generalizing branch with
  | nil => simp
  | cons head rest ih =>
    cases branch with
    | zero => simp
    | succ branch =>
      rw [conformsBranch]
      exact ih

theorem conforms_union (branches : List Schema) (value : Value) :
    value.conforms (.union branches) =
      match Schema.nullPosition? branches with
      | some position => value.isNull || conformsBranch branches (1 - position) value
      | none =>
        match value with
        | .union branch inner => conformsBranch branches branch inner
        | _ => false := by
  unfold conforms
  rfl

theorem conforms_nullable {branches : List Schema} {position : Nat} {value : Value}
    (nullable : Schema.nullPosition? branches = some position) :
    value.conforms (.union branches) = true ↔
      value = .null ∨ ∃ type, branches[1 - position]? = some type ∧ value.conforms type = true := by
  rw [conforms_union, nullable]
  simp only [Bool.or_eq_true, conformsBranch_iff]
  constructor
  · exact Or.imp_left eq_null_of_isNull
  · exact Or.imp_left fun same => same ▸ rfl

theorem conforms_branch {branches : List Schema} (tagged : Schema.nullPosition? branches = none) {branch : Nat}
    {inner : Value} :
    (union branch inner).conforms (.union branches) = true ↔
      ∃ type, branches[branch]? = some type ∧ inner.conforms type = true := by
  rw [conforms_union, tagged]
  exact conformsBranch_iff

theorem conforms_tagged {branches : List Schema} {value : Value}
    (tagged : Schema.nullPosition? branches = none) :
    value.conforms (.union branches) = true ↔
      ∃ branch inner type, value = .union branch inner ∧ branches[branch]? = some type ∧
        inner.conforms type = true := by
  constructor
  · intro fits
    cases value with
    | union branch inner =>
      obtain ⟨type, found, fits⟩ := (conforms_branch tagged).mp fits
      exact ⟨branch, inner, type, rfl, found, fits⟩
    | _ =>
      rw [conforms_union, tagged] at fits
      cases fits
  · rintro ⟨branch, inner, type, rfl, found, fits⟩
    exact (conforms_branch tagged).mpr ⟨type, found, fits⟩

theorem conforms_inner {schema inner : Schema} (nullable : schema.nullableInner? = some inner) {value : Value} :
    value.conforms schema = true ↔ value = .null ∨ value.conforms inner = true := by
  obtain ⟨branches, position, rfl, known, found⟩ := Schema.nullableInner?_some nullable
  rw [conforms_nullable known, found]
  simp

theorem conforms_array {element : Schema} {value : Value} :
    value.conforms (.array element) = true ↔
      ∃ items, value = .array items ∧ ∀ item ∈ items, item.conforms element = true := by
  constructor
  · intro fits
    cases value with
    | array items =>
      rw [conforms] at fits
      exact ⟨items, rfl, List.all_eq_true.mp fits⟩
    | _ => simp at fits
  · rintro ⟨items, rfl, each⟩
    rw [conforms]
    exact List.all_eq_true.mpr each

theorem conforms_map {schema : Schema} {value : Value} :
    value.conforms (.map schema) = true ↔
      ∃ m, value = .map m ∧ ∀ entry ∈ m.entries, entry.2.conforms schema = true := by
  constructor
  · intro fits
    cases value with
    | map m =>
      rw [conforms] at fits
      exact ⟨m, rfl, List.all_eq_true.mp fits⟩
    | _ => simp at fits
  · rintro ⟨m, rfl, each⟩
    rw [conforms]
    exact List.all_eq_true.mpr each

theorem conforms_record {type : RecordRef} {value : Value} :
    value.conforms (.record type) = true ↔ ∃ r, value = .record r ∧ r.typeName = type.fullName := by
  constructor
  · intro fits
    cases value with
    | record r =>
      rw [conforms] at fits
      exact ⟨r, rfl, eq_of_beq fits⟩
    | _ => simp at fits
  · rintro ⟨r, rfl, named⟩
    rw [conforms]
    exact beq_iff_eq.mpr named

theorem conforms_enum {e : EnumType} {value : Value} :
    value.conforms (.enum e) = true ↔ ∃ ordinal, value = .enum ordinal ∧ ordinal < e.symbols.length := by
  constructor
  · intro fits
    cases value with
    | enum ordinal =>
      rw [conforms] at fits
      exact ⟨ordinal, rfl, of_decide_eq_true fits⟩
    | _ => simp at fits
  · rintro ⟨ordinal, rfl, small⟩
    rw [conforms]
    exact decide_eq_true small

theorem conforms_fixed {f : FixedType} {value : Value} :
    value.conforms (.fixed f) = true ↔ ∃ data, value = .fixed data ∧ data.length = f.size := by
  constructor
  · intro fits
    cases value with
    | fixed data =>
      rw [conforms] at fits
      exact ⟨data, rfl, eq_of_beq fits⟩
    | _ => simp at fits
  · rintro ⟨data, rfl, size⟩
    rw [conforms]
    exact beq_iff_eq.mpr size

end

theorem flat_of_primitive {kind : Primitive} {value : Value} (fits : value.conforms (.primitive kind) = true) :
    value.Flat := by
  rw [conforms] at fits
  cases value with
  | record r => cases kind <;> cases fits
  | array items => cases kind <;> cases fits
  | map m => cases kind <;> cases fits
  | union branch value => cases kind <;> cases fits
  | _ => exact ⟨rfl, fun _ => nofun⟩

/-- Beside null only what is inside the null unions counts. -/
theorem conforms_core {schema : Schema} {value : Value} :
    value.conforms schema = true ↔
      (value = .null ∧ schema.nullableInner?.isSome) ∨ value.conforms schema.core = true := by
  induction schema using Schema.induction with
  | union branches ih =>
    cases nullable : (Schema.union branches).nullableInner? with
    | none => simp [Schema.core_of_tagged nullable]
    | some inner =>
      obtain ⟨_, position, same, known, found⟩ := Schema.nullableInner?_some nullable
      obtain rfl := Schema.union.inj same
      rw [conforms_inner nullable, ih inner (List.mem_of_getElem? found), Schema.core_of_nullable nullable]
      constructor
      · rintro (same | ⟨same, _⟩ | fits)
        · exact Or.inl ⟨same, rfl⟩
        · exact Or.inl ⟨same, rfl⟩
        · exact Or.inr fits
      · rintro (⟨same, _⟩ | fits)
        · exact Or.inl same
        · exact Or.inr (Or.inr fits)
  | _ => simp [Schema.core, Schema.nullableInner?]

/-! ### Values that are the same -/

theorem clearEntryStates_same (value : Value) : value.clearEntryStates.same value = true := by
  cases value with
  | map m => exact same_refl (.map m)
  | _ => exact same_refl _

theorem all_same {as bs : List Value} {p : Value → Bool} (same : sameAll as bs = true)
    (each : ∀ a b, a.same b = true → p a = p b) : as.all p = bs.all p := by
  induction as generalizing bs with
  | nil =>
    cases bs with
    | nil => rfl
    | cons b bs => cases same
  | cons a as ih =>
    cases bs with
    | nil => cases same
    | cons b bs =>
      obtain ⟨first, rest⟩ := sameAll_cons.mp same
      rw [List.all_cons, List.all_cons, each a b first, ih rest]

theorem allEntries_same {as bs : List (String × Value)} {p : Value → Bool} (same : sameEntries as bs = true)
    (each : ∀ a b, a.same b = true → p a = p b) :
    (as.all fun entry => p entry.2) = bs.all fun entry => p entry.2 := by
  induction as generalizing bs with
  | nil =>
    cases bs with
    | nil => rfl
    | cons b bs => cases same
  | cons a as ih =>
    cases bs with
    | nil => cases same
    | cons b bs =>
      obtain ⟨key, value⟩ := a
      obtain ⟨key', value'⟩ := b
      obtain ⟨_, first, rest⟩ := sameEntries_cons.mp same
      rw [List.all_cons, List.all_cons, each value value' first, ih rest]

theorem conformsBranch_same {branches : List Schema} {a b : Value}
    (each : ∀ type ∈ branches, a.conforms type = b.conforms type) (branch : Nat) :
    conformsBranch branches branch a = conformsBranch branches branch b := by
  induction branches generalizing branch with
  | nil => rw [conformsBranch, conformsBranch]
  | cons head rest ih =>
    rw [List.forall_mem_cons] at each
    cases branch with
    | zero => rw [conformsBranch, conformsBranch, each.1]
    | succ branch => rw [conformsBranch, conformsBranch, ih each.2]

/-- Conformance does not look at states. -/
theorem conforms_same (schema : Schema) {a b : Value} (same : a.same b = true) :
    a.conforms schema = b.conforms schema := by
  induction schema using Schema.induction generalizing a b with
  | primitive kind =>
    rcases same_cases same with rfl | ⟨_, _, rfl, rfl, _⟩ | ⟨_, _, rfl, rfl, _⟩ | ⟨_, _, rfl, rfl, _⟩ |
      ⟨_, _, _, rfl, rfl, _⟩
    · rfl
    all_goals cases kind <;> rfl
  | record type =>
    rcases same_cases same with rfl | ⟨r, r', rfl, rfl, alike⟩ | ⟨_, _, rfl, rfl, _⟩ | ⟨_, _, rfl, rfl, _⟩ |
      ⟨_, _, _, rfl, rfl, _⟩
    case inr.inl => rw [conforms, conforms, (same_record.mp alike).1]
    all_goals simp only [conforms]
  | array element ih =>
    rcases same_cases same with rfl | ⟨_, _, rfl, rfl, _⟩ | ⟨_, _, rfl, rfl, inner⟩ | ⟨_, _, rfl, rfl, _⟩ |
      ⟨_, _, _, rfl, rfl, _⟩
    case inr.inr.inl =>
      rw [conforms, conforms]
      exact all_same inner fun a b => ih
    all_goals simp only [conforms]
  | map schema ih =>
    rcases same_cases same with rfl | ⟨_, _, rfl, rfl, _⟩ | ⟨_, _, rfl, rfl, _⟩ | ⟨_, _, rfl, rfl, inner⟩ |
      ⟨_, _, _, rfl, rfl, _⟩
    case inr.inr.inr.inl =>
      rw [conforms, conforms]
      exact allEntries_same inner fun a b => ih
    all_goals simp only [conforms]
  | union branches ih =>
    rw [conforms_union, conforms_union]
    cases Schema.nullPosition? branches with
    | some position =>
      dsimp only
      rw [same_isNull same, conformsBranch_same fun type member => ih type member same]
    | none =>
      rcases same_cases same with rfl | ⟨_, _, rfl, rfl, _⟩ | ⟨_, _, rfl, rfl, _⟩ | ⟨_, _, rfl, rfl, _⟩ |
        ⟨branch, value, value', rfl, rfl, inner⟩
      case inr.inr.inr.inr => exact conformsBranch_same (fun type member => ih type member inner) branch
      all_goals rfl
  | _ =>
    rcases same_cases same with rfl | ⟨_, _, rfl, rfl, _⟩ | ⟨_, _, rfl, rfl, _⟩ | ⟨_, _, rfl, rfl, _⟩ |
      ⟨_, _, _, rfl, rfl, _⟩
    all_goals simp only [conforms]

end Value

end TrackedRecord
