import Mathlib.Data.List.Nodup
import TrackedRecord.Proofs.Result
import TrackedRecord.Proofs.Schema.Induction
import TrackedRecord.Registry

/-!
# Named types that schemas mention

A schema is flat if no union stands right inside another. The named types of a flat schema are found from
left to right; any other schema is refused.
-/

namespace TrackedRecord.Schema

mutual

/-- The named types that stand in a schema, from left to right. -/
def mentioned : Schema → List Schema
  | .primitive _ => []
  | .enum e => [.enum e]
  | .fixed f => [.fixed f]
  | .record r => [.record r]
  | .array element => mentioned element
  | .map value => mentioned value
  | .union branches => mentionedAll branches

def mentionedAll : List Schema → List Schema
  | [] => []
  | branch :: rest => mentioned branch ++ mentionedAll rest

end

mutual

def Flat : Schema → Prop
  | .array element => Flat element
  | .map value => Flat value
  | .union branches => FlatAll branches
  | _ => True

def FlatAll : List Schema → Prop
  | [] => True
  | branch :: rest => (branch.isUnion = false ∧ Flat branch) ∧ FlatAll rest

end

/-- An enum, a fixed or a record type. -/
def IsNamed : Schema → Prop
  | .enum _ | .fixed _ | .record _ => True
  | _ => False

theorem mentionedAll_eq_flatMap (branches : List Schema) :
    mentionedAll branches = branches.flatMap mentioned := by
  induction branches with
  | nil => rfl
  | cons branch rest ih => rw [mentionedAll, ih, List.flatMap_cons]

theorem flatAll_iff {branches : List Schema} :
    FlatAll branches ↔ ∀ branch ∈ branches, branch.isUnion = false ∧ branch.Flat := by
  induction branches with
  | nil => simp [FlatAll]
  | cons branch rest ih => simp [FlatAll, ih]

theorem mem_mentioned_union {branches : List Schema} {type : Schema} :
    type ∈ (union branches).mentioned ↔ ∃ branch ∈ branches, type ∈ branch.mentioned := by
  rw [mentioned, mentionedAll_eq_flatMap, List.mem_flatMap]

theorem flat_union {branches : List Schema} :
    (union branches).Flat ↔ ∀ branch ∈ branches, branch.isUnion = false ∧ branch.Flat := by
  rw [Flat, flatAll_iff]

theorem IsNamed.mentioned {schema : Schema} (named : schema.IsNamed) : schema.mentioned = [schema] := by
  cases schema with
  | enum | fixed | record => rw [Schema.mentioned]
  | _ => exact named.elim

theorem named_of_mentioned {schema type : Schema} (mentioned : type ∈ schema.mentioned) : type.IsNamed := by
  induction schema using Schema.induction with
  | primitive =>
    rw [Schema.mentioned] at mentioned
    cases mentioned
  | enum | fixed | record =>
    rw [Schema.mentioned] at mentioned
    rw [List.mem_singleton.mp mentioned]
    trivial
  | array element ih | map element ih =>
    rw [Schema.mentioned] at mentioned
    exact ih mentioned
  | union branches ih =>
    obtain ⟨branch, member, inside⟩ := mem_mentioned_union.mp mentioned
    exact ih branch member inside

theorem IsNamed.flat {schema : Schema} (named : schema.IsNamed) : schema.Flat := by
  cases schema with
  | enum | fixed | record => trivial
  | _ => exact named.elim

/-! ### Kinds of types -/

def record? : Schema → Option RecordRef
  | .record r => some r
  | _ => none

def enum? : Schema → Option EnumType
  | .enum e => some e
  | _ => none

def fixed? : Schema → Option FixedType
  | .fixed f => some f
  | _ => none

theorem record?_iff (type : Schema) (r : RecordRef) : type.record? = some r ↔ type = .record r := by
  cases type <;> simp [record?]

theorem enum?_iff (type : Schema) (e : EnumType) : type.enum? = some e ↔ type = .enum e := by
  cases type <;> simp [enum?]

theorem fixed?_iff (type : Schema) (f : FixedType) : type.fixed? = some f ↔ type = .fixed f := by
  cases type <;> simp [fixed?]

variable {types : List Schema} {α : Type} {part? : Schema → Option α} {whole : α → Schema}

theorem mem_parts (inverse : ∀ type a, part? type = some a ↔ type = whole a) {a : α} :
    a ∈ types.filterMap part? ↔ whole a ∈ types := by
  simp only [List.mem_filterMap, inverse, exists_eq_right]

theorem nodup_parts (inverse : ∀ type a, part? type = some a ↔ type = whole a) (distinct : types.Nodup) :
    (types.filterMap part?).Nodup := by
  refine distinct.filterMap fun first second a inFirst inSecond => ?_
  rw [(inverse first a).mp inFirst, (inverse second a).mp inSecond]

end TrackedRecord.Schema

namespace TrackedRecord.Registry

open Schema (mentioned)

theorem branchMentions_ok {context : String} {branches types : List Schema}
    (each : ∀ branch ∈ branches, ∀ types,
      mentions context branch = .ok types ↔ branch.Flat ∧ types = branch.mentioned) :
    branchMentions context branches = .ok types ↔
      Schema.FlatAll branches ∧ types = Schema.mentionedAll branches := by
  induction branches generalizing types with
  | nil =>
    rw [branchMentions, Schema.FlatAll, Schema.mentionedAll]
    simp [eq_comm]
  | cons branch rest ih =>
    rw [List.forall_mem_cons] at each
    rw [branchMentions, Schema.FlatAll, Schema.mentionedAll]
    cases union : branch.isUnion with
    | true => exact ⟨fun h => (nomatch h), fun h => (nomatch h.1.1.1)⟩
    | false =>
      simp only [true_and]
      exact Result.known_parts_ok each.1 fun _ => ih each.2

/-- A flat schema gives its named types, any other is refused. -/
theorem mentions_ok {context : String} {schema : Schema} {types : List Schema} :
    mentions context schema = .ok types ↔ schema.Flat ∧ types = schema.mentioned := by
  induction schema using Schema.induction generalizing types with
  | primitive | enum | fixed | record =>
    rw [mentions, Schema.mentioned]
    simp [Schema.Flat, eq_comm]
  | array element ih | map element ih =>
    rw [mentions, Schema.mentioned, Schema.Flat]
    exact ih
  | union branches ih =>
    rw [mentions, Schema.mentioned, Schema.Flat]
    exact branchMentions_ok fun branch member _ => ih branch member

theorem rootMentions_ok {roots types : List Schema} :
    rootMentions roots = .ok types ↔ (∀ root ∈ roots, root.Flat) ∧ types = roots.flatMap mentioned := by
  induction roots generalizing types with
  | nil =>
    rw [rootMentions]
    simp [eq_comm]
  | cons root rest ih =>
    rw [rootMentions, List.forall_mem_cons, List.flatMap_cons]
    exact Result.known_parts_ok (fun _ => mentions_ok) fun _ => ih

theorem fieldMentions_ok {fullName : String} {fields : List FieldType} {types : List Schema} :
    fieldMentions fullName fields = .ok types ↔
      (∀ field ∈ fields, field.schema.Flat) ∧ types = fields.flatMap fun field => field.schema.mentioned := by
  induction fields generalizing types with
  | nil =>
    rw [fieldMentions]
    simp [eq_comm]
  | cons field rest ih =>
    rw [fieldMentions, List.forall_mem_cons, List.flatMap_cons]
    exact Result.known_parts_ok (fun _ => mentions_ok) fun _ => ih

/-! ### Numbers of named types -/

theorem mentionCountAll_eq {branches : List Schema}
    (each : ∀ branch ∈ branches, mentionCount branch = branch.mentioned.length) :
    mentionCountAll branches = (branches.flatMap mentioned).length := by
  induction branches with
  | nil => rfl
  | cons branch rest ih =>
    rw [List.forall_mem_cons] at each
    rw [mentionCountAll, each.1, ih each.2, List.flatMap_cons, List.length_append]

theorem mentionCount_eq (schema : Schema) : mentionCount schema = schema.mentioned.length := by
  induction schema using Schema.induction with
  | primitive | enum | fixed | record =>
    rw [mentionCount, Schema.mentioned]
    rfl
  | array element ih | map element ih =>
    rw [mentionCount, Schema.mentioned]
    exact ih
  | union branches ih =>
    rw [mentionCount, Schema.mentioned, Schema.mentionedAll_eq_flatMap]
    exact mentionCountAll_eq ih

end TrackedRecord.Registry
