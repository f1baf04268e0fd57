import TrackedRecord.Proofs.Registry.Reachable

/-!
# Schemas that roots lead to

Types stand in arrays, maps and unions, so roots lead to more schemas than types. The types among them are those
that the search looks for, and none of them has a union right inside another exactly where all roots and all
fields of records are flat.
-/

namespace TrackedRecord.Catalog

open Registry (Reachable)

/-- A root, what stands right inside a schema that the roots lead to, or the schema of a field of a record
that they lead to. -/
inductive Leads (catalog : Catalog) (roots : List Schema) : Schema → Prop where
  | root {root : Schema} (member : root ∈ roots) : Leads catalog roots root
  | element {element : Schema} (leads : Leads catalog roots (.array element)) : Leads catalog roots element
  | value {value : Schema} (leads : Leads catalog roots (.map value)) : Leads catalog roots value
  | branch {branches : List Schema} {branch : Schema} (leads : Leads catalog roots (.union branches))
    (member : branch ∈ branches) : Leads catalog roots branch
  | field {r : RecordRef} {fields : List FieldType} {field : FieldType} (leads : Leads catalog roots (.record r))
    (defined : catalog.fields? r = some fields) (member : field ∈ fields) : Leads catalog roots field.schema

variable {catalog : Catalog} {roots : List Schema} {schema type : Schema}

/-! ### Types -/

theorem Leads.mentioned (leads : catalog.Leads roots schema) (mentioned : type ∈ schema.mentioned) :
    catalog.Leads roots type := by
  induction schema using Schema.induction with
  | primitive =>
    rw [Schema.mentioned] at mentioned
    cases mentioned
  | enum | fixed | record =>
    rw [Schema.mentioned] at mentioned
    exact List.mem_singleton.mp mentioned ▸ leads
  | array element ih =>
    rw [Schema.mentioned] at mentioned
    exact ih (.element leads) mentioned
  | map value ih =>
    rw [Schema.mentioned] at mentioned
    exact ih (.value leads) mentioned
  | union branches ih =>
    obtain ⟨branch, member, inside⟩ := Schema.mem_mentioned_union.mp mentioned
    exact ih branch member (.branch leads member) inside

/-- All types in a schema that the roots lead to are reached. -/
theorem Leads.reachable (leads : catalog.Leads roots schema) :
    ∀ type ∈ schema.mentioned, Reachable catalog roots type := by
  induction leads with
  | root member => exact fun type mentioned => .root member mentioned
  | element _ ih | value _ ih =>
    rw [Schema.mentioned] at ih
    exact ih
  | branch _ member ih =>
    exact fun type inside => ih type (Schema.mem_mentioned_union.mpr ⟨_, member, inside⟩)
  | @field r fields field _ defined member ih =>
    have reached : Reachable catalog roots (.record r) := ih _ List.mem_cons_self
    exact fun type mentioned => .field reached defined member mentioned

theorem leads_of_reachable (reachable : Reachable catalog roots type) : catalog.Leads roots type := by
  induction reachable with
  | root member mentioned => exact (Leads.root member).mentioned mentioned
  | field _ defined member mentioned ih => exact (ih.field defined member).mentioned mentioned

theorem leads_iff (named : type.IsNamed) : catalog.Leads roots type ↔ Reachable catalog roots type := by
  refine ⟨fun leads => leads.reachable type ?_, leads_of_reachable⟩
  rw [named.mentioned]
  exact List.mem_cons_self

/-! ### Unions -/

theorem Leads.flat (flat : ∀ root ∈ roots, root.Flat)
    (fields : ∀ {r fields}, Reachable catalog roots (.record r) → catalog.fields? r = some fields →
      ∀ field ∈ fields, field.schema.Flat)
    (leads : catalog.Leads roots schema) : schema.Flat := by
  induction leads with
  | root member => exact flat _ member
  | element _ ih | value _ ih =>
    rw [Schema.Flat] at ih
    exact ih
  | branch _ member ih => exact (Schema.flat_union.mp ih _ member).2
  | field leads defined member => exact fields (leads.reachable _ List.mem_cons_self) defined _ member

theorem Leads.flat_of_branches
    (branches : ∀ {branches}, catalog.Leads roots (.union branches) → ∀ branch ∈ branches, branch.isUnion = false)
    (leads : catalog.Leads roots schema) : schema.Flat := by
  induction schema using Schema.induction with
  | primitive | enum | fixed | record => trivial
  | array element ih =>
    rw [Schema.Flat]
    exact ih (.element leads)
  | map value ih =>
    rw [Schema.Flat]
    exact ih (.value leads)
  | union inside ih =>
    rw [Schema.flat_union]
    exact fun branch member => ⟨branches leads branch member, ih branch member (.branch leads member)⟩

/-- No union stands right inside another one that the roots lead to. -/
theorem unnested_iff :
    (∀ {branches}, catalog.Leads roots (.union branches) → ∀ branch ∈ branches, branch.isUnion = false) ↔
      (∀ root ∈ roots, root.Flat) ∧ ∀ {r fields}, Reachable catalog roots (.record r) →
        catalog.fields? r = some fields → ∀ field ∈ fields, field.schema.Flat := by
  constructor
  · intro branches
    refine ⟨fun root member => (Leads.root member).flat_of_branches branches, ?_⟩
    intro r fields reachable defined field member
    exact ((leads_of_reachable reachable).field defined member).flat_of_branches branches
  · rintro ⟨flat, fields⟩ inside leads branch member
    exact (Schema.flat_union.mp (leads.flat flat fields) branch member).1

end TrackedRecord.Catalog
