import TrackedRecord.Proofs.Schema.WellFormed
import TrackedRecord.Proofs.Source.Names

/-!
# Members of generated types

The names of methods and of symbols' constants come from schema names in one letter case, and unlike the
constants of fields they are not numbered where they meet. `members_apart_iff` says where they do: fields
meet if their constants would without numbers, and a map meets a field that has its name behind `from_`.
-/

namespace TrackedRecord

/-! ### Letter case of identifiers -/

namespace Text

theorem Identifier.ascii {name : String} (identifier : Identifier name) : ∀ c ∈ name.toList, c.toNat < 0x80 := by
  have letter {c : Char} (letter : Letter c) : c.toNat < 0x80 := by
    rcases letter with ⟨_, high⟩ | ⟨_, high⟩ | rfl
    · exact Nat.lt_of_le_of_lt (Char.le_def.mp high) (by decide)
    · exact Nat.lt_of_le_of_lt (Char.le_def.mp high) (by decide)
    · decide
  have digit {c : Char} (digit : Digit c) : c.toNat < 0x80 :=
    Nat.lt_of_le_of_lt (Char.le_def.mp digit.2) (by decide)
  obtain ⟨first, rest, chars, start, later⟩ := identifier
  rw [chars]
  intro c member
  rcases List.mem_cons.mp member with rfl | behind
  · exact letter start
  · exact (later c behind).elim letter digit

variable {cs ds : List Char}

/-- What holds of all characters holds with underscores between them. -/
theorem splitCamel_forall {P : Char → Prop} (underscore : P '_') (each : ∀ c ∈ cs, P c) (afterLower : Bool) :
    ∀ c ∈ splitCamel afterLower cs, P c := by
  induction cs generalizing afterLower with
  | nil => exact fun _ member => nomatch member
  | cons c rest ih =>
    obtain ⟨first, others⟩ := List.forall_mem_cons.mp each
    have tail : ∀ d ∈ c :: splitCamel (isLowercase c) rest, P d :=
      List.forall_mem_cons.mpr ⟨first, ih others (isLowercase c)⟩
    rw [splitCamel]
    split
    · exact List.forall_mem_cons.mpr ⟨underscore, tail⟩
    · exact tail

theorem splitCamel_ascii (ascii : ∀ c ∈ cs, c.toNat < 0x80) (afterLower : Bool) :
    ∀ c ∈ splitCamel afterLower cs, c.toNat < 0x80 :=
  splitCamel_forall (show '_'.toNat < 0x80 by decide) ascii afterLower

theorem upper_ascii (ascii : ∀ c ∈ cs, c.toNat < 0x80) : cs.flatMap upperChar = cs.map Char.toUpper := by
  induction cs with
  | nil => rfl
  | cons c rest ih =>
    obtain ⟨small, others⟩ := List.forall_mem_cons.mp ascii
    rw [List.flatMap_cons, ih others, upperChar, if_pos small]
    rfl

theorem lower_ascii (ascii : ∀ c ∈ cs, c.toNat < 0x80) (before : List Char) :
    lowerFrom before cs = cs.map Char.toLower := by
  induction cs generalizing before with
  | nil => rfl
  | cons c rest ih =>
    obtain ⟨small, others⟩ := List.forall_mem_cons.mp ascii
    have noSigma : c.toNat ≠ 0x3A3 := by omega
    rw [lowerFrom, ih others, if_neg noSigma, lowerChar, if_pos small]
    rfl

theorem toUpper_toLower_ascii {c : Char} (ascii : c.toNat < 0x80) :
    c.toLower.toUpper = c.toUpper ∧ c.toUpper.toLower = c.toLower := by
  have each : ∀ n : Fin 0x80, (Char.ofNat n).toLower.toUpper = (Char.ofNat n).toUpper ∧
      (Char.ofNat n).toUpper.toLower = (Char.ofNat n).toLower := by decide
  have one := each ⟨c.toNat, ascii⟩
  rwa [Char.ofNat_toNat] at one

/-- Characters that are the same in lower case are the same in upper case, and the other way round. -/
theorem map_toLower_eq_iff (asciiC : ∀ c ∈ cs, c.toNat < 0x80) (asciiD : ∀ d ∈ ds, d.toNat < 0x80) :
    cs.map Char.toLower = ds.map Char.toLower ↔ cs.map Char.toUpper = ds.map Char.toUpper := by
  have lowered {l : List Char} (ascii : ∀ c ∈ l, c.toNat < 0x80) :
      (l.map Char.toLower).map Char.toUpper = l.map Char.toUpper := by
    rw [List.map_map]
    exact List.map_congr_left fun c member => (toUpper_toLower_ascii (ascii c member)).1
  have raised {l : List Char} (ascii : ∀ c ∈ l, c.toNat < 0x80) :
      (l.map Char.toUpper).map Char.toLower = l.map Char.toLower := by
    rw [List.map_map]
    exact List.map_congr_left fun c member => (toUpper_toLower_ascii (ascii c member)).2
  constructor
  · intro same
    rw [← lowered asciiC, ← lowered asciiD, same]
  · intro same
    rw [← raised asciiC, ← raised asciiD, same]

/-- Identifiers have one method suffix exactly if they have one constant. -/
theorem methodSuffix_eq_iff {a b : String} (first : Identifier a) (second : Identifier b) :
    methodSuffix a = methodSuffix b ↔ constantName a = constantName b := by
  have asciiA := splitCamel_ascii first.ascii false
  have asciiB := splitCamel_ascii second.ascii false
  rw [methodSuffix, methodSuffix, constantName, constantName, lower, lower, upper, upper, String.ofList_inj,
    String.ofList_inj, String.toList_ofList, String.toList_ofList, lower_ascii asciiA, lower_ascii asciiB,
    upper_ascii asciiA, upper_ascii asciiB]
  exact map_toLower_eq_iff asciiA asciiB

end Text

namespace Source

/-! ### Names of methods -/

/-- What stands before the suffix of the field. -/
def startOf : Accessor → String
  | .get => "get_"
  | .set => "set_"
  | .append => "append_to_"
  | .getEntry => "get_from_"
  | .putEntry => "put_to_"
  | .removeEntry => "remove_from_"

def suffix (field : Field) : String := Text.methodSuffix field.name

namespace Method

theorem nameOf_eq (field : Field) (accessor : Accessor) :
    nameOf field accessor = startOf accessor ++ suffix field := by
  cases accessor <;> rfl

/-- Only getting a field and getting an entry begin alike. -/
theorem start_append_eq_iff {a b : Accessor} {s t : String} : startOf a ++ s = startOf b ++ t ↔
    a = b ∧ s = t ∨ a = .get ∧ b = .getEntry ∧ s = "from_" ++ t ∨
      a = .getEntry ∧ b = .get ∧ t = "from_" ++ s := by
  simp only [← String.toList_inj, String.toList_append]
  cases a <;> cases b <;> simp [startOf]
  exact eq_comm

end Method

theorem ne_from_append (s : String) : s ≠ "from_" ++ s := by
  intro same
  have lengths := congrArg String.length same
  rw [String.length_append] at lengths
  have long : 0 < "from_".length := by decide
  omega

/-- Getting an entry of `f` is named as getting `g`. -/
def Shadows (f g : Field) : Prop := f.kind = .map ∧ suffix g = "from_" ++ suffix f

theorem not_shadows_self (f : Field) : ¬Shadows f f := fun ⟨_, same⟩ => ne_from_append _ same

/-- The names of the methods for a field. -/
def methodNames (field : Field) : List String := field.accessors.map (Method.nameOf field)

theorem get_mem_accessors (field : Field) : Accessor.get ∈ field.accessors := by
  unfold Field.accessors
  split <;> exact List.mem_cons_self

theorem getEntry_mem_accessors {field : Field} : Accessor.getEntry ∈ field.accessors ↔ field.kind = .map := by
  unfold Field.accessors
  split <;> simp_all

theorem accessors_nodup (field : Field) : field.accessors.Nodup := by
  unfold Field.accessors
  split <;> decide

theorem methodNames_nodup (field : Field) : (methodNames field).Nodup := by
  refine (accessors_nodup field).map_on fun a _ b _ same => ?_
  rw [Method.nameOf_eq, Method.nameOf_eq, Method.start_append_eq_iff] at same
  rcases same with ⟨same, _⟩ | ⟨_, _, again⟩ | ⟨_, _, again⟩
  · exact same
  all_goals exact absurd again (ne_from_append _)

theorem methodNames_disjoint_iff {f g : Field} : (methodNames f).Disjoint (methodNames g) ↔
    suffix f ≠ suffix g ∧ ¬Shadows f g ∧ ¬Shadows g f := by
  have shared {a b : Accessor} (inF : a ∈ f.accessors) (inG : b ∈ g.accessors)
      (same : startOf a ++ suffix f = startOf b ++ suffix g) : ¬(methodNames f).Disjoint (methodNames g) := by
    intro apart
    have name : Method.nameOf f a = Method.nameOf g b := by
      rw [Method.nameOf_eq, Method.nameOf_eq, same]
    have inBoth : Method.nameOf f a ∈ methodNames g := by
      rw [name]
      exact List.mem_map_of_mem inG
    exact apart (List.mem_map_of_mem inF) inBoth
  constructor
  · refine fun apart => ⟨fun same => ?_, fun ⟨map, same⟩ => ?_, fun ⟨map, same⟩ => ?_⟩
    · exact shared (get_mem_accessors f) (get_mem_accessors g)
        (Method.start_append_eq_iff.mpr (Or.inl ⟨rfl, same⟩)) apart
    · exact shared (getEntry_mem_accessors.mpr map) (get_mem_accessors g)
        (Method.start_append_eq_iff.mpr (Or.inr (Or.inr ⟨rfl, rfl, same⟩))) apart
    · exact shared (get_mem_accessors f) (getEntry_mem_accessors.mpr map)
        (Method.start_append_eq_iff.mpr (Or.inr (Or.inl ⟨rfl, rfl, same⟩))) apart
  · rintro ⟨suffixes, first, second⟩ name inF inG
    obtain ⟨a, offered, rfl⟩ := List.mem_map.mp inF
    obtain ⟨b, offered', same⟩ := List.mem_map.mp inG
    rw [Method.nameOf_eq, Method.nameOf_eq, Method.start_append_eq_iff] at same
    rcases same with ⟨_, same⟩ | ⟨_, rfl, same⟩ | ⟨rfl, _, same⟩
    · exact suffixes same.symm
    · exact first ⟨getEntry_mem_accessors.mp offered, same⟩
    · exact second ⟨getEntry_mem_accessors.mp offered', same⟩

theorem recordMethods_names (layout : Layout) :
    (recordMethods layout).map Method.name = layout.fields.flatMap methodNames := by
  have each (pair : Field × String) : (Method.ofField pair.1 pair.2).map Method.name = methodNames pair.1 := by
    rw [Method.ofField, List.map_map, methodNames]
    refine List.map_congr_left fun accessor _ => ?_
    cases accessor <;> rfl
  have fields : (layout.fields.zip (fieldConstants layout)).map Prod.fst = layout.fields := by
    apply List.map_fst_zip
    rw [fieldConstants, uniqueNames_length, List.length_map]
  calc
    (recordMethods layout).map Method.name = (layout.fields.zip (fieldConstants layout)).flatMap fun pair =>
        (Method.ofField pair.1 pair.2).map Method.name := List.map_flatMap
    _ = (layout.fields.zip (fieldConstants layout)).flatMap fun pair => methodNames pair.1 := by simp only [each]
    _ = ((layout.fields.zip (fieldConstants layout)).map Prod.fst).flatMap methodNames :=
        (List.flatMap_map ..).symm
    _ = layout.fields.flatMap methodNames := by rw [fields]

/-- Methods of a record are told apart exactly if their fields are, and no map shadows a field. -/
theorem methods_nodup_iff (layout : Layout) : ((recordMethods layout).map Method.name).Nodup ↔
    (layout.fields.map suffix).Nodup ∧ ∀ f ∈ layout.fields, ∀ g ∈ layout.fields, ¬Shadows f g := by
  have apart : Function.onFun List.Disjoint methodNames =
      fun f g => suffix f ≠ suffix g ∧ ¬Shadows f g ∧ ¬Shadows g f := by
    funext f g
    exact propext methodNames_disjoint_iff
  rw [recordMethods_names, List.nodup_flatMap, apart, List.pairwise_and_iff, List.Nodup, List.pairwise_map]
  constructor
  · rintro ⟨_, suffixes, shadows⟩
    refine ⟨suffixes, fun f inF g inG => ?_⟩
    exact (shadows.imp And.left).forall_of_forall_of_flip (fun f _ => not_shadows_self f)
      (shadows.imp And.right) inF inG
  · rintro ⟨suffixes, shadows⟩
    refine ⟨fun f _ => methodNames_nodup f, suffixes, ?_⟩
    exact List.pairwise_of_forall_mem_list fun f inF g inG => ⟨shadows f inF g inG, shadows g inG f inF⟩

theorem enumConstants_nodup_iff (e : EnumType) : ((enumConstants e).map Constant.name).Nodup ↔
    (e.symbols.map Text.constantName).Nodup ∧ "SYMBOLS" ∉ e.symbols.map Text.constantName := by
  have names : (enumConstants e).map Constant.name = e.symbols.map Text.constantName ++ ["SYMBOLS"] := by
    rw [enumConstants, List.map_append, List.map_map]
    calc
      _ = (e.symbols.zipIdx.map Prod.fst).map Text.constantName ++ ["SYMBOLS"] := by rw [List.map_map]; rfl
      _ = e.symbols.map Text.constantName ++ ["SYMBOLS"] := by rw [List.zipIdx_map_fst]
  rw [names, List.nodup_append]
  simp only [List.nodup_singleton, List.mem_singleton, true_and, forall_eq]
  refine and_congr_right fun _ => ⟨fun each member => each _ member rfl, fun absent name member same => ?_⟩
  exact absent (same ▸ member)

/-- The fields of compiled records have names that were parsed. -/
theorem isName_of_field {given roots : List Schema} {v : Vocabulary} {registry : Registry}
    (session : Vocabulary.Session given v) (compiled : Registry.compile v.catalog roots = .ok registry)
    {record : CompiledRecord} (member : record ∈ registry.records) {field : Field}
    (inside : field ∈ record.layout.fields) : Vocabulary.isName field.name = true := by
  obtain ⟨fields, defined, _, same⟩ := Registry.layout_of_ok.mp (Registry.compile_made compiled record member).1
  rw [same] at inside
  have declared : field.declared ∈ fields := by
    rw [← Layout.fieldsOf_declared fields]
    exact List.mem_map_of_mem inside
  exact ((session.kept.regular.fields defined).each _ declared).1

/-! ### Main result -/

/-- In source that is generated for parsed documents, the methods of a record are told apart exactly if the constants
of its fields are without their numbers and no map shadows a field, and the constants of an enum exactly if those of
its symbols are and none of them is the constant of all symbols. -/
theorem members_apart_iff {given roots : List Schema} {v : Vocabulary} {registry : Registry}
    (session : Vocabulary.Session given v) (compiled : Registry.compile v.catalog roots = .ok registry) :
    (∀ record ∈ registry.records, ((recordMethods record.layout).map Method.name).Nodup ↔
      (record.layout.fields.map Field.constant).Nodup ∧
        ∀ f ∈ record.layout.fields, ∀ g ∈ record.layout.fields, ¬Shadows f g) ∧
      ∀ e ∈ registry.enums, ((enumConstants e).map Constant.name).Nodup ↔
        (e.symbols.map Text.constantName).Nodup ∧ "SYMBOLS" ∉ e.symbols.map Text.constantName := by
  refine ⟨fun record member => ?_, fun e _ => enumConstants_nodup_iff e⟩
  have identifier : ∀ field ∈ record.layout.fields, Text.Identifier field.name := fun field inside =>
    Vocabulary.isName_iff.mp (isName_of_field session compiled member inside)
  rw [methods_nodup_iff]
  unfold List.Nodup
  rw [List.pairwise_map, List.pairwise_map]
  refine and_congr_left fun _ => List.Pairwise.iff_of_mem fun {f g} inF inG => ?_
  exact not_congr (Text.methodSuffix_eq_iff (identifier f inF) (identifier g inG))

namespace Clash

/-- Fields that differ in their letter case, a map and a field named as its entries, and symbols in two cases. -/
def documents : List Json :=
  [Shop.record "Page"
      [("baseUrl", .string "string"), ("base_url", .string "string"),
        ("links", .object [("type", .string "map"), ("values", .string "int")]), ("from_links", .string "int")],
    .object [("type", .string "enum"), ("name", .string "Colour"),
      ("symbols", .array [.string "Red", .string "RED", .string "symbols"])]]

def page : RecordRef := ⟨"Page", none, 0⟩

def colour : EnumType := ⟨"Colour", none, ["Red", "RED", "symbols"]⟩

def fields : List FieldType :=
  [⟨"baseUrl", .primitive .string⟩, ⟨"base_url", .primitive .string⟩, ⟨"links", .map (.primitive .int)⟩,
    ⟨"from_links", .primitive .int⟩]

def vocabulary : Vocabulary where
  catalog := ⟨[⟨"Page", none, none, some (FieldSchema.numbered fields)⟩]⟩
  named := [("Colour", .enum colour), ("Page", .record page)]

def registry : Registry := ⟨[Registry.compiledOf vocabulary.catalog page], [colour], []⟩

theorem parse_documents :
    Vocabulary.parseDocuments documents {} = .ok [.record page, .enum colour] vocabulary := by rfl

theorem compiled : Registry.compile vocabulary.catalog [.record page, .enum colour] = .ok registry := rfl

end Clash

theorem members_apart_clash :
    Vocabulary.Session [.record Clash.page, .enum Clash.colour] Clash.vocabulary ∧
      Registry.compile Clash.vocabulary.catalog [.record Clash.page, .enum Clash.colour] = .ok Clash.registry ∧
      ∀ e ∈ Clash.registry.enums, ¬((enumConstants e).map Constant.name).Nodup := by
  have session := Vocabulary.Session.new.parsed (.batch Clash.documents) Clash.parse_documents
  refine ⟨session, Clash.compiled, fun e member => ?_⟩
  obtain rfl := List.mem_singleton.mp member
  rw [(members_apart_iff session Clash.compiled).2 Clash.colour member]
  decide

/-- Two fields and two symbols share their names, a map shadows a field, and a symbol is named SYMBOLS. -/
theorem members_clash :
    Vocabulary.parseDocuments Clash.documents {} =
        .ok [.record Clash.page, .enum Clash.colour] Clash.vocabulary ∧
      Registry.compile Clash.vocabulary.catalog [.record Clash.page, .enum Clash.colour] = .ok Clash.registry ∧
      Clash.registry.records.map (fun record => (recordMethods record.layout).map Method.name) =
        [["get_base_url", "set_base_url", "get_base_url", "set_base_url", "get_links", "set_links",
          "get_from_links", "put_to_links", "remove_from_links", "get_from_links", "set_from_links"]] ∧
      Clash.registry.enums.map (fun e => (enumConstants e).map Constant.name) =
        [["RED", "RED", "SYMBOLS", "SYMBOLS"]] ∧
      ∀ record ∈ Clash.registry.records, ¬((recordMethods record.layout).map Method.name).Nodup := by
  refine ⟨Clash.parse_documents, Clash.compiled, by decide, by decide, fun record member => ?_⟩
  obtain rfl := List.mem_singleton.mp member
  decide

end Source

end TrackedRecord
