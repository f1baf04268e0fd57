import TrackedRecord.Proofs.Source.Lines

/-!
# The text of generated source

The text of a module says what its lists of names say: line by line, it is read as the types under their identifiers,
each with its constants, and for a record with the methods of its fields and the calls that they make.
-/

namespace TrackedRecord.Source

open Text (Word OneLine isNamePart oneLine_append oneLine_quoted)

/-! ### Enums and fixed types -/

def Constant.item (constant : Constant) : Item :=
  ⟨.constant, constant.name, ": " ++ constant.type ++ " = " ++ constant.value ++ ";"⟩

theorem Constant.line_eq (constant : Constant) : constant.line = constant.item.line := by
  unfold line
  simp only [item, Item.line, Keyword.text, String.append_assoc]

theorem Line.constant {constant : Constant} (word : Word constant.name) (type : OneLine constant.type)
    (value : OneLine constant.value) : Line constant.line (some constant.item) := by
  have single : OneLine (": " ++ constant.type ++ " = " ++ constant.value ++ ";") := by
    simp only [oneLine_append, type, value]
    simp [OneLine]
  rw [Constant.line_eq]
  unfold Item.line Constant.item
  exact .item word single (by simp; decide)

/-- The item of a type, whose line ends there or begins a block. -/
def typeItem (name rest : String) : Item := ⟨.type, name, rest⟩

def enumItems (name : String) (e : EnumType) : List Item :=
  typeItem name ";" :: (enumConstants e).map Constant.item

def fixedItems (name : String) (f : FixedType) : List Item :=
  [typeItem name ";", Constant.item ⟨"SIZE", "usize", toString f.size⟩]

theorem enumConstants_lines {e : EnumType} (symbols : ∀ symbol ∈ e.symbols, Word (Text.constantName symbol)) :
    ∀ constant ∈ enumConstants e, Line constant.line (some constant.item) := by
  intro constant member
  rcases List.mem_append.mp member with ordinal | last
  · obtain ⟨⟨symbol, i⟩, inside, rfl⟩ := List.mem_map.mp ordinal
    have word := symbols symbol (List.fst_mem_of_mem_zipIdx inside)
    exact .constant word (by simp [OneLine]) (Text.word_repr i).oneLine
  · obtain rfl := List.mem_singleton.mp last
    have word : Word "SYMBOLS" := by simp [Word]; decide
    have quoted : OneLine (", ".intercalate (e.symbols.map Text.quoted)) :=
      Text.oneLine_intercalate (by simp [OneLine]) (List.forall_mem_map.mpr fun symbol _ => oneLine_quoted symbol)
    refine .constant word (by simp [OneLine]) ?_
    simp only [oneLine_append, quoted]
    simp [OneLine]

/-- A comment in which a type is named. -/
theorem Line.comment {start fullName : String} (single : OneLine start) (shown : OneLine fullName) :
    Line ("/// " ++ start ++ fullName ++ "`") none := by
  refine .passed ?_ (by simp)
  simp only [oneLine_append, single, shown]
  simp [OneLine]

theorem Line.block {name : String} (word : Word name) : Line ("impl " ++ name ++ " \x7b") none := by
  refine .passed ?_ (by simp)
  simp only [oneLine_append, word.oneLine]
  simp [OneLine]

theorem Line.empty : Line "" none := .passed (by simp [OneLine]) (by simp)

theorem Line.closing : Line "\x7d" none := .passed (by simp [OneLine]) (by simp)

/-- The lines before the constants of an enum or a fixed type. -/
theorem unitHeader_yields {name comment : String} (word : Word name) (passed : Line comment none) :
    Yields (lines ["", comment, "pub struct " ++ name ++ ";", "", "impl " ++ name ++ " \x7b"]) [typeItem name ";"] :=
  have type : Line (Keyword.type.text ++ name ++ ";") (some (typeItem name ";")) :=
    .item word (by simp [OneLine]) (by simp; decide)
  .cons .empty (.cons passed (.cons type (.cons .empty (.cons (.block word) .noLines))))

theorem enumText_yields {name : String} {e : EnumType} (word : Word name) (shown : OneLine e.fullName)
    (symbols : ∀ symbol ∈ e.symbols, Word (Text.constantName symbol)) :
    Yields (enumText name e) (enumItems name e) := by
  have comment : Line ("/// " ++ "Symbols of enum `" ++ e.fullName ++ "`") none :=
    .comment (by simp [OneLine]) shown
  have parts : enumText name e = lines ["", "/// Symbols of enum `" ++ e.fullName ++ "`", "pub struct " ++ name ++ ";",
      "", "impl " ++ name ++ " \x7b"] ++ lines ((enumConstants e).map Constant.line) ++ lines ["\x7d"] := by
    unfold enumText
    rw [lines_append, lines_append]
    rfl
  rw [parts]
  exact ((unitHeader_yields word comment).append (.each (enumConstants_lines symbols))).behind (.cons .closing .noLines)

theorem fixedText_yields {name : String} {f : FixedType} (word : Word name) (shown : OneLine f.fullName) :
    Yields (fixedText name f) (fixedItems name f) := by
  have comment : Line ("/// " ++ "Fixed `" ++ f.fullName ++ "`") none := .comment (by simp [OneLine]) shown
  have size : Line (Constant.line ⟨"SIZE", "usize", toString f.size⟩)
      (some (Constant.item ⟨"SIZE", "usize", toString f.size⟩)) :=
    .constant (by simp [Word]; decide) (by simp [OneLine]) (Text.word_repr f.size).oneLine
  have parts : fixedText name f = lines ["", "/// Fixed `" ++ f.fullName ++ "`", "pub struct " ++ name ++ ";",
      "", "impl " ++ name ++ " \x7b"] ++ lines [Constant.line ⟨"SIZE", "usize", toString f.size⟩, "\x7d"] := by
    rw [← lines_append]
    rfl
  rw [parts]
  exact (unitHeader_yields word comment).append (.cons size (.cons .closing .noLines))

/-! ### Records -/

theorem opening_yields : Yields opening [] :=
  .ofLines (by simp [OneLine]) (by decide +kernel)

def openingItems : List Item := [
  ⟨.method, "new", "(descriptor: &Arc<RecordTypeDescriptor>) -> RecordResult<Self> \x7b"⟩,
  ⟨.method, "from_record", "(record: Record) -> RecordResult<Self> \x7b"⟩,
  ⟨.method, "into_record", "(self) -> Record \x7b"⟩]

theorem recordOpening_yields : Yields recordOpening openingItems :=
  .ofLines (by simp [OneLine]) (by decide +kernel)

theorem persistence_yields {name : String} (word : Word name) : Yields (persistence name) [] := by
  have block : Line ("impl Persistent for " ++ name ++ " \x7b") none := by
    refine .passed ?_ (by simp)
    simp only [oneLine_append, word.oneLine]
    simp [OneLine]
  exact .cons .empty (.cons block (.ofLines (by simp [OneLine]) (by decide +kernel)))

/-! ### Methods -/

theorem oneLine_parameterType (schema : Schema) : OneLine (parameterType schema) := by
  have primitive (schema : Schema) : ∀ type, primitiveType? schema = some type → OneLine type := by
    intro type known
    unfold primitiveType? at known
    split at known <;> cases known <;> simp [OneLine]
  unfold parameterType
  split
  · rename_i inner _
    cases known : primitiveType? inner with
    | none => simp [OneLine]
    | some type =>
      simp only [Option.map_some, Option.getD_some, oneLine_append, primitive inner type known]
      simp [OneLine]
  · cases known : primitiveType? schema with
    | none => simp [OneLine]
    | some type => exact primitive schema type known

namespace Method

def signature (method : Method) : Item :=
  ⟨.method, method.name, "(" ++ method.parameters ++ ") -> " ++ method.result ++ " \x7b"⟩

/-- What is called on the record with the constant. -/
def call (constant : String) (accessor : Accessor) : Item :=
  ⟨.call, callOf accessor, "(Self::" ++ constant ++ argumentsOf accessor⟩

def items (field : Field) (constant : String) (accessor : Accessor) : List Item :=
  [(of field constant accessor).signature, call constant accessor]

theorem oneLine_signature (field : Field) (constant : String) (accessor : Accessor) :
    OneLine (of field constant accessor).parameters ∧ OneLine (of field constant accessor).result := by
  have element (schema : Option Schema) : OneLine ((schema.map parameterType).getD "Value") := by
    cases schema with
    | none => simp [OneLine]
    | some schema => exact oneLine_parameterType schema
  cases accessor <;>
    simp only [of, oneLine_append, element, oneLine_parameterType] <;>
    simp [OneLine]

theorem text_eq (method : Method) :
    "\n" ++ method.text = lines ["", method.signature.line, "        " ++ method.body, "    \x7d"] := by
  apply String.toList_injective
  unfold text
  simp [lines, signature, Item.line, Keyword.text]

theorem signature_line {method : Method} (word : Word method.name) (parameters : OneLine method.parameters)
    (result : OneLine method.result) : Line method.signature.line (some method.signature) := by
  have single : OneLine ("(" ++ method.parameters ++ ") -> " ++ method.result ++ " \x7b") := by
    simp only [oneLine_append, parameters, result]
    simp [OneLine]
  unfold Item.line signature
  exact .item word single (by simp; decide)

theorem call_line {constant : String} (word : Word constant) (accessor : Accessor) :
    Line (call constant accessor).line (some (call constant accessor)) := by
  have called : Word (callOf accessor) := by
    cases accessor <;> simp [Word, callOf] <;> decide
  have passed : OneLine (argumentsOf accessor) := by
    cases accessor <;> simp [OneLine, argumentsOf]
  have single : OneLine ("(Self::" ++ constant ++ argumentsOf accessor) := by
    simp only [oneLine_append, word.oneLine, passed]
    simp [OneLine]
  unfold Item.line call
  exact .item called single (by simp; decide)

theorem body_line (field : Field) (constant : String) (accessor : Accessor) :
    "        " ++ (of field constant accessor).body = (call constant accessor).line := by
  rw [of_body]
  apply String.toList_injective
  simp [Item.line, call, Keyword.text]

theorem items_yields {field : Field} {constant : String} (suffix : Word (Source.suffix field)) (word : Word constant)
    (accessor : Accessor) : Yields ("\n" ++ (of field constant accessor).text) (items field constant accessor) := by
  have name : (of field constant accessor).name = startOf accessor ++ Source.suffix field := by
    rw [← nameOf_eq]
    cases accessor <;> rfl
  have start : Word (startOf accessor) := by
    cases accessor <;> simp [Word, startOf] <;> decide
  obtain ⟨parameters, result⟩ := oneLine_signature field constant accessor
  have signature := signature_line (name ▸ start.append suffix) parameters result
  have call := call_line word accessor
  have closing : Line "    \x7d" none := ⟨by simp [OneLine], by decide +kernel⟩
  rw [text_eq, body_line]
  exact .cons .empty (.cons signature (.cons call (.cons closing .noLines)))

end Method

theorem join_flatMap {α β : Type} (all : List α) (parts : α → List β) (textOf : β → String) :
    String.join ((all.flatMap parts).map textOf) =
      String.join (all.map fun a => String.join ((parts a).map textOf)) := by
  apply String.toList_injective
  simp only [String.toList_join, List.flatMap_map, List.flatMap_assoc]

/-- The constants of every record and of its fields, then the methods of the type itself and those of the fields. -/
def recordItems (name : String) (layout : Layout) : List Item :=
  typeItem name " \x7b" :: Constant.item ⟨"TYPE_NAME", "&'static str", Text.quoted layout.fullName⟩ ::
    Constant.item ⟨"FIELD_COUNT", "usize", toString layout.fieldCount⟩ ::
    (recordConstants layout).map Constant.item ++ openingItems ++
    (layout.fields.zip (fieldConstants layout)).flatMap fun (field, constant) =>
      field.accessors.flatMap (Method.items field constant)

theorem docLines_passed (doc : Option String) : ∀ line ∈ docLines doc, Line line none := by
  cases doc with
  | none => exact fun _ member => nomatch member
  | some doc =>
    have comment : Line ("/// " ++ String.ofList (doc.toList.map fun c => if c = '\n' then ' ' else c)) none := by
      refine .passed ?_ (by simp)
      rw [oneLine_append]
      refine ⟨by simp [OneLine], fun member => ?_⟩
      rw [String.toList_ofList] at member
      obtain ⟨c, _, same⟩ := List.mem_map.mp member
      split at same
      · cases same
      · contradiction
    rw [docLines, List.forall_mem_cons, List.forall_mem_singleton]
    exact ⟨.passed (by simp [OneLine]) (by simp), comment⟩

theorem recordConstants_lines {layout : Layout} (words : ∀ field ∈ layout.fields, Word field.constant) :
    ∀ constant ∈ recordConstants layout, Line constant.line (some constant.item) := by
  intro constant member
  obtain ⟨⟨field, name⟩, pair, rfl⟩ := List.mem_map.mp member
  have word : Word name := word_uniqueNames (List.forall_mem_map.mpr words) name (List.of_mem_zip pair).2
  exact .constant word (by simp [OneLine]) (Text.word_repr field.index).oneLine

theorem recordMethods_yields {layout : Layout}
    (fields : ∀ field ∈ layout.fields, Word field.constant ∧ Word (suffix field)) :
    Yields (String.join ((recordMethods layout).map fun method => "\n" ++ method.text))
      ((layout.fields.zip (fieldConstants layout)).flatMap fun (field, constant) =>
        field.accessors.flatMap (Method.items field constant)) := by
  have words : ∀ base ∈ layout.fields.map Field.constant, Word base :=
    List.forall_mem_map.mpr fun field member => (fields field member).1
  rw [recordMethods, join_flatMap]
  refine .join fun pair member => ?_
  obtain ⟨field, constant⟩ := pair
  obtain ⟨inside, named⟩ := List.of_mem_zip member
  have word := word_uniqueNames words constant named
  dsimp only
  rw [Method.ofField, List.map_map]
  exact .join fun accessor _ => Method.items_yields (fields field inside).2 word accessor

theorem recordText_yields {name : String} {layout : Layout} (word : Word name) (shown : OneLine layout.fullName)
    (fields : ∀ field ∈ layout.fields, Word field.constant ∧ Word (suffix field)) :
    Yields (recordText name layout) (recordItems name layout) := by
  have comment : Line ("/// " ++ "Record `" ++ layout.fullName ++ "`") none := .comment (by simp [OneLine]) shown
  have derived : Line "#[derive(Debug, Clone, PartialEq)]" none := .passed (by simp [OneLine]) (by simp)
  have type : Line (Keyword.type.text ++ name ++ " \x7b") (some (typeItem name " \x7b")) :=
    .item word (by simp [OneLine]) (by simp; decide)
  have part : Line "    record: Record," none := ⟨by simp [OneLine], by decide +kernel⟩
  have typeName : Line (Constant.line ⟨"TYPE_NAME", "&'static str", Text.quoted layout.fullName⟩) _ :=
    .constant (by simp [Word]; decide) (by simp [OneLine]) (oneLine_quoted layout.fullName)
  have count : Line (Constant.line ⟨"FIELD_COUNT", "usize", toString layout.fieldCount⟩) _ :=
    .constant (by simp [Word]; decide) (by simp [OneLine]) (Text.word_repr layout.fieldCount).oneLine
  have parts : recordText name layout = lines ["", "/// Record `" ++ layout.fullName ++ "`"] ++
      lines (docLines layout.doc) ++
      lines ["#[derive(Debug, Clone, PartialEq)]", "pub struct " ++ name ++ " \x7b", "    record: Record,", "\x7d", "",
        "impl " ++ name ++ " \x7b", Constant.line ⟨"TYPE_NAME", "&'static str", Text.quoted layout.fullName⟩,
        Constant.line ⟨"FIELD_COUNT", "usize", toString layout.fieldCount⟩, ""] ++
      lines ((recordConstants layout).map Constant.line) ++ recordOpening ++
      String.join ((recordMethods layout).map fun method => "\n" ++ method.text) ++ lines ["\x7d"] ++
      persistence name := by
    rw [← lines_append, ← lines_append, ← lines_append]
    rfl
  have comments := (Yields.cons .empty (.cons comment .noLines)).behind (.passed (docLines_passed layout.doc))
  have header := Yields.cons derived (.cons type (.cons part (.cons .closing (.cons .empty (.cons (.block word)
    (.cons typeName (.cons count (.cons .empty .noLines))))))))
  have constants := Yields.each (recordConstants_lines fun field member => (fields field member).1)
  have definitions := ((comments.append header).append constants).append recordOpening_yields
  rw [parts]
  exact ((definitions.append (recordMethods_yields fields)).behind (.cons .closing .noLines)).behind
    (persistence_yields word)

/-! ### Modules -/

/-- The names that the text is made of are words, and full names stand on one line. -/
structure Worded (registry : Registry) : Prop where
  types : ∀ name ∈ bareNames registry, Word name
  shown : ∀ fullName ∈ fullNames registry, OneLine fullName
  symbols : ∀ e ∈ registry.enums, ∀ symbol ∈ e.symbols, Word (Text.constantName symbol)
  fields : ∀ record ∈ registry.records, ∀ field ∈ record.layout.fields, Word field.constant ∧ Word (suffix field)

/-- The items of all types, without their names. -/
def typeItems (registry : Registry) : List (String → List Item) :=
  registry.enums.map (fun e name => enumItems name e) ++ registry.fixed.map (fun f name => fixedItems name f) ++
    registry.records.map fun record name => recordItems name record.layout

def moduleItems (registry : Registry) : List Item :=
  ((typeItems registry).zipWith (fun items name => items name) (typeNames registry)).flatten

/-- A text of a type is read as its items, whatever word is the name. -/
def Named (text : String → String) (items : String → List Item) : Prop :=
  ∀ name, Word name → Yields (text name) (items name)

theorem Yields.named {texts : List (String → String)} {items : List (String → List Item)} {names : List String}
    (each : List.Forall₂ Named texts items) (words : ∀ name ∈ names, Word name) :
    Yields (String.join (texts.zipWith (fun text name => text name) names))
      (items.zipWith (fun items name => items name) names).flatten := by
  induction each generalizing names with
  | nil => exact nil
  | cons first _ ih =>
    cases names with
    | nil => exact nil
    | cons name rest =>
      obtain ⟨word, others⟩ := List.forall_mem_cons.mp words
      rw [List.zipWith_cons_cons, List.zipWith_cons_cons, String.join_cons, List.flatten_cons]
      exact (first name word).append (ih others)

theorem typeTexts_named {registry : Registry} (worded : Worded registry) :
    List.Forall₂ Named (typeTexts registry) (typeItems registry) := by
  have shown := worded.shown
  simp only [fullNames, List.forall_mem_append, List.forall_mem_map] at shown
  obtain ⟨⟨enums, fixed⟩, records⟩ := shown
  refine List.rel_append (List.rel_append ?_ ?_) ?_ <;>
    rw [List.forall₂_map_left_iff, List.forall₂_map_right_iff, List.forall₂_same]
  · exact fun e member name word => enumText_yields word (enums e member) (worded.symbols e member)
  · exact fun f member name word => fixedText_yields word (fixed f member)
  · exact fun record member name word => recordText_yields word (records record member) (worded.fields record member)

/-- A module of words is read as the items of its types, each under its identifier. -/
theorem moduleText_items {registry : Registry} (worded : Worded registry) :
    Item.all (moduleText registry) = moduleItems registry := by
  have names : ∀ name ∈ typeNames registry, Word name := word_uniqueNames worded.types
  rw [moduleText]
  exact (opening_yields.append (.named (typeTexts_named worded) names)).all

theorem oneLine_qualified {scope : Option String} {name : String} (valid : Vocabulary.ValidName scope name) :
    OneLine (qualified scope name) := by
  have bare := (Text.word_of_isName valid.name).oneLine
  rw [valid.qualified]
  cases scope with
  | none => exact bare
  | some scope =>
    have names := List.all_eq_true.mp (valid.scope scope rfl)
    have inside : OneLine (".".intercalate (scope.splitOn ".")) :=
      Text.oneLine_intercalate (by simp [OneLine]) fun name member => (Text.word_of_isName (names name member)).oneLine
    rw [Text.intercalate_splitOn] at inside
    exact oneLine_append.mpr ⟨oneLine_append.mpr ⟨inside, by simp [OneLine]⟩, bare⟩

/-- What is compiled of the roots that were parsed is made of words. -/
theorem compile_worded {roots : List Schema} {v : Vocabulary} {registry : Registry}
    (session : Vocabulary.Session roots v) (compiled : Registry.compile v.catalog roots = .ok registry) :
    Worded registry := by
  have kept := session.kept
  have fields : ∀ record ∈ registry.records, ∀ field ∈ record.layout.fields,
      Word field.constant ∧ Word (suffix field) :=
    fun record member field inside => Text.word_case (isName_of_field session compiled member inside)
  obtain ⟨types, _, reached, rfl⟩ := compile_parts compiled
  have regular {type : Schema} (member : type ∈ types) : type.Regular :=
    (Catalog.leads_of_reachable (reached type member)).regular kept.regular.fields fun root inside =>
      (kept.roots root inside).1
  have names {type : Schema} (member : type ∈ types) {scope : Option String} {name : String}
      (own : type.ownName? = some (scope, name)) : Word name ∧ OneLine (qualified scope name) := by
    have valid := (regular member).names own
    exact ⟨Text.word_of_isName valid.name, oneLine_qualified valid⟩
  have enums (e : EnumType) (member : e ∈ types.filterMap Schema.enum?) :=
    names ((Schema.mem_parts Schema.enum?_iff).mp member) rfl
  have fixed (f : FixedType) (member : f ∈ types.filterMap Schema.fixed?) :=
    names ((Schema.mem_parts Schema.fixed?_iff).mp member) rfl
  have records (r : RecordRef) (member : r ∈ types.filterMap Schema.record?) :=
    names ((Schema.mem_parts Schema.record?_iff).mp member) rfl
  constructor
  case types =>
    simp only [bareNames, List.forall_mem_append, List.forall_mem_map]
    exact ⟨⟨fun e member => (enums e member).1, fun f member => (fixed f member).1⟩,
      fun r member => (records r member).1⟩
  case shown =>
    simp only [fullNames, List.forall_mem_append, List.forall_mem_map]
    exact ⟨⟨fun e member => (enums e member).2, fun f member => (fixed f member).2⟩,
      fun r member => (records r member).2⟩
  case symbols =>
    intro e member symbol inside
    cases regular ((Schema.mem_parts Schema.enum?_iff).mp member) with
    | enum _ _ _ symbols => exact (Text.word_case (symbols symbol inside)).1
  case fields => exact fields

/-! ### Names in the text -/

/-- The names after a keyword. -/
def Item.names (keyword : Keyword) (items : List Item) : List String :=
  (items.filter fun item => item.keyword = keyword).map Item.name

namespace Item

@[simp] theorem names_nil (keyword : Keyword) : names keyword [] = [] := rfl

@[simp] theorem names_cons (keyword : Keyword) (item : Item) (items : List Item) :
    names keyword (item :: items) =
      if item.keyword = keyword then item.name :: names keyword items else names keyword items := by
  rw [names, List.filter_cons]
  by_cases same : item.keyword = keyword <;> simp [same, names]

@[simp] theorem names_append (keyword : Keyword) (items more : List Item) :
    names keyword (items ++ more) = names keyword items ++ names keyword more := by
  simp [names]

theorem names_flatMap {α : Type} (keyword : Keyword) (all : List α) (itemsOf : α → List Item) :
    names keyword (all.flatMap itemsOf) = all.flatMap fun a => names keyword (itemsOf a) := by
  simp [names, List.filter_flatMap, List.map_flatMap]

theorem names_constants (keyword : Keyword) (constants : List Constant) :
    names keyword (constants.map Constant.item) =
      if keyword = .constant then constants.map Constant.name else [] := by
  induction constants with
  | nil => simp
  | cons constant rest ih =>
    rw [List.map_cons, names_cons, ih]
    cases keyword <;> simp [Constant.item]

end Item

/-- The names in the text of a record: its own, those of its constants and those of its methods. -/
theorem recordItems_names (name : String) (layout : Layout) :
    Item.names .type (recordItems name layout) = [name] ∧
      Item.names .constant (recordItems name layout) = reservedConstants ++ fieldConstants layout ∧
      Item.names .method (recordItems name layout) =
        openingItems.map Item.name ++ (recordMethods layout).map Method.name := by
  have constants : (recordConstants layout).map Constant.name = fieldConstants layout := by
    rw [recordConstants, List.map_map]
    refine List.map_snd_zip ?_
    rw [fieldConstants, uniqueNames_length, List.length_map]
  have methods (pair : Field × String) : pair.1.accessors.flatMap (fun accessor =>
      Item.names .method (Method.items pair.1 pair.2 accessor)) = (Method.ofField pair.1 pair.2).map Method.name := by
    rw [Method.ofField, List.map_map, List.map_eq_flatMap]
    rfl
  simp only [recordItems, Item.names_append, Item.names_flatMap]
  refine ⟨?_, ?_, ?_⟩
  · simp [Item.names_constants, typeItem, Constant.item, openingItems, Method.items, Method.signature, Method.call]
  · simp [Item.names_constants, typeItem, Constant.item, openingItems, Method.items, Method.signature, Method.call,
      constants, reservedConstants]
  · rw [recordMethods, List.map_flatMap]
    simp only [methods]
    simp [Item.names_constants, typeItem, Constant.item, openingItems]

theorem names_zipWith {all : List (String → List Item)} {names : List String}
    (one : ∀ items ∈ all, ∀ name, Item.names .type (items name) = [name]) (length : all.length = names.length) :
    Item.names .type (all.zipWith (fun items name => items name) names).flatten = names := by
  induction all generalizing names with
  | nil =>
    obtain rfl := List.eq_nil_of_length_eq_zero length.symm
    rfl
  | cons items rest ih =>
    cases names with
    | nil => cases length
    | cons name names =>
      obtain ⟨first, others⟩ := List.forall_mem_cons.mp one
      rw [List.zipWith_cons_cons, List.flatten_cons, Item.names_append, first, ih others (Nat.succ.inj length)]
      rfl

/-- The types in the text of a module have the identifiers of the registry's types, in their order. -/
theorem moduleItems_types (registry : Registry) : Item.names .type (moduleItems registry) = typeNames registry := by
  have one : ∀ items ∈ typeItems registry, ∀ name, Item.names .type (items name) = [name] := by
    simp only [typeItems, List.forall_mem_append, List.forall_mem_map]
    refine ⟨⟨fun e _ name => ?_, fun f _ name => ?_⟩, fun record _ name => (recordItems_names name record.layout).1⟩
    · simp [enumItems, typeItem, Item.names_constants]
    · simp [fixedItems, typeItem, Constant.item]
  have length : (typeItems registry).length = (typeNames registry).length := by
    simp [typeItems, typeNames, uniqueNames_length, bareNames]
  exact names_zipWith one length

/-! ### Main result -/

/-- The text that is generated for roots that were parsed is read, line by line, as the items of their types, and
the types in it are those identifiers that are told apart. -/
theorem session_moduleText {roots : List Schema} {v : Vocabulary} {registry : Registry}
    (session : Vocabulary.Session roots v) (compiled : Registry.compile v.catalog roots = .ok registry) :
    Item.all (moduleText registry) = moduleItems registry ∧
      Item.names .type (Item.all (moduleText registry)) = typeNames registry ∧ (typeNames registry).Nodup := by
  have read := moduleText_items (compile_worded session compiled)
  exact ⟨read, read ▸ moduleItems_types registry, uniqueNames_nodup _ _⟩

end TrackedRecord.Source
