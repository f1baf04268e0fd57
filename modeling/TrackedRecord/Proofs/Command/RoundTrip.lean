import TrackedRecord.Proofs.Command.Echo
import TrackedRecord.Proofs.Command.Opened
import TrackedRecord.Proofs.Record.Textual
import TrackedRecord.Proofs.Wire.Framed

/-!
# Encoding and decoding by commands

The line that one command prints is the input of the other, which reports what the document has said.
-/

namespace TrackedRecord.Command

open Wire (Frame)

variable {formats : Formats} {files : Files.Table} {w w' : World} {target : Target} {input : List UInt8}

/-! ### Input -/

theorem inputBytes_line (lawful : formats.Lawful) {bytes : List UInt8} (present : bytes ≠ []) :
    inputBytes formats (Utf8.encode (formats.encodeBase64 bytes ++ "\n")) = .ok bytes := by
  have filled : formats.encodeBase64 bytes ≠ "" := by
    intro empty
    have decoded := lawful.decoded bytes
    rw [empty, lawful.empty] at decoded
    exact present (Option.some.inj decoded).symm
  have text : inputText (Utf8.encode (formats.encodeBase64 bytes ++ "\n")) = .ok (formats.encodeBase64 bytes) := by
    rw [inputText, Utf8.decode?_encode]
    dsimp only
    rw [Text.trim_line (lawful.solid bytes), if_neg filled]
  rw [inputBytes, Result.bind_of_ok text, lawful.decoded]
  rfl

/-- The bytes of a command's output: a payload, or the frame around it. -/
def sealed (target : Target) (codec : Wire.Codec) (payload : List UInt8) : List UInt8 :=
  if target.framed then Frame.encode ⟨codec.typeName, payload⟩ else payload

theorem payload_ne_nil {codec : Wire.Codec} {r : Record Value} {payload : List UInt8}
    (encoded : codec.encode r = .ok payload) : payload ≠ [] := by
  obtain ⟨_, encoded⟩ := Wire.Codec.encode_ok.mp encoded
  obtain ⟨fields, _, rfl⟩ := Wire.Payload.encode_ok.mp encoded
  have first := Wire.Varint.ofNat_length_pos r.dirty.len
  intro empty
  have length := congrArg List.length empty
  simp only [Wire.encodeBits, List.length_append, List.length_nil] at length
  omega

theorem sealed_ne_nil {codec : Wire.Codec} {r : Record Value} {payload : List UInt8}
    (encoded : codec.encode r = .ok payload) : sealed target codec payload ≠ [] := by
  unfold sealed
  split
  · intro empty
    have length := congrArg List.length empty
    rw [Frame.encode_length, Frame.size, Frame.overhead, List.length_nil] at length
    omega
  · exact payload_ne_nil encoded

/-! ### Reports -/

theorem fieldStates_textual {field : Field} {json states : Json}
    (told : Document.fieldStates field json = some states) : states.Textual := by
  unfold Document.fieldStates at told
  split at told
  · cases told
    exact .ofMembers (List.forall_mem_map.mpr fun entry _ => .string "updated")
  · cases told

theorem report_textual {layout : Layout} {members : List (String × Json)} {values : Json} (textual : values.Textual) :
    (Document.report layout members values).Textual := by
  have names : (Json.array ((Document.named layout members).map fun entry => .string entry.1.name)).Textual :=
    .array (List.forall_mem_map.mpr fun entry _ => .string entry.1.name)
  refine .ofMembers ?_
  simp only [List.forall_mem_cons]
  refine ⟨.string _, textual, names, names, .ofMembers fun member inside => ?_, List.forall_mem_nil _⟩
  obtain ⟨entry, _, told⟩ := List.mem_filterMap.mp inside
  obtain ⟨states, known, rfl⟩ := Option.map_eq_some_iff.mp told
  exact fieldStates_textual known

/-! ### Runs -/

theorem runEncode_ok (lawful : formats.Lawful) {line : String} (run : runEncode formats target input w = .ok line w') :
    ∃ codec w₁ json r payload, openCodec formats target w = .ok codec w₁ ∧ inputDocument formats input = .ok json ∧
      Document.recordOf codec.registry codec.compiled json = .ok r ∧ codec.encode r = .ok payload ∧
      line = formats.encodeBase64 (sealed target codec payload) ++ "\n" ∧ w'.files = w.files := by
  obtain ⟨codec, w₁, opened, ofInput⟩ := Result.bind_run_ok run
  obtain ⟨json, w₂, first, ofDocument⟩ := Result.bind_run_ok ofInput
  obtain ⟨parsed, rfl⟩ := attempt_ok first
  obtain ⟨r, w₃, second, ofRecord⟩ := Result.bind_run_ok ofDocument
  obtain ⟨made, rfl⟩ := attempt_ok second
  rw [report_bind] at ofRecord
  obtain ⟨bytes, w₄, third, ofBytes⟩ := Result.bind_run_ok ofRecord
  obtain ⟨written, rfl⟩ := attempt_ok third
  cases ofBytes
  have sameFiles := (openCodec_ok lawful opened).2
  unfold sealed
  split at written
  · rename_i framed
    obtain ⟨payload, encoded, same⟩ := Result.part_ok.mp written
    exact ⟨codec, _, json, r, payload, opened, parsed, made, encoded, by rw [if_pos framed, same], sameFiles⟩
  · rename_i plain
    exact ⟨codec, _, json, r, bytes, opened, parsed, made, written, by rw [if_neg plain], sameFiles⟩

/-- A command decodes what it is given, if the frame around it can be opened. -/
theorem runDecode_of_ok {codec : Wire.Codec} (opened : openCodec formats target w = .ok codec w') {payload : List UInt8}
    (given : inputBytes formats input = .ok (sealed target codec payload)) {d : Record Value}
    (decoded : (codec.decode payload none).1 = .ok d)
    (fits : target.framed = true → Frame.Allowed codec.settings ⟨codec.typeName, payload⟩ ∧
      Frame.size ⟨codec.typeName, payload⟩ < Frame.lengthBound) :
    ∃ w'', runDecode formats target input w = .ok (printed formats d.summary) w'' := by
  rw [runDecode, Result.bind_of_run opened, Result.bind_of_run (attempt_of_ok given)]
  unfold sealed
  split
  · rename_i framed
    obtain ⟨allowed, short⟩ := fits framed
    have run := codec.decodeFramed_encode none short []
    rw [List.append_nil, Frame.excess?_eq_none_iff.mpr allowed, decoded] at run
    dsimp only
    rw [report_bind, Result.bind_of_run (attempt_of_ok run)]
    exact ⟨_, rfl⟩
  · dsimp only
    rw [report_bind, Result.bind_of_run (attempt_of_ok decoded)]
    exact ⟨_, rfl⟩

/-! ### Outcomes -/

theorem performWith_ok {level : String} {command : Command}
    (done : (performWith formats files input level command).exitCode = 0) :
    ∃ minimum world, Journal.Severity.ofName? level = some minimum ∧
      runWith formats input command ⟨files, []⟩ = .ok (performWith formats files input level command).output world ∧
      (performWith formats files input level command).files = world.files := by
  unfold performWith at done ⊢
  split at done
  · cases done
  · rename_i minimum known
    split at done
    · rename_i output world ran
      exact ⟨minimum, world, known, ran, rfl⟩
    · cases done

theorem performWith_of_ok {level : String} {minimum : Journal.Severity} {command : Command} {output : String}
    (known : Journal.Severity.ofName? level = some minimum)
    (ran : runWith formats input command ⟨files, []⟩ = .ok output w') :
    (performWith formats files input level command).exitCode = 0 ∧
      (performWith formats files input level command).output = output := by
  unfold performWith
  rw [known]
  dsimp only
  rw [ran]
  exact ⟨rfl, rfl⟩

theorem inputDocument_sorted (lawful : formats.Lawful) {members : List (String × Json)}
    (read : inputDocument formats input = .ok (.object members)) : Keyed.Sorted members := by
  obtain ⟨text, _, read⟩ := Result.bind_ok read
  split at read
  · rename_i json parsed
    cases read
    exact lawful.sorted parsed
  · cases read

/-- A line that was printed for a document is decoded, with the same options, to a text that stands for a report of
the document: the values of its record, its fields in the order of their indices, all dirty and readable, and its
maps with all keys updated. -/
theorem decode_of_encode (lawful : formats.Lawful) {level : String}
    (succeeded : (performWith formats files input level (.encode target)).exitCode = 0) :
    ∃ codec w members r payload, openCodec formats target ⟨files, []⟩ = .ok codec w ∧
      inputDocument formats input = .ok (.object members) ∧
      Document.recordOf codec.registry codec.compiled (.object members) = .ok r ∧
      codec.encode r = .ok payload ∧
      ((Document.named codec.layout members).map fun entry => entry.1.name).Perm (Keyed.keys members) ∧
      (codec.registry.Counted → r.Within codec.settings →
        (target.framed = true → (Utf8.encode codec.typeName).length ≤ codec.settings.maxBytes ∧
          payload.length ≤ codec.settings.maxBytes ∧
          (Frame.encode ⟨codec.typeName, payload⟩).length < 2 ^ 32) →
        let first := performWith formats files input level (.encode target)
        let second := performWith formats first.files (Utf8.encode first.output) level (.decode target)
        second.exitCode = 0 ∧ ∃ text, second.output = text ++ "\n" ∧
          Json.meaning text = .ok (Document.report codec.layout members r.readableToJson)) := by
  obtain ⟨minimum, world, known, ran, kept⟩ := performWith_ok succeeded
  obtain ⟨codec, w, json, r, payload, opening, parsed, made, encoded, line, sameFiles⟩ := runEncode_ok lawful ran
  have opened := (openCodec_ok lawful opening).1
  cases json with
  | object members =>
    have sorted := inputDocument_sorted lawful parsed
    refine ⟨codec, w, members, r, payload, opening, parsed, made, encoded, ?_, ?_⟩
    · exact Document.recordOf_named opened.regular opened.fresh sorted made
    · intro counted within fits
      have codecMade := opened.codec_made counted
      have formed := Document.recordOf_formed codecMade.sound.registry counted opened.small opened.known made within
      have tells := Document.recordOf_tells opened.regular opened.layout opened.fresh sorted made formed.1
      obtain ⟨d, decoded, echoes⟩ := Wire.Codec.decode_echoes codecMade formed encoded within
      have regular : r.layout.Regular := tells.sameLayout ▸ opened.regular
      have summary := (echoes.tells tells).summary
      rw [echoes.readableToJson regular formed.1.slots] at summary
      have given : inputBytes formats (Utf8.encode (performWith formats files input level (.encode target)).output) =
          .ok (sealed target codec payload) := by
        rw [line]
        exact inputBytes_line lawful (sealed_ne_nil encoded)
      obtain ⟨w', decoding⟩ := runDecode_of_ok opening given decoded fun framed => by
        obtain ⟨name, body, short⟩ := fits framed
        exact ⟨⟨name, body⟩, by rwa [Frame.encode_length] at short⟩
      rw [summary] at decoding
      have again : runWith formats _ (.decode target) ⟨files, []⟩ = .ok _ w' := decoding
      dsimp only
      rw [kept, sameFiles]
      obtain ⟨done, output⟩ := performWith_of_ok known again
      exact ⟨done, _, output, lawful.written (report_textual r.readableToJson_textual)⟩
  | _ => cases made

end TrackedRecord.Command

namespace TrackedRecord

/-! ### A list in a file -/

namespace Node.File

open Command

def tableOf (text : String) : Files.Table := ⟨[(["n"], .file (Utf8.encode text))]⟩

def target : Target := { schema := "n", record := "Node", framed := true }

def fieldDocument (name : String) (type : Json) : Json := .object [("name", .string name), ("type", type)]

/-- The document of the type. -/
def definition : List (String × Json) := [
  ("fields", .array [fieldDocument "number" (.string "int"),
    fieldDocument "next" (.array [.string "null", .string "Node"]),
    fieldDocument "named" (.object [("type", .string "map"), ("values", .string "int")])]),
  ("name", .string "Node"), ("type", .string "record")]

def vocabulary : Vocabulary := ⟨⟨[⟨"Node", none, none, some (FieldSchema.numbered fields)⟩]⟩, [("Node", .record type)]⟩

theorem locate_file (text : String) : (tableOf text).locate "n" = .ok (["n"], .file (Utf8.encode text)) := by
  have names : Files.Path.names "n" = ["n"] := by
    rw [Files.Path.names, String.splitOn, if_neg (by decide), String.splitOnAux, if_neg (by decide),
      if_neg (by decide), String.splitOnAux, if_pos (by decide)]
    decide
  have start : Files.Path.start "n" = [] := if_neg (by decide +kernel)
  have checked : Files.Path.check "n" = .ok () := by rfl
  have closed : "n".endsWith "/" = false := by decide +kernel
  have step : ["n"].foldlM (tableOf text).step [] = .ok ["n"] := by rfl
  rw [Files.Table.locate, names, start, Result.bind_of_ok checked, Result.bind_of_ok step, closed]
  rfl

theorem readText (text : String) : (tableOf text).readText "n" = .ok text := by
  have bytes : (tableOf text).readBytes "n" = .ok (Utf8.encode text) := by
    rw [Files.Table.readBytes, Files.Table.find, locate_file]
    rfl
  rw [Files.Table.readText, Result.bind_of_ok bytes, Utf8.decode?_encode]
  rfl

theorem filesAt (text : String) : Library.filesAt (tableOf text) "n" = ["n"] := by
  rw [Library.filesAt, Files.Table.isDirectory, Files.Table.find, locate_file]
  rfl

def schemaText : String := (Json.object definition).indented

def table : Files.Table := tableOf schemaText

theorem fieldDocument_textual (name : String) {type : Json} (textual : type.Textual) :
    (fieldDocument name type).Textual := by
  have members : ∀ member ∈ [("name", Json.string name), ("type", type)], member.2.Textual := by
    simp only [List.forall_mem_cons]
    exact ⟨.string name, textual, List.forall_mem_nil _⟩
  exact .ofMembers members

theorem definition_textual : (Json.object definition).Textual := by
  have branches : (Json.array [.string "null", .string "Node"]).Textual := by
    refine .array ?_
    simp only [List.forall_mem_cons]
    exact ⟨.string _, .string _, List.forall_mem_nil _⟩
  have map : (Json.object [("type", .string "map"), ("values", .string "int")]).Textual := by
    have members : ∀ member ∈ [("type", Json.string "map"), ("values", .string "int")], member.2.Textual := by
      simp only [List.forall_mem_cons]
      exact ⟨.string _, .string _, List.forall_mem_nil _⟩
    exact .ofMembers members
  have members : ∀ member ∈ definition, member.2.Textual := by
    simp only [definition, List.forall_mem_cons]
    refine ⟨.array ?_, .string _, .string _, List.forall_mem_nil _⟩
    simp only [List.forall_mem_cons]
    exact ⟨fieldDocument_textual _ (.string _), fieldDocument_textual _ branches, fieldDocument_textual _ map,
      List.forall_mem_nil _⟩
  exact .ofMembers members

theorem read_schema : Json.ofText schemaText = .ok (.object definition) := by
  obtain ⟨held, ordered⟩ := Json.textual_iff.mp definition_textual
  have shallow : Json.opens (Json.object definition).indented.toList ≤ Json.full.maxNesting := by
    -- The characters come from the parts of the text: to decode it as a whole takes the kernel far longer.
    simp only [definition, fieldDocument, Json.indented, Json.indentedFrom, Json.indentedMembers, Json.indentedItems,
      Json.block, Json.quote, List.isEmpty_cons, Bool.false_eq_true, if_false, String.toList_append,
      String.toList_ofList, String.toList_intercalate, List.map_cons, List.map_nil]
    decide +kernel
  exact Json.ofText_indented held ordered shallow

theorem parse_document : Vocabulary.parseDocuments [.object definition] {} = .ok [.record type] vocabulary := by
  have node : [.object definition].map Node.ofJson = [.record ⟨some "Node", none⟩ none (some
      [⟨true, some "number", some (.name "int")⟩, ⟨true, some "next", some (.union [.name "null", .name "Node"])⟩,
        ⟨true, some "named", some (.map (some (.name "int")))⟩])] := rfl
  have toNode (v : Vocabulary) := v.lookup?_bare "Node" (by simp)
  rw [Vocabulary.parseDocuments, Vocabulary.parseNodes, node]
  simp only [Vocabulary.resolveAll, Vocabulary.resolve, Vocabulary.resolveFields, Vocabulary.resolveBranches,
    Vocabulary.resolveName, toNode]
  rfl

theorem documents {text : String} {members : List (String × Json)} (read : Json.ofText text = .ok (.object members)) :
    Library.documentsOfFiles Json.ofText (tableOf text) ["n"] = .ok [.object members] := by
  have one : Library.documentsOfFile Json.ofText (tableOf text) "n" = .ok [.object members] := by
    unfold Library.documentsOfFile
    rw [readText]
    dsimp only
    unfold Library.documentsOfText
    rw [read]
    rfl
  rw [Library.documentsOfFiles, Result.bind_of_ok one]
  rfl

theorem load_schema : Library.loadWith Json.ofText table "n" {} = .ok ⟨1, 1⟩ ⟨vocabulary, [.record type]⟩ := by
  have added : Library.addDocuments [.object definition] {} = .ok 1 ⟨vocabulary, [.record type]⟩ := by
    unfold Library.addDocuments
    rw [parse_document]
    rfl
  simp only [Library.loadWith, table, filesAt, documents read_schema]
  rw [Result.bind_of_run added]
  rfl

theorem openCodec_node : ∃ w, openCodec .standard target ⟨table, []⟩ = .ok codec w := by
  have types : ∃ w, loadTypes .standard "n" ⟨table, []⟩ = .ok registry w := by
    rw [loadTypes, get_bind]
    simp only [Formats.standard, load_schema]
    rw [report_bind, report_bind]
    exact ⟨_, attempt_of_ok compiled⟩
  obtain ⟨w, loaded⟩ := types
  have none : loadSettings .standard target.settings ⟨table, []⟩ = .ok {} ⟨table, []⟩ := rfl
  rw [openCodec, Result.bind_of_run none, Result.bind_of_run (show loadTypes .standard target.schema _ = _ from loaded)]
  exact ⟨_, rfl⟩

/-- The members are in another order than the fields. -/
def members : List (String × Json) := [("named", .object [("a", Json.int 1)]), ("number", Json.int 5)]

def text : String := (Json.object members).indented ++ "\n"

theorem members_textual : (Json.object members).Textual := by
  have number (n : Nat) (small : n ≤ 5) : (Json.int n).Textual :=
    .number ⟨by unfold Json.minWhole; omega, by unfold Json.maxWhole; omega⟩
  have map : (Json.object [("a", Json.int 1)]).Textual := by
    have members : ∀ member ∈ [("a", Json.int 1)], member.2.Textual :=
      List.forall_mem_singleton.mpr (number 1 (by decide))
    exact .ofMembers members
  have members : ∀ member ∈ members, member.2.Textual := by
    simp only [members, List.forall_mem_cons]
    exact ⟨map, number 5 (by decide), List.forall_mem_nil _⟩
  exact .ofMembers members

theorem read_members : Json.ofText (Json.object members).indented = .ok (.object members) := by
  obtain ⟨held, ordered⟩ := Json.textual_iff.mp members_textual
  have shallow : Json.opens (Json.object members).indented.toList ≤ Json.full.maxNesting := by decide +kernel
  exact Json.ofText_indented held ordered shallow

theorem trim_text : Text.trim text = (Json.object members).indented := by
  have chars : Text.trimChars text.toList = (Json.object members).indented.toList := by decide +kernel
  rw [Text.trim, chars, String.ofList_toList]

theorem input_document : inputDocument .standard (Utf8.encode text) = .ok (.object members) := by
  have present : (Json.object members).indented.toList ≠ "".toList := by decide +kernel
  have blank : Text.trim text ≠ "" := fun none => present (congrArg String.toList (trim_text.symm.trans none))
  have input : inputText (Utf8.encode text) = .ok (Json.object members).indented := by
    rw [inputText, Utf8.decode?_encode, ← trim_text]
    exact if_neg blank
  rw [inputDocument, Result.bind_of_ok input]
  simp only [Formats.standard, read_members]
  rfl

def given : Record Value where
  layout := layout
  slots := [.int 5, .null, .map ⟨[("a", .int 1)], [("a", .updated)]⟩]
  dirty := FieldBits.ofBools [true, false, true]
  readable := FieldBits.ofBools [true, false, true]

theorem recordOf_members : Document.recordOf codec.registry codec.compiled (.object members) = .ok given := by rfl

def payload : List UInt8 := [3, 5, 3, 5, 5, 0, 0, 0, 1, 1, 0x61, 1, 1, 1, 0x61, 1, 0, 0, 0]

theorem encode_given : codec.encode given = .ok payload := by rfl

theorem runEncode_node : ∃ line w, runWith .standard (Utf8.encode text) (.encode target) ⟨table, []⟩ = .ok line w := by
  obtain ⟨w, opening⟩ := openCodec_node
  have framed : (if target.framed then codec.encodeFramed given else codec.encode given) = .ok _ :=
    Wire.Codec.encodeFramed_of_encode encode_given
  rw [runWith, runEncode, Result.bind_of_run opening, Result.bind_of_run (attempt_of_ok input_document),
    Result.bind_of_run (attempt_of_ok recordOf_members), report_bind, Result.bind_of_run (attempt_of_ok framed)]
  exact ⟨_, _, rfl⟩

theorem registry_counted : registry.Counted := by
  intro record member
  obtain rfl := List.mem_singleton.mp member
  refine ⟨by decide, ?_⟩
  simp only [layout, Layout.fieldsOf, fields, List.zipIdx_cons, List.zipIdx_nil, List.map_cons, List.map_nil,
    List.forall_mem_cons]
  have branches : ∀ branch ∈ [Schema.primitive .null, .record type], branch.Counted := by
    simp only [List.forall_mem_cons]
    exact ⟨.primitive _, .record _, List.forall_mem_nil _⟩
  exact ⟨.primitive _, .union (by decide) branches, .map (.primitive _), List.forall_mem_nil _⟩

theorem given_within : given.Within codec.settings := by
  intro index field found readable
  rcases index with _ | _ | _ | index
  · cases found
    exact ⟨trivial, fun map => (nomatch map)⟩
  · cases readable
  · refine ⟨Value.within_map.mpr ⟨by decide, ?_⟩, fun _ => ⟨by decide, ?_⟩⟩
    · exact List.forall_mem_singleton.mpr ⟨by decide, trivial⟩
    · exact List.forall_mem_singleton.mpr (by decide)
  · cases found

end Node.File

namespace Command

theorem decode_of_encode_node :
    Formats.standard.Lawful ∧
      (performWith .standard Node.File.table (Utf8.encode Node.File.text) "info" (.encode Node.File.target)).exitCode = 0 ∧
      let first := performWith .standard Node.File.table (Utf8.encode Node.File.text) "info" (.encode Node.File.target)
      let second := performWith .standard first.files (Utf8.encode first.output) "info" (.decode Node.File.target)
      second.exitCode = 0 ∧ ∃ text, second.output = text ++ "\n" ∧ Json.meaning text = .ok (.object [
        ("dirty", .array [.string "number", .string "named"]),
        ("entry_states", .object [("named", .object [("a", .string "updated")])]),
        ("readable", .array [.string "number", .string "named"]),
        ("type", .string "Node"),
        ("values", .object [("named", .object [("a", Json.int 1)]), ("number", Json.int 5)])]) := by
  obtain ⟨line, world, ran⟩ := Node.File.runEncode_node
  have level : Journal.Severity.ofName? "info" = some .info := by decide +kernel
  have succeeded := (performWith_of_ok level ran).1
  refine ⟨Formats.standard_lawful, succeeded, ?_⟩
  obtain ⟨codec, w, members, r, payload, opening, parsed, made, encoded, _, decodes⟩ :=
    decode_of_encode Formats.standard_lawful succeeded
  obtain ⟨_, known⟩ := Node.File.openCodec_node
  obtain ⟨rfl, _⟩ := EStateM.Result.ok.inj (opening.symm.trans known)
  obtain rfl := Json.object.inj (Except.ok.inj (parsed.symm.trans Node.File.input_document))
  obtain rfl := Except.ok.inj (made.symm.trans Node.File.recordOf_members)
  obtain rfl := Except.ok.inj (encoded.symm.trans Node.File.encode_given)
  have framed := decodes Node.File.registry_counted Node.File.given_within fun _ =>
    ⟨by decide, by decide, by rw [Wire.Frame.encode_length]; decide⟩
  exact framed

end Command

end TrackedRecord
