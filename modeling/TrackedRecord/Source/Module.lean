import TrackedRecord.Source.Method
import TrackedRecord.Source.Names
import TrackedRecord.Text.Quoted

/-!
# Generated source

A module of source text with one type for every enum, fixed type and record of a registry: the ordinals
of an enum's symbols, the size of a fixed type, and for a record the numbers of its fields and the
methods that reach them.
-/

namespace TrackedRecord.Source

/-- The lines, each with its end. -/
def lines (texts : List String) : String := String.join (texts.map fun text => text ++ "\n")

structure Constant where
  name : String
  type : String
  value : String
  deriving DecidableEq, Repr

def Constant.line (constant : Constant) : String :=
  "    pub const " ++ constant.name ++ ": " ++ constant.type ++ " = " ++ constant.value ++ ";"

def opening : String := lines [
  "// Generated by recordc from compiled record schemas. Do not edit.",
  "",
  "use std::sync::Arc;",
  "",
  "use recordstate::compiler::RecordTypeDescriptor;",
  "use recordstate::record::\x7bPersistent, Record, RecordError, RecordResult, Value\x7d;"]

/-- The constants of an enum: the ordinal of each symbol, then all symbols. -/
def enumConstants (e : EnumType) : List Constant :=
  let ordinals := e.symbols.zipIdx.map fun (symbol, ordinal) =>
    Constant.mk (Text.constantName symbol) "usize" (toString ordinal)
  ordinals ++ [⟨"SYMBOLS", "&'static [&'static str]",
    "&[" ++ ", ".intercalate (e.symbols.map Text.quoted) ++ "]"⟩]

def enumText (name : String) (e : EnumType) : String :=
  lines (["", s!"/// Symbols of enum `{e.fullName}`", s!"pub struct {name};", "",
      "impl " ++ name ++ " \x7b"] ++ (enumConstants e).map Constant.line ++ ["\x7d"])

def fixedText (name : String) (f : FixedType) : String :=
  lines ["", s!"/// Fixed `{f.fullName}`", s!"pub struct {name};", "", "impl " ++ name ++ " \x7b",
    Constant.line ⟨"SIZE", "usize", toString f.size⟩, "\x7d"]

/-- The constants of a record's fields, each with the number of its field. -/
def recordConstants (layout : Layout) : List Constant :=
  (layout.fields.zip (fieldConstants layout)).map fun (field, constant) =>
    ⟨constant, "usize", toString field.index⟩

def recordMethods (layout : Layout) : List Method :=
  (layout.fields.zip (fieldConstants layout)).flatMap fun (field, constant) => Method.ofField field constant

/-- The lines of documentation on a record. -/
def docLines : Option String → List String
  | some doc =>
    ["///", "/// " ++ String.ofList (doc.toList.map fun c => if c = '\n' then ' ' else c)]
  | none => []

def recordOpening : String := lines [
  "",
  "    pub fn new(descriptor: &Arc<RecordTypeDescriptor>) -> RecordResult<Self> \x7b",
  "        Self::from_record(descriptor.new_instance())",
  "    \x7d",
  "",
  "    pub fn from_record(record: Record) -> RecordResult<Self> \x7b",
  "        if record.type_name() != Self::TYPE_NAME \x7b",
  "            return Err(RecordError::DescriptorMismatch \x7b",
  "                expected: Self::TYPE_NAME.to_string(),",
  "                found: record.type_name().to_string(),",
  "            \x7d);",
  "        \x7d",
  "        Ok(Self \x7b record \x7d)",
  "    \x7d",
  "",
  "    pub fn into_record(self) -> Record \x7b",
  "        self.record",
  "    \x7d"]

/-- The implementation of persistence for a record type. -/
def persistence (name : String) : String := lines [
  "",
  "impl Persistent for " ++ name ++ " \x7b",
  "    fn record(&self) -> &Record \x7b",
  "        &self.record",
  "    \x7d",
  "",
  "    fn record_mut(&mut self) -> &mut Record \x7b",
  "        &mut self.record",
  "    \x7d",
  "",
  "    fn new_instance(&self) -> Self \x7b",
  "        Self \x7b",
  "            record: self.record.new_instance(),",
  "        \x7d",
  "    \x7d",
  "\x7d"]

def recordText (name : String) (layout : Layout) : String :=
  lines (["", s!"/// Record `{layout.fullName}`"] ++ docLines layout.doc ++
      ["#[derive(Debug, Clone, PartialEq)]", "pub struct " ++ name ++ " \x7b", "    record: Record,", "\x7d",
        "", "impl " ++ name ++ " \x7b",
        Constant.line ⟨"TYPE_NAME", "&'static str", Text.quoted layout.fullName⟩,
        Constant.line ⟨"FIELD_COUNT", "usize", toString layout.fieldCount⟩, ""] ++
      (recordConstants layout).map Constant.line) ++
    recordOpening ++ String.join ((recordMethods layout).map fun method => "\n" ++ method.text) ++
    lines ["\x7d"] ++ persistence name

/-- The texts of all types, without their names. -/
def typeTexts (registry : Registry) : List (String → String) :=
  registry.enums.map (fun e name => enumText name e) ++ registry.fixed.map (fun f name => fixedText name f) ++
    registry.records.map fun record name => recordText name record.layout

def moduleText (registry : Registry) : String :=
  opening ++ String.join ((typeTexts registry).zipWith (fun text name => text name) (typeNames registry))

end TrackedRecord.Source
