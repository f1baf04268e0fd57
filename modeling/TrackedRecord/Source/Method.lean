import TrackedRecord.Layout

/-!
# Accessor methods

The methods of a generated record type for one field. Each of them refers to the field by its constant.
-/

namespace TrackedRecord.Source

/-- The type of a primitive value; null has none of its own. -/
def primitiveType? : Schema → Option String
  | .primitive .boolean => some "bool"
  | .primitive .int => some "i32"
  | .primitive .long => some "i64"
  | .primitive .float => some "f32"
  | .primitive .double => some "f64"
  | .primitive .bytes => some "Vec<u8>"
  | .primitive .string => some "String"
  | _ => none

/-- The type of a parameter; a value that no plain type fits is a `Value`. -/
def parameterType (schema : Schema) : String :=
  match schema.nullableInner? with
  | some inner => ((primitiveType? inner).map fun type => "Option<" ++ type ++ ">").getD "Value"
  | none => (primitiveType? schema).getD "Value"

structure Method where
  name : String
  parameters : String
  result : String
  body : String
  deriving DecidableEq, Repr

namespace Method

def text (method : Method) : String :=
  "    pub fn " ++ method.name ++ "(" ++ method.parameters ++ ") -> " ++ method.result ++ " \x7b\n" ++
    "        " ++ method.body ++ "\n    \x7d\n"

def nameOf (field : Field) (accessor : Accessor) : String :=
  let start := match accessor with
    | .get => "get_"
    | .set => "set_"
    | .append => "append_to_"
    | .getEntry => "get_from_"
    | .putEntry => "put_to_"
    | .removeEntry => "remove_from_"
  start ++ Text.methodSuffix field.name

def of (field : Field) (constant : String) (accessor : Accessor) : Method :=
  let elementType (schema : Option Schema) : String := (schema.map parameterType).getD "Value"
  let self := "Self::" ++ constant
  match accessor with
  | .get => ⟨nameOf field .get, "&self", "RecordResult<&Value>", "self.record.get(" ++ self ++ ")"⟩
  | .set => ⟨nameOf field .set, "&mut self, value: " ++ parameterType field.schema, "RecordResult<()>",
      "self.record.set(" ++ self ++ ", Value::from(value))"⟩
  | .append => ⟨nameOf field .append, "&mut self, item: " ++ elementType field.element?, "RecordResult<()>",
      "self.record.append(" ++ self ++ ", Value::from(item))"⟩
  | .getEntry => ⟨nameOf field .getEntry, "&self, key: &str", "RecordResult<Option<&Value>>",
      "self.record.map_get(" ++ self ++ ", key)"⟩
  | .putEntry => ⟨nameOf field .putEntry,
      "&mut self, key: impl Into<String>, value: " ++ elementType field.mapValue?,
      "RecordResult<Option<Value>>", "self.record.map_put(" ++ self ++ ", key, Value::from(value))"⟩
  | .removeEntry => ⟨nameOf field .removeEntry, "&mut self, key: &str", "RecordResult<Option<Value>>",
      "self.record.map_remove(" ++ self ++ ", key)"⟩

def ofField (field : Field) (constant : String) : List Method := field.accessors.map (of field constant)

end Method

end TrackedRecord.Source
