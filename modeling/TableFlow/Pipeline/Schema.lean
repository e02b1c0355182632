import TableFlow.Pipeline.StepType
import TableFlow.Json.Value

/-!
# The schema of pipelines

A JSON schema (draft 2020-12) of pipeline documents, for editors.  The names that may stand in a place are taken from
the vocabularies.
-/

namespace TableFlow.Schema

open Json (Value)
open Document (Vocabulary)

/-- Members of a schema. -/
abbrev Members := List (String × Value)

/-- A list of strings. -/
def strings (texts : List String) : Value :=
  .array (texts.map .string)

/-- Values of a type. -/
def ofType (type : String) : Members :=
  [("type", .string type)]

/-- A string. -/
def text : Members := ofType "string"

/-- A natural number of 64 bits. -/
def word64 : Members :=
  [("format", .string "uint64"), ("minimum", .int 0)]

/-- What is defined under a name. -/
def ref (name : String) : Members :=
  [("$ref", .string ("#/$defs/" ++ name))]

/-- A remark on a schema. -/
def described (remark : String) (schema : Members) : Members :=
  ("description", .string remark) :: schema

/-- A schema for a field with a default. -/
def withDefault (default : Value) (schema : Members) : Members :=
  ("default", default) :: schema

/-- A list. -/
def listOf (item : Members) : Members :=
  ("items", .object item) :: ofType "array"

/-- One of several schemas. -/
def anyOf (schemas : List Members) : Members :=
  [("anyOf", .array (schemas.map .object))]

/-- What a schema describes, or nothing. -/
def orNull (schema : Members) : Members :=
  anyOf [schema, ofType "null"]

/-- One of the names of a vocabulary. -/
def choice {α : Type} (w : Vocabulary α) : Members :=
  ("enum", strings w.names) :: ofType "string"

/-- An object with these properties, some of which are required. -/
def object (properties : List (String × Members)) (required : List String) : Members :=
  ("properties", .object (properties.map fun p => (p.1, .object p.2)))
    :: (if required.isEmpty then [] else [("required", strings required)]) ++ ofType "object"

/-- A step of a type, with the fields that are defined under a name. -/
def step (type : StepType) (fields : Members) : Value :=
  .object (fields ++ object [("type", ("const", .string type.name) :: text)] ["type"])

/-- The definitions that the schema of pipelines refers to. -/
def definitions : List (String × Members) :=
  [("Aggregate", object
      [("as", described "Name of the produced column. Unprefixed in the compiled query." text),
        ("column", ref "ColumnRef"),
        ("group", withDefault (.array []) (listOf (ref "ColumnRef"))),
        ("operation", ref "AggregateOperation")]
      ["operation", "column", "as"]),
    ("AggregateOperation", described
      "Aggregate functions. The display name is the PRQL standard library\nfunction implementing it."
      (choice AggregateOperation.vocabulary)),
    ("ColumnRef", described "A column as seen by the UI: where it comes from and its raw name." (object
      [("name", text),
        ("relation", described "Set when the column lives on a table reached through a Relate step."
          (orNull (ref "RelationAlias"))),
        ("table", text)]
      ["table", "name"])),
    ("Direction", choice Direction.vocabulary),
    ("Filter", object
      [("conditions", listOf (ref "FilterCondition")), ("logicalOperator", ref "LogicalOperator")]
      ["logicalOperator", "conditions"]),
    ("FilterCondition", object
      [("column", ref "ColumnRef"), ("operator", ref "Operator"), ("value", withDefault .null (ref "FilterValue"))]
      ["column", "operator"]),
    ("FilterValue", described
      "Right-hand side of a condition. A value that type-checks as a column\nreference is compared column to column."
      (anyOf [ref "ColumnRef", ref "Literal"])),
    ("FromTable", object [("table", text)] ["table"]),
    ("Literal", anyOf
      [ofType "null", ofType "boolean", ("format", .string "int64") :: ofType "integer",
        described "Integers above `i64::MAX`, kept exact." (word64 ++ ofType "integer"),
        ("format", .string "double") :: ofType "number", text]),
    ("LogicalOperator", choice Connective.vocabulary),
    ("Operator", choice Operator.vocabulary),
    ("Order", object [("order", listOf (ref "OrderKey"))] ["order"]),
    ("OrderKey", object [("column", ref "ColumnRef"), ("direction", ref "Direction")] ["column", "direction"]),
    ("Relate", object [("relation", ref "RelationAlias")] ["relation"]),
    ("RelationAlias", described "The name under which a related table's columns are exposed." (object
      [("as", text), ("on", orNull (ref "RelationOn")), ("relation", text), ("table", text)]
      ["as", "relation", "table"])),
    ("RelationOn", object
      [("relation", described
        "When set, the join is based on this earlier relation rather than on\nthe pipeline's root table."
        (orNull (ref "RelationAlias")))]
      []),
    ("Select", object [("select", listOf (ref "ColumnRef"))] ["select"]),
    ("Step", [("oneOf", .array
      [step .root (ref "FromTable"), step .select (ref "Select"), step .filter (ref "Filter"),
        step .order (ref "Order"), step .aggregate (ref "Aggregate"), step .relate (ref "Relate"),
        step .take (ref "Take"),
        step .display (described "UI-only branching construct. Has no effect on the compiled query." [])])]),
    ("Take", object
      [("limit", word64 ++ [("type", strings ["integer", "null"])]),
        ("offset", word64 ++ [("type", strings ["integer", "null"])])]
      [])]

/-- The address by which a schema names its draft of the schema language. -/
def draftAddress (draft : String) : String :=
  "https" ++ "://json-schema.org/draft/" ++ draft ++ "/schema"

/-- The schema of pipelines. -/
def pipeline : Value :=
  .object (
    [("$defs", .object (definitions.map fun d => (d.1, .object d.2))),
      ("$schema", .string (draftAddress "2020-12")), ("title", .string "Pipeline")]
    ++ object [("from", text), ("steps", withDefault (.array []) (listOf (ref "Step")))] ["from"])

end TableFlow.Schema
