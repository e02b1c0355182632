import TableFlow.Json.Writer
import TableFlow.Pipeline.StepType

/-!
# Writing pipelines

The documents of pipelines and their parts.  Fields stand in their order, the type of a step in front of them; an
alias, its base and the bounds of a range are left out when there are none, everything else is always written.
-/

namespace TableFlow

/-- The member that an optional field makes. -/
def optionalMember {α : Type} (name : String) (json : α → Json.Value) (value : Option α) :
    List (String × Json.Value) :=
  (value.map fun a => (name, json a)).toList

namespace RelationAlias

/-- The members that every alias has. -/
def names (label : String) (relation : RelationId) (table : TableId) : List (String × Json.Value) :=
  [("as", .string label), ("relation", .string relation.text), ("table", .string table.text)]

/-- The document of an alias. -/
def json : RelationAlias → Json.Value
  | fromRoot label relation table explicit =>
    .object (names label relation table ++ if explicit then [("on", .object [])] else [])
  | chained label relation table base =>
    .object (names label relation table ++ [("on", .object [("relation", base.json)])])

end RelationAlias

/-- The document of a column reference. -/
def ColumnRef.json (c : ColumnRef) : Json.Value :=
  .object ([("table", .string c.source.text), ("name", .string c.name)]
    ++ optionalMember "relation" RelationAlias.json c.relation)

/-- The document of a literal. -/
def Literal.json : Literal → Json.Value
  | null => .null
  | boolean b => .bool b
  | integer n => .int n.toInt
  | unsigned n => .int n.toNat
  | float d => .double d
  | string s => .string s

/-- The document of a right side. -/
def Operand.json : Operand → Json.Value
  | column c => c.json
  | literal value => value.json

/-- The document of a condition. -/
def Condition.json (c : Condition) : Json.Value :=
  .object [("column", c.column.json), ("operator", .string c.operator.name), ("value", c.value.json)]

/-- The members of a filter. -/
def Filter.members (f : Filter) : List (String × Json.Value) :=
  [("logicalOperator", .string (Connective.vocabulary.name f.connective)),
    ("conditions", .array (f.conditions.map Condition.json))]

/-- The document of a sort column. -/
def OrderKey.json (k : OrderKey) : Json.Value :=
  .object [("column", k.column.json), ("direction", .string (Direction.vocabulary.name k.direction))]

/-- The members of an order. -/
def Order.members (o : Order) : List (String × Json.Value) :=
  [("order", .array (o.keys.map OrderKey.json))]

/-- The document of a natural number of 64 bits. -/
def wordJson (n : UInt64) : Json.Value :=
  .int n.toNat

/-- The members of a range of rows. -/
def Take.members (t : Take) : List (String × Json.Value) :=
  optionalMember "limit" wordJson t.limit ++ optionalMember "offset" wordJson t.offset

/-- The members of an aggregate. -/
def Aggregate.members (a : Aggregate) : List (String × Json.Value) :=
  [("group", .array (a.group.map ColumnRef.json)), ("operation", .string a.operation.name),
    ("column", a.column.json), ("as", .string a.label)]

namespace Step

/-- The members of a step behind its type. -/
def members : Step → List (String × Json.Value)
  | root id => [("table", .string id.text)]
  | select columns => [("select", .array (columns.map ColumnRef.json))]
  | filter f => f.members
  | order o => o.members
  | aggregate a => a.members
  | relate a => [("relation", a.json)]
  | take t => t.members
  | display => []

/-- The document of a step. -/
def json (s : Step) : Json.Value :=
  .object (("type", .string s.type.name) :: s.members)

end Step

/-- The document of a pipeline. -/
def Pipeline.json (p : Pipeline) : Json.Value :=
  .object [("from", .string p.root.text), ("steps", .array (p.steps.map Step.json))]

/-- The text of a pipeline. -/
def Pipeline.text (p : Pipeline) : String :=
  p.json.text

end TableFlow
