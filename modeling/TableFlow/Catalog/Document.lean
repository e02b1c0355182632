import TableFlow.Catalog.RelationRecord
import TableFlow.Catalog.Vocabulary
import TableFlow.Document.Layout

/-!
# Catalog documents

How catalogs and their parts are read from JSON, and written as JSON.  In the object of columns a table that is named
again gets the columns that are named last.
-/

namespace TableFlow

open Document (Layout Mode Reader)
open Document.Layout (optional required withDefault)

/-- A table id is a string. -/
def TableId.read : Reader TableId :=
  fun v => (Document.string v).map TableId.mk

/-- A relation id is a string. -/
def RelationId.read : Reader RelationId :=
  fun v => (Document.string v).map RelationId.mk

namespace Table

/-- The fields of a table. -/
def layout : Layout Table :=
  Table.mk <$> required "id" TableId.read <*> required "external_name" Document.string
    <*> required "schema" Document.string <*> required "database_id" Document.string

/-- A table is a record. -/
def read (mode : Mode) : Nat → Reader Table :=
  Layout.reader "Table" mode fun _ => layout

/-- The document of a table. -/
def json (t : Table) : Json.Value :=
  .object [("id", .string t.id.text), ("external_name", .string t.externalName), ("schema", .string t.schema),
    ("database_id", .string t.databaseId)]

end Table

namespace Column

/-- The fields of a column. -/
def layout (mode : Mode) (room : Nat) : Layout Column :=
  Column.mk <$> required "name" Document.string
    <*> required "type" (Document.choice ColumnType.vocabulary mode room)
    <*> withDefault "is_nullable" false Document.flag <*> optional "default_expression" Document.string
    <*> withDefault "is_updateable" false Document.flag <*> withDefault "is_identity" false Document.flag

/-- A column is a record. -/
def read (mode : Mode) : Nat → Reader Column :=
  Layout.reader "ExternalColumn" mode (layout mode)

/-- The document of a column. -/
def json (c : Column) : Json.Value :=
  .object [("name", .string c.name), ("type", .string c.type.name), ("is_nullable", .bool c.isNullable),
    ("default_expression", c.defaultExpression.elim .null .string), ("is_updateable", .bool c.isUpdateable),
    ("is_identity", .bool c.isIdentity)]

end Column

namespace RelationRecord

/-- The fields of a flat relation. -/
def layout (mode : Mode) (room : Nat) : Layout RelationRecord :=
  RelationRecord.mk <$> required "id" RelationId.read
    <*> required "type" (Document.choice RelationType.vocabulary mode room)
    <*> required "table_1" TableId.read <*> required "column_1" Document.string
    <*> required "table_2" TableId.read <*> required "column_2" Document.string
    <*> optional "join_table" TableId.read <*> optional "join_column_1" Document.string
    <*> optional "join_column_2" Document.string

/-- A flat relation is a record. -/
def read (mode : Mode) : Nat → Reader RelationRecord :=
  Layout.reader "RelationDef" mode (layout mode)

/-- The document of a flat relation; absent parts of a junction are left out. -/
def json (r : RelationRecord) : Json.Value :=
  .object ([("id", .string r.id.text), ("type", .string r.type.name), ("table_1", .string r.table1.text),
      ("column_1", .string r.column1), ("table_2", .string r.table2.text), ("column_2", .string r.column2)]
    ++ (r.joinTable.map fun id => ("join_table", .string id.text)).toList
    ++ (r.joinColumn1.map fun name => ("join_column_1", .string name)).toList
    ++ (r.joinColumn2.map fun name => ("join_column_2", .string name)).toList)

end RelationRecord

namespace Relation

/-- A relation is a flat relation whose junction suits its kind. -/
def read (mode : Mode) (room : Nat) : Reader Relation := fun v => do
  let r ← RelationRecord.read mode room v
  match r.relation with
  | .ok relation => .ok relation
  | .error fault => .error (.mismatch (.refused fault.failure))

/-- The document of a relation. -/
def json (r : Relation) : Json.Value :=
  r.record.json

end Relation

namespace Catalog

/-- The catalog of tables, relations and the columns of table ids, each entry replacing earlier ones of its id. -/
def ofParts (tables : List Table) (relations : List Relation) (columns : List (String × List Column)) : Catalog :=
  columns.foldl (fun c entry => c.putColumns ⟨entry.1⟩ entry.2) ⟨tables, relations, []⟩

/-- The fields of a catalog. -/
def layout (mode : Mode) (room : Nat) : Layout Catalog :=
  ofParts <$> required "tables" (Document.list (Table.read mode) room)
    <*> withDefault "relations" [] (Document.list (Relation.read mode) room)
    <*> required "columns" (Document.map (Document.list (Column.read mode)) room)

/-- A catalog is a record. -/
def read (mode : Mode) : Nat → Reader Catalog :=
  Layout.reader "Catalog" mode (layout mode)

/-- The catalog that a text describes. -/
def ofText (text : String) : Except Document.Reject Catalog :=
  Document.ofText (read .streamed) text

/-- The document of a catalog. -/
def json (c : Catalog) : Json.Value :=
  .object [("tables", .array (c.tables.map Table.json)), ("relations", .array (c.relations.map Relation.json)),
    ("columns", .object (c.columns.map fun entry => (entry.1.text, .array (entry.2.map Column.json))))]

end Catalog

end TableFlow
