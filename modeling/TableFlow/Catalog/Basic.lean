/-!
# Catalogs

What is known about a database: its tables, the columns of each, and the relations between them.  A relation has two
sides, neither of which comes first; a many-to-many relation goes through a junction table that refers to both.

A `Catalog` is built up from the empty one.  `Catalog.addTable` and `Catalog.addRelation` append, so a look-up by id
finds what came first; the columns of a table are replaced when they are given again.
-/

namespace TableFlow

/-- The id of a table. -/
structure TableId where
  text : String
deriving DecidableEq

/-- The id of a relation. -/
structure RelationId where
  text : String
deriving DecidableEq

/-- A table of the database. -/
structure Table where
  id : TableId
  externalName : String
  schema : String
  databaseId : String
deriving DecidableEq

/-- The type of a column. -/
inductive ColumnType where
  | string
  | number
  | float
  | boolean
  | date
  | datetime
deriving DecidableEq

/-- Sums and averages can be taken. -/
def ColumnType.isNumeric : ColumnType → Bool
  | number => true
  | float => true
  | _ => false

/-- A column of a table. -/
structure Column where
  name : String
  type : ColumnType
  isNullable : Bool
  defaultExpression : Option String
  isUpdateable : Bool
  isIdentity : Bool
deriving DecidableEq

/-- The table through which a many-to-many relation goes, with a column for each side. -/
structure Junction where
  table : TableId
  column1 : String
  column2 : String
deriving DecidableEq

/-- How many rows of one side belong to a row of the other. -/
inductive RelationKind where
  | oneToOne
  | oneToMany
  | manyToMany (junction : Junction)
deriving DecidableEq

/-- A relation between two tables: rows belong together when the two columns agree. -/
structure Relation where
  id : RelationId
  kind : RelationKind
  table1 : TableId
  column1 : String
  table2 : TableId
  column2 : String
deriving DecidableEq

/-- The junction of the swapped relation. -/
def Junction.swap (j : Junction) : Junction :=
  ⟨j.table, j.column2, j.column1⟩

/-- The kind of the swapped relation. -/
def RelationKind.swap : RelationKind → RelationKind
  | manyToMany junction => manyToMany junction.swap
  | kind => kind

namespace Relation

/-- The same relation with its sides in the other order. -/
def swap (r : Relation) : Relation :=
  ⟨r.id, r.kind.swap, r.table2, r.column2, r.table1, r.column1⟩

/-- The relation with the side of a target last; a target that is neither side is taken for the last one. -/
def towards (r : Relation) (target : TableId) : Relation :=
  if target = r.table1 then r.swap else r

end Relation

/-- What is known about a database. -/
structure Catalog where
  tables : List Table
  relations : List Relation
  /-- The columns of tables, with one entry for each table id. -/
  columns : List (TableId × List Column)
deriving DecidableEq

namespace Catalog

/-- Nothing is known. -/
def empty : Catalog := ⟨[], [], []⟩

/-- The entry of an id replaced in its place, or put behind all others. -/
def putEntry (id : TableId) (columns : List Column) : List (TableId × List Column) → List (TableId × List Column)
  | [] => [(id, columns)]
  | entry :: entries => if entry.1 = id then (id, columns) :: entries else entry :: putEntry id columns entries

/-- The columns of a table, in place of those that were known. -/
def putColumns (c : Catalog) (id : TableId) (columns : List Column) : Catalog :=
  { c with columns := putEntry id columns c.columns }

/-- One more table with its columns. -/
def addTable (c : Catalog) (table : Table) (columns : List Column) : Catalog :=
  { c.putColumns table.id columns with tables := c.tables ++ [table] }

/-- One more relation. -/
def addRelation (c : Catalog) (relation : Relation) : Catalog :=
  { c with relations := c.relations ++ [relation] }

/-- The first table with an id. -/
def table? (c : Catalog) (id : TableId) : Option Table :=
  c.tables.find? fun table => table.id = id

/-- The first relation with an id. -/
def relation? (c : Catalog) (id : RelationId) : Option Relation :=
  c.relations.find? fun relation => relation.id = id

/-- The columns of a table, if they are known. -/
def columns? (c : Catalog) (id : TableId) : Option (List Column) :=
  c.columns.lookup id

/-- The first column with a name in a table, if it is known. -/
def column? (c : Catalog) (table : TableId) (name : String) : Option Column := do
  let columns ← c.columns? table
  columns.find? fun column => column.name = name

end Catalog

end TableFlow
