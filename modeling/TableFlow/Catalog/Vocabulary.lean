import TableFlow.Catalog.Basic
import TableFlow.Document.Vocabulary

/-!
# The words of catalogs

The names of column types and of kinds of relations.
-/

namespace TableFlow

open Document (Vocabulary)

/-- The names of column types. -/
def ColumnType.vocabulary : Vocabulary ColumnType where
  all := [.string, .number, .float, .boolean, .date, .datetime]
  name
    | .string => "string"
    | .number => "number"
    | .float => "float"
    | .boolean => "boolean"
    | .date => "date"
    | .datetime => "datetime"

/-- The name of a column type. -/
def ColumnType.name (t : ColumnType) : String :=
  vocabulary.name t

end TableFlow
