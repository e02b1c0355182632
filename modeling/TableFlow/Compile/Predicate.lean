import TableFlow.Pipeline.FlatName
import TableFlow.Script.Basic
import TableFlow.Sql.Literal

/-!
# Filters as templates

The conditions of a filter become one condition in SQL, joined by the connective, with a place for each column.  A
pattern is compared with a text that is written out.
-/

namespace TableFlow

/-- The pieces of a condition. -/
def Condition.pieces (tables : List Table) (c : Condition) : Except Cause (List Piece) := do
  let column ← c.column.flatName tables
  let words := " " ++ c.operator.form.sql
  match c.operator.form, c.value with
  | .postfixed _, _ => .ok [.column column, .text words]
  | .pattern _, .literal value =>
    match value.pattern? with
    | some pattern => .ok [.column column, .text (words ++ " " ++ (Sql.Token.string pattern).text)]
    | none => .error (.patternWithoutValue c.operator)
  | .pattern _, .column _ => .error (.patternAgainstColumn c.operator)
  | .comparison _, .column other => do
    let other ← other.flatName tables
    .ok [.column column, .text (words ++ " "), .column other]
  | .comparison _, .literal value => .ok [.column column, .text (words ++ " " ++ value.token.text)]

/-- The template of a filter, empty if it has no conditions. -/
def Filter.predicate (tables : List Table) (f : Filter) : Except Cause Template := do
  let conditions ← f.conditions.mapM (Condition.pieces tables)
  .ok (Template.ofPieces ([.text (" " ++ f.connective.sql ++ " ")].intercalate conditions))

end TableFlow
