import TableFlow.Pipeline.Literal
import TableFlow.Sql.Token

/-!
# Literals in SQL

A string is written between quotes and nothing as `NULL`; all other literals are written as they are.
-/

namespace TableFlow

/-- The token of a literal. -/
def Literal.token : Literal → Sql.Token
  | null => .word "NULL"
  | string s => .string s
  | boolean b => .word (boolean b).text
  | integer n => .word (integer n).text
  | unsigned n => .word (unsigned n).text
  | float d => .word (float d).text

end TableFlow
