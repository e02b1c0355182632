import TableFlow.Cause
import TableFlow.Options
import TableFlow.Sql.Literal

/-!
# Table queries

One table can be queried without a pipeline.  A request filters, sorts and cuts its rows; the query is one statement,
in which columns go by their bare names.  The patterns of conditions are not written into the statement but bound to
parameters, and a statement with parameters is prepared before it is executed.
-/

namespace TableFlow

/-- What is asked of a table. -/
structure TableRequest where
  filter : Option Filter
  order : Option Order
  /-- Without a range the rows are limited by the options. -/
  take : Option Take
deriving DecidableEq

/-- A query of a table. -/
structure TableQuery where
  sql : String
  /-- The values of the parameters, in order. -/
  params : List String
  /-- How many results come before that of the query itself. -/
  discardedResults : Nat
deriving DecidableEq

/-- A column in a query of its table. -/
def ColumnRef.token (c : ColumnRef) : Sql.Token :=
  .identifier c.name

/-- The tokens of a condition and the parameters that it binds, `bound` others being bound before. -/
def Condition.tokens (bound : Nat) (c : Condition) : Except Cause (List Sql.Token × List String) :=
  match c.operator.form, c.value with
  | .postfixed words, _ => .ok (c.column.token :: words.map .word, [])
  | .pattern words, .literal value =>
    match value.pattern? with
    | some pattern => .ok (c.column.token :: words.map .word ++ [.placeholder (bound + 1)], [pattern])
    | none => .error (.patternWithoutValue c.operator)
  | .pattern _, .column _ => .error (.patternAgainstColumn c.operator)
  | .comparison sign, .column other => .ok ([c.column.token, .word sign, other.token], [])
  | .comparison sign, .literal value => .ok ([c.column.token, .word sign, value.token], [])

/-- The tokens of each condition and all parameters. -/
def conditionTokens : Nat → List Condition → Except Cause (List (List Sql.Token) × List String)
  | _, [] => .ok ([], [])
  | bound, c :: conditions => do
    let (tokens, params) ← c.tokens bound
    let (more, moreParams) ← conditionTokens (bound + params.length) conditions
    .ok (tokens :: more, params ++ moreParams)

/-- The clause of a filter with its parameters; without conditions there is none. -/
def Filter.clause (f : Filter) : Except Cause (List Sql.Token × List String) := do
  match ← conditionTokens 0 f.conditions with
  | ([], params) => .ok ([], params)
  | (conditions, params) => .ok (.word "WHERE" :: [.word f.connective.sql].intercalate conditions, params)

/-- The tokens of a sort column. -/
def OrderKey.tokens (k : OrderKey) : List Sql.Token :=
  k.column.token :: if k.direction = .desc then [.word "DESC"] else []

/-- The clause of an order; without sort columns there is none. -/
def Order.clause (o : Order) : List Sql.Token :=
  if o.keys.isEmpty then [] else .word "ORDER" :: .word "BY" :: [.comma].intercalate (o.keys.map OrderKey.tokens)

/-- A keyword with a number behind it. -/
def countClause (keyword : String) (n : UInt64) : List Sql.Token :=
  [.word keyword, .word (toString n.toNat)]

/-- The clauses of a range of rows. -/
def Take.clause (t : Take) : List Sql.Token :=
  t.limit.elim [] (countClause "LIMIT") ++ t.offset.elim [] (countClause "OFFSET")

namespace TableRequest

/-- The clause of the request's filter with its parameters. -/
def filterClause (r : TableRequest) : Except Cause (List Sql.Token × List String) :=
  match r.filter with
  | some f => f.clause
  | none => .ok ([], [])

/-- The statement of a request with its parameters. -/
def statement (r : TableRequest) (table : Table) (options : Options) :
    Except Cause (List Sql.Token × List String) := do
  let (filter, params) ← r.filterClause
  let source := [.word "SELECT", .word "*", .word "FROM", .identifier table.schema, .point,
    .identifier table.externalName]
  let order := r.order.elim [] Order.clause
  let range := r.take.elim (countClause "LIMIT" options.defaultLimit) Take.clause
  .ok (source ++ filter ++ order ++ range, params)

/-- The name under which a statement is prepared. -/
def preparedName : String :=
  "table_query"

/-- The text of a statement; a statement with parameters is prepared and then executed with them. -/
def sqlText (statement : List Sql.Token) (params : List String) : String :=
  if params.isEmpty then Sql.text statement
  else
    let types := ", ".intercalate (params.map fun _ => "text")
    let arguments := ", ".intercalate (params.zipIdx.map fun p => (Sql.Token.placeholder (p.2 + 1)).text)
    "PREPARE " ++ preparedName ++ "(" ++ types ++ ") AS " ++ Sql.text statement
      ++ "; EXECUTE " ++ preparedName ++ "(" ++ arguments ++ ")"

/-- The query of a request; preparing it gives one result of its own. -/
def query (r : TableRequest) (table : Table) (options : Options) : Except Cause TableQuery := do
  let (statement, params) ← r.statement table options
  .ok ⟨sqlText statement params, params, if params.isEmpty then 0 else 1⟩

end TableRequest

end TableFlow
