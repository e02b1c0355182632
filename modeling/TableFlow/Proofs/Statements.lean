import TableFlow.TableQuery.Basic
import TableFlow.Proofs.Numerals
import TableFlow.Proofs.Outcome
import TableFlow.Proofs.Tokens

/-!
# What a database sees in a table query

A request says which lexemes its statement consists of (`TableRequest.lexemes`): the name of the table, the conditions
with their values, the sort columns and the range, each text of the request being one string or one identifier.  The
statement that is written reads as exactly these (`TableRequest.exists_lex_statement`), so nothing that a request or a
table holds can add to it.
-/

namespace TableFlow

open Sql (Lexeme Reads Token)

/-! ### The lexemes of a request -/

/-- A literal is a word, a number with a sign, or a string. -/
def Literal.lexemes : Literal → List Lexeme
  | null => [.word "NULL"]
  | boolean b => [.word (if b then "true" else "false")]
  | integer n => Sql.signed (n.toInt < 0) (Nat.toDigits 10 n.toInt.natAbs)
  | unsigned n => [.number (toString n.toNat)]
  | float d => Sql.signed d.negative (d.shortest .up).positional
  | string s => [.string s]

/-- A column goes by its name. -/
def ColumnRef.lexeme (c : ColumnRef) : Lexeme :=
  .identifier c.name

def Operand.lexemes : Operand → List Lexeme
  | column c => [c.lexeme]
  | literal value => value.lexemes

def Operator.lexemes : Operator → List Lexeme
  | equal => [.sign "="]
  | notEqual => [.sign "<>"]
  | greaterThan => [.sign ">"]
  | lessThan => [.sign "<"]
  | greaterThanOrEqual => [.sign ">="]
  | lessThanOrEqual => [.sign "<="]
  | like => [.word "LIKE"]
  | notLike => [.word "NOT", .word "LIKE"]
  | isNull => [.word "IS", .word "NULL"]
  | isNotNull => [.word "IS", .word "NOT", .word "NULL"]

/-- The one logical operator between conditions. -/
def Connective.lexeme : Connective → Lexeme
  | and => .word "AND"
  | or => .word "OR"

/-- The operator compares with a pattern, which is bound to a placeholder. -/
def Operator.binds (o : Operator) : Bool :=
  o = .like ∨ o = .notLike

/-- A column, an operator, and to its right nothing, the placeholder with the number `n`, or a value. -/
def Condition.lexemes (n : Nat) (c : Condition) : List Lexeme :=
  c.column.lexeme :: c.operator.lexemes ++
    if c.operator = .isNull ∨ c.operator = .isNotNull then []
    else if c.operator.binds then [.placeholder n]
    else c.value.lexemes

/-- The conditions one by one, `bound` placeholders standing in front of them. -/
def conditionLexemes : Nat → List Condition → List (List Lexeme)
  | _, [] => []
  | bound, c :: conditions =>
    c.lexemes (bound + 1) :: conditionLexemes (if c.operator.binds then bound + 1 else bound) conditions

/-- The conditions with the connective between them. -/
def Filter.lexemes (f : Filter) : List Lexeme :=
  if f.conditions = [] then []
  else .word "WHERE" :: [f.connective.lexeme].intercalate (conditionLexemes 0 f.conditions)

def OrderKey.lexemes (k : OrderKey) : List Lexeme :=
  k.column.lexeme :: if k.direction = .desc then [.word "DESC"] else []

def Order.lexemes (o : Order) : List Lexeme :=
  if o.keys = [] then []
  else .word "ORDER" :: .word "BY" :: [.sign ","].intercalate (o.keys.map OrderKey.lexemes)

/-- A keyword and a number. -/
def countLexemes (keyword : String) (n : UInt64) : List Lexeme :=
  [.word keyword, .number (toString n.toNat)]

def Take.lexemes (t : Take) : List Lexeme :=
  t.limit.elim [] (countLexemes "LIMIT") ++ t.offset.elim [] (countLexemes "OFFSET")

/-- The lexemes of a request's statement. -/
def TableRequest.lexemes (r : TableRequest) (table : Table) (options : Options) : List Lexeme :=
  [.word "SELECT", .sign "*", .word "FROM", .identifier table.schema, .sign ".", .identifier table.externalName] ++
    r.filter.elim [] Filter.lexemes ++ r.order.elim [] Order.lexemes ++
    r.take.elim (countLexemes "LIMIT" options.defaultLimit) Take.lexemes

/-- What stands in front of a statement with parameters. -/
def preparation (params : Nat) : String :=
  "PREPARE " ++ "table_query" ++ "(" ++ ", ".intercalate (List.replicate params "text") ++ ") AS "

/-- What stands behind a statement with parameters. -/
def execution (params : Nat) : String :=
  "; EXECUTE " ++ "table_query" ++ "("
    ++ ", ".intercalate ((List.range params).map fun n => "$" ++ toString (n + 1)) ++ ")"

/-! ### Single tokens -/

namespace Sql.Token

private theorem isRead_word {text : String} (h : isKeyword text.toList = true) : (word text).IsRead [.word text] :=
  fun _ hrest => isRead_keyword h hrest

private theorem isRead_sign {text : String} (h : text ∈ ["*", "=", "<>", ">", "<", ">=", "<="]) :
    (word text).IsRead [.sign text] :=
  fun _ hrest => Sql.isRead_sign h hrest

theorem isRead_identifier (name : String) : (identifier name).IsRead [.identifier name] :=
  fun _ hrest => Sql.isRead_identifier name (hrest.stops rfl rfl)

private theorem isRead_string (text : String) : (string text).IsRead [.string text] :=
  fun _ hrest => Sql.isRead_string text (hrest.stops rfl rfl)

private theorem isRead_placeholder (n : Nat) : (placeholder n).IsRead [.placeholder n] :=
  fun _ hrest => Sql.isRead_placeholder n hrest

private theorem isRead_comma : comma.IsRead [.sign ","] :=
  fun rest _ => Sql.isRead_comma rest

private theorem isRead_nat (n : Nat) : (word (toString n)).IsRead [.number (toString n)] := by
  intro rest hrest
  have hdigits : (toString n).toList = Nat.toDigits 10 n := Nat.toList_repr
  have hread := isRead_number (isNumber_toDigits n) hrest
  rwa [← hdigits, String.ofList_toList] at hread

private theorem isRead_int (n : Int) : (word (toString n)).IsRead (signed (n < 0) (Nat.toDigits 10 n.natAbs)) := by
  intro rest hrest
  rw [text, Json.toList_toString_int]
  exact isRead_signed _ (isNumber_toDigits _) hrest

end Sql.Token

private theorem Literal.isRead_token (value : Literal) : value.token.IsRead value.lexemes := by
  cases value with
  | null => exact Sql.Token.isRead_word (by decide)
  | boolean b => cases b <;> exact Sql.Token.isRead_word (by decide)
  | integer n => exact Sql.Token.isRead_int n.toInt
  | unsigned n => exact Sql.Token.isRead_nat n.toNat
  | float d =>
    intro rest hrest
    show Sql.IsRead d.plain.toList _ rest
    rw [Double.toList_plain]
    exact Sql.isRead_signed _ (Decimal.isNumber_positional _) hrest
  | string s => exact Sql.Token.isRead_string s

/-! ### Clauses -/

private theorem Literal.token_ne_point (value : Literal) : value.token ≠ .point := by
  cases value <;> exact Token.noConfusion

section Clauses

variable {tokens : List Token} {ls : List Lexeme}

/-- One more word in front. -/
private theorem reads_word {text : String} (h : Sql.isKeyword text.toList = true) (tail : Reads tokens ls) :
    Reads (.word text :: tokens) (.word text :: ls) :=
  .cons (Sql.Token.isRead_word h) Token.noConfusion tail

private theorem reads_sign {text : String} (h : text ∈ ["*", "=", "<>", ">", "<", ">=", "<="])
    (tail : Reads tokens ls) : Reads (.word text :: tokens) (.sign text :: ls) :=
  .cons (Sql.Token.isRead_sign h) Token.noConfusion tail

private theorem reads_column (c : ColumnRef) (tail : Reads tokens ls) : Reads (c.token :: tokens) (c.lexeme :: ls) :=
  .cons (Token.isRead_identifier c.name) Token.noConfusion tail

private theorem reads_literal (value : Literal) : Reads [value.token] value.lexemes := by
  have hreads := Reads.cons value.isRead_token value.token_ne_point .nil
  rwa [List.append_nil] at hreads

private theorem reads_comparison {column : ColumnRef} {sign : String}
    (hsign : sign ∈ ["*", "=", "<>", ">", "<", ">=", "<="]) {value : Token} (hvalue : Reads [value] ls) :
    Reads [column.token, .word sign, value] (column.lexeme :: .sign sign :: ls) :=
  reads_column column (reads_sign hsign hvalue)

/-- A condition is read as its lexemes and binds one parameter if it has a pattern. -/
theorem Condition.reads {bound : Nat} {c : Condition} {params : List String}
    (h : c.tokens bound = .ok (tokens, params)) :
    Reads tokens (c.lexemes (bound + 1)) ∧ params.length = if c.operator.binds then 1 else 0 := by
  obtain ⟨column, operator, value⟩ := c
  have hplaceholder : Reads [.placeholder (bound + 1)] [.placeholder (bound + 1)] :=
    .cons (Sql.Token.isRead_placeholder _) Token.noConfusion .nil
  cases operator with
  | equal | notEqual | greaterThan | lessThan | greaterThanOrEqual | lessThanOrEqual =>
    cases value with
    | column other =>
      cases h
      exact ⟨reads_comparison (by decide) (reads_column other .nil), rfl⟩
    | literal value =>
      cases h
      exact ⟨reads_comparison (by decide) (reads_literal value), rfl⟩
  | like =>
    cases value with
    | column other => cases h
    | literal value =>
      simp only [Condition.tokens, Operator.form] at h
      split at h
      · cases h
        exact ⟨reads_column column (reads_word rfl hplaceholder), rfl⟩
      · cases h
  | notLike =>
    cases value with
    | column other => cases h
    | literal value =>
      simp only [Condition.tokens, Operator.form] at h
      split at h
      · cases h
        exact ⟨reads_column column (reads_word rfl (reads_word rfl hplaceholder)), rfl⟩
      · cases h
  | isNull =>
    cases h
    exact ⟨reads_column column (reads_word rfl (reads_word rfl .nil)), rfl⟩
  | isNotNull =>
    cases h
    exact ⟨reads_column column (reads_word rfl (reads_word rfl (reads_word rfl .nil))), rfl⟩

/-- The conditions are read one by one; the numbers of their placeholders are those of their parameters. -/
private theorem reads_conditions {bound : Nat} {conditions : List Condition} {parts : List (List Token)}
    {params : List String} (h : conditionTokens bound conditions = .ok (parts, params)) :
    parts.length = (conditionLexemes bound conditions).length ∧
      ∀ part ∈ parts.zip (conditionLexemes bound conditions), Reads part.1 part.2 := by
  induction conditions generalizing bound parts params with
  | nil =>
    cases h
    exact ⟨rfl, fun part hpart => absurd hpart List.not_mem_nil⟩
  | cons c conditions ih =>
    simp only [conditionTokens, bind_eq_ok_iff] at h
    obtain ⟨⟨tokens, first⟩, hc, ⟨more, rest⟩, hmore, heq⟩ := h
    cases heq
    obtain ⟨hreads, hparams⟩ := Condition.reads hc
    have hbound : bound + first.length = if c.operator.binds then bound + 1 else bound := by
      rw [hparams]
      split <;> rfl
    rw [hbound] at hmore
    obtain ⟨hlength, hrest⟩ := ih hmore
    refine ⟨congrArg Nat.succ hlength, fun part hpart => ?_⟩
    rcases List.mem_cons.1 hpart with rfl | hpart
    · exact hreads
    · exact hrest part hpart

private theorem Filter.reads {f : Filter} {params : List String} (h : f.clause = .ok (tokens, params)) :
    Reads tokens f.lexemes := by
  simp only [Filter.clause, bind_eq_ok_iff] at h
  obtain ⟨⟨parts, params'⟩, hconditions, h⟩ := h
  obtain ⟨hlength, hreads⟩ := reads_conditions hconditions
  by_cases hempty : f.conditions = []
  · rw [hempty] at hconditions
    cases hconditions
    cases h
    rw [Filter.lexemes, if_pos hempty]
    exact .nil
  · have hparts : parts ≠ [] := by
      rintro rfl
      obtain ⟨c, conditions, hcons⟩ := List.exists_cons_of_ne_nil hempty
      rw [hcons] at hlength
      cases hlength
    obtain ⟨part, more, rfl⟩ := List.exists_cons_of_ne_nil hparts
    cases h
    have hconnective : (Token.word f.connective.sql).IsRead [f.connective.lexeme] := by
      cases f.connective <;> exact Sql.Token.isRead_word (by decide)
    rw [Filter.lexemes, if_neg hempty]
    exact reads_word (by decide) (.intercalate hconnective Token.noConfusion hlength hreads)

private theorem OrderKey.reads (k : OrderKey) : Reads k.tokens k.lexemes := by
  refine reads_column k.column ?_
  split
  · exact reads_word (by decide) .nil
  · exact .nil

private theorem Order.reads (o : Order) : Reads o.clause o.lexemes := by
  by_cases hempty : o.keys = []
  · rw [Order.clause, Order.lexemes, if_pos hempty, hempty]
    exact .nil
  · have hkeys : ∀ part ∈ (o.keys.map OrderKey.tokens).zip (o.keys.map OrderKey.lexemes), Reads part.1 part.2 := by
      intro part hpart
      rw [List.zip_map', List.mem_map] at hpart
      obtain ⟨k, -, rfl⟩ := hpart
      exact k.reads
    rw [Order.clause, Order.lexemes, if_neg hempty, if_neg (by simpa using hempty)]
    refine reads_word (by decide) (reads_word (by decide) ?_)
    exact .intercalate Sql.Token.isRead_comma Token.noConfusion (by simp) hkeys

private theorem countClause_reads {keyword : String} (h : Sql.isKeyword keyword.toList = true) (n : UInt64) :
    Reads (countClause keyword n) (countLexemes keyword n) :=
  reads_word h (.cons (Sql.Token.isRead_nat n.toNat) Token.noConfusion .nil)

private theorem Take.reads (t : Take) : Reads t.clause t.lexemes := by
  have hlimit : Reads (t.limit.elim [] (countClause "LIMIT")) (t.limit.elim [] (countLexemes "LIMIT")) := by
    cases t.limit with
    | none => exact .nil
    | some n => exact countClause_reads (by decide) n
  have hoffset : Reads (t.offset.elim [] (countClause "OFFSET")) (t.offset.elim [] (countLexemes "OFFSET")) := by
    cases t.offset with
    | none => exact .nil
    | some n => exact countClause_reads (by decide) n
  exact hlimit.append hoffset

end Clauses

/-! ### Statements -/

namespace TableRequest

variable {r : TableRequest} {table : Table} {options : Options}

theorem reads_source (table : Table) : Reads
    [.word "SELECT", .word "*", .word "FROM", .identifier table.schema, .point, .identifier table.externalName]
    [.word "SELECT", .sign "*", .word "FROM", .identifier table.schema, .sign ".", .identifier table.externalName] :=
  reads_word (by decide) (reads_sign (by decide) (reads_word (by decide) (.qualified _ _ .nil)))

theorem reads_statement {tokens : List Token} {params : List String}
    (h : r.statement table options = .ok (tokens, params)) : Reads tokens (r.lexemes table options) := by
  simp only [statement, bind_eq_ok_iff] at h
  obtain ⟨⟨filter, params'⟩, hfilter, h⟩ := h
  cases h
  have hfilter : Reads filter (r.filter.elim [] Filter.lexemes) := by
    rw [filterClause] at hfilter
    cases hf : r.filter with
    | none =>
      rw [hf] at hfilter
      cases hfilter
      exact .nil
    | some f =>
      rw [hf] at hfilter
      exact Filter.reads hfilter
  have horder : Reads (r.order.elim [] Order.clause) (r.order.elim [] Order.lexemes) := by
    cases r.order with
    | none => exact .nil
    | some o => exact o.reads
  have hrange : Reads (r.take.elim (countClause "LIMIT" options.defaultLimit) Take.clause)
      (r.take.elim (countLexemes "LIMIT" options.defaultLimit) Take.lexemes) := by
    cases r.take with
    | none => exact countClause_reads (by decide) options.defaultLimit
    | some t => exact t.reads
  exact (((reads_source table).append hfilter).append horder).append hrange

/-- The text of a query is a statement, with its preparation and execution around it if there are parameters. -/
theorem sqlText_eq (tokens : List Token) (params : List String) :
    sqlText tokens params =
      if params = [] then Sql.text tokens
      else preparation params.length ++ Sql.text tokens ++ execution params.length := by
  have htypes : params.map (fun _ => "text") = List.replicate params.length "text" := List.map_const'
  have harguments : params.zipIdx.map (fun p => (Token.placeholder (p.2 + 1)).text) =
      (List.range params.length).map fun n => "$" ++ toString (n + 1) := by
    rw [List.range_eq_range', ← List.zipIdx_map_snd, List.map_map]
    rfl
  rw [sqlText, htypes, harguments]
  by_cases hempty : params = []
  · rw [if_pos hempty, if_pos (List.isEmpty_iff.2 hempty)]
  · rw [if_neg hempty, if_neg (mt List.isEmpty_iff.1 hempty)]
    simp only [preparation, execution, preparedName, String.append_assoc]

/-- A database sees the lexemes of the request in the statement of its query. -/
theorem exists_lex_statement {q : TableQuery} (h : r.query table options = .ok q) :
    ∃ statement : String,
      q.sql = (if q.params = [] then statement
        else preparation q.params.length ++ statement ++ execution q.params.length) ∧
      Sql.lex statement.toList = some (r.lexemes table options) := by
  simp only [query, bind_eq_ok_iff] at h
  obtain ⟨⟨tokens, params⟩, hstatement, h⟩ := h
  cases h
  exact ⟨Sql.text tokens, sqlText_eq tokens params, (reads_statement hstatement).lex_text⟩

/-- Quotes, comments and keywords in a request stay inside its strings and identifiers. -/
theorem lex_statement_hostile :
    let column : String → ColumnRef := .ofTable ⟨"t"⟩
    let request : TableRequest :=
      ⟨some ⟨.or, [⟨column "name", .equal, .literal (.string "'; DROP TABLE t; --")⟩,
          ⟨column "a\"b", .like, .literal (.string "$2")⟩, ⟨column "n", .greaterThan, .literal (.integer (-5))⟩]⟩,
        some ⟨[⟨column "/* id", .desc⟩]⟩, none⟩
    let table : Table := ⟨⟨"t"⟩, "or\"ders", "public", "db"⟩
    ∃ q statement, request.query table {} = .ok q ∧
      q.sql = (if q.params = [] then statement
        else preparation q.params.length ++ statement ++ execution q.params.length) ∧
      Sql.lex statement.toList = some
        [.word "SELECT", .sign "*", .word "FROM", .identifier "public", .sign ".", .identifier "or\"ders",
          .word "WHERE", .identifier "name", .sign "=", .string "'; DROP TABLE t; --",
          .word "OR", .identifier "a\"b", .word "LIKE", .placeholder 1,
          .word "OR", .identifier "n", .sign ">", .sign "-", .number "5",
          .word "ORDER", .word "BY", .identifier "/* id", .word "DESC", .word "LIMIT", .number "100"] := by
  intro column request table
  obtain ⟨q, hq⟩ : ∃ q, request.query table {} = .ok q := ⟨_, rfl⟩
  obtain ⟨statement, hsql, hlex⟩ := exists_lex_statement hq
  exact ⟨q, statement, hq, hsql, hlex⟩

end TableRequest

end TableFlow
