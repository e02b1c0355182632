import Mathlib.Data.List.Forall2
import TableFlow.Proofs.Statements

/-!
# Patterns are parameters

The value of a condition with a pattern does not come into the statement.  It becomes a parameter, and a placeholder
stands in its place.  The placeholders of a statement count from 1 on, in the order of these conditions, and each stands
for the parameter of the condition that it belongs to (`TableRequest.placeholders_of_query`).  So another value in such
a condition changes one parameter and nothing else (`TableRequest.query_repatterned`).
-/

namespace TableFlow

open Sql (Lexeme Token)

/-! ### Parameters -/

theorem Operator.binds_iff {o : Operator} : o.binds = true ↔ ∃ words, o.form = .pattern words := by
  cases o <;> simp [binds, form]

namespace Condition

/-- The parameter of a condition with a pattern is its value between two percent signs. -/
def HasParam (c : Condition) (param : String) : Prop :=
  ∃ value : Literal, c.value = .literal value ∧ value ≠ .null ∧ param = "%" ++ value.text ++ "%"

variable {c : Condition} {bound : Nat} {tokens : List Token} {params : List String}

/-- A value that is there becomes a parameter; the tokens do not show it. -/
private theorem tokens_pattern {words : List String} (hform : c.operator.form = .pattern words) {value : Literal}
    (hvalue : c.value = .literal value) (hne : value ≠ .null) :
    c.tokens bound = .ok (c.column.token :: words.map .word ++ [.placeholder (bound + 1)],
      ["%" ++ value.text ++ "%"]) := by
  have hpattern : value.pattern? = some ("%" ++ value.text ++ "%") := by
    cases value with
    | null => exact absurd rfl hne
    | boolean | integer | unsigned | float | string => rfl
  simp only [Condition.tokens, hform, hvalue, hpattern]

private theorem exists_param (h : c.tokens bound = .ok (tokens, params)) (hc : c.operator.binds = true) :
    ∃ param, params = [param] ∧ c.HasParam param := by
  obtain ⟨words, hform⟩ := Operator.binds_iff.1 hc
  cases hvalue : c.value with
  | column other => simp [Condition.tokens, hform, hvalue] at h
  | literal value =>
    by_cases hne : value = .null
    · simp [Condition.tokens, hform, hvalue, hne, Literal.pattern?] at h
    · rw [tokens_pattern hform hvalue hne] at h
      cases h
      exact ⟨_, rfl, value, hvalue, hne, rfl⟩

end Condition

/-- The conditions of a list that compare with a pattern. -/
def patternsOf (conditions : List Condition) : List Condition :=
  conditions.filter fun c => c.operator.binds

/-- How many patterns there are, one condition after another. -/
theorem length_patternsOf_cons (c : Condition) (conditions : List Condition) :
    (patternsOf (c :: conditions)).length = (patternsOf conditions).length + if c.operator.binds then 1 else 0 := by
  cases hbinds : c.operator.binds <;> simp [patternsOf, hbinds]

private theorem Condition.HasParam.unique {c : Condition} {param param' : String} (h : c.HasParam param)
    (h' : c.HasParam param') : param = param' := by
  obtain ⟨value, hvalue, -, rfl⟩ := h
  obtain ⟨value', hvalue', -, rfl⟩ := h'
  obtain rfl : value = value' := Operand.literal.inj (hvalue.symm.trans hvalue')
  rfl

private theorem exists_param_of_getElem? {conditions : List Condition} {params : List String}
    (h : List.Forall₂ Condition.HasParam conditions params) {i : Nat} {c : Condition} (hi : conditions[i]? = some c) :
    ∃ param, params[i]? = some param ∧ c.HasParam param := by
  obtain ⟨hlt, rfl⟩ := List.getElem?_eq_some_iff.1 hi
  have hlt' : i < params.length := h.length_eq ▸ hlt
  exact ⟨params[i], List.getElem?_eq_getElem hlt', h.get hlt hlt'⟩

/-- The parameters are those of the conditions with a pattern, in order. -/
private theorem hasParam_conditions {bound : Nat} {conditions : List Condition} {parts : List (List Token)}
    {params : List String} (h : conditionTokens bound conditions = .ok (parts, params)) :
    List.Forall₂ Condition.HasParam (patternsOf conditions) params := by
  induction conditions generalizing bound parts params with
  | nil =>
    cases h
    exact .nil
  | cons c conditions ih =>
    simp only [conditionTokens, bind_eq_ok_iff] at h
    obtain ⟨⟨tokens, first⟩, hc, ⟨more, rest⟩, hmore, heq⟩ := h
    cases heq
    have hrest := ih hmore
    cases hbinds : c.operator.binds with
    | true =>
      obtain ⟨param, rfl, hparam⟩ := Condition.exists_param hc hbinds
      simp only [patternsOf, List.filter_cons, hbinds, if_true]
      exact .cons hparam hrest
    | false =>
      have hlength : first.length = 0 := by
        have hlength := (Condition.reads hc).2
        rwa [hbinds] at hlength
      obtain rfl := List.length_eq_zero_iff.1 hlength
      simp only [patternsOf, List.filter_cons, hbinds, Bool.false_eq_true, if_false]
      exact hrest

private theorem Filter.hasParam {f : Filter} {tokens : List Token} {params : List String}
    (h : f.clause = .ok (tokens, params)) :
    List.Forall₂ Condition.HasParam (patternsOf f.conditions) params := by
  simp only [Filter.clause, bind_eq_ok_iff] at h
  obtain ⟨⟨parts, params'⟩, hconditions, h⟩ := h
  have hparams : params' = params := by
    cases parts with
    | nil =>
      cases h
      rfl
    | cons part parts =>
      cases h
      rfl
  exact hparams ▸ hasParam_conditions hconditions

namespace TableRequest

variable {r : TableRequest} {table : Table} {options : Options} {q : TableQuery}

/-- The conditions of a request. -/
def conditions (r : TableRequest) : List Condition :=
  r.filter.elim [] Filter.conditions

theorem exists_statement (h : r.query table options = .ok q) :
    ∃ tokens, r.statement table options = .ok (tokens, q.params) ∧ q.sql = sqlText tokens q.params ∧
      q.discardedResults = if q.params = [] then 0 else 1 := by
  simp only [query, bind_eq_ok_iff] at h
  obtain ⟨⟨tokens, params⟩, hstatement, h⟩ := h
  cases h
  exact ⟨tokens, hstatement, rfl, by simp only [List.isEmpty_iff]⟩

private theorem hasParam_statement {tokens : List Token} {params : List String}
    (h : r.statement table options = .ok (tokens, params)) :
    List.Forall₂ Condition.HasParam (patternsOf r.conditions) params := by
  simp only [statement, bind_eq_ok_iff] at h
  obtain ⟨⟨clause, params'⟩, hclause, h⟩ := h
  cases h
  rw [filterClause] at hclause
  rw [conditions]
  cases hfilter : r.filter with
  | none =>
    rw [hfilter] at hclause
    cases hclause
    exact .nil
  | some f =>
    rw [hfilter] at hclause
    exact Filter.hasParam hclause

/-- Each condition with a pattern has one parameter, and they are in order. -/
private theorem hasParam_query (h : r.query table options = .ok q) :
    List.Forall₂ Condition.HasParam (patternsOf r.conditions) q.params := by
  obtain ⟨tokens, hstatement, -, -⟩ := exists_statement h
  exact hasParam_statement hstatement

end TableRequest

/-! ### Placeholders -/

namespace Sql

/-- The numbers of the placeholders among lexemes. -/
def placeholders (ls : List Lexeme) : List Nat :=
  ls.filterMap fun
    | .placeholder n => some n
    | _ => none

@[simp] theorem placeholders_append (ls ms : List Lexeme) :
    placeholders (ls ++ ms) = placeholders ls ++ placeholders ms :=
  List.filterMap_append

/-- Separators that are no placeholders do not count. -/
private theorem placeholders_intercalate (separator : Lexeme) (h : placeholders [separator] = [])
    (parts : List (List Lexeme)) :
    placeholders ([separator].intercalate parts) = parts.flatMap placeholders := by
  induction parts with
  | nil => rfl
  | cons part parts ih =>
    cases parts with
    | nil => simp
    | cons part' parts =>
      rw [List.intercalate_cons_cons, placeholders_append, placeholders_append, h, ih, List.append_nil,
        ← List.flatMap_cons]

end Sql

open Sql (placeholders placeholders_append placeholders_intercalate)

private theorem Operator.placeholders_lexemes (o : Operator) : placeholders o.lexemes = [] := by
  cases o <;> rfl

private theorem Connective.placeholders_lexeme (connective : Connective) : placeholders [connective.lexeme] = [] := by
  cases connective <;> rfl

private theorem Literal.placeholders_lexemes (value : Literal) : placeholders value.lexemes = [] := by
  have hsigned : ∀ negative written, placeholders (Sql.signed negative written) = [] := by
    intro negative written
    cases negative <;> rfl
  cases value with
  | null | boolean | unsigned | string => rfl
  | integer n => exact hsigned _ _
  | float d => exact hsigned _ _

/-- A condition has a placeholder exactly if it has a pattern. -/
private theorem Condition.placeholders_lexemes (n : Nat) (c : Condition) :
    placeholders (c.lexemes n) = if c.operator.binds then [n] else [] := by
  have hvalue : placeholders c.value.lexemes = [] := by
    cases c.value with
    | column other => rfl
    | literal value => exact value.placeholders_lexemes
  have hfront : placeholders (c.column.lexeme :: c.operator.lexemes) = [] := c.operator.placeholders_lexemes
  rw [Condition.lexemes, placeholders_append, hfront, List.nil_append]
  cases c.operator with
  | equal | notEqual | greaterThan | lessThan | greaterThanOrEqual | lessThanOrEqual => exact hvalue
  | like | notLike | isNull | isNotNull => rfl

private theorem placeholders_conditions (bound : Nat) (conditions : List Condition) :
    (conditionLexemes bound conditions).flatMap placeholders =
      List.range' (bound + 1) (patternsOf conditions).length := by
  induction conditions generalizing bound with
  | nil => rfl
  | cons c conditions ih =>
    rw [conditionLexemes, List.flatMap_cons, Condition.placeholders_lexemes, ih, length_patternsOf_cons]
    cases c.operator.binds with
    | true => exact List.range'_succ.symm
    | false => rfl

private theorem Filter.placeholders_lexemes (f : Filter) :
    placeholders f.lexemes = List.range' 1 (patternsOf f.conditions).length := by
  by_cases hempty : f.conditions = []
  · rw [Filter.lexemes, if_pos hempty, hempty]
    rfl
  · have hconditions := placeholders_intercalate f.connective.lexeme f.connective.placeholders_lexeme
      (conditionLexemes 0 f.conditions)
    rw [placeholders_conditions] at hconditions
    rw [Filter.lexemes, if_neg hempty]
    exact hconditions

private theorem Order.placeholders_lexemes (o : Order) : placeholders o.lexemes = [] := by
  by_cases hempty : o.keys = []
  · rw [Order.lexemes, if_pos hempty]
    rfl
  · have hkeys : ∀ part ∈ o.keys.map OrderKey.lexemes, placeholders part = [] := by
      intro part hpart
      obtain ⟨k, -, rfl⟩ := List.mem_map.1 hpart
      cases hdirection : k.direction <;> simp [OrderKey.lexemes, hdirection] <;> rfl
    have hlist := placeholders_intercalate (.sign ",") rfl (o.keys.map OrderKey.lexemes)
    rw [List.flatMap_eq_nil_iff.2 hkeys] at hlist
    rw [Order.lexemes, if_neg hempty]
    exact hlist

private theorem Take.placeholders_lexemes (t : Take) : placeholders t.lexemes = [] := by
  obtain ⟨limit, offset⟩ := t
  cases limit <;> cases offset <;> rfl

/-- The placeholders of a statement count from 1 on. -/
private theorem TableRequest.placeholders_lexemes (r : TableRequest) (table : Table) (options : Options) :
    placeholders (r.lexemes table options) = List.range' 1 (patternsOf r.conditions).length := by
  have hfilter : placeholders (r.filter.elim [] Filter.lexemes) = List.range' 1 (patternsOf r.conditions).length := by
    rw [TableRequest.conditions]
    cases r.filter with
    | none => rfl
    | some f => exact f.placeholders_lexemes
  have horder : placeholders (r.order.elim [] Order.lexemes) = [] := by
    cases r.order with
    | none => rfl
    | some o => exact o.placeholders_lexemes
  have hrange : placeholders (r.take.elim (countLexemes "LIMIT" options.defaultLimit) Take.lexemes) = [] := by
    cases r.take with
    | none => rfl
    | some t => exact t.placeholders_lexemes
  rw [TableRequest.lexemes, placeholders_append, placeholders_append, placeholders_append, hfilter, horder, hrange,
    List.append_nil, List.append_nil]
  rfl

/-! ### The place of a placeholder -/

private theorem conditionLexemes_append (bound : Nat) (before behind : List Condition) :
    conditionLexemes bound (before ++ behind) =
      conditionLexemes bound before ++ conditionLexemes (bound + (patternsOf before).length) behind := by
  induction before generalizing bound with
  | nil => rfl
  | cons c before ih =>
    have hbound : (if c.operator.binds then bound + 1 else bound) + (patternsOf before).length =
        bound + (patternsOf (c :: before)).length := by
      rw [length_patternsOf_cons]
      split <;> omega
    rw [List.cons_append, conditionLexemes, conditionLexemes, ih, hbound, List.cons_append]

private theorem exists_intercalate_append {α : Type} (separator : List α) (before : List (List α)) (part : List α)
    (behind : List (List α)) :
    ∃ rest, separator.intercalate (before ++ part :: behind) = before.flatMap (· ++ separator) ++ part ++ rest := by
  induction before with
  | nil =>
    cases behind with
    | nil => exact ⟨[], by simp⟩
    | cons part' behind => exact ⟨separator ++ separator.intercalate (part' :: behind), by simp⟩
  | cons first before ih =>
    obtain ⟨rest, ih⟩ := ih
    refine ⟨rest, ?_⟩
    rw [List.flatMap_cons, List.append_assoc, List.append_assoc, ← List.append_assoc _ part rest, ← ih]
    cases before with
    | nil => exact List.intercalate_cons_cons
    | cons second before => exact List.intercalate_cons_cons

/-- The lexemes of a statement in front of a condition: the table, and the conditions before with the connective behind
each of them. -/
def Filter.lexemesBefore (f : Filter) (table : Table) (before : List Condition) : List Lexeme :=
  [.word "SELECT", .sign "*", .word "FROM", .identifier table.schema, .sign ".", .identifier table.externalName,
    .word "WHERE"] ++ (conditionLexemes 0 before).flatMap (· ++ [f.connective.lexeme])

/-- The placeholder of a condition stands behind its operator, and its number is that of the condition among those with
a pattern. -/
private theorem TableRequest.exists_lexemes_eq {r : TableRequest} {f : Filter} (hf : r.filter = some f) (table : Table)
    (options : Options) {before behind : List Condition} {c : Condition} (hsplit : f.conditions = before ++ c :: behind)
    (hc : c.operator.binds = true) :
    ∃ rest, r.lexemes table options = f.lexemesBefore table before ++ c.column.lexeme :: c.operator.lexemes ++
      .placeholder ((patternsOf before).length + 1) :: rest := by
  have hnull : ¬(c.operator = .isNull ∨ c.operator = .isNotNull) := by
    rintro (h | h) <;> rw [h] at hc <;> cases hc
  have hlexemes : ∀ n, c.lexemes n = c.column.lexeme :: c.operator.lexemes ++ [.placeholder n] := by
    intro n
    rw [Condition.lexemes, if_neg hnull, if_pos hc]
  have hne : f.conditions ≠ [] := by simp [hsplit]
  obtain ⟨rest, hrest⟩ := exists_intercalate_append [f.connective.lexeme] (conditionLexemes 0 before)
    (c.lexemes ((patternsOf before).length + 1))
    (conditionLexemes (if c.operator.binds then (patternsOf before).length + 1 else (patternsOf before).length) behind)
  have hwhere : f.lexemes = .word "WHERE" :: ((conditionLexemes 0 before).flatMap (· ++ [f.connective.lexeme]) ++
      (c.column.lexeme :: c.operator.lexemes ++ [.placeholder ((patternsOf before).length + 1)]) ++ rest) := by
    rw [Filter.lexemes, if_neg hne, hsplit, conditionLexemes_append, Nat.zero_add, conditionLexemes, hrest, hlexemes]
  rw [TableRequest.lexemes, hf, Option.elim_some, hwhere, Filter.lexemesBefore]
  refine ⟨rest ++ r.order.elim [] Order.lexemes ++
    r.take.elim (countLexemes "LIMIT" options.defaultLimit) Take.lexemes, ?_⟩
  simp

/-- The placeholders of a query are numbered from 1 on, one for each condition with a pattern; each stands behind the
operator of its condition and for the parameter with its number, which is made of the condition's value.  Such a query
is prepared for as many texts and executed with all of them, and any other query is the statement alone. -/
theorem TableRequest.placeholders_of_query {r : TableRequest} {table : Table} {options : Options} {q : TableQuery}
    (h : r.query table options = .ok q) :
    let count := (patternsOf r.conditions).length
    q.params.length = count ∧ q.discardedResults = (if count = 0 then 0 else 1) ∧
    ∃ statement ls,
      q.sql = (if count = 0 then statement else preparation count ++ statement ++ execution count) ∧
      Sql.lex statement.toList = some ls ∧ placeholders ls = List.range' 1 count ∧
      ∀ f before c behind, r.filter = some f → f.conditions = before ++ c :: behind → c.operator.binds = true →
        ∃ param rest, q.params[(patternsOf before).length]? = some param ∧ c.HasParam param ∧
          ls = f.lexemesBefore table before ++ c.column.lexeme :: c.operator.lexemes ++
            .placeholder ((patternsOf before).length + 1) :: rest := by
  intro count
  obtain ⟨tokens, hstatement, hsql, hdiscarded⟩ := exists_statement h
  have hparams := hasParam_query h
  have hcount : q.params.length = count := hparams.length_eq.symm
  have hnil : q.params = [] ↔ count = 0 := by rw [← hcount, List.length_eq_zero_iff]
  refine ⟨hcount, ?_, Sql.text tokens, r.lexemes table options, ?_, ?_, ?_, ?_⟩
  · simp only [hdiscarded, hnil]
  · simp only [hsql, sqlText_eq, hnil, hcount]
  · exact (reads_statement hstatement).lex_text
  · exact r.placeholders_lexemes table options
  · intro f before c behind hf hsplit hc
    have hpatterns : patternsOf r.conditions = patternsOf before ++ c :: patternsOf behind := by
      simp [conditions, hf, hsplit, patternsOf, hc]
    have hplace : (patternsOf r.conditions)[(patternsOf before).length]? = some c := by simp [hpatterns]
    obtain ⟨param, hparam, hvalue⟩ := exists_param_of_getElem? hparams hplace
    obtain ⟨rest, hrest⟩ := exists_lexemes_eq hf table options hsplit hc
    exact ⟨param, rest, hparam, hvalue, hrest⟩

/-- A text that looks like a placeholder is none. -/
theorem TableRequest.placeholders_of_query_lookalike :
    let column : String → ColumnRef := .ofTable ⟨"t"⟩
    let request : TableRequest :=
      ⟨some ⟨.or, [⟨column "note", .equal, .literal (.string "$7 LIKE $8")⟩,
          ⟨column "name", .like, .literal (.string "$2'; --")⟩, ⟨column "$3", .isNull, .literal .null⟩,
          ⟨column "name", .notLike, .literal (.integer 5)⟩]⟩, none, none⟩
    ∃ q statement ls, request.query ⟨⟨"t"⟩, "orders", "public", "db"⟩ {} = .ok q ∧
      q.params = ["%$2'; --%", "%5%"] ∧ q.discardedResults = 1 ∧
      q.sql = preparation 2 ++ statement ++ execution 2 ∧
      Sql.lex statement.toList = some ls ∧ placeholders ls = [1, 2] := by
  intro column request
  obtain ⟨q, hq⟩ : ∃ q, request.query ⟨⟨"t"⟩, "orders", "public", "db"⟩ {} = .ok q := ⟨_, rfl⟩
  obtain ⟨-, hdiscarded, statement, ls, hsql, hlex, hplaceholders, -⟩ := placeholders_of_query hq
  have hparams : q.params = ["%$2'; --%", "%5%"] := by
    cases hq
    rfl
  exact ⟨q, statement, ls, hq, hparams, hdiscarded, hsql, hlex, hplaceholders⟩

/-! ### Other values in the same conditions -/

/-- The conditions are the same, or compare with different patterns, both of which have a value. -/
inductive Condition.Repatterned : Condition → Condition → Prop
  | same (c : Condition) : Repatterned c c
  | value (column : ColumnRef) {operator : Operator} (binds : operator.binds = true) {first second : Literal}
    (first_ne : first ≠ .null) (second_ne : second ≠ .null) :
    Repatterned ⟨column, operator, .literal first⟩ ⟨column, operator, .literal second⟩

/-- The filters differ at most in the values of patterns. -/
structure Filter.Repatterned (f g : Filter) : Prop where
  connective_eq : g.connective = f.connective
  conditions : List.Forall₂ Condition.Repatterned f.conditions g.conditions

/-- The requests differ at most in the values of patterns. -/
structure TableRequest.Repatterned (r s : TableRequest) : Prop where
  filter : Option.Rel Filter.Repatterned r.filter s.filter
  order_eq : s.order = r.order
  take_eq : s.take = r.take

/-- What is seen of something with parameters: how many there are. -/
def outline {α : Type} (made : α × List String) : α × Nat :=
  (made.1, made.2.length)

private theorem Condition.Repatterned.tokens {c d : Condition} (h : c.Repatterned d) (bound : Nat) :
    (d.tokens bound).map outline = (c.tokens bound).map outline := by
  cases h with
  | same => rfl
  | value column binds first_ne second_ne =>
    obtain ⟨words, hform⟩ := Operator.binds_iff.1 binds
    rw [tokens_pattern (c := ⟨column, _, .literal _⟩) hform rfl first_ne,
      tokens_pattern (c := ⟨column, _, .literal _⟩) hform rfl second_ne]
    rfl

private theorem conditionTokens_repatterned {cs ds : List Condition} (h : List.Forall₂ Condition.Repatterned cs ds)
    (bound : Nat) : (conditionTokens bound ds).map outline = (conditionTokens bound cs).map outline := by
  induction h generalizing bound with
  | nil => rfl
  | cons hc _ ih =>
    rw [conditionTokens, conditionTokens, map_bind_eq, map_bind_eq]
    -- the number of parameters is all that the conditions behind see of the first one
    refine bind_congr_of_map_eq (hc.tokens bound) fun made made' hmade => ?_
    obtain ⟨htokens, hlength⟩ := Prod.mk.inj hmade
    simp only [map_bind_eq, htokens, hlength]
    refine bind_congr_of_map_eq (ih _) fun more more' hmore => ?_
    obtain ⟨hmore, hrest⟩ := Prod.mk.inj hmore
    simp only [Except.map, outline, hmore, List.length_append, hlength, hrest]

private theorem Filter.Repatterned.clause {f g : Filter} (h : f.Repatterned g) :
    g.clause.map outline = f.clause.map outline := by
  rw [Filter.clause, Filter.clause, map_bind_eq, map_bind_eq, h.connective_eq]
  refine bind_congr_of_map_eq (conditionTokens_repatterned h.conditions 0) fun made made' hmade => ?_
  obtain ⟨parts, params⟩ := made
  obtain ⟨parts', params'⟩ := made'
  obtain ⟨rfl, hlength⟩ : parts' = parts ∧ params'.length = params.length := Prod.mk.inj hmade
  cases parts' with
  | nil => exact congrArg (fun n => Except.ok ([], n)) hlength
  | cons part parts => exact congrArg (fun n => Except.ok (_, n)) hlength

namespace TableRequest

/-- The text of a query shows no more of its parameters than how many there are. -/
private theorem sqlText_congr {tokens : List Token} {params params' : List String}
    (h : params'.length = params.length) : sqlText tokens params' = sqlText tokens params := by
  simp only [sqlText_eq, ← List.length_eq_zero_iff, h]

namespace Repatterned

variable {r s : TableRequest} (h : r.Repatterned s) (table : Table) (options : Options)

include h

private theorem statement : (s.statement table options).map outline = (r.statement table options).map outline := by
  have hclause : s.filterClause.map outline = r.filterClause.map outline := by
    have hfilter := h.filter
    rw [filterClause, filterClause]
    generalize r.filter = left at hfilter ⊢
    generalize s.filter = right at hfilter ⊢
    cases hfilter with
    | none => rfl
    | some hfilter => exact hfilter.clause
  rw [TableRequest.statement, TableRequest.statement, map_bind_eq, map_bind_eq, h.order_eq, h.take_eq]
  refine bind_congr_of_map_eq hclause fun made made' hmade => ?_
  obtain ⟨hfilter, hlength⟩ := Prod.mk.inj hmade
  simp only [Except.map, outline, hfilter, hlength]

/-- What is seen of a query: its text, the results to skip, and how many parameters there are. -/
private theorem query :
    (s.query table options).map (fun q => (q.sql, q.discardedResults, q.params.length)) =
      (r.query table options).map (fun q => (q.sql, q.discardedResults, q.params.length)) := by
  rw [TableRequest.query, TableRequest.query, map_bind_eq, map_bind_eq]
  refine bind_congr_of_map_eq (h.statement table options) fun made made' hmade => ?_
  obtain ⟨htokens, hlength⟩ := Prod.mk.inj hmade
  simp only [Except.map, htokens, hlength, sqlText_congr hlength, List.isEmpty_iff, ← List.length_eq_zero_iff]

end Repatterned

/-- Requests that differ in the values of patterns alone have the same error or the same text and results to skip.  Each
parameter is the value of its condition between two percent signs, so no other parameters differ than those of
conditions that do. -/
theorem query_repatterned {r s : TableRequest} (h : r.Repatterned s) (table : Table) (options : Options) :
    (∃ e, r.query table options = .error e ∧ s.query table options = .error e) ∨
    ∃ q q' : TableQuery, r.query table options = .ok q ∧ s.query table options = .ok q' ∧ q'.sql = q.sql ∧
      q'.discardedResults = q.discardedResults ∧ q'.params.length = q.params.length ∧
      List.Forall₂ Condition.HasParam (patternsOf r.conditions) q.params ∧
      List.Forall₂ Condition.HasParam (patternsOf s.conditions) q'.params ∧
      ∀ i : Nat, (patternsOf s.conditions)[i]? = (patternsOf r.conditions)[i]? → q'.params[i]? = q.params[i]? := by
  have hseen := h.query table options
  cases hr : r.query table options with
  | error e =>
    rw [hr] at hseen
    exact .inl ⟨e, rfl, map_eq_error_iff.1 hseen⟩
  | ok q =>
    rw [hr] at hseen
    obtain ⟨q', hs, hq⟩ := map_eq_ok_iff.1 hseen
    obtain ⟨hsql, hq⟩ := Prod.mk.inj hq
    obtain ⟨hdiscarded, hlength⟩ := Prod.mk.inj hq
    have hparams := hasParam_query hr
    have hparams' := hasParam_query hs
    refine .inr ⟨q, q', rfl, hs, hsql, hdiscarded, hlength, hparams, hparams', fun i hi => ?_⟩
    cases hc : (patternsOf r.conditions)[i]? with
    | none =>
      rw [List.getElem?_eq_none_iff, hparams.length_eq] at hc
      rw [List.getElem?_eq_none hc, List.getElem?_eq_none (hlength ▸ hc)]
    | some c =>
      obtain ⟨param, hparam, hvalue⟩ := exists_param_of_getElem? hparams hc
      obtain ⟨param', hparam', hvalue'⟩ := exists_param_of_getElem? hparams' (hi.trans hc)
      rw [hparam, hparam', hvalue'.unique hvalue]

/-- Another search in the same column, between the same conditions. -/
theorem query_repatterned_search :
    let column : String → ColumnRef := .ofTable ⟨"t"⟩
    let request : Literal → TableRequest := fun value =>
      ⟨some ⟨.and, [⟨column "name", .like, .literal value⟩, ⟨column "status", .equal, .literal (.string "paid")⟩,
          ⟨column "name", .notLike, .literal (.string "x")⟩]⟩, none, none⟩
    ∃ q q' : TableQuery, (request (.string "abc")).query ⟨⟨"t"⟩, "orders", "public", "db"⟩ {} = .ok q ∧
      (request (.integer 7)).query ⟨⟨"t"⟩, "orders", "public", "db"⟩ {} = .ok q' ∧ q'.sql = q.sql ∧
      q.params = ["%abc%", "%x%"] ∧ q'.params = ["%7%", "%x%"] := by
  intro column request
  have hconditions : (request (.string "abc")).Repatterned (request (.integer 7)) :=
    ⟨.some ⟨rfl, .cons (.value _ rfl Literal.noConfusion Literal.noConfusion)
      (.cons (.same _) (.cons (.same _) .nil))⟩, rfl, rfl⟩
  rcases query_repatterned hconditions ⟨⟨"t"⟩, "orders", "public", "db"⟩ {} with
    ⟨e, he, -⟩ | ⟨q, q', hq, hq', hsql, -⟩
  · cases he
  · have hparams : q.params = ["%abc%", "%x%"] := by
      cases hq
      rfl
    have hparams' : q'.params = ["%7%", "%x%"] := by
      cases hq'
      rfl
    exact ⟨q, q', hq, hq', hsql, hparams, hparams'⟩

end TableRequest

end TableFlow
