import TableFlow.Proofs.Delimiters
import TableFlow.Proofs.Parameters
import TableFlow.Proofs.Predicates
import TableFlow.Proofs.Traces
import TableFlow.Proofs.Transforms

/-!
# Filters as they are written

A filter with conditions is written as these with its connective between them.  In the text of a script they stand
behind `filter s`, between quotes (`Pipeline.exists_text_of_filter`), and in the statement of a table query behind
`WHERE`, between the table and the clauses that follow (`TableRequest.exists_statement_of_filter`).
-/

namespace TableFlow

open Sql (Token)

/-- What stands between two conditions. -/
def Connective.between : Connective → String
  | and => " AND "
  | or => " OR "

private theorem Connective.between_eq (connective : Connective) :
    connective.between = " " ++ connective.sql ++ " " := by
  cases connective <;> decide

/-! ### In a script -/

/-- An odd number of one quote. -/
def IsQuotes (text : String) : Prop :=
  ∃ n q, (q = '"' ∨ q = '\x27') ∧ n % 2 = 1 ∧ text.toList = List.replicate n q

namespace Script

/-- The pieces as they are written. -/
def written (pieces : List Piece) : String :=
  .ofList (body pieces)

/-- A column with a text behind it that is written as it is. -/
theorem written_column_text (name : String) {text : String} (h : text.toList.flatMap escaped = text.toList) :
    written [.column name, .text text] = "\x7bthis." ++ nameText name ++ "\x7d" ++ text := by
  apply String.toList_inj.1
  simp [written, body, pieceChars, columnText, h]

/-- Pieces with a text between them that is written as it is. -/
private theorem body_intercalate {separator : String} (hseparator : separator.toList.flatMap escaped = separator.toList)
    (parts : List (List Piece)) :
    body ([.text separator].intercalate parts) = separator.toList.intercalate (parts.map body) := by
  have hbody : body [.text separator] = separator.toList := by
    rw [body, List.flatMap_singleton, pieceChars, hseparator]
  induction parts with
  | nil => rfl
  | cons part parts ih =>
    cases parts with
    | nil => rw [List.intercalate_singleton, List.map_singleton, List.intercalate_singleton]
    | cons part' parts =>
      have happend : ∀ pieces pieces', body (pieces ++ pieces') = body pieces ++ body pieces' :=
        fun _ _ => List.flatMap_append
      rw [List.map_cons] at ih
      rw [List.map_cons, List.map_cons, List.intercalate_cons_cons, List.intercalate_cons_cons, happend, happend,
        hbody, ih]

private theorem written_intercalate {separator : String}
    (hseparator : separator.toList.flatMap escaped = separator.toList) (parts : List (List Piece)) :
    written ([.text separator].intercalate parts) = separator.intercalate (parts.map written) := by
  have hwritten : (parts.map written).map String.toList = parts.map body := by
    rw [List.map_map]
    exact List.map_congr_left fun _ _ => String.toList_ofList
  apply String.toList_inj.1
  rw [String.toList_intercalate, hwritten, written, String.toList_ofList, body_intercalate hseparator]

private theorem exists_text_of_mem {s : Script} {d : Declaration} (h : d ∈ s.declarations) :
    ∃ front behind, s.text = front ++ d.text ++ behind := by
  obtain ⟨before, after, hs⟩ := List.append_of_mem h
  refine ⟨.join (before.map fun d => d.text ++ "\n\n"),
    "\n\n" ++ .join (after.map fun d => d.text ++ "\n\n") ++ s.main.text "\n" ++ "\n", ?_⟩
  apply String.toList_inj.1
  simp [text, hs, String.toList_join]

end Script

private theorem Declaration.exists_text_of_filter {d : Declaration} {t : Template}
    (h : d.flow.transforms = [.filter t]) :
    ∃ front, d.text = front ++ "\n  filter " ++ Script.templateText t ++ "\n)" := by
  refine ⟨"let " ++ Script.nameText d.name ++ " = (\n  " ++ "from " ++ d.flow.source.text, ?_⟩
  apply String.toList_inj.1
  simp [text, Flow.text, h, Transform.text_filter]

private theorem Filter.exists_templateText {f : Filter} {tables : List Table} {t : Template}
    (h : f.predicate tables = .ok t) (hne : f.conditions ≠ []) :
    ∃ parts quotes, f.conditions.mapM (Condition.pieces tables) = .ok parts ∧ IsQuotes quotes ∧
      Script.templateText t =
        "s" ++ quotes ++ f.connective.between.intercalate (parts.map Script.written) ++ quotes := by
  obtain ⟨n, q, hquote, hodd, hdelimiter, -⟩ := exists_delimiter h hne
  obtain ⟨parts, hparts, ht⟩ := bind_eq_ok_iff.1 h
  have hbetween : f.connective.between.toList.flatMap Script.escaped = f.connective.between.toList := by
    cases f.connective <;> decide
  have hbody : .ofList (Script.body t) = f.connective.between.intercalate (parts.map Script.written) := by
    rw [← Script.written_intercalate hbetween, Connective.between_eq, ← Except.ok.inj ht, Template.body_ofPieces]
    rfl
  refine ⟨parts, .ofList (List.replicate n q), hparts, ⟨n, q, hquote, hodd, String.toList_ofList⟩, ?_⟩
  rw [← hbody]
  apply String.toList_inj.1
  rw [Script.toList_templateText, hdelimiter]
  simp

/-- The conditions of a filter stand in the text of a script, with the connective between them, in quotes. -/
theorem Pipeline.exists_text_of_filter {p : Pipeline} {catalog : Catalog} {text : String}
    (h : p.scriptText catalog = .ok text) {i : Nat} {f : Filter} (hstep : p.steps[i]? = some (.filter f))
    (hne : f.conditions ≠ []) :
    ∃ parts front quotes behind, f.conditions.mapM (Condition.pieces catalog.tables) = .ok parts ∧ IsQuotes quotes ∧
      text = front ++ "\n  filter s" ++ quotes ++ f.connective.between.intercalate (parts.map Script.written) ++
        quotes ++ "\n)" ++ behind := by
  obtain ⟨s, hs, rfl⟩ := map_eq_ok_iff.1 h
  obtain ⟨q, names, hq, -, rfl⟩ := script_eq_ok_iff.1 hs
  obtain ⟨root, earlier, later, -, -, next, hlater⟩ := exists_next_of_getElem? hq hstep
  cases next with
  | filter htransforms =>
    obtain ⟨t, ht, htransforms⟩ := bind_eq_ok_iff.1 htransforms
    split at htransforms
    · exact absurd rfl (Filter.predicate_ne_nil ht hne)
    · cases htransforms
      -- the declaration of the step, in the text of the script, and the filter in its text
      have hdeclared := hlater.subset (List.mem_append_right _ (List.mem_singleton.2 rfl))
      obtain ⟨front, behind, hscript⟩ := Script.exists_text_of_mem
        (s := ⟨q.declarations, ⟨.declaration q.last, [.select names]⟩⟩) hdeclared
      obtain ⟨front', hdeclaration⟩ := Declaration.exists_text_of_filter
        (d := ⟨declarationName earlier.declarations.length, ⟨.declaration earlier.last, [.filter t]⟩⟩) rfl
      obtain ⟨parts, quotes, hparts, hquotes, htemplate⟩ := Filter.exists_templateText ht hne
      refine ⟨parts, front ++ front', quotes, behind, hparts, hquotes, ?_⟩
      have hfilter : "\n  filter " ++ "s" = "\n  filter s" := by decide
      rw [hscript, hdeclaration, htemplate, ← hfilter]
      simp only [String.append_assoc]

/-! ### In a statement -/

private theorem Condition.spaced_tokens {c : Condition} {bound : Nat} {tokens : List Token} {params : List String}
    (h : c.tokens bound = .ok (tokens, params)) : tokens ≠ [] ∧ ∀ t ∈ tokens, t.Spaced := by
  have hwords : ∀ words : List String, ∀ t ∈ words.map Token.word, t.Spaced :=
    fun words => List.forall_mem_map.2 fun word _ => Token.spaced_word word
  unfold Condition.tokens at h
  split at h
  · cases h
    exact ⟨List.cons_ne_nil _ _, List.forall_mem_cons.2 ⟨spaced_column _, hwords _⟩⟩
  · split at h
    · cases h
      exact ⟨List.cons_ne_nil _ _, List.forall_mem_append.2
        ⟨List.forall_mem_cons.2 ⟨spaced_column _, hwords _⟩,
          List.forall_mem_singleton.2 (Token.spaced_placeholder _)⟩⟩
    · cases h
  · cases h
  · cases h
    simp only [List.forall_mem_cons]
    exact ⟨List.cons_ne_nil _ _, spaced_column _, Token.spaced_word _, spaced_column _,
      fun _ ht => absurd ht List.not_mem_nil⟩
  · cases h
    simp only [List.forall_mem_cons]
    exact ⟨List.cons_ne_nil _ _, spaced_column _, Token.spaced_word _, Literal.spaced_token _,
      fun _ ht => absurd ht List.not_mem_nil⟩

private theorem spaced_conditionTokens {bound : Nat} {conditions : List Condition} {parts : List (List Token)}
    {params : List String} (h : conditionTokens bound conditions = .ok (parts, params)) :
    ∀ part ∈ parts, part ≠ [] ∧ ∀ t ∈ part, t.Spaced := by
  induction conditions generalizing bound parts params with
  | nil =>
    cases h
    exact fun _ hpart => absurd hpart List.not_mem_nil
  | cons c conditions ih =>
    simp only [conditionTokens, bind_eq_ok_iff] at h
    obtain ⟨⟨tokens, first⟩, hc, ⟨more, rest⟩, hmore, heq⟩ := h
    cases heq
    exact List.forall_mem_cons.2 ⟨Condition.spaced_tokens hc, ih hmore⟩

theorem length_of_conditionTokens {bound : Nat} {conditions : List Condition} {parts : List (List Token)}
    {params : List String} (h : conditionTokens bound conditions = .ok (parts, params)) :
    parts.length = conditions.length := by
  induction conditions generalizing bound parts params with
  | nil =>
    cases h
    rfl
  | cons d conditions ih =>
    simp only [conditionTokens, bind_eq_ok_iff] at h
    obtain ⟨⟨tokens, first⟩, -, ⟨more, rest⟩, hmore, heq⟩ := h
    cases heq
    exact congrArg Nat.succ (ih hmore)

/-- Each condition has its tokens, and its parameters stand behind those of the patterns in front of it. -/
theorem getElem?_of_conditionTokens {bound : Nat} {conditions : List Condition} {parts : List (List Token)}
    {params : List String} (h : conditionTokens bound conditions = .ok (parts, params)) {j : Nat} {c : Condition}
    (hj : conditions[j]? = some c) :
    ∃ part earlier own later, parts[j]? = some part ∧ params = earlier ++ own ++ later ∧
      earlier.length = (patternsOf (conditions.take j)).length ∧
      c.tokens (bound + earlier.length) = .ok (part, own) := by
  induction conditions generalizing bound parts params j with
  | nil => cases hj
  | cons d conditions ih =>
    simp only [conditionTokens, bind_eq_ok_iff] at h
    obtain ⟨⟨tokens, first⟩, hd, ⟨more, rest⟩, hmore, heq⟩ := h
    cases heq
    cases j with
    | zero =>
      obtain rfl : d = c := Option.some.inj hj
      exact ⟨tokens, [], first, rest, rfl, rfl, rfl, hd⟩
    | succ j =>
      obtain ⟨part, earlier, own, later, hpart, rfl, hlength, hc⟩ := ih hmore hj
      refine ⟨part, first ++ earlier, own, later, hpart, by simp only [List.append_assoc], ?_, ?_⟩
      · rw [List.length_append, hlength, (Condition.reads hd).2, List.take_succ_cons, length_patternsOf_cons,
          Nat.add_comm]
      · rwa [List.length_append, ← Nat.add_assoc]

/-- Parts with a word between them, which has a blank on both sides. -/
private theorem Sql.text_intercalate (word : String) {parts : List (List Token)} (hne : parts ≠ [])
    (h : ∀ part ∈ parts, part ≠ [] ∧ ∀ t ∈ part, t.Spaced) :
    [.word word].intercalate parts ≠ [] ∧ (∀ t ∈ [Token.word word].intercalate parts, t.Spaced) ∧
      text ([.word word].intercalate parts) = (" " ++ word ++ " ").intercalate (parts.map text) := by
  induction parts with
  | nil => exact absurd rfl hne
  | cons part parts ih =>
    obtain ⟨⟨hpart, hspaced⟩, hparts⟩ := List.forall_mem_cons.1 h
    cases parts with
    | nil =>
      rw [List.intercalate_singleton, List.map_singleton, String.intercalate_singleton]
      exact ⟨hpart, hspaced, rfl⟩
    | cons part' parts =>
      obtain ⟨hrest, hrestSpaced, hrestText⟩ := ih (List.cons_ne_nil _ _) hparts
      rw [List.map_cons] at hrestText
      rw [List.intercalate_cons_cons, List.append_assoc, List.map_cons, List.map_cons,
        String.intercalate_cons_cons, ← hrestText]
      refine ⟨List.append_ne_nil_of_left_ne_nil hpart _, ?_, text_append_word hspaced hpart word hrestSpaced hrest⟩
      exact List.forall_mem_append.2 ⟨hspaced, List.forall_mem_append.2
        ⟨List.forall_mem_singleton.2 (Token.spaced_word word), hrestSpaced⟩⟩

/-- Tokens behind `WHERE` and what is written behind them, which is apart from them. -/
private theorem Sql.exists_text_where {source tokens others : List Token} (hsource : source ≠ [])
    (hlast : ∀ t, source.getLast? = some t → t.Spaced) (htokens : ∀ t ∈ tokens, t.Spaced) (hne : tokens ≠ [])
    (hfirst : ∀ t, others.head? = some t → t.Spaced) :
    ∃ behind, text (source ++ (.word "WHERE" :: tokens ++ others)) = text source ++ " WHERE " ++ text tokens ++ behind ∧
      (behind = "" ∨ ∃ more, behind = " " ++ more) := by
  have hword : ∀ t ∈ .word "WHERE" :: tokens, t.Spaced := List.forall_mem_cons.2 ⟨Token.spaced_word _, htokens⟩
  have hclause : text (.word "WHERE" :: tokens) = "WHERE" ++ " " ++ text tokens :=
    text_append (List.forall_mem_singleton.2 (Token.spaced_word _)) (List.cons_ne_nil _ []) htokens hne
  have hwhere : text (source ++ .word "WHERE" :: tokens) = text source ++ " WHERE " ++ text tokens := by
    have hblanks : " WHERE " = " " ++ ("WHERE" ++ " ") := by decide
    rw [text_append_of_seam hlast hsource (fun t ht => hword t (List.mem_of_mem_head? ht)) (List.cons_ne_nil _ _),
      hclause, hblanks]
    simp only [String.append_assoc]
  by_cases hothers : others = []
  · rw [hothers, List.append_nil]
    exact ⟨"", hwhere.trans String.append_empty.symm, .inl rfl⟩
  · refine ⟨" " ++ text others, ?_, .inr ⟨_, rfl⟩⟩
    have hseam : ∀ t, (source ++ .word "WHERE" :: tokens).getLast? = some t → t.Spaced := by
      intro t ht
      rw [List.getLast?_append_of_ne_nil _ (List.cons_ne_nil _ _)] at ht
      exact hword t (List.mem_of_getLast? ht)
    rw [← List.append_assoc, text_append_of_seam hseam (List.append_ne_nil_of_left_ne_nil hsource _) hfirst hothers,
      hwhere, String.append_assoc]

/-- The clauses behind that of the filter start with a word, if there are any. -/
private theorem TableRequest.spaced_head_clauses (r : TableRequest) (options : Options) :
    ∀ t, (r.order.elim [] Order.clause ++ r.take.elim (countClause "LIMIT" options.defaultLimit) Take.clause).head? =
      some t → t.Spaced := by
  have hrange : ∀ t,
      (r.take.elim (countClause "LIMIT" options.defaultLimit) Take.clause).head? = some t → t.Spaced := by
    intro t ht
    cases htake : r.take with
    | none =>
      rw [htake] at ht
      cases ht
      exact Token.spaced_word _
    | some take =>
      obtain ⟨limit, offset⟩ := take
      rw [htake] at ht
      cases limit <;> cases offset <;> cases ht <;> exact Token.spaced_word _
  intro t ht
  cases horder : r.order with
  | none =>
    rw [horder] at ht
    exact hrange t ht
  | some o =>
    rw [horder, Option.elim_some, Order.clause] at ht
    split at ht
    · exact hrange t ht
    · cases ht
      exact Token.spaced_word _

/-- A statement names its table first. -/
private theorem TableRequest.exists_source {r : TableRequest} {table : Table} {options : Options} {tokens : List Token}
    {params : List String} (h : r.statement table options = .ok (tokens, params)) :
    ∃ source filter : List Token, source ≠ [] ∧ (∀ t, source.getLast? = some t → t.Spaced) ∧
      Sql.lex (Sql.text source).toList = some
        [.word "SELECT", .sign "*", .word "FROM", .identifier table.schema, .sign ".", .identifier table.externalName] ∧
      r.filterClause = .ok (filter, params) ∧ tokens = source ++ (filter ++
        (r.order.elim [] Order.clause ++ r.take.elim (countClause "LIMIT" options.defaultLimit) Take.clause)) := by
  obtain ⟨⟨filter, params'⟩, hfilter, heq⟩ := bind_eq_ok_iff.1 h
  cases heq
  refine ⟨_, filter, List.cons_ne_nil _ _, ?_, (reads_source table).lex_text, hfilter, ?_⟩
  · intro t ht
    cases ht
    exact ⟨Token.noConfusion, Token.noConfusion⟩
  · simp only [List.append_assoc]

/-- The conditions of a filter stand in the statement of a query, with the connective between them, behind the table. -/
theorem TableRequest.exists_statement_of_filter {r : TableRequest} {table : Table} {options : Options} {q : TableQuery}
    (h : r.query table options = .ok q) {f : Filter} (hfilter : r.filter = some f) (hne : f.conditions ≠ []) :
    ∃ parts front behind, conditionTokens 0 f.conditions = .ok (parts, q.params) ∧
      Sql.lex front.toList = some
        [.word "SELECT", .sign "*", .word "FROM", .identifier table.schema, .sign ".", .identifier table.externalName] ∧
      (behind = "" ∨ ∃ more, behind = " " ++ more) ∧
      let statement := front ++ " WHERE " ++ f.connective.between.intercalate (parts.map Sql.text) ++ behind
      q.sql = if q.params = [] then statement
        else preparation q.params.length ++ statement ++ execution q.params.length := by
  obtain ⟨tokens, hstatement, hsql, -⟩ := exists_statement h
  obtain ⟨source, clause, hsource, hlast, hlex, hclause, rfl⟩ := exists_source hstatement
  rw [filterClause, hfilter] at hclause
  obtain ⟨⟨parts, params⟩, hparts, hclause⟩ := bind_eq_ok_iff.1 hclause
  have hspaced := spaced_conditionTokens hparts
  cases parts with
  | nil => exact absurd (List.length_eq_zero_iff.1 (length_of_conditionTokens hparts).symm) hne
  | cons part parts =>
    cases hclause
    obtain ⟨hjoined, hjoinedSpaced, hjoinedText⟩ :=
      Sql.text_intercalate f.connective.sql (List.cons_ne_nil part parts) hspaced
    obtain ⟨behind, htext, hbehind⟩ :=
      Sql.exists_text_where hsource hlast hjoinedSpaced hjoined (r.spaced_head_clauses options)
    rw [hjoinedText, ← Connective.between_eq] at htext
    exact ⟨part :: parts, Sql.text source, behind, hparts, hlex, hbehind, by rw [hsql, sqlText_eq, htext]⟩

end TableFlow
