import TableFlow.Compile.Pipeline
import TableFlow.Proofs.Resolution
import TableFlow.Proofs.Statements
import TableFlow.Proofs.Templates

/-!
# One filter in a script and in a table query

A filter is written twice: as a template, with places for the columns of the rows at hand, and as a clause, in which
columns go by their bare names and patterns are parameters.  Where the references of the filter are known, both are
written or neither is, with the same error, and they say the same (`Filter.predicate_agrees_clause`): with the bare
names in its places the template is the text of the clause, with the parameters in theirs.
-/

namespace TableFlow

open Sql (Token)

/-! ### Texts of tokens -/

namespace Sql

/-- The token with its parameter in the place of a placeholder. -/
def Token.given (params : List String) : Token → Token
  | placeholder n => (params[n - 1]?).elim (placeholder n) string
  | t => t

@[simp] theorem Token.given_word (params : List String) (text : String) : (word text).given params = word text := rfl

/-- Such tokens have a blank on both sides. -/
def Token.Spaced (t : Token) : Prop :=
  t ≠ .point ∧ t ≠ .comma

private theorem Token.Spaced.given {t : Token} (h : t.Spaced) (params : List String) : (t.given params).Spaced := by
  cases t with
  | placeholder n =>
    rw [Token.given]
    cases params[n - 1]? with
    | none => exact h
    | some param => exact ⟨Token.noConfusion, Token.noConfusion⟩
  | word | identifier | string | point | comma => exact h

theorem Token.spaced_word (text : String) : (word text).Spaced :=
  ⟨Token.noConfusion, Token.noConfusion⟩

theorem Token.spaced_placeholder (n : Nat) : (placeholder n).Spaced :=
  ⟨Token.noConfusion, Token.noConfusion⟩

private theorem Token.spaced_map_given {tokens : List Token} (h : ∀ t ∈ tokens, t.Spaced) (params : List String) :
    ∀ t ∈ tokens.map (Token.given params), t.Spaced := by
  intro t ht
  obtain ⟨u, hu, rfl⟩ := List.mem_map.1 ht
  exact (h u hu).given params

/-- A blank stands at the seam of two lists; all other gaps are inside of them. -/
theorem text_append_of_seam {tokens others : List Token} (hlast : ∀ t, tokens.getLast? = some t → t.Spaced)
    (hne : tokens ≠ []) (hfirst : ∀ t, others.head? = some t → t.Spaced) (hne' : others ≠ []) :
    text (tokens ++ others) = text tokens ++ " " ++ text others := by
  obtain ⟨u, others, rfl⟩ := List.exists_cons_of_ne_nil hne'
  have hu : u.Spaced := hfirst u rfl
  induction tokens with
  | nil => exact absurd rfl hne
  | cons t tokens ih =>
    cases tokens with
    | nil =>
      have ht : t.Spaced := hlast t rfl
      have hgap : t.gap u = " " := by rw [Token.gap_of_ne_point ht.1 hu.1, if_neg hu.2]
      show t.text ++ t.gap u ++ text (u :: others) = t.text ++ " " ++ text (u :: others)
      rw [hgap]
    | cons t' tokens =>
      have hrest := ih (fun t h => hlast t (by rwa [List.getLast?_cons_cons])) (List.cons_ne_nil _ _)
      rw [List.cons_append, List.cons_append, text, text, ← List.cons_append, hrest]
      simp only [String.append_assoc]

theorem text_append {tokens others : List Token} (htokens : ∀ t ∈ tokens, t.Spaced) (hne : tokens ≠ [])
    (hothers : ∀ t ∈ others, t.Spaced) (hne' : others ≠ []) :
    text (tokens ++ others) = text tokens ++ " " ++ text others :=
  text_append_of_seam (fun t h => htokens t (List.mem_of_getLast? h)) hne
    (fun t h => hothers t (List.mem_of_mem_head? h)) hne'

/-- Tokens with a word between them. -/
theorem text_append_word {tokens others : List Token} (htokens : ∀ t ∈ tokens, t.Spaced) (hne : tokens ≠ [])
    (word : String) (hothers : ∀ t ∈ others, t.Spaced) (hne' : others ≠ []) :
    text (tokens ++ ([.word word] ++ others)) = text tokens ++ (" " ++ word ++ " ") ++ text others := by
  have hword : ∀ t ∈ [Token.word word], t.Spaced := List.forall_mem_singleton.2 (Token.spaced_word word)
  have hbehind : ∀ t ∈ [Token.word word] ++ others, t.Spaced := List.forall_mem_append.2 ⟨hword, hothers⟩
  have htext : text [Token.word word] = word := rfl
  rw [text_append htokens hne hbehind (List.cons_ne_nil _ _),
    text_append hword (List.cons_ne_nil _ _) hothers hne', htext]
  simp only [String.append_assoc]

private theorem text_words {words : List String} (hne : words ≠ []) :
    text (words.map .word) = " ".intercalate words := by
  induction words with
  | nil => exact absurd rfl hne
  | cons word words ih =>
    cases words with
    | nil => simp [text, Token.text]
    | cons word' words =>
      have hrest := ih (List.cons_ne_nil _ _)
      rw [List.map_cons] at hrest
      rw [List.map_cons, List.map_cons, text, hrest, String.intercalate_cons_cons]
      rfl

/-- A column with an operator behind it. -/
theorem text_operator {column : Token} (hcolumn : column.Spaced) {words : List String} (hne : words ≠ []) :
    text (column :: words.map .word) = column.text ++ (" " ++ " ".intercalate words) := by
  have hwords : ∀ t ∈ words.map Token.word, t.Spaced := List.forall_mem_map.2 fun word _ => Token.spaced_word word
  have happend := text_append (List.forall_mem_singleton.2 hcolumn) (List.cons_ne_nil column []) hwords
    (mt List.map_eq_nil_iff.1 hne)
  rw [List.singleton_append, text_words hne, String.append_assoc] at happend
  exact happend

/-- A column, an operator and a value. -/
theorem text_operation {column value : Token} (hcolumn : column.Spaced) {words : List String} (hne : words ≠ [])
    (hvalue : value.Spaced) :
    text (column :: (words.map .word ++ [value])) =
      column.text ++ (" " ++ " ".intercalate words ++ " " ++ value.text) := by
  have hwords : ∀ t ∈ words.map Token.word, t.Spaced := List.forall_mem_map.2 fun word _ => Token.spaced_word word
  have happend := text_append (List.forall_mem_cons.2 ⟨hcolumn, hwords⟩) (List.cons_ne_nil _ _)
    (List.forall_mem_singleton.2 hvalue) (List.cons_ne_nil value [])
  have hlast : text [value] = value.text := rfl
  rw [List.cons_append, text_operator hcolumn hne, hlast] at happend
  simpa only [String.append_assoc] using happend

end Sql

/-! ### Templates with names in their places -/

namespace Template

/-- The text of a template with other texts in the places of its columns, if there are as many. -/
def filled? : Template → List String → Option String
  | [], [] => some ""
  | .text s :: pieces, texts => (filled? pieces texts).map (s ++ ·)
  | .column _ :: pieces, text :: texts => (filled? pieces texts).map (text ++ ·)
  | _, _ => none

private theorem filled?_append {pieces pieces' : Template} {texts texts' : List String} {s s' : String}
    (h : filled? pieces texts = some s) (h' : filled? pieces' texts' = some s') :
    filled? (pieces ++ pieces') (texts ++ texts') = some (s ++ s') := by
  fun_induction filled? pieces texts generalizing s with
  | case1 =>
    cases h
    simpa using h'
  | case2 t pieces texts ih =>
    obtain ⟨s, hs, rfl⟩ := Option.map_eq_some_iff.1 h
    rw [List.cons_append, filled?, ih hs, Option.map_some, String.append_assoc]
  | case3 name pieces text texts ih =>
    obtain ⟨s, hs, rfl⟩ := Option.map_eq_some_iff.1 h
    rw [List.cons_append, List.cons_append, filled?, ih hs, Option.map_some, String.append_assoc]
  | case4 => cases h

private theorem filled?_push (p : Piece) (t : Template) (texts : List String) :
    filled? (push p t) texts = filled? (p :: t) texts := by
  unfold push
  split
  · rw [filled?, filled?, filled?, Option.map_map]
    congr 1
    funext rest
    exact String.append_assoc
  · rfl

/-- Texts that are put together do not change what a template says. -/
private theorem filled?_ofPieces (pieces : List Piece) (texts : List String) :
    filled? (ofPieces pieces) texts = filled? pieces texts := by
  induction pieces generalizing texts with
  | nil => rfl
  | cons p pieces ih =>
    rw [ofPieces, List.foldr_cons, filled?_push]
    cases p with
    | text s => exact congrArg (Option.map (s ++ ·)) (ih texts)
    | column name =>
      cases texts with
      | nil => rfl
      | cons text texts => exact congrArg (Option.map (text ++ ·)) (ih texts)

end Template

/-! ### References -/

/-- The columns that a condition is written with, in order. -/
def Condition.references (c : Condition) : List ColumnRef :=
  c.column :: match c.operator.form, c.value with
    | .comparison _, .column other => [other]
    | _, _ => []

/-- The columns that a filter is written with, in order. -/
def Filter.references (f : Filter) : List ColumnRef :=
  f.conditions.flatMap Condition.references

/-- The words of an operator. -/
def OperatorForm.words : OperatorForm → List String
  | postfixed words => words
  | pattern words => words
  | comparison sign => [sign]

theorem Operator.words_ne_nil (o : Operator) : o.form.words ≠ [] := by
  cases o <;> exact List.cons_ne_nil _ _

theorem OperatorForm.sql_eq (form : OperatorForm) : form.sql = " ".intercalate form.words := by
  cases form with
  | postfixed | pattern => rfl
  | comparison sign => simp [sql, words]

/-! ### Agreement -/

/-- Pieces and tokens that say the same about some columns.  The pieces have a place for each column, under its flat
name.  With the bare names in these places they are the text of the tokens, with the parameters in theirs; `bound` other
parameters stand in front of these. -/
structure Agrees (tables : List Table) (columns : List ColumnRef) (pieces : List Piece) (bound : Nat)
    (tokens : List Token) (params : List String) : Prop where
  names : flatNames tables columns = .ok (Template.mentions pieces)
  ne_nil : tokens ≠ []
  spaced : ∀ t ∈ tokens, t.Spaced
  text_eq : ∀ before behind : List String, before.length = bound →
    Template.filled? pieces (columns.map fun c => c.token.text) =
      some (Sql.text (tokens.map (Token.given (before ++ params ++ behind))))

namespace Agrees

variable {tables : List Table} {columns columns' : List ColumnRef} {pieces pieces' : List Piece} {bound : Nat}
  {tokens tokens' : List Token} {params params' : List String}

/-- Two that agree, with a word between them. -/
private theorem append (h : Agrees tables columns pieces bound tokens params) (word : String)
    (h' : Agrees tables columns' pieces' (bound + params.length) tokens' params') :
    Agrees tables (columns ++ columns') (pieces ++ ([.text (" " ++ word ++ " ")] ++ pieces')) bound
      (tokens ++ ([.word word] ++ tokens')) (params ++ params') where
  names := by
    have hnames : Template.mentions (pieces ++ ([.text (" " ++ word ++ " ")] ++ pieces')) =
        Template.mentions pieces ++ Template.mentions pieces' := by
      simp [Template.mentions]
    rw [hnames]
    exact flatNames_append h.names h'.names
  ne_nil := List.append_ne_nil_of_left_ne_nil h.ne_nil _
  spaced := List.forall_mem_append.2
    ⟨h.spaced, List.forall_mem_append.2 ⟨List.forall_mem_singleton.2 (Token.spaced_word word), h'.spaced⟩⟩
  text_eq before behind hbefore := by
    have hfirst := h.text_eq before (params' ++ behind) hbefore
    have hsecond := h'.text_eq (before ++ params) behind (by simp [hbefore])
    have hmiddle : Template.filled? [.text (" " ++ word ++ " ")] [] = some (" " ++ word ++ " ") := by
      simp [Template.filled?]
    -- both halves look their parameters up in the same list
    have hall : before ++ params ++ params' ++ behind = before ++ params ++ (params' ++ behind) := List.append_assoc ..
    have hall' : before ++ (params ++ params') ++ behind = before ++ params ++ (params' ++ behind) := by simp
    rw [hall] at hsecond
    rw [hall', List.map_append, List.map_append, List.map_append, List.map_singleton, Token.given_word,
      Sql.text_append_word (Sql.Token.spaced_map_given h.spaced _) (mt List.map_eq_nil_iff.1 h.ne_nil) word
        (Sql.Token.spaced_map_given h'.spaced _) (mt List.map_eq_nil_iff.1 h'.ne_nil)]
    have hfilled := Template.filled?_append hfirst (Template.filled?_append hmiddle hsecond)
    rwa [List.nil_append, ← String.append_assoc] at hfilled

private theorem ofPieces (h : Agrees tables columns pieces bound tokens params) :
    Agrees tables columns (Template.ofPieces pieces) bound tokens params where
  names := (Template.mentions_ofPieces pieces).symm ▸ h.names
  ne_nil := h.ne_nil
  spaced := h.spaced
  text_eq before behind hbefore := by
    rw [Template.filled?_ofPieces]
    exact h.text_eq before behind hbefore

end Agrees

section Conditions

variable {tables : List Table} {c : ColumnRef} {name : String}

theorem spaced_column (c : ColumnRef) : c.token.Spaced :=
  ⟨Token.noConfusion, Token.noConfusion⟩

theorem Literal.spaced_token (value : Literal) : value.token.Spaced := by
  cases value <;> exact ⟨Token.noConfusion, Token.noConfusion⟩

@[simp] theorem given_column (params : List String) (c : ColumnRef) : c.token.given params = c.token := rfl

private theorem Agrees.column (hname : c.flatName tables = .ok name) (bound : Nat) :
    Agrees tables [c] [.column name] bound [c.token] [] where
  names := flatNames_eq_ok_iff.2 (congrArg ([·]) hname)
  ne_nil := List.cons_ne_nil _ _
  spaced := List.forall_mem_singleton.2 (spaced_column c)
  text_eq before behind hbefore := by
    have htext : Sql.text [c.token] = c.token.text := rfl
    simp [Template.filled?, htext]

private theorem Agrees.operator (hname : c.flatName tables = .ok name) (o : Operator) (bound : Nat) :
    Agrees tables [c] [.column name, .text (" " ++ o.form.sql)] bound (c.token :: o.form.words.map .word) [] where
  names := flatNames_eq_ok_iff.2 (congrArg ([·]) hname)
  ne_nil := List.cons_ne_nil _ _
  spaced := List.forall_mem_cons.2 ⟨spaced_column c, List.forall_mem_map.2 fun word _ => Token.spaced_word word⟩
  text_eq before behind hbefore := by
    have htext := Sql.text_operator (spaced_column c) o.words_ne_nil
    rw [← OperatorForm.sql_eq] at htext
    simp [Template.filled?, Function.comp_def, htext]

/-- A column, an operator and a text, with a token that is written as this text. -/
private theorem Agrees.operation (hname : c.flatName tables = .ok name) (o : Operator) {bound : Nat}
    {params : List String} {value : Token} (hvalue : value.Spaced) {text : String}
    (htext : ∀ before behind : List String, before.length = bound →
      (value.given (before ++ params ++ behind)).text = text) :
    Agrees tables [c] [.column name, .text (" " ++ o.form.sql ++ " " ++ text)] bound
      (c.token :: (o.form.words.map .word ++ [value])) params where
  names := flatNames_eq_ok_iff.2 (congrArg ([·]) hname)
  ne_nil := List.cons_ne_nil _ _
  spaced := List.forall_mem_cons.2 ⟨spaced_column c, List.forall_mem_append.2
    ⟨List.forall_mem_map.2 fun word _ => Token.spaced_word word, List.forall_mem_singleton.2 hvalue⟩⟩
  text_eq before behind hbefore := by
    have hoperation := Sql.text_operation (spaced_column c) o.words_ne_nil (hvalue.given (before ++ params ++ behind))
    rw [← OperatorForm.sql_eq, htext before behind hbefore] at hoperation
    have hgiven : (c.token :: (o.form.words.map .word ++ [value])).map (Token.given (before ++ params ++ behind)) =
        c.token :: (o.form.words.map .word ++ [value.given (before ++ params ++ behind)]) := by
      simp [Function.comp_def]
    rw [hgiven, hoperation]
    simp [Template.filled?]

/-- A condition whose references are known is written both ways, or neither way with the same error. -/
private theorem Condition.agrees {c : Condition} (h : ∀ d ∈ c.references, d.Resolvable tables) (bound : Nat) :
    (∃ e, c.pieces tables = .error e ∧ c.tokens bound = .error e) ∨
    ∃ pieces tokens params, c.pieces tables = .ok pieces ∧ c.tokens bound = .ok (tokens, params) ∧
      Agrees tables c.references pieces bound tokens params := by
  obtain ⟨name, hname⟩ := ColumnRef.exists_flatName_iff.2 (h c.column List.mem_cons_self)
  rw [Condition.references] at h ⊢
  simp only [Condition.pieces, Condition.tokens, hname, bind, Except.bind]
  cases hform : c.operator.form with
  | postfixed words =>
    have hagrees := Agrees.operator hname c.operator bound
    simp only [hform] at hagrees ⊢
    exact .inr ⟨_, _, _, rfl, rfl, hagrees⟩
  | pattern words =>
    cases hvalue : c.value with
    | column other => exact .inl ⟨_, rfl, rfl⟩
    | literal value =>
      cases hpattern : value.pattern? with
      | none =>
        simp only [hpattern]
        exact .inl ⟨_, rfl, rfl⟩
      | some pattern =>
        have htext : ∀ before behind : List String, before.length = bound →
            ((Token.placeholder (bound + 1)).given (before ++ [pattern] ++ behind)).text =
              (Token.string pattern).text := by
          intro before behind hbefore
          simp [Token.given, ← hbefore]
        have hagrees := Agrees.operation hname c.operator (Token.spaced_placeholder _) htext
        simp only [hform, hpattern] at hagrees ⊢
        exact .inr ⟨_, _, _, rfl, rfl, hagrees⟩
  | comparison sign =>
    cases hvalue : c.value with
    | column other =>
      simp only [hform, hvalue] at h ⊢
      obtain ⟨name', hname'⟩ := ColumnRef.exists_flatName_iff.2 (h other (by simp))
      simp only [hname']
      exact .inr ⟨_, _, _, rfl, rfl, (Agrees.column hname bound).append sign (Agrees.column hname' _)⟩
    | literal value =>
      have htext : ∀ before behind : List String, before.length = bound →
          (value.token.given (before ++ [] ++ behind)).text = value.token.text := by
        intro before behind hbefore
        cases value <;> rfl
      have hagrees := Agrees.operation hname c.operator value.spaced_token htext
      simp only [hform] at hagrees ⊢
      exact .inr ⟨_, _, _, rfl, rfl, hagrees⟩

/-- So it is with conditions that are joined. -/
private theorem agrees_conditions {conditions : List Condition} (hne : conditions ≠ [])
    (h : ∀ d ∈ conditions.flatMap Condition.references, d.Resolvable tables) (word : String) (bound : Nat) :
    (∃ e, conditions.mapM (Condition.pieces tables) = .error e ∧ conditionTokens bound conditions = .error e) ∨
    ∃ pieces parts params, conditions.mapM (Condition.pieces tables) = .ok pieces ∧ pieces ≠ [] ∧
      conditionTokens bound conditions = .ok (parts, params) ∧ parts ≠ [] ∧
      Agrees tables (conditions.flatMap Condition.references) ([.text (" " ++ word ++ " ")].intercalate pieces) bound
        ([.word word].intercalate parts) params := by
  induction conditions generalizing bound with
  | nil => exact absurd rfl hne
  | cons c conditions ih =>
    rw [List.flatMap_cons, List.forall_mem_append] at h
    rw [List.mapM_cons, conditionTokens]
    rcases Condition.agrees h.1 bound with ⟨e, hpieces, htokens⟩ | ⟨pieces, tokens, params, hpieces, htokens, hagrees⟩
    · rw [hpieces, htokens]
      exact .inl ⟨e, rfl, rfl⟩
    · simp only [hpieces, htokens, bind, Except.bind]
      cases conditions with
      | nil =>
        refine .inr ⟨[pieces], [tokens], params ++ [], rfl, List.cons_ne_nil _ _, rfl, List.cons_ne_nil _ _, ?_⟩
        simpa using hagrees
      | cons c' conditions =>
        rcases ih (List.cons_ne_nil _ _) h.2 (bound + params.length) with
          ⟨e, hmore, hrest⟩ | ⟨more, rest, restParams, hmore, hmore_ne, hrest, hrest_ne, hagrees'⟩
        · simp only [hmore, hrest]
          exact .inl ⟨e, rfl, rfl⟩
        · simp only [hmore, hrest]
          refine .inr ⟨pieces :: more, tokens :: rest, _, rfl, List.cons_ne_nil _ _, rfl, List.cons_ne_nil _ _, ?_⟩
          obtain ⟨second, more, rfl⟩ := List.exists_cons_of_ne_nil hmore_ne
          obtain ⟨next, rest, rfl⟩ := List.exists_cons_of_ne_nil hrest_ne
          rw [List.flatMap_cons, List.intercalate_cons_cons, List.intercalate_cons_cons, List.append_assoc,
            List.append_assoc]
          exact hagrees.append word hagrees'

end Conditions

section Filters

variable {tables : List Table} {f : Filter}

private theorem Filter.written_of_conditions_eq_nil (h : f.conditions = []) :
    f.predicate tables = .ok [] ∧ f.transforms tables = .ok [] ∧ f.clause = .ok ([], []) := by
  have hpredicate : f.predicate tables = .ok [] := by
    rw [Filter.predicate, h]
    rfl
  refine ⟨hpredicate, ?_, ?_⟩
  · rw [Filter.transforms, hpredicate]
    rfl
  · rw [Filter.clause, h]
    rfl

/-- A filter with conditions is written both ways, or neither way with the same error. -/
private theorem Filter.agrees (hne : f.conditions ≠ []) (h : ∀ c ∈ f.references, c.Resolvable tables) :
    (∃ e, f.predicate tables = .error e ∧ f.clause = .error e) ∨
    ∃ template tokens params, f.predicate tables = .ok template ∧ f.clause = .ok (.word "WHERE" :: tokens, params) ∧
      Agrees tables f.references template 0 tokens params := by
  rcases agrees_conditions hne h f.connective.sql 0 with
    ⟨e, hpieces, htokens⟩ | ⟨pieces, parts, params, hpieces, -, htokens, hparts, hagrees⟩
  · refine .inl ⟨e, ?_, ?_⟩
    · rw [Filter.predicate, hpieces]
      rfl
    · rw [Filter.clause, htokens]
      rfl
  · obtain ⟨part, parts, rfl⟩ := List.exists_cons_of_ne_nil hparts
    refine .inr ⟨_, _, params, ?_, ?_, hagrees.ofPieces⟩
    · rw [Filter.predicate, hpieces]
      rfl
    · rw [Filter.clause, htokens]
      rfl

end Filters

/-- A filter whose references are known is written as a template and as a clause, or as neither with the same error.
Without conditions there is nothing to write.  With some, the template has a place for each reference, under its flat
name, and with the bare names quoted in these places it is the text of the clause behind its first word, with each
parameter as a string in the place of its placeholder. -/
theorem Filter.predicate_agrees_clause {tables : List Table} {f : Filter}
    (h : ∀ c ∈ f.references, c.Resolvable tables) :
    (∀ e, f.predicate tables = .error e ↔ f.clause = .error e) ∧
    (f.conditions = [] → f.transforms tables = .ok [] ∧ f.clause = .ok ([], [])) ∧
    (f.conditions ≠ [] → ∀ template, f.predicate tables = .ok template →
      ∃ tokens params, f.clause = .ok (.word "WHERE" :: tokens, params) ∧
        flatNames tables f.references = .ok (Template.mentions template) ∧
        Template.filled? template (f.references.map fun c => Sql.enclosed '"' c.name) =
          some (Sql.text (tokens.map (Token.given params)))) := by
  by_cases hempty : f.conditions = []
  · obtain ⟨hpredicate, htransforms, hclause⟩ := written_of_conditions_eq_nil hempty
    refine ⟨fun e => ?_, fun _ => ⟨htransforms, hclause⟩, fun hne => absurd hempty hne⟩
    simp [hpredicate, hclause]
  · rcases agrees hempty h with
      ⟨e, hpredicate, hclause⟩ | ⟨template, tokens, params, hpredicate, hclause, hagrees⟩
    · rw [hpredicate, hclause]
      refine ⟨fun e' => ?_, fun h => absurd h hempty, fun _ template htemplate => ?_⟩
      · rw [Except.error.injEq, Except.error.injEq]
      · cases htemplate
    · rw [hpredicate, hclause]
      refine ⟨fun e => by simp, fun h => absurd h hempty, fun _ template' htemplate => ?_⟩
      obtain rfl := Except.ok.inj htemplate
      have htext := hagrees.text_eq [] [] rfl
      rw [List.nil_append, List.append_nil] at htext
      exact ⟨tokens, params, rfl, hagrees.names, htext⟩

/-- A filter with patterns and a comparison of two columns. -/
theorem Filter.predicate_agrees_clause_patterns :
    let column : String → ColumnRef := .ofTable ⟨"s"⟩
    let f : Filter := ⟨.or, [⟨column "name", .like, .literal (.string "O'Hara")⟩,
      ⟨column "id", .greaterThan, .column (column "tutor")⟩, ⟨column "name", .notLike, .literal (.integer 7)⟩]⟩
    ∃ template tokens, f.predicate school.tables = .ok template ∧
      f.clause = .ok (.word "WHERE" :: tokens, ["%O'Hara%", "%7%"]) ∧
      Template.mentions template = ["students__name", "students__id", "students__tutor", "students__name"] ∧
      Template.filled? template ["\"name\"", "\"id\"", "\"tutor\"", "\"name\""] =
        some (Sql.text (tokens.map (Token.given ["%O'Hara%", "%7%"]))) := by
  intro column f
  have hknown : ∀ c ∈ f.references, c.Resolvable school.tables := by
    intro c hc
    exact .inr (.inr ⟨⟨⟨"s"⟩, "students", "public", "db"⟩, List.mem_cons_self, by revert c; decide⟩)
  obtain ⟨template, htemplate⟩ : ∃ template, f.predicate school.tables = .ok template := ⟨_, rfl⟩
  obtain ⟨-, -, hagrees⟩ := predicate_agrees_clause hknown
  obtain ⟨tokens, params, hclause, -, hfilled⟩ := hagrees (List.cons_ne_nil _ _) template htemplate
  have hparams : params = ["%O'Hara%", "%7%"] := by
    cases hclause
    rfl
  have hmentions : Template.mentions template =
      ["students__name", "students__id", "students__tutor", "students__name"] := by
    cases htemplate
    rfl
  have hquoted : f.references.map (fun c => Sql.enclosed '"' c.name) =
      ["\"name\"", "\"id\"", "\"tutor\"", "\"name\""] := by decide
  rw [hquoted, hparams] at hfilled
  exact ⟨template, tokens, htemplate, hparams ▸ hclause, hmentions, hfilled⟩

end TableFlow
