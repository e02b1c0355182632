import TableFlow.Proofs.OpenContainers
import TableFlow.Proofs.Respelling
import TableFlow.Proofs.RoundTrip
import TableFlow.Proofs.WrittenConditions

/-!
# Integers stay exact

An integer of 64 bits, signed or not, that is written in a document as the value of a condition is the same integer in
whatever is made of the condition: the literal, the text of a script, the text of a table query with its parameters, and
the document that is written again (`Filter.keeps_integers`).
-/

namespace TableFlow

open Document
open Json (Frame Value)
open Sql (Token)

/-! ### Fields that were read -/

namespace Document

variable {α β : Type}

private theorem exists_value_of_ofText {read : Nat → Reader α} {text : String} {a : α}
    (h : Document.ofText read text = .ok a) : ∃ v, Value.ofText? text = some v ∧ read maxDepth v = .ok a := by
  unfold Document.ofText at h
  split at h
  · exact ⟨_, by assumption, h⟩
  · cases h

private theorem exists_of_nullable {read : Reader α} {v : Value} (hv : v ≠ .null) {o : Option α}
    (h : nullable read v = .ok o) : ∃ a, o = some a ∧ read v = .ok a := by
  rw [Layout.nullable_of_ne_null hv] at h
  obtain ⟨a, ha, ho⟩ := map_eq_ok_iff.1 h
  exact ⟨a, ho.symm, ha⟩

/-- Each item of a list is read by itself. -/
private theorem exists_item_of_list {item : Nat → Reader α} {room : Nat} {items : List Value} {as : List α}
    (h : Document.list item room (.array items) = .ok as) {i : Nat} {v : Value} (hv : items[i]? = some v) :
    ∃ a room', as[i]? = some a ∧ item room' v = .ok a := by
  cases room with
  | zero => cases h
  | succ room =>
    obtain ⟨a, ha, hread⟩ := getElem?_of_mapM_eq_ok h hv
    exact ⟨a, room, ha, hread⟩

/-- A value that is given is read. -/
private theorem Gives.read_of_mem {absent : Option α} {read : Reader α} {a : α} {vs : List Value}
    (h : Gives absent read a vs) {v : Value} (hv : v ∈ vs) : read v = .ok a := by
  match vs, h with
  | [], _ => cases hv
  | [w], h =>
    obtain rfl : v = w := List.mem_singleton.1 hv
    exact h

namespace Layout

/-- The fields are read out of a container, those of a list from a place on. -/
def Given (l : Layout α) (container : Value) (place : Nat) (a : α) : Prop :=
  (∃ members, container = .object members ∧ l.ofMembers members = .ok a) ∨
    ∃ items short at_, container = .array items ∧ l.ofItems short at_ (items.drop place) = .ok a

section Given

variable {l : Layout α} {container v : Value} {name : String} {place : Nat} {a : α} {b : β}

private theorem given_of_record {mode : Mode} (h : l.record name mode container = .ok a) : l.Given container 0 a := by
  unfold record at h
  split at h
  · exact .inl ⟨_, rfl, Placed.settle_eq_ok_iff.1 h⟩
  · obtain ⟨a', ha, h⟩ := bind_eq_ok_iff.1 h
    split at h <;> cases h
    exact .inr ⟨_, _, _, rfl, Placed.settle_eq_ok_iff.1 ha⟩
  · cases h

private theorem exists_given_of_reader {l : Nat → Layout α} {mode : Mode} {room : Nat}
    (h : Layout.reader name mode l room container = .ok a) : ∃ room', (l room').Given container 0 a := by
  cases room with
  | zero => cases container <;> cases h
  | succ room => exact ⟨room, given_of_record h⟩

private theorem Given.ne_unreadable (h : l.Given container place a) : container ≠ .unreadable := by
  rcases h with ⟨members, rfl, -⟩ | ⟨items, short, at_, rfl, -⟩ <;> exact Value.noConfusion

private theorem Given.map {f : α → β} (h : (f <$> l).Given container place b) :
    ∃ a, l.Given container place a ∧ f a = b := by
  rcases h with ⟨members, rfl, h⟩ | ⟨items, short, at_, rfl, h⟩
  · obtain ⟨a, ha, hb⟩ := map_eq_ok_iff.1 h
    exact ⟨a, .inl ⟨members, rfl, ha⟩, hb⟩
  · obtain ⟨a, ha, hb⟩ := map_eq_ok_iff.1 h
    exact ⟨a, .inr ⟨items, short, at_, rfl, ha⟩, hb⟩

private theorem Given.seq {l : Layout (α → β)} {r : Layout α} (h : (l <*> r).Given container place b) :
    ∃ f a, l.Given container place f ∧ r.Given container (place + l.size) a ∧ f a = b := by
  rcases h with ⟨members, rfl, h⟩ | ⟨items, short, at_, rfl, h⟩
  · obtain ⟨f, a, hf, ha, hb⟩ := Placed.join_eq_ok_iff.1 h
    exact ⟨f, a, .inl ⟨members, rfl, hf⟩, .inl ⟨members, rfl, ha⟩, hb⟩
  · obtain ⟨f, a, hf, ha, hb⟩ := Placed.join_eq_ok_iff.1 h
    rw [List.drop_drop] at ha
    exact ⟨f, a, .inr ⟨items, short, at_, rfl, hf⟩, .inr ⟨items, short, _, rfl, ha⟩, hb⟩

/-- A field is read from the value that the container has for it. -/
private theorem Given.field {absent : Option α} {read : Reader α}
    (h : (Layout.field name absent read).Given container place a) (hv : container.HasField name place v) :
    read v = .ok a := by
  rcases h with ⟨members, rfl, h⟩ | ⟨items, short, at_, rfl, h⟩
  · have hmem : v ∈ valuesOf name members :=
      List.mem_map.2 ⟨(name, v), List.mem_filter.2 ⟨hv, decide_eq_true rfl⟩, rfl⟩
    exact (ofMembers_field_eq_ok_iff.1 h).read_of_mem hmem
  · have hgives := ofItems_field_eq_ok_iff.1 h
    rw [List.getElem?_drop, Nat.add_zero, show items[place]? = some v from hv] at hgives
    exact hgives

end Given

end Layout

end Document

/-! ### The value of a condition -/

section Parts

variable {mode : Mode} {room : Nat} {container v : Value}

private theorem Condition.read_value {c : Condition} (h : Condition.read mode room container = .ok c)
    (hv : container.HasField "value" 2 v) : ∃ room', Operand.read room' v = .ok c.value := by
  obtain ⟨room', hgiven⟩ := Layout.exists_given_of_reader h
  obtain ⟨_, value, hfront, hvalue, rfl⟩ := hgiven.seq
  obtain ⟨_, operator, hfirst, -, rfl⟩ := hfront.seq
  obtain ⟨column, -, rfl⟩ := hfirst.map
  exact ⟨room', hvalue.field hv⟩

private theorem Filter.read_conditions {f : Filter} {place : Nat}
    (h : (Filter.layout mode room).Given container place f) (hv : container.HasField "conditions" (place + 1) v) :
    Document.list (Condition.read mode) room v = .ok f.conditions := by
  obtain ⟨_, conditions, hfront, hconditions, rfl⟩ := h.seq
  obtain ⟨connective, -, rfl⟩ := hfront.map
  exact hconditions.field hv

/-- Only the fields of a filter make a filter. -/
private theorem Step.given_of_ofFields {type : StepType} {fields : Value} {f : Filter}
    (h : ofFields room fields type = .ok (.filter f)) : (Filter.layout .held room).Given fields 0 f := by
  cases type with
  | filter =>
    obtain ⟨f', hgiven, hf⟩ := (Layout.given_of_record h).map
    cases hf
    exact hgiven
  | display =>
    simp only [ofFields] at h
    split at h <;> cases h
  | root | select | order | aggregate | relate | take =>
    obtain ⟨_, -, hstep⟩ := (Layout.given_of_record h).map
    cases hstep

/-- The fields of a step stand behind its type, which is none of them. -/
private theorem Step.read_conditions {f : Filter} (h : Step.read room container = .ok (.filter f))
    (hv : container.HasField "conditions" 2 v) :
    ∃ room', Document.list (Condition.read .held) room' v = .ok f.conditions := by
  cases room with
  | zero => cases container <;> cases h
  | succ room =>
    refine ⟨room, ?_⟩
    simp only [Step.read] at h
    split at h
    · cases container with
      | object members =>
        obtain ⟨type, -, h⟩ := bind_eq_ok_iff.1 h
        have hmem : ("conditions", v) ∈ members.filter fun m => m.1 ≠ "type" :=
          List.mem_filter.2 ⟨hv, by simp⟩
        exact Filter.read_conditions (given_of_ofFields h) hmem
      | array items =>
        cases items with
        | nil => cases h
        | cons w items =>
          obtain ⟨type, -, h⟩ := bind_eq_ok_iff.1 h
          exact Filter.read_conditions (given_of_ofFields h) hv
      | _ => cases h
    · cases h

private theorem Step.ne_unreadable_of_read {s : Step} (h : Step.read room container = .ok s) :
    container ≠ .unreadable := by
  rintro rfl
  cases room <;> cases h

private theorem Pipeline.read_steps {p : Pipeline} (h : Pipeline.read room container = .ok p)
    (hv : container.HasField "steps" 1 v) : ∃ room', Document.list Step.read room' v = .ok p.steps := by
  obtain ⟨room', hgiven⟩ := Layout.exists_given_of_reader h
  obtain ⟨_, steps, hfront, hsteps, rfl⟩ := hgiven.seq
  obtain ⟨root, -, rfl⟩ := hfront.map
  exact ⟨room', hsteps.field hv⟩

private theorem TableRequest.read_filter {r : TableRequest} (h : TableRequest.read mode room container = .ok r)
    (hv : container.HasField "filter" 0 v) :
    ∃ room', nullable (Filter.read mode room') v = .ok r.filter := by
  obtain ⟨room', hgiven⟩ := Layout.exists_given_of_reader h
  obtain ⟨_, take, hfront, -, rfl⟩ := hgiven.seq
  obtain ⟨_, order, hfirst, -, rfl⟩ := hfront.seq
  obtain ⟨filter, hfilter, rfl⟩ := hfirst.map
  exact ⟨room', hfilter.field hv⟩

end Parts

/-! ### Integers in conditions -/

/-- The literal is an integer and not rounded. -/
def Literal.IsInteger (value : Literal) (n : Int) : Prop :=
  match value with
  | .integer i => i.toInt = n
  | .unsigned u => u.toNat = n
  | _ => False

private theorem Literal.isInteger_of_ofValue? {value : Literal} {n : Int} (hn : Value.isExactInt n = true)
    (h : ofValue? (.int n) = some value) : value.IsInteger n := by
  have hjson : value.json = .int n := json_of_ofValue? (.int hn) h
  cases value with
  | integer i => exact Value.int.inj hjson
  | unsigned u => exact Value.int.inj hjson
  | null | boolean | float | string => cases hjson

namespace Literal.IsInteger

variable {value : Literal} {n : Int}

private theorem text (h : value.IsInteger n) : value.text = toString n := by
  cases value with
  | integer i => exact congrArg toString h
  | unsigned u =>
    obtain rfl : (u.toNat : Int) = n := h
    rfl
  | null | boolean | float | string => exact h.elim

private theorem token (h : value.IsInteger n) : value.token = .word (toString n) := by
  rw [← h.text]
  cases value with
  | integer | unsigned => rfl
  | null | boolean | float | string => exact h.elim

private theorem pattern? (h : value.IsInteger n) : value.pattern? = some ("%" ++ toString n ++ "%") := by
  rw [← h.text]
  cases value with
  | integer | unsigned => rfl
  | null | boolean | float | string => exact h.elim

private theorem json (h : value.IsInteger n) : value.json = .int n := by
  cases value with
  | integer i => exact congrArg Value.int h
  | unsigned u => exact congrArg Value.int h
  | null | boolean | float | string => exact h.elim

end Literal.IsInteger

/-- A text without the quote stands between two quotes as it is. -/
private theorem Sql.enclosed_of_not_mem {q : Char} {s : String} (h : q ∉ s.toList) :
    enclosed q s = .ofList (q :: s.toList ++ [q]) := by
  have hbody : s.toList.flatMap (fun c => if c = q then [q, q] else [c]) = s.toList := by
    refine (List.flatMap_congr fun c hc => if_neg ?_).trans (List.flatMap_singleton' _)
    rintro rfl
    exact h hc
  rw [enclosed, hbody]

private theorem Sql.text_pattern (n : Int) :
    (Token.string ("%" ++ toString n ++ "%")).text = "'%" ++ toString n ++ "%'" := by
  have hquote : '\x27' ∉ ("%" ++ toString n ++ "%").toList := by
    intro h
    simp only [String.toList_append, List.mem_append] at h
    rcases h with (h | h) | h
    · revert h
      decide
    · exact absurd (Json.isNumeric_int h) (by unfold Json.IsNumeric; decide)
    · revert h
      decide
  rw [Token.text, enclosed_of_not_mem hquote]
  apply String.toList_inj.1
  simp

/-- What is written behind the column of a condition with an integer: the operator, and behind it the numeral or, in a
search, the pattern. -/
def Operator.withInteger (n : Int) (pattern : String) : Operator → String
  | equal => " = " ++ toString n
  | notEqual => " <> " ++ toString n
  | greaterThan => " > " ++ toString n
  | lessThan => " < " ++ toString n
  | greaterThanOrEqual => " >= " ++ toString n
  | lessThanOrEqual => " <= " ++ toString n
  | like => " LIKE " ++ pattern
  | notLike => " NOT LIKE " ++ pattern
  | isNull => " IS NULL"
  | isNotNull => " IS NOT NULL"

private theorem Operator.withInteger_eq (n : Int) (pattern : String) (o : Operator) :
    o.withInteger n pattern =
      match o.form with
      | .comparison _ => " " ++ o.form.sql ++ " " ++ toString n
      | .pattern _ => " " ++ o.form.sql ++ " " ++ pattern
      | .postfixed _ => " " ++ o.form.sql := by
  cases o <;> simp [withInteger, form, OperatorForm.sql]

/-- No character of it means anything else in a template. -/
private theorem Operator.escaped_withInteger (n : Int) (o : Operator) :
    (o.withInteger n ("'%" ++ toString n ++ "%'")).toList.flatMap Script.escaped =
      (o.withInteger n ("'%" ++ toString n ++ "%'")).toList := by
  have hnumeral : n.repr.toList.flatMap Script.escaped = n.repr.toList := by
    refine (List.flatMap_congr fun c hc => if_neg ?_).trans (List.flatMap_singleton' _)
    rintro (rfl | rfl | rfl) <;> exact absurd (Json.isNumeric_int hc) (by unfold Json.IsNumeric; decide)
  cases o <;> simp [withInteger, hnumeral, Script.escaped]

namespace Condition

variable {c : Condition} {value : Literal} {n : Int}

private theorem pieces_of_integer (hvalue : c.value = .literal value) (hinteger : value.IsInteger n)
    {tables : List Table} {name : String} (hname : c.column.flatName tables = .ok name) :
    c.pieces tables = .ok [.column name, .text (c.operator.withInteger n ("'%" ++ toString n ++ "%'"))] := by
  rw [Operator.withInteger_eq]
  simp only [pieces, hname, bind, Except.bind]
  cases hform : c.operator.form with
  | comparison sign => simp only [hvalue, hinteger.token, Token.text]
  | pattern words => simp only [hvalue, hinteger.pattern?, Sql.text_pattern]
  | postfixed words => rfl

private theorem tokens_of_integer (hvalue : c.value = .literal value) (hinteger : value.IsInteger n) (bound : Nat) :
    ∃ tokens, c.tokens bound = .ok (tokens, if c.operator.binds then ["%" ++ toString n ++ "%"] else []) ∧
      Sql.text tokens = c.column.token.text ++ c.operator.withInteger n ("$" ++ toString (bound + 1)) := by
  have hcolumn := spaced_column c.column
  have hwords := c.operator.words_ne_nil
  rw [Operator.withInteger_eq, tokens, OperatorForm.sql_eq]
  cases hform : c.operator.form with
  | comparison sign =>
    have htext := Sql.text_operation hcolumn hwords (Token.spaced_word (toString n))
    rw [hform] at htext
    simp only [hvalue, hinteger.token, Operator.binds_iff, hform, reduceCtorEq, exists_false, if_false]
    exact ⟨_, rfl, htext⟩
  | pattern words =>
    have htext := Sql.text_operation hcolumn hwords (Token.spaced_placeholder (bound + 1))
    rw [hform] at htext
    rw [if_pos (Operator.binds_iff.2 ⟨words, hform⟩)]
    simp only [hvalue, hinteger.pattern?]
    exact ⟨_, rfl, htext⟩
  | postfixed words =>
    have htext := Sql.text_operator hcolumn hwords
    rw [hform] at htext
    simp only [Operator.binds_iff, hform, reduceCtorEq, exists_false, if_false]
    exact ⟨_, rfl, htext⟩

/-- The value is the last member that is written. -/
private theorem text_json_of_integer (hvalue : c.value = .literal value) (hinteger : value.IsInteger n) :
    ∃ front, c.json.text = front ++ "\"value\":" ++ toString n ++ "\x7d" := by
  refine ⟨.ofList ('\x7b' :: (Json.quoted "column" ++ ':' :: c.column.json.chars ++ ',' ::
    (Json.quoted "operator" ++ ':' :: (Value.string c.operator.name).chars ++ [',']))), ?_⟩
  have hjson : c.value.json = .int n := by
    rw [hvalue]
    exact hinteger.json
  apply String.toList_inj.1
  rw [json, hjson, Value.text]
  simp [Value.chars, Value.memberChars, Json.quoted, Json.escaped]

/-- The value of the condition is the integer `n`, and so is all that is made of it. -/
structure KeepsInteger (c : Condition) (n : Int) : Prop where
  literal : ∃ value, c.value = .literal value ∧ value.IsInteger n
  pieces : ∀ tables name, c.column.flatName tables = .ok name →
    c.pieces tables = .ok [.column name, .text (c.operator.withInteger n ("'%" ++ toString n ++ "%'"))]
  tokens : ∀ bound, ∃ tokens,
    c.tokens bound = .ok (tokens, if c.operator.binds then ["%" ++ toString n ++ "%"] else []) ∧
      Sql.text tokens = c.column.token.text ++ c.operator.withInteger n ("$" ++ toString (bound + 1))
  json : ∃ front, c.json.text = front ++ "\"value\":" ++ toString n ++ "\x7d"

private theorem keepsInteger_of_literal (hvalue : c.value = .literal value) (hinteger : value.IsInteger n) :
    c.KeepsInteger n where
  literal := ⟨value, hvalue, hinteger⟩
  pieces _ _ hname := pieces_of_integer hvalue hinteger hname
  tokens := tokens_of_integer hvalue hinteger
  json := text_json_of_integer hvalue hinteger

end Condition

/-! ### Integers in filters -/

namespace Filter

/-- The text is that of the filter's conditions with the connective between them; `condition` is that of condition
`j`. -/
def IsWritten (f : Filter) (j : Nat) (condition text : String) : Prop :=
  ∃ conditions : List String, conditions.length = f.conditions.length ∧ conditions[j]? = some condition ∧
    text = f.connective.between.intercalate conditions

/-- The text of a script has the filter in a declaration, with the integer `n` in condition `j`. -/
def IntegerInScript (f : Filter) (j : Nat) (c : Condition) (n : Int) (tables : List Table) (text : String) : Prop :=
  ∃ front quotes conditions behind name column,
    text = front ++ "\n  filter s" ++ quotes ++ conditions ++ quotes ++ "\n)" ++ behind ∧ IsQuotes quotes ∧
    c.column.flatName tables = .ok name ∧ (column = name ∨ column = "`" ++ name ++ "`") ∧
    f.IsWritten j ("\x7bthis." ++ column ++ "\x7d" ++ c.operator.withInteger n ("'%" ++ toString n ++ "%'")) conditions

/-- The text of a query has the filter behind its table, with the integer `n` in condition `j` or in its parameter. -/
def IntegerInQuery (f : Filter) (j : Nat) (c : Condition) (n : Int) (table : Table) (q : TableQuery) : Prop :=
  let earlier := (patternsOf (f.conditions.take j)).length
  (c.operator.binds = true → q.params[earlier]? = some ("%" ++ toString n ++ "%")) ∧
    ∃ front column conditions behind,
      Sql.lex front.toList = some [.word "SELECT", .sign "*", .word "FROM", .identifier table.schema, .sign ".",
        .identifier table.externalName] ∧
      Sql.lex column.toList = some [.identifier c.column.name] ∧
      f.IsWritten j (column ++ c.operator.withInteger n ("$" ++ toString (earlier + 1))) conditions ∧
      (behind = "" ∨ ∃ more, behind = " " ++ more) ∧
      let statement := front ++ " WHERE " ++ conditions ++ behind
      q.sql = if q.params = [] then statement
        else preparation q.params.length ++ statement ++ execution q.params.length

variable {f : Filter} {j : Nat} {c : Condition} {n : Int}

private theorem integerInScript_of_scriptText {p : Pipeline} {catalog : Catalog} {text : String}
    (h : p.scriptText catalog = .ok text) {i : Nat} (hstep : p.steps[i]? = some (.filter f))
    (hfound : f.conditions[j]? = some c) (hc : c.KeepsInteger n) : f.IntegerInScript j c n catalog.tables text := by
  have hne : f.conditions ≠ [] := List.ne_nil_of_mem (List.mem_of_getElem? hfound)
  obtain ⟨parts, front, quotes, behind, hparts, hquotes, htext⟩ := Pipeline.exists_text_of_filter h hstep hne
  obtain ⟨pieces, hpieces, hown⟩ := getElem?_of_mapM_eq_ok hparts hfound
  obtain ⟨name, hname⟩ : ∃ name, c.column.flatName catalog.tables = .ok name := by
    obtain ⟨name, hname, -⟩ := bind_eq_ok_iff.1 hown
    exact ⟨name, hname⟩
  obtain rfl : _ = pieces := Except.ok.inj ((hc.pieces _ name hname).symm.trans hown)
  have hlength := congrArg List.length (mapM_eq_ok_iff.1 hparts)
  rw [List.length_map, List.length_map] at hlength
  refine ⟨front, quotes, _, behind, name, Script.nameText name, htext, hquotes, hname, ?_, parts.map Script.written,
    by rw [List.length_map, hlength], ?_, rfl⟩
  · unfold Script.nameText
    split
    · exact .inl rfl
    · exact .inr rfl
  · rw [List.getElem?_map, hpieces, Option.map_some, Script.written_column_text _ (c.operator.escaped_withInteger n)]

private theorem integerInQuery_of_query {r : TableRequest} {table : Table} {options : Options} {q : TableQuery}
    (h : r.query table options = .ok q) (hfilter : r.filter = some f)
    (hfound : f.conditions[j]? = some c) (hc : c.KeepsInteger n) : f.IntegerInQuery j c n table q := by
  have hne : f.conditions ≠ [] := List.ne_nil_of_mem (List.mem_of_getElem? hfound)
  obtain ⟨parts, front, behind, hparts, hlex, hbehind, hsql⟩ := TableRequest.exists_statement_of_filter h hfilter hne
  obtain ⟨part, earlier, own, later, hpart, hparams, hearlier, hown⟩ := getElem?_of_conditionTokens hparts hfound
  obtain ⟨tokens, htokens, htext⟩ := hc.tokens (0 + earlier.length)
  cases htokens.symm.trans hown
  rw [Nat.zero_add, hearlier] at htext
  refine ⟨fun hbinds => ?_, front, c.column.token.text, _, behind, hlex, ?_, ?_, hbehind, hsql⟩
  · rw [hparams, ← hearlier, if_pos hbinds, List.append_assoc]
    simp
  · exact (Sql.Reads.cons (Token.isRead_identifier c.column.name) Token.noConfusion .nil).lex_text
  · exact ⟨parts.map Sql.text, by rw [List.length_map, length_of_conditionTokens hparts],
      by rw [List.getElem?_map, hpart, ← htext, Option.map_some], rfl⟩

end Filter

/-! ### From the text -/

/-- An integer of 64 bits is read as it is. -/
private theorem Operand.exists_integer {n : Int} (hn : Value.isExactInt n = true) :
    ∃ value : Literal, value.IsInteger n ∧ ∀ room, read room (.int n) = .ok (.literal value) := by
  obtain ⟨value, hvalue⟩ : ∃ value, Literal.ofValue? (.int n) = some value := ⟨_, rfl⟩
  exact ⟨value, Literal.isInteger_of_ofValue? hn hvalue, fun room =>
    read_of_ofHeld (.int hn) (ofHeld_literal hvalue room)⟩

private theorem Condition.keepsInteger_of_read {mode : Mode} {room : Nat} {container : Value} {c : Condition}
    (h : Condition.read mode room container = .ok c) {n : Int} (hn : Value.isExactInt n = true)
    (hv : container.HasField "value" 2 (.int n)) : c.KeepsInteger n := by
  obtain ⟨room', hread⟩ := read_value h hv
  obtain ⟨value, hinteger, hvalue⟩ := Operand.exists_integer hn
  exact keepsInteger_of_literal (Except.ok.inj (hread.symm.trans (hvalue room'))) hinteger

/-- The frame of a condition that has its value next, inside that of a list that has its item `j` next. -/
structure Condition.Awaits (condition conditions : Frame) (j : Nat) : Prop where
  value : condition.IsField "value" 2
  item : conditions.IsItem j

/-- A list of conditions keeps an integer that was the value of one of them. -/
private theorem Condition.Awaits.exists_keepsInteger {condition conditions : Frame} {j : Nat}
    (h : Awaits condition conditions j) {n : Int} (hn : Value.isExactInt n = true) {v vs : Value}
    (hv : condition.Closes (.int n) v) (hvs : conditions.Closes v vs) {mode : Mode} {room : Nat} {cs : List Condition}
    (hread : Document.list (Condition.read mode) room vs = .ok cs) : ∃ c, cs[j]? = some c ∧ c.KeepsInteger n := by
  obtain ⟨items, rfl, hitem⟩ := hvs.exists_items h.item
  obtain ⟨c, room', hc, hread⟩ := exists_item_of_list hread hitem
  obtain ⟨_, hgiven⟩ := Layout.exists_given_of_reader hread
  exact ⟨c, hc, keepsInteger_of_read hread hn (hv.hasField h.value hgiven.ne_unreadable)⟩

/-- A numeral in a text stands for its integer, inside all that is open in front of it. -/
private theorem Json.Opens.encloses_int {before after : String} {frames : List Frame} (h : Opens before.toList frames)
    (hafter : Scan.Ends after.toList) {n : Int} (hn : Value.isExactInt n = true) {whole : Value}
    (hwhole : Value.ofText? (before ++ toString n ++ after) = some whole) : Encloses frames (.int n) whole := by
  have hword := Value.ofWord?_int hn
  have hne : (toString n).toList ≠ [] := by
    intro hnil
    rw [hnil] at hword
    cases hword
  rw [Value.ofText?, String.toList_append, String.toList_append] at hwhole
  exact h.encloses hne (fun c hc => Scan.isDelimiter_of_isNumeric (isNumeric_int hc)) hword hafter hwhole

namespace Pipeline

/-- Behind this text of a pipeline the value of condition `j` of step `i` stands. -/
def OpensValue (before : String) (i j : Nat) : Prop :=
  ∃ condition conditions step steps document : Frame,
    Json.Opens before.toList [condition, conditions, step, steps, document] ∧
      Condition.Awaits condition conditions j ∧ step.IsField "conditions" 2 ∧ steps.IsItem i ∧
      document.IsField "steps" 1

variable {before after : String} {i j : Nat} {n : Int} {p : Pipeline} {f : Filter}

private theorem exists_keepsInteger (hbefore : OpensValue before i j) (hafter : Json.Scan.Ends after.toList)
    (hn : Value.isExactInt n = true) (h : ofText (before ++ toString n ++ after) = .ok p)
    (hstep : p.steps[i]? = some (.filter f)) : ∃ c, f.conditions[j]? = some c ∧ c.KeepsInteger n := by
  obtain ⟨condition, conditions, step, steps, document, hopens, hawaits, hfields, hitem, hsteps⟩ := hbefore
  obtain ⟨whole, hwhole, hread⟩ := exists_value_of_ofText h
  obtain ⟨_, hv, _, hvs, fields, hstepCloses, list, hlist, _, hdocument, rfl⟩ := hopens.encloses_int hafter hn hwhole
  -- from the outermost container to the innermost one
  obtain ⟨_, hgiven⟩ := Layout.exists_given_of_reader hread
  obtain ⟨room, hreadSteps⟩ := read_steps hread (hdocument.hasField hsteps hgiven.ne_unreadable)
  obtain ⟨items, rfl, hfieldsItem⟩ := hlist.exists_items hitem
  obtain ⟨s, room', hs, hreadStep⟩ := exists_item_of_list hreadSteps hfieldsItem
  obtain rfl : s = .filter f := Option.some.inj (hs.symm.trans hstep)
  obtain ⟨room'', hreadConditions⟩ :=
    Step.read_conditions hreadStep (hstepCloses.hasField hfields (Step.ne_unreadable_of_read hreadStep))
  exact hawaits.exists_keepsInteger hn hv hvs hreadConditions

end Pipeline

namespace TableRequest

/-- Behind this text of a table query the value of condition `j` stands. -/
def OpensValue (before : String) (j : Nat) : Prop :=
  ∃ condition conditions filter document : Frame,
    Json.Opens before.toList [condition, conditions, filter, document] ∧
      Condition.Awaits condition conditions j ∧ filter.IsField "conditions" 1 ∧ document.IsField "filter" 0

variable {before after : String} {j : Nat} {n : Int} {r : TableRequest}

private theorem exists_keepsInteger (hbefore : OpensValue before j) (hafter : Json.Scan.Ends after.toList)
    (hn : Value.isExactInt n = true) (h : ofText (before ++ toString n ++ after) = .ok r) :
    ∃ f c, r.filter = some f ∧ f.conditions[j]? = some c ∧ c.KeepsInteger n := by
  obtain ⟨condition, conditions, filter, document, hopens, hawaits, hfields, hfilter⟩ := hbefore
  obtain ⟨whole, hwhole, hread⟩ := exists_value_of_ofText h
  obtain ⟨_, hv, _, hvs, fields, hfilterCloses, _, hdocument, rfl⟩ := hopens.encloses_int hafter hn hwhole
  obtain ⟨_, hgiven⟩ := Layout.exists_given_of_reader hread
  obtain ⟨room, hreadFilter⟩ := read_filter hread (hdocument.hasField hfilter hgiven.ne_unreadable)
  obtain ⟨f, hf, hreadFilter⟩ := exists_of_nullable hfilterCloses.ne_null hreadFilter
  obtain ⟨room', hgivenFilter⟩ := Layout.exists_given_of_reader hreadFilter
  have hreadConditions :=
    Filter.read_conditions hgivenFilter (hfilterCloses.hasField hfields hgivenFilter.ne_unreadable)
  obtain ⟨c, hc, hkeeps⟩ := hawaits.exists_keepsInteger hn hv hvs hreadConditions
  exact ⟨f, c, hf, hc, hkeeps⟩

end TableRequest

/-- An integer of 64 bits can always be read as the value of a condition, and then it is exact.  Where its numeral
stands as such a value in a document, the literal, the text of the script, the text of the table query with its
parameters, and the condition written again all have this numeral. -/
theorem Filter.keeps_integers {n : Int} (hmin : -9223372036854775808 ≤ n) (hmax : n < 18446744073709551616) :
    (∃ value : Literal, value.IsInteger n ∧ Document.ofText Operand.read (toString n) = .ok (.literal value)) ∧
    ∀ before after : String, Json.Scan.Ends after.toList → ∀ j,
      (∀ i p f, Pipeline.OpensValue before i j → Pipeline.ofText (before ++ toString n ++ after) = .ok p →
        p.steps[i]? = some (.filter f) → ∃ c, f.conditions[j]? = some c ∧ c.KeepsInteger n ∧
          ∀ catalog text, p.scriptText catalog = .ok text → f.IntegerInScript j c n catalog.tables text) ∧
      ∀ r, TableRequest.OpensValue before j → TableRequest.ofText (before ++ toString n ++ after) = .ok r →
        ∃ f c, r.filter = some f ∧ f.conditions[j]? = some c ∧ c.KeepsInteger n ∧
          ∀ table options q, r.query table options = .ok q → f.IntegerInQuery j c n table q := by
  have hn : Value.isExactInt n = true := by
    have hmin' : Int64.minValue.toInt = -9223372036854775808 := rfl
    have hsize : ((UInt64.size : Nat) : Int) = 18446744073709551616 := rfl
    rw [Value.isExactInt, hmin', hsize, decide_eq_true hmin, decide_eq_true hmax, Bool.and_self]
  refine ⟨?_, fun before after hafter j => ⟨?_, ?_⟩⟩
  · obtain ⟨value, hinteger, hread⟩ := Operand.exists_integer hn
    refine ⟨value, hinteger, ?_⟩
    have htext : (Value.int n).text = toString n := String.ofList_toList
    have hvalue := (Value.Sound.int hn : Value.Sound 0 (.int n)).ofText?_text
    rw [htext] at hvalue
    rw [Document.ofText, hvalue]
    exact hread _
  · intro i p f hbefore hp hstep
    obtain ⟨c, hfound, hkeeps⟩ := Pipeline.exists_keepsInteger hbefore hafter hn hp hstep
    exact ⟨c, hfound, hkeeps, fun _ _ htext => integerInScript_of_scriptText htext hstep hfound hkeeps⟩
  · intro r hbefore hr
    obtain ⟨f, c, hf, hfound, hkeeps⟩ := TableRequest.exists_keepsInteger hbefore hafter hn hr
    exact ⟨f, c, hf, hfound, hkeeps, fun _ _ _ hq => integerInQuery_of_query hq hf hfound hkeeps⟩

/-- The largest such integer in a pipeline, and the smallest one in a table query that searches for it. -/
theorem Filter.keeps_integers_bounds :
    (∃ p f c text, Pipeline.ofText ("[\"t\",[[\"filter\",\"and\",[[[\"t\",\"id\"],\"equal\"," ++
        toString (18446744073709551615 : Int) ++ "]]]]]") = .ok p ∧
      p.steps[0]? = some (.filter f) ∧ f.conditions[0]? = some c ∧ c.KeepsInteger 18446744073709551615 ∧
      p.scriptText school = .ok text ∧ f.IntegerInScript 0 c 18446744073709551615 school.tables text) ∧
    ∃ r f c q, TableRequest.ofText
        ("\x7b\"filter\":\x7b\"logicalOperator\":\"or\",\"conditions\":[[[\"t\",\"id\"],\"like\"," ++
          toString (-9223372036854775808 : Int) ++ "]]\x7d\x7d") = .ok r ∧
      r.filter = some f ∧ f.conditions[0]? = some c ∧ c.KeepsInteger (-9223372036854775808) ∧
      r.query ⟨⟨"t"⟩, "teachers", "public", "db"⟩ {} = .ok q ∧
      f.IntegerInQuery 0 c (-9223372036854775808) ⟨⟨"t"⟩, "teachers", "public", "db"⟩ q ∧
      q.params = ["%-9223372036854775808%"] := by
  have hends : ∀ rest, Json.Scan.Ends (']' :: rest) := by
    intro rest c h
    cases h
    rfl
  constructor
  · have hbefore : Pipeline.OpensValue "[\"t\",[[\"filter\",\"and\",[[[\"t\",\"id\"],\"equal\"," 0 0 :=
      ⟨_, _, _, _, _, ⟨_, _, rfl, rfl, .inl rfl⟩, ⟨rfl, rfl⟩, rfl, rfl, rfl⟩
    let f : Filter := ⟨.and, [⟨.ofTable ⟨"t"⟩ "id", .equal, .literal (.unsigned 18446744073709551615)⟩]⟩
    have hp : Pipeline.ofText ("[\"t\",[[\"filter\",\"and\",[[[\"t\",\"id\"],\"equal\"," ++
        toString (18446744073709551615 : Int) ++ "]]]]]") = .ok ⟨⟨"t"⟩, [.filter f]⟩ :=
      toOption_eq_some_iff.1 (by decide +kernel)
    obtain ⟨text, htext⟩ : ∃ text, (⟨⟨"t"⟩, [.filter f]⟩ : Pipeline).scriptText school = .ok text := ⟨_, rfl⟩
    obtain ⟨-, hdocuments⟩ := keeps_integers (n := 18446744073709551615) (by decide) (by decide)
    obtain ⟨c, hfound, hkeeps, hscript⟩ := (hdocuments _ "]]]]]" (hends _) 0).1 0 _ f hbefore hp rfl
    exact ⟨_, f, c, text, hp, rfl, hfound, hkeeps, htext, hscript school text htext⟩
  · have hbefore : TableRequest.OpensValue
        "\x7b\"filter\":\x7b\"logicalOperator\":\"or\",\"conditions\":[[[\"t\",\"id\"],\"like\"," 0 :=
      ⟨_, _, _, _, ⟨_, _, rfl, rfl, .inl rfl⟩, ⟨rfl, rfl⟩, rfl, rfl⟩
    let f : Filter := ⟨.or, [⟨.ofTable ⟨"t"⟩ "id", .like, .literal (.integer Int64.minValue)⟩]⟩
    have hr : TableRequest.ofText
        ("\x7b\"filter\":\x7b\"logicalOperator\":\"or\",\"conditions\":[[[\"t\",\"id\"],\"like\"," ++
          toString (-9223372036854775808 : Int) ++ "]]\x7d\x7d") = .ok ⟨some f, none, none⟩ :=
      toOption_eq_some_iff.1 (by decide +kernel)
    obtain ⟨q, hq⟩ : ∃ q, (⟨some f, none, none⟩ : TableRequest).query ⟨⟨"t"⟩, "teachers", "public", "db"⟩ {} = .ok q :=
      ⟨_, rfl⟩
    have hparams : q.params = ["%-9223372036854775808%"] := by
      cases hq
      rfl
    obtain ⟨-, hdocuments⟩ := keeps_integers (n := -9223372036854775808) (by decide) (by decide)
    obtain ⟨g, c, hg, hfound, hkeeps, hquery⟩ := (hdocuments _ "]]\x7d\x7d" (hends _) 0).2 _ hbefore hr
    exact ⟨_, g, c, q, hr, hg, hfound, hkeeps, hq, hquery _ _ q hq, hparams⟩

end TableFlow
