import TableFlow.Proofs.Coverage
import TableFlow.Proofs.Numbering
import TableFlow.Proofs.Parameters
import TableFlow.Proofs.Transforms
import TableFlow.Proofs.WellFormed

/-!
# The rows of a range

A take drops the rows of its offset and then keeps as many as its limit says.  A script writes it as a range of row
numbers, which count from 1, and a statement as the two numbers behind their keywords.  Read as what they are written
in, both keep the same rows, and the script has no range only where a row number would not fit into 64 bits
(`Take.step_keeps_rows`).
-/

namespace TableFlow

/-! ### Numbers -/

/-- A number that takes up the whole text. -/
def wholeNumber? (cs : List Char) : Option Nat :=
  match Json.Numeral.digits? cs with
  | some (run, []) => some (Nat.ofDigitChars 10 run 0)
  | _ => none

private theorem digits?_toString (n : UInt64) {behind : List Char} (hbehind : Stops Char.isDigit behind) :
    Json.Numeral.digits? ((toString n.toNat).toList ++ behind) = some (Nat.toDigits 10 n.toNat, behind) := by
  have hdigits : (toString n.toNat).toList = Nat.toDigits 10 n.toNat := Nat.toList_repr
  rw [hdigits]
  exact Json.Numeral.digits?_append Nat.toDigits_ne_nil (fun c hc => isDigit_of_mem_toDigits hc) hbehind

private theorem wholeNumber?_toString (n : UInt64) : wholeNumber? (toString n.toNat).toList = some n.toNat := by
  have hread := digits?_toString n .nil
  rw [List.append_nil] at hread
  rw [wholeNumber?, hread]
  exact congrArg some Nat.ofDigitChars_ten_toDigits

/-! ### Ranges of row numbers -/

/-- Rows by their numbers, of which the first is 1; without a last one, all rows from the first one on. -/
structure RowRange where
  first : Nat
  last : Option Nat
deriving DecidableEq

namespace RowRange

/-- The rows whose numbers are in the range. -/
def rows {α : Type} (range : RowRange) (rows : List α) : List α :=
  ((rows.zipIdx 1).filter fun row => decide (range.first ≤ row.2) && range.last.all (row.2 ≤ ·)).map Prod.fst

/-- The range that starts with a number and goes on with these characters: `n` are the first `n` rows, `m..n` the rows
between two numbers, both included, and `m..` all rows from one on. -/
def bounded? (n : Nat) : List Char → Option RowRange
  | [] => some ⟨1, some n⟩
  | ['.', '.'] => some ⟨n, none⟩
  | '.' :: '.' :: more => (wholeNumber? more).map fun last => ⟨n, some last⟩
  | _ => none

/-- A range as it is written. -/
def ofChars? (cs : List Char) : Option RowRange :=
  (Json.Numeral.digits? cs).bind fun (run, behind) => bounded? (Nat.ofDigitChars 10 run 0) behind

/-- The range of a transform that takes rows. -/
def ofText? (text : String) : Option RowRange :=
  (text.toList.dropPrefix? "take ".toList).bind ofChars?

/-- The rows that are left behind transforms which take rows, one after the other. -/
def rowsBehind? {α : Type} (texts : List String) (rows : List α) : Option (List α) :=
  texts.foldlM (fun rows text => (ofText? text).map fun range => range.rows rows) rows

/-! ### Rows by number -/

section Rows

variable {α : Type} (rows : List α)

private theorem filter_zipIdx_le (start last : Nat) :
    ((rows.zipIdx start).filter fun row => row.2 ≤ last) = (rows.take (last + 1 - start)).zipIdx start := by
  induction rows generalizing start with
  | nil => simp
  | cons row rows ih =>
    rw [List.zipIdx_cons, List.filter_cons, ih]
    by_cases h : start ≤ last
    · have hsize : last + 1 - start = last + 1 - (start + 1) + 1 := by omega
      rw [if_pos (decide_eq_true h), hsize, List.take_succ_cons, List.zipIdx_cons]
    · have hsize : last + 1 - start = 0 := by omega
      have hsize' : last + 1 - (start + 1) = 0 := by omega
      rw [if_neg (by simpa using h), hsize, hsize', List.take_zero, List.take_zero]
      rfl

private theorem map_filter_zipIdx_ge (start first : Nat) :
    ((rows.zipIdx start).filter fun row => first ≤ row.2).map Prod.fst = rows.drop (first - start) := by
  induction rows generalizing start with
  | nil => simp
  | cons row rows ih =>
    rw [List.zipIdx_cons, List.filter_cons]
    by_cases h : first ≤ start
    · have hsize : first - start = 0 := by omega
      have hsize' : first - (start + 1) = 0 := by omega
      rw [if_pos (decide_eq_true h), List.map_cons, ih, hsize, hsize', List.drop_zero, List.drop_zero]
    · have hsize : first - start = first - (start + 1) + 1 := by omega
      rw [if_neg (by simpa using h), ih, hsize, List.drop_succ_cons]

/-- All rows from one on. -/
private theorem rows_none (offset : Nat) : RowRange.rows ⟨offset + 1, none⟩ rows = rows.drop offset := by
  simp only [RowRange.rows, Option.all_none, Bool.and_true]
  exact map_filter_zipIdx_ge rows 1 (offset + 1)

/-- A limited number of rows behind an offset, none if the limit is zero. -/
private theorem rows_some (offset limit : Nat) :
    RowRange.rows ⟨offset + 1, some (offset + limit)⟩ rows = (rows.drop offset).take limit := by
  simp only [RowRange.rows, Option.all_some]
  rw [← List.filter_filter, filter_zipIdx_le, map_filter_zipIdx_ge, Nat.add_sub_cancel, Nat.add_sub_cancel,
    List.drop_take, Nat.add_sub_cancel_left]

end Rows

/-! ### Ranges as they are written -/

private theorem ofChars?_toString (n : UInt64) {behind : List Char} (hbehind : Stops Char.isDigit behind) :
    ofChars? ((toString n.toNat).toList ++ behind) = bounded? n.toNat behind := by
  rw [ofChars?, digits?_toString n hbehind]
  exact congrArg (bounded? · behind) Nat.ofDigitChars_ten_toDigits

private theorem bounded?_toString (m : Nat) (n : UInt64) :
    bounded? m ('.' :: '.' :: (toString n.toNat).toList) = some ⟨m, some n.toNat⟩ := by
  have hcount := wholeNumber?_toString n
  cases hword : (toString n.toNat).toList with
  | nil =>
    rw [hword] at hcount
    cases hcount
  | cons c cs =>
    rw [hword] at hcount
    rw [bounded?, hcount]
    · rfl
    · simp

/-- The range of a transform is read from its text, also if it starts at the first row. -/
private theorem ofChars?_rangeText (first : UInt64) (last : Option UInt64) :
    ofChars? (Transform.rangeText first last).toList = some ⟨first.toNat, last.map UInt64.toNat⟩ := by
  rw [Transform.toList_rangeText]
  cases last with
  | none => exact ofChars?_toString first (.cons rfl _)
  | some last =>
    by_cases hfirst : first = 1
    · simp only [Transform.rangeParts, if_pos hfirst]
      rw [hfirst]
      exact ofChars?_toString last .nil
    · simp only [Transform.rangeParts, if_neg hfirst]
      exact (ofChars?_toString first (.cons rfl _)).trans (bounded?_toString first.toNat last)

private theorem ofText?_take (first : UInt64) (last : Option UInt64) :
    ofText? (Transform.take first last).text = some ⟨first.toNat, last.map UInt64.toNat⟩ := by
  rw [ofText?, Transform.text_take, String.toList_append, List.dropPrefix?_append_of_beq _ (beq_self_eq_true _)]
  exact ofChars?_rangeText first last

end RowRange

-- the bounds of a range with the limit 0 cross
example : (RowRange.ofText? "take 6..5").map (fun range => range.rows (List.range 10)) = some [] := by decide

/-! ### Takes -/

namespace Take

variable {t : Take} {transforms : List Transform}

/-- The rows behind the offset, as many of them as the limit allows. -/
def rows {α : Type} (t : Take) (rows : List α) : List α :=
  let behind := rows.drop (t.offset.getD 0).toNat
  t.limit.elim behind fun limit => behind.take limit.toNat

/-- The number of the first row or of the last one is none of 64 bits. -/
def OutOfBounds (t : Take) : Prop :=
  ((t.limit.isSome ∨ 0 < (t.offset.getD 0).toNat) ∧ UInt64.size ≤ (t.offset.getD 0).toNat + 1) ∨
    ∃ limit ∈ t.limit, UInt64.size ≤ (t.offset.getD 0).toNat + limit.toNat

instance (t : Take) : Decidable t.OutOfBounds :=
  inferInstanceAs (Decidable (_ ∨ _))

/-- Without a limit and an offset nothing is added up. -/
private theorem wellFormed_iff : t.WellFormed ↔ ¬t.OutOfBounds := by
  obtain ⟨limit, offset⟩ := t
  have hsize : 1 < UInt64.size := by decide
  constructor
  · rintro ⟨hfirst, hlast⟩ (⟨-, h⟩ | ⟨limit, hlimit, h⟩)
    · exact absurd hfirst (Nat.not_lt.2 h)
    · exact absurd (hlast limit hlimit) (Nat.not_lt.2 h)
  · intro h
    rw [OutOfBounds, not_or] at h
    refine ⟨?_, fun limit hlimit => Nat.lt_of_not_le fun hle => h.2 ⟨limit, hlimit, hle⟩⟩
    by_contra hfirst
    refine h.1 ⟨?_, Nat.le_of_not_lt hfirst⟩
    omega

private theorem exists_transforms_iff_not_outOfBounds :
    (∃ transforms, t.transforms = .ok transforms) ↔ ¬t.OutOfBounds :=
  exists_transforms_iff.trans wellFormed_iff

private theorem transforms_eq_error_iff {e : Cause} :
    t.transforms = .error e ↔ t.OutOfBounds ∧ e = .takeOutOfBounds := by
  constructor
  · intro h
    refine ⟨?_, eq_of_transforms_eq_error h⟩
    by_contra hbounds
    obtain ⟨transforms, htransforms⟩ := exists_transforms_iff_not_outOfBounds.2 hbounds
    rw [h] at htransforms
    cases htransforms
  · rintro ⟨hbounds, rfl⟩
    cases htransforms : t.transforms with
    | error e => rw [eq_of_transforms_eq_error htransforms]
    | ok transforms => exact absurd hbounds (exists_transforms_iff_not_outOfBounds.1 ⟨transforms, htransforms⟩)

private theorem toNat_of_addRows {m n k : UInt64} (h : addRows m n = .ok k) : k.toNat = m.toNat + n.toNat := by
  unfold addRows at h
  split at h
  · rename_i hlt
    cases h
    rw [UInt64.toNat_add, Nat.mod_eq_of_lt hlt]
  · cases h

/-- The transforms of a take, as they are written, keep its rows. -/
private theorem rowsBehind?_transforms {α : Type} (h : t.transforms = .ok transforms) (rows : List α) :
    RowRange.rowsBehind? (transforms.map Transform.text) rows = some (t.rows rows) := by
  obtain ⟨limit, offset⟩ := t
  simp only [Take.transforms] at h
  cases limit with
  | some limit =>
    simp only [bind_eq_ok_iff] at h
    obtain ⟨first, hfirst, last, hlast, h⟩ := h
    cases h
    have hrange : RowRange.ofText? (Transform.take first (some last)).text = some ⟨first.toNat, some last.toNat⟩ :=
      RowRange.ofText?_take first (some last)
    rw [toNat_of_addRows hfirst, toNat_of_addRows hlast] at hrange
    simp [RowRange.rowsBehind?, hrange, Take.rows, RowRange.rows_some]
  | none =>
    dsimp only at h
    split at h
    · obtain ⟨first, hfirst, h⟩ := bind_eq_ok_iff.1 h
      cases h
      have hrange : RowRange.ofText? (Transform.take first none).text = some ⟨first.toNat, none⟩ :=
        RowRange.ofText?_take first none
      rw [toNat_of_addRows hfirst] at hrange
      simp [RowRange.rowsBehind?, hrange, Take.rows, RowRange.rows_none]
    · rename_i hoffset
      cases h
      have hzero : (offset.getD 0).toNat = 0 :=
        Nat.le_zero.1 (UInt64.le_iff_toNat_le.1 (UInt64.not_lt.1 hoffset))
      simp [RowRange.rowsBehind?, Take.rows, hzero]

end Take

/-! ### Statements -/

namespace Sql

/-- A lexeme at which the clauses of a range start. -/
def Lexeme.startsRange (l : Lexeme) : Bool :=
  l = .word "LIMIT" || l = .word "OFFSET"

/-- The number in the clause of a keyword, if one is there, and what follows. -/
def clause? (keyword : String) : List Lexeme → Option (Option Nat × List Lexeme)
  | .word text :: .number n :: ls =>
    if text = keyword then (wholeNumber? n.toList).map fun n => (some n, ls)
    else some (none, .word text :: .number n :: ls)
  | ls => some (none, ls)

/-- The rows that a statement leaves of those that it would have without a limit and an offset, which stand at its end:
it drops those of the offset and keeps as many as the limit allows. -/
def rowsBehind? {α : Type} (ls : List Lexeme) (rows : List α) : Option (List α) := do
  let (limit, ls) ← clause? "LIMIT" (ls.dropWhile fun l => !l.startsRange)
  let (offset, ls) ← clause? "OFFSET" ls
  let behind := rows.drop (offset.getD 0)
  if ls = [] then some (limit.elim behind behind.take) else none

end Sql

open Sql (Lexeme)

/-- None of these lexemes starts the clauses of a range. -/
def Rangeless (ls : List Lexeme) : Prop :=
  ∀ l ∈ ls, l.startsRange = false

namespace Rangeless

private theorem append {ls ms : List Lexeme} (hls : Rangeless ls) (hms : Rangeless ms) : Rangeless (ls ++ ms) :=
  List.forall_mem_append.2 ⟨hls, hms⟩

private theorem cons {l : Lexeme} {ls : List Lexeme} (hl : l.startsRange = false) (hls : Rangeless ls) :
    Rangeless (l :: ls) :=
  List.forall_mem_cons.2 ⟨hl, hls⟩

private theorem nil : Rangeless [] :=
  fun _ h => absurd h List.not_mem_nil

private theorem intercalate {separator : Lexeme} (hseparator : separator.startsRange = false)
    {parts : List (List Lexeme)} (h : ∀ part ∈ parts, Rangeless part) : Rangeless ([separator].intercalate parts) := by
  induction parts with
  | nil => exact nil
  | cons part parts ih =>
    obtain ⟨hpart, hparts⟩ := List.forall_mem_cons.1 h
    cases parts with
    | nil => simpa using hpart
    | cons part' parts =>
      rw [List.intercalate_cons_cons]
      exact (hpart.append (.cons hseparator .nil)).append (ih hparts)

end Rangeless

private theorem Literal.rangeless_lexemes (value : Literal) : Rangeless value.lexemes := by
  have hsigned : ∀ negative written, Rangeless (Sql.signed negative written) := by
    intro negative written
    cases negative
    · exact .cons rfl .nil
    · exact .cons rfl (.cons rfl .nil)
  cases value with
  | null | unsigned | string => exact .cons rfl .nil
  | boolean b => cases b <;> exact .cons rfl .nil
  | integer n => exact hsigned _ _
  | float d => exact hsigned _ _

private theorem Operator.rangeless_lexemes (o : Operator) : Rangeless o.lexemes := by
  cases o <;> unfold Operator.lexemes Rangeless <;> decide

private theorem Condition.rangeless_lexemes (n : Nat) (c : Condition) : Rangeless (c.lexemes n) := by
  have hvalue : Rangeless c.value.lexemes := by
    cases c.value with
    | column other => exact .cons rfl .nil
    | literal value => exact value.rangeless_lexemes
  refine (Rangeless.cons rfl c.operator.rangeless_lexemes).append ?_
  split
  · exact .nil
  · split
    · exact .cons rfl .nil
    · exact hvalue

private theorem rangeless_conditions (bound : Nat) (conditions : List Condition) :
    ∀ part ∈ conditionLexemes bound conditions, Rangeless part := by
  induction conditions generalizing bound with
  | nil => exact fun _ h => absurd h List.not_mem_nil
  | cons c conditions ih => exact List.forall_mem_cons.2 ⟨c.rangeless_lexemes _, ih _⟩

private theorem Filter.rangeless_lexemes (f : Filter) : Rangeless f.lexemes := by
  have hconnective : f.connective.lexeme.startsRange = false := by
    cases f.connective <;> decide
  unfold Filter.lexemes
  split
  · exact .nil
  · exact .cons (by decide) (.intercalate hconnective (rangeless_conditions 0 f.conditions))

private theorem Order.rangeless_lexemes (o : Order) : Rangeless o.lexemes := by
  have hkeys : ∀ part ∈ o.keys.map OrderKey.lexemes, Rangeless part := by
    intro part hpart
    obtain ⟨k, -, rfl⟩ := List.mem_map.1 hpart
    refine .cons rfl ?_
    split
    · exact .cons (by decide) .nil
    · exact .nil
  unfold Order.lexemes
  split
  · exact .nil
  · exact .cons (by decide) (.cons (by decide) (.intercalate rfl hkeys))

/-- A clause that is left out when there is nothing. -/
private theorem clause?_elim (keyword : String) (n : Option UInt64) {ls : List Lexeme}
    (hls : Sql.clause? keyword ls = some (none, ls)) :
    Sql.clause? keyword (n.elim [] (countLexemes keyword) ++ ls) = some (n.map UInt64.toNat, ls) := by
  cases n with
  | none => exact hls
  | some n =>
    have hcount := wholeNumber?_toString n
    simp only [Option.elim_some, countLexemes, List.cons_append, List.nil_append, Sql.clause?, if_true, hcount,
      Option.map_some]

/-- Behind lexemes that start no range, the rows of a take are read from its clauses. -/
private theorem Take.rowsBehind?_lexemes {α : Type} {front : List Lexeme} (hfront : Rangeless front) (t : Take)
    (rows : List α) : Sql.rowsBehind? (front ++ t.lexemes) rows = some (t.rows rows) := by
  obtain ⟨limit, offset⟩ := t
  have hrange : (front ++ lexemes ⟨limit, offset⟩).dropWhile (fun l => !l.startsRange) = lexemes ⟨limit, offset⟩ := by
    rw [List.dropWhile_append_of_pos fun l hl => by rw [hfront l hl]; rfl]
    cases limit <;> cases offset <;> rfl
  have hnone : Sql.clause? "LIMIT" (offset.elim [] (countLexemes "OFFSET")) =
      some (none, offset.elim [] (countLexemes "OFFSET")) := by
    cases offset <;> rfl
  have hlimit := clause?_elim "LIMIT" limit hnone
  have hoffset : Sql.clause? "OFFSET" (offset.elim [] (countLexemes "OFFSET")) =
      some (offset.map UInt64.toNat, []) := by
    rw [← List.append_nil (offset.elim [] _)]
    exact clause?_elim "OFFSET" offset rfl
  rw [Sql.rowsBehind?, hrange, lexemes, hlimit]
  simp only [bind, Option.bind, hoffset, if_true]
  cases limit <;> cases offset <;> rfl

/-- The lexemes in front of the range of a request. -/
def TableRequest.frontLexemes (r : TableRequest) (table : Table) : List Lexeme :=
  [.word "SELECT", .sign "*", .word "FROM", .identifier table.schema, .sign ".", .identifier table.externalName] ++
    r.filter.elim [] Filter.lexemes ++ r.order.elim [] Order.lexemes

private theorem TableRequest.rangeless_frontLexemes (r : TableRequest) (table : Table) :
    Rangeless (r.frontLexemes table) := by
  have hsource : Rangeless [.word "SELECT", .sign "*", .word "FROM", .identifier table.schema, .sign ".",
      .identifier table.externalName] :=
    .cons (by decide) (.cons rfl (.cons (by decide) (.cons rfl (.cons rfl (.cons rfl .nil)))))
  refine (hsource.append ?_).append ?_
  · cases r.filter with
    | none => exact .nil
    | some f => exact f.rangeless_lexemes
  · cases r.order with
    | none => exact .nil
    | some o => exact o.rangeless_lexemes

/-- The rows that the statement of a request leaves are those of its take. -/
private theorem TableRequest.rowsBehind?_lexemes {α : Type} {r : TableRequest} {t : Take} (ht : r.take = some t)
    (table : Table) (options : Options) (rows : List α) :
    Sql.rowsBehind? (r.lexemes table options) rows = some (t.rows rows) := by
  have hlexemes : r.lexemes table options = r.frontLexemes table ++ t.lexemes := by
    rw [TableRequest.lexemes, ht]
    rfl
  rw [hlexemes]
  exact t.rowsBehind?_lexemes (r.rangeless_frontLexemes table) rows

/-! ### Both ways -/

/-- Behind at least one declaration a take adds one more exactly if its row numbers fit into 64 bits.  The new
declaration reads from the last one, and its transforms keep the rows of the take, as they are read in a script.  The
statement of a request with this take keeps the same rows, as it is read in SQL. -/
theorem Take.step_keeps_rows (catalog : Catalog) (root : Table) {q : Progress} (hq : q.declarations ≠ []) (t : Take) :
    (∀ e, q.guardedStep catalog root (.take t) = .error e ↔ t.OutOfBounds ∧ e = Cause.takeOutOfBounds.failure) ∧
      (¬t.OutOfBounds → ∃ d : Declaration,
        q.guardedStep catalog root (.take t) = .ok { q with declarations := q.declarations ++ [d] } ∧
        d.name = "step_" ++ toString q.declarations.length ∧
        d.flow.source = .declaration ("step_" ++ toString (q.declarations.length - 1)) ∧
        ∀ (α : Type) (rows : List α),
          RowRange.rowsBehind? (d.flow.transforms.map Transform.text) rows = some (t.rows rows)) ∧
      ∀ (r : TableRequest) table options query, r.take = some t → r.query table options = .ok query →
        ∃ statement lexemes,
          query.sql = (if query.params = [] then statement
            else preparation query.params.length ++ statement ++ execution query.params.length) ∧
          Sql.lex statement.toList = some lexemes ∧
          ∀ (α : Type) (rows : List α), Sql.rowsBehind? lexemes rows = some (t.rows rows) := by
  have hstep : q.guardedStep catalog root (.take t) = (t.transforms.map q.declare).mapError Cause.failure :=
    Progress.guardedStep_eq hq (.take t)
  refine ⟨fun e => ?_, fun hbounds => ?_, fun r table options query ht hquery => ?_⟩
  · simp only [hstep, mapError_eq_error_iff, map_eq_error_iff, transforms_eq_error_iff]
    constructor
    · rintro ⟨_, ⟨hbounds, rfl⟩, rfl⟩
      exact ⟨hbounds, rfl⟩
    · rintro ⟨hbounds, rfl⟩
      exact ⟨_, ⟨hbounds, rfl⟩, rfl⟩
  · obtain ⟨transforms, htransforms⟩ := exists_transforms_iff_not_outOfBounds.2 hbounds
    rw [hstep, htransforms]
    exact ⟨_, rfl, rfl, rfl, fun α rows => rowsBehind?_transforms htransforms rows⟩
  · obtain ⟨tokens, hstatement, hsql, -⟩ := TableRequest.exists_statement hquery
    refine ⟨Sql.text tokens, _, ?_, (TableRequest.reads_statement hstatement).lex_text, fun α rows => ?_⟩
    · rw [hsql, TableRequest.sqlText_eq]
    · exact TableRequest.rowsBehind?_lexemes ht table options rows

/-- Three rows behind the fifth, and one row behind as many as can be counted. -/
theorem Take.step_keeps_rows_sixth :
    let root : Table := ⟨⟨"s"⟩, "students", "public", "db"⟩
    let q : Progress := .start root [school.number "id"]
    let t : Take := ⟨some 3, some 5⟩
    let far : Take := ⟨some 1, some 18446744073709551615⟩
    let r : TableRequest := ⟨none, none, some t⟩
    (q.declarations ≠ [] ∧ ¬t.OutOfBounds ∧ far.OutOfBounds) ∧
      (∃ d : Declaration,
        q.guardedStep school root (.take t) = .ok { q with declarations := q.declarations ++ [d] } ∧
        d.name = "step_1" ∧ d.flow.source = .declaration "step_0" ∧
        RowRange.rowsBehind? (d.flow.transforms.map Transform.text) (List.range 10) = some [5, 6, 7]) ∧
      q.guardedStep school root (.take far) = .error Cause.takeOutOfBounds.failure ∧
      ∃ query statement lexemes, r.query root {} = .ok query ∧
        query.sql = (if query.params = [] then statement
          else preparation query.params.length ++ statement ++ execution query.params.length) ∧
        Sql.lex statement.toList = some lexemes ∧ Sql.rowsBehind? lexemes (List.range 10) = some [5, 6, 7] := by
  intro root q t far r
  have hq : q.declarations ≠ [] := List.cons_ne_nil _ _
  have ht : ¬t.OutOfBounds := by decide
  have hfar : far.OutOfBounds := by decide
  obtain ⟨-, hstep, hrequest⟩ := step_keeps_rows school root hq t
  obtain ⟨query, hquery⟩ : ∃ query, r.query root {} = .ok query := ⟨_, rfl⟩
  obtain ⟨d, hd, hname, hsource, hrows⟩ := hstep ht
  obtain ⟨statement, lexemes, hsql, hlex, hrows'⟩ := hrequest r root {} query rfl hquery
  have herror := ((step_keeps_rows school root hq far).1 _).2 ⟨hfar, rfl⟩
  have hone : "step_" ++ toString 1 = "step_1" := by decide
  have hzero : "step_" ++ toString 0 = "step_0" := by decide
  have hsource' : d.flow.source = .declaration "step_0" := hsource.trans (congrArg Source.declaration hzero)
  exact ⟨⟨hq, ht, hfar⟩, ⟨d, hd, hname.trans hone, hsource', hrows Nat _⟩, herror, query, statement, lexemes, hquery,
    hsql, hlex, hrows' Nat _⟩

end TableFlow
