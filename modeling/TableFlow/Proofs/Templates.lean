import TableFlow.Compile.Predicate
import TableFlow.Proofs.Framing
import TableFlow.Proofs.Numerals
import TableFlow.Proofs.Outcome

/-!
# Templates that are read back

Inside its delimiters a template is a list of atoms, characters and columns, each of which says where it ends; texts
beside each other are one text, so the atoms determine the template (`Template.ofPieces_eq_of_body_eq`).  The delimiters
are a run of quotes that is longer than every such run inside (`Script.le_longestRun`), so they end a template where it
ends, unless its last character is such a quote itself.  No condition of a filter starts with a double quote or ends in
one (`Filter.ofCondition`), and for such templates the text determines the template (`Script.framed_templateText`).
-/

namespace TableFlow

/-! ### Atoms -/

/-- A part of a template that has no parts itself. -/
inductive Atom where
  | char (c : Char)
  | column (name : String)

namespace Atom

/-- The atom inside a template's delimiters. -/
def chars : Atom → List Char
  | char c => Script.escaped c
  | column name => '\x7b' :: ((Script.columnText name).toList ++ ['\x7d'])

/-- The atom as a piece. -/
def piece : Atom → Piece
  | char c => .text (.singleton c)
  | column name => .column name

/-- The name in the atom holds no backquote. -/
def Plain : Atom → Prop
  | char _ => True
  | column name => Unquoted name

private theorem escaped_append_ne_column (c : Char) (name : String) (r s : List Char) :
    Script.escaped c ++ r ≠ (column name).chars ++ s := by
  intro heq
  simp only [chars, Script.toList_columnText, List.cons_append] at heq
  unfold Script.escaped at heq
  split at heq
  · -- a brace that is text is doubled, and no column starts with a brace
    obtain ⟨rfl, heq⟩ := List.cons.inj heq
    exact absurd (List.cons.inj heq).1 (by decide)
  · rename_i hc
    exact hc (Or.inr (Or.inl (List.cons.inj heq).1))

private theorem framed_chars : Framed Plain (fun _ => True) chars := by
  intro a b r s ha hb _ _ heq
  cases a with
  | char c =>
    cases b with
    | char d =>
      have hhead : c = d := by
        have h := congrArg List.head? heq
        simp only [chars, Script.escaped] at h
        split at h <;> split at h <;> exact Option.some.inj h
      subst hhead
      exact ⟨rfl, List.append_cancel_left heq⟩
    | column name => exact absurd heq (escaped_append_ne_column c name r s)
  | column name =>
    cases b with
    | char d => exact absurd heq.symm (escaped_append_ne_column d name s r)
    | column name' =>
      simp only [chars, List.cons_append, List.append_assoc, List.cons.injEq, true_and] at heq
      obtain ⟨rfl, hrest⟩ := Script.framed_columnText ha hb (.cons rfl _) (.cons rfl _) heq
      exact ⟨rfl, (List.cons.inj hrest).2⟩

end Atom

/-- The atoms of a piece. -/
def Piece.atoms : Piece → List Atom
  | text s => s.toList.map .char
  | column name => [.column name]

private theorem Piece.flatMap_atoms (p : Piece) : p.atoms.flatMap Atom.chars = Script.pieceChars p := by
  cases p with
  | text s => simp [atoms, Script.pieceChars, List.flatMap_map, Atom.chars]
  | column name => simp [atoms, Script.pieceChars, Atom.chars]

namespace Template

theorem body_eq_flatMap_atoms (t : Template) : Script.body t = (t.flatMap Piece.atoms).flatMap Atom.chars := by
  simp only [Script.body, List.flatMap_assoc, Piece.flatMap_atoms]

private theorem push_text_push_text (s t : String) (pieces : Template) :
    push (.text s) (push (.text t) pieces) = push (.text (s ++ t)) pieces := by
  cases pieces with
  | nil => rfl
  | cons p pieces =>
    cases p with
    | text u => simp [push, String.append_assoc]
    | column name => rfl

private theorem foldr_push_chars {cs : List Char} (hcs : cs ≠ []) (pieces : Template) :
    (cs.map fun c => (Atom.char c).piece).foldr push pieces = push (.text (.ofList cs)) pieces := by
  induction cs with
  | nil => exact absurd rfl hcs
  | cons c cs ih =>
    cases cs with
    | nil => rfl
    | cons d cs =>
      rw [List.map_cons, List.foldr_cons, ih (List.cons_ne_nil d cs)]
      show push (.text (.singleton c)) (push (.text (.ofList (d :: cs))) pieces) = _
      rw [push_text_push_text]
      congr 2
      apply String.toList_inj.1
      simp

/-- A template is made of the atoms of its pieces, if none of them is empty. -/
theorem ofPieces_atoms {pieces : List Piece} (h : ∀ s, .text s ∈ pieces → s ≠ "") :
    ofPieces ((pieces.flatMap Piece.atoms).map Atom.piece) = ofPieces pieces := by
  induction pieces with
  | nil => rfl
  | cons p pieces ih =>
    have htail := ih fun s hs => h s (List.mem_cons_of_mem p hs)
    simp only [ofPieces] at htail ⊢
    rw [List.flatMap_cons, List.map_append, List.foldr_append, htail, List.foldr_cons]
    cases p with
    | text s =>
      have hs : s.toList ≠ [] := fun hnil => h s List.mem_cons_self (String.toList_eq_nil_iff.1 hnil)
      have hfold := foldr_push_chars hs (List.foldr push [] pieces)
      rw [String.ofList_toList] at hfold
      rw [← hfold, Piece.atoms, List.map_map]
      rfl
    | column name => rfl

private theorem body_push (p : Piece) (t : Template) :
    Script.body (push p t) = Script.pieceChars p ++ Script.body t := by
  unfold push
  split
  · simp [Script.body, Script.pieceChars]
  · rfl

theorem body_ofPieces (pieces : List Piece) : Script.body (ofPieces pieces) = Script.body pieces := by
  induction pieces with
  | nil => rfl
  | cons p pieces ih =>
    rw [ofPieces, List.foldr_cons, body_push]
    exact congrArg (Script.pieceChars p ++ ·) ih

/-- The names that a template mentions. -/
def mentions (t : Template) : List String :=
  t.filterMap fun
    | .text _ => none
    | .column name => some name

private theorem mentions_push (p : Piece) (t : Template) : mentions (push p t) = mentions (p :: t) := by
  unfold push
  split <;> rfl

theorem mentions_ofPieces (pieces : List Piece) : mentions (ofPieces pieces) = mentions pieces := by
  induction pieces with
  | nil => rfl
  | cons p pieces ih =>
    rw [ofPieces, List.foldr_cons, mentions_push]
    cases p with
    | text s => exact ih
    | column name => exact congrArg (name :: ·) ih

/-- What stands inside the delimiters determines the template. -/
theorem ofPieces_eq_of_body_eq {pieces pieces' : List Piece} (htext : ∀ s, .text s ∈ pieces → s ≠ "")
    (htext' : ∀ s, .text s ∈ pieces' → s ≠ "") (hnames : ∀ name ∈ mentions pieces, Unquoted name)
    (hnames' : ∀ name ∈ mentions pieces', Unquoted name) (h : Script.body pieces = Script.body pieces') :
    ofPieces pieces = ofPieces pieces' := by
  have hframed : Framed (∀ a ∈ ·, a.Plain) (· = []) (List.flatMap Atom.chars) := by
    refine Atom.framed_chars.flatMap (fun _ _ => trivial) (fun _ _ _ => trivial) ?_
    intro a r _ hnil
    cases a with
    | char c =>
      simp only [Atom.chars, Script.escaped] at hnil
      split at hnil <;> cases hnil
    | column name => cases hnil
  have hplain : ∀ {ps : List Piece}, (∀ name ∈ mentions ps, Unquoted name) → ∀ a ∈ ps.flatMap Piece.atoms, a.Plain := by
    intro ps hps a ha
    obtain ⟨p, hp, ha⟩ := List.mem_flatMap.1 ha
    cases p with
    | text s =>
      obtain ⟨c, -, rfl⟩ := List.mem_map.1 ha
      trivial
    | column name =>
      rw [List.mem_singleton.1 ha]
      exact hps name (List.mem_filterMap.2 ⟨_, hp, rfl⟩)
  rw [body_eq_flatMap_atoms, body_eq_flatMap_atoms, ← List.append_nil (List.flatMap _ (pieces.flatMap _)),
    ← List.append_nil (List.flatMap _ (pieces'.flatMap _))] at h
  obtain ⟨hatoms, -⟩ := hframed (hplain hnames) (hplain hnames') rfl rfl h
  rw [← ofPieces_atoms htext, hatoms, ofPieces_atoms htext']

end Template

/-! ### Delimiters -/

namespace Script

private theorem le_longestRun_self (q : Char) (run : Nat) (cs : List Char) : run ≤ longestRun q run cs := by
  induction cs generalizing run with
  | nil => exact Nat.le_refl run
  | cons c cs ih =>
    unfold longestRun
    split
    · exact Nat.le_trans (Nat.le_succ run) (ih (run + 1))
    · exact Nat.le_max_left _ _

private theorem longestRun_mono (q : Char) {m n : Nat} (h : m ≤ n) (cs : List Char) :
    longestRun q m cs ≤ longestRun q n cs := by
  induction cs generalizing m n with
  | nil => exact h
  | cons c cs ih =>
    unfold longestRun
    split
    · exact ih (Nat.succ_le_succ h)
    · omega

private theorem le_longestRun_replicate (q : Char) (n run : Nat) (cs : List Char) :
    run + n ≤ longestRun q run (List.replicate n q ++ cs) := by
  induction n generalizing run with
  | zero => exact le_longestRun_self q run _
  | succ n ih =>
    rw [List.replicate_succ, List.cons_append, longestRun, if_pos rfl]
    have := ih (run + 1)
    omega

/-- No run of a character is longer than the longest one. -/
theorem le_longestRun {q : Char} {n : Nat} {cs : List Char} (h : List.replicate n q <:+: cs) :
    n ≤ longestRun q 0 cs := by
  obtain ⟨before, after, rfl⟩ := h
  rw [List.append_assoc]
  induction before with
  | nil => simpa using le_longestRun_replicate q n 0 after
  | cons c before ih =>
    rw [List.cons_append, longestRun]
    split
    · exact Nat.le_trans ih (longestRun_mono q (Nat.zero_le 1) _)
    · omega

/-- What stands between delimiters that can be told from it: it starts with something else, holds no such run and does
not end in the character of the run. -/
structure Delimited (cs : List Char) (n : Nat) (q : Char) : Prop where
  pos : 0 < n
  head : ∀ c, cs.head? = some c → c ≠ q
  nonempty : cs ≠ []
  run : ¬ List.replicate n q <:+: cs
  last : cs.getLast? ≠ some q

private theorem delimited_one {cs : List Char} {q : Char} (hne : cs ≠ []) (hq : q ∉ cs) : Delimited cs 1 q where
  pos := Nat.one_pos
  head c hc := by
    rintro rfl
    exact hq (List.mem_of_mem_head? hc)
  nonempty := hne
  run h := hq (h.subset List.mem_cons_self)
  last h := hq (List.mem_of_getLast? h)

/-- The delimiters of what neither starts nor ends with a double quote. -/
private theorem exists_delimiter {cs : List Char} (hne : cs ≠ []) (hhead : cs.head? ≠ some '"')
    (hlast : cs.getLast? ≠ some '"') : ∃ n q, delimiter cs = List.replicate n q ∧ Delimited cs n q := by
  unfold delimiter
  by_cases hdouble : '"' ∈ cs
  · rw [if_neg (by simpa using hdouble)]
    by_cases hsingle : '\x27' ∈ cs
    · rw [if_neg (by simpa using hsingle)]
      refine ⟨_, '"', by rw [longDelimiter, if_neg (not_or.2 ⟨hhead, hlast⟩)], Nat.succ_pos _, ?_, hne, ?_, hlast⟩
      · rintro c hc rfl
        exact hhead hc
      · intro hrun
        have := le_longestRun hrun
        omega
    · rw [if_pos (by simpa using hsingle)]
      exact ⟨1, '\x27', rfl, delimited_one hne hsingle⟩
  · rw [if_pos (by simpa using hdouble)]
    exact ⟨1, '"', rfl, delimited_one hne hdouble⟩

/-- In a text that goes on with the closing run, what is delimited does not go beyond the first one. -/
theorem Delimited.length_le {cs ds r s : List Char} {n : Nat} {q : Char} (h : Delimited cs n q)
    (heq : cs ++ (List.replicate n q ++ r) = ds ++ (List.replicate n q ++ s)) : cs.length ≤ ds.length := by
  rcases List.append_eq_append_iff.1 heq with ⟨more, rfl, -⟩ | ⟨more, rfl, hmore⟩
  · simp
  · by_cases hnil : more = []
    · simp [hnil]
    · exfalso
      rcases List.append_eq_append_iff.1 hmore with ⟨after, rfl, -⟩ | ⟨after, hrun, -⟩
      · -- the first closing run would lie inside
        exact h.run ⟨ds, after, by rw [List.append_assoc]⟩
      · -- the last character inside would be one of the run
        obtain ⟨c, hc⟩ := Option.isSome_iff_exists.1 (List.getLast?_isSome.2 hnil)
        have hmem : c ∈ List.replicate n q := by
          rw [hrun]
          exact List.mem_append_left _ (List.mem_of_getLast? hc)
        apply h.last
        rw [List.getLast?_append, hc, List.eq_of_mem_replicate hmem]
        rfl

private theorem Delimited.eq {cs ds r s : List Char} {n : Nat} {q : Char} (hcs : Delimited cs n q)
    (hds : Delimited ds n q) (heq : cs ++ (List.replicate n q ++ r) = ds ++ (List.replicate n q ++ s)) :
    cs = ds ∧ r = s := by
  have hlength : cs.length = ds.length := Nat.le_antisymm (hcs.length_le heq) (hds.length_le heq.symm)
  obtain ⟨hinside, hrest⟩ := List.append_inj heq hlength
  exact ⟨hinside, List.append_cancel_left hrest⟩

/-- Two opening runs are the same. -/
private theorem Delimited.run_eq {cs ds r s : List Char} {m n : Nat} {p q : Char} (hcs : Delimited cs m p)
    (hds : Delimited ds n q) (heq : List.replicate m p ++ (cs ++ r) = List.replicate n q ++ (ds ++ s)) :
    m = n ∧ p = q := by
  have hstops : ∀ {xs : List Char} {k : Nat} {u : Char} (rest : List Char), Delimited xs k u →
      Stops (· == u) (xs ++ rest) := by
    intro xs k u rest h c hc
    cases xs with
    | nil => exact absurd rfl h.nonempty
    | cons x xs => simpa using h.head c hc
  have hquote : p = q := by
    obtain ⟨m', rfl⟩ := Nat.exists_eq_succ_of_ne_zero (Nat.pos_iff_ne_zero.1 hcs.pos)
    obtain ⟨n', rfl⟩ := Nat.exists_eq_succ_of_ne_zero (Nat.pos_iff_ne_zero.1 hds.pos)
    exact (List.cons.inj heq).1
  subst hquote
  have hrun : Framed (fun _ : Nat => True) (Stops (· == p)) fun k => List.replicate k p := by
    refine .of_run ?_ ?_
    · intro k _ c hc
      simpa using List.eq_of_mem_replicate hc
    · intro j k _ _ h
      simpa using congrArg List.length h
  exact ⟨(hrun trivial trivial (hstops r hcs) (hstops s hds) heq).1, rfl⟩

end Script

/-! ### Conditions -/

/-- Pieces that start with a column and do not end in a double quote. -/
structure IsCondition (pieces : List Piece) : Prop where
  text_ne : ∀ s, .text s ∈ pieces → s ≠ ""
  head : ∃ name rest, pieces = .column name :: rest
  last : (Script.body pieces).getLast? ≠ some '"'

/-- The template of such pieces. -/
def Template.OfCondition (t : Template) : Prop :=
  ∃ pieces, t = ofPieces pieces ∧ IsCondition pieces

/-- The template is a condition whose names hold no backquotes. -/
structure Template.Plain (t : Template) : Prop where
  condition : t.OfCondition
  unquoted : ∀ name ∈ t.mentions, Unquoted name

theorem IsCondition.exists_delimiter {pieces : List Piece} (h : IsCondition pieces) :
    ∃ n q, Script.delimiter (Script.body pieces) = List.replicate n q ∧ Script.Delimited (Script.body pieces) n q := by
  obtain ⟨name, rest, rfl⟩ := h.head
  exact Script.exists_delimiter (List.cons_ne_nil _ _) (by simp [Script.body, Script.pieceChars]) h.last

namespace Script

theorem toList_templateText (t : Template) :
    (templateText t).toList = 's' :: (delimiter (body t) ++ (body t ++ delimiter (body t))) := by
  simp [templateText]

theorem framed_templateText : Framed Template.Plain (fun _ => True) fun t => (templateText t).toList := by
  rintro _ _ r s ⟨⟨pieces, rfl, h⟩, hnames⟩ ⟨⟨pieces', rfl, h'⟩, hnames'⟩ _ _ heq
  obtain ⟨m, p, hdelimiter, hinside⟩ := h.exists_delimiter
  obtain ⟨n, q, hdelimiter', hinside'⟩ := h'.exists_delimiter
  simp only [toList_templateText, Template.body_ofPieces, hdelimiter, hdelimiter', List.cons_append,
    List.append_assoc, List.cons.injEq, true_and] at heq
  obtain ⟨rfl, rfl⟩ := hinside.run_eq hinside' heq
  obtain ⟨hbody, hrest⟩ := hinside.eq hinside' (List.append_cancel_left heq)
  rw [Template.mentions_ofPieces] at hnames hnames'
  exact ⟨Template.ofPieces_eq_of_body_eq h.text_ne h'.text_ne hnames hnames' hbody, hrest⟩

private theorem getLast?_escaped (cs : List Char) : (cs.flatMap escaped).getLast? = cs.getLast? := by
  rcases cs.eq_nil_or_concat with rfl | ⟨front, c, rfl⟩
  · rfl
  · have hlast : (escaped c).getLast? = some c := by
      unfold escaped
      split <;> rfl
    simp [hlast]

end Script

private theorem getLast?_append_ne {cs ds : List Char} {q : Char} (hcs : cs.getLast? ≠ some q)
    (hds : ds.getLast? ≠ some q) : (cs ++ ds).getLast? ≠ some q := by
  rw [List.getLast?_append]
  cases h : ds.getLast? with
  | none => exact hcs
  | some c => rwa [h] at hds

namespace IsCondition

private theorem column_text {column s : String} (hne : s ≠ "") (hlast : s.toList.getLast? ≠ some '"') :
    IsCondition [.column column, .text s] where
  text_ne t ht := by
    simp only [List.mem_cons, reduceCtorEq, Piece.text.injEq, List.not_mem_nil, or_false, false_or] at ht
    rwa [ht]
  head := ⟨column, _, rfl⟩
  last := by
    have hbody : Script.body [.column column, .text s] =
        Script.pieceChars (.column column) ++ s.toList.flatMap Script.escaped := by
      simp [Script.body, Script.pieceChars]
    have hcolumn : (Script.pieceChars (.column column)).getLast? ≠ some '"' := by
      rw [Script.pieceChars, List.getLast?_concat]
      decide
    rw [hbody]
    refine getLast?_append_ne hcolumn ?_
    rwa [Script.getLast?_escaped]

private theorem columns {column other s : String} (hne : s ≠ "") :
    IsCondition [.column column, .text s, .column other] where
  text_ne t ht := by
    simp only [List.mem_cons, reduceCtorEq, Piece.text.injEq, List.not_mem_nil, or_false, false_or] at ht
    rwa [ht]
  head := ⟨column, _, rfl⟩
  last := by
    have hbody : Script.body [.column column, .text s, .column other] = Script.pieceChars (.column column) ++
        (s.toList.flatMap Script.escaped ++ '\x7b' :: (Script.columnText other).toList) ++ ['\x7d'] := by
      simp [Script.body, Script.pieceChars]
    rw [hbody, List.getLast?_concat]
    decide

/-- Two conditions with a text between them are a condition. -/
private theorem append {pieces pieces' : List Piece} (h : IsCondition pieces) {s : String} (hs : s ≠ "")
    (h' : IsCondition pieces') : IsCondition (pieces ++ ([.text s] ++ pieces')) where
  text_ne t ht := by
    rcases List.mem_append.1 ht with ht | ht
    · exact h.text_ne t ht
    · rcases List.mem_cons.1 ht with heq | ht
      · cases heq
        exact hs
      · exact h'.text_ne t ht
  head := by
    obtain ⟨name, rest, rfl⟩ := h.head
    exact ⟨name, _, List.cons_append⟩
  last := by
    have hne : Script.body pieces' ≠ [] := by
      obtain ⟨name, rest, rfl⟩ := h'.head
      exact List.cons_ne_nil _ _
    have hbody : Script.body (pieces ++ ([.text s] ++ pieces')) =
        Script.body pieces ++ Script.body [.text s] ++ Script.body pieces' := by
      simp [Script.body]
    obtain ⟨c, hc⟩ := Option.isSome_iff_exists.1 (List.getLast?_isSome.2 hne)
    have hlast := h'.last
    rw [hc] at hlast
    rwa [hbody, List.getLast?_append, hc]

private theorem intercalate {s : String} (hs : s ≠ "") {conditions : List (List Piece)} (hne : conditions ≠ [])
    (h : ∀ pieces ∈ conditions, IsCondition pieces) : IsCondition ([.text s].intercalate conditions) := by
  induction conditions with
  | nil => exact absurd rfl hne
  | cons pieces conditions ih =>
    have hpieces := h pieces List.mem_cons_self
    cases conditions with
    | nil => rwa [List.intercalate_singleton]
    | cons pieces' conditions =>
      have hrest := ih (List.cons_ne_nil _ _) fun p hp => h p (List.mem_cons_of_mem pieces hp)
      rw [List.intercalate_cons_cons, List.append_assoc]
      exact hpieces.append hs hrest

end IsCondition

/-- Nothing but a digit, a sign or a point stands in a number. -/
private theorem getLast?_ne_quote (negative : Bool) {written : List Char} (h : IsNumber written) :
    ((if negative then ['-'] else []) ++ written).getLast? ≠ some '"' := by
  intro hlast
  rcases List.mem_append.1 (List.mem_of_getLast? hlast) with hmem | hmem
  · cases negative
    · cases hmem
    · exact absurd (List.mem_singleton.1 hmem) (by decide)
  · rcases h.isDigit_or_eq_point hmem with hdigit | hpoint
    · exact absurd hdigit (by decide)
    · exact absurd hpoint (by decide)

/-- No literal ends in a double quote where it is written in SQL. -/
private theorem Literal.getLast?_token_text (value : Literal) : value.token.text.toList.getLast? ≠ some '"' := by
  cases value with
  | null => decide
  | boolean b => cases b <;> decide
  | integer n =>
    show (toString n.toInt).toList.getLast? ≠ _
    rw [Json.toList_toString_int]
    exact getLast?_ne_quote _ (isNumber_toDigits _)
  | unsigned n =>
    have hdigits : (toString n.toNat).toList = Nat.toDigits 10 n.toNat := Nat.toList_repr
    show (toString n.toNat).toList.getLast? ≠ _
    rw [hdigits]
    exact getLast?_ne_quote false (isNumber_toDigits _)
  | float d =>
    show d.plain.toList.getLast? ≠ _
    rw [Double.toList_plain]
    exact getLast?_ne_quote _ (Decimal.isNumber_positional _)
  | string s =>
    show (Sql.enclosed '\x27' s).toList.getLast? ≠ _
    rw [Sql.enclosed, String.toList_ofList, List.getLast?_concat]
    decide

private theorem Operator.getLast?_sql (o : Operator) : o.form.sql.toList.getLast? ≠ some '"' := by
  cases o <;> decide

section Filters

variable {tables : List Table}

theorem Condition.isCondition {c : Condition} {pieces : List Piece} (h : c.pieces tables = .ok pieces) :
    IsCondition pieces := by
  simp only [Condition.pieces, bind_eq_ok_iff] at h
  obtain ⟨column, -, h⟩ := h
  have hwords : (" " ++ c.operator.form.sql).toList.getLast? ≠ some '"' := by
    rw [String.toList_append]
    exact getLast?_append_ne (by decide) c.operator.getLast?_sql
  have hvalue : ∀ value : String, value.toList.getLast? ≠ some '"' →
      (" " ++ c.operator.form.sql ++ " " ++ value).toList.getLast? ≠ some '"' := by
    intro value hlast
    rw [String.toList_append, String.toList_append]
    exact getLast?_append_ne (getLast?_append_ne hwords (by decide)) hlast
  split at h
  · cases h
    exact .column_text (by simp) hwords
  · split at h
    · rename_i pattern _
      cases h
      exact .column_text (by simp) (hvalue _ (Literal.string pattern).getLast?_token_text)
    · cases h
  · cases h
  · obtain ⟨other, -, h⟩ := bind_eq_ok_iff.1 h
    cases h
    exact .columns (by simp)
  · rename_i value _ _
    cases h
    exact .column_text (by simp) (hvalue _ value.getLast?_token_text)

/-- The template of a filter is a condition, if there are any. -/
theorem Filter.ofCondition {f : Filter} {t : Template} (h : f.predicate tables = .ok t) (hne : t ≠ []) :
    t.OfCondition := by
  simp only [predicate, bind_eq_ok_iff, Except.ok.injEq] at h
  obtain ⟨conditions, hconditions, rfl⟩ := h
  refine ⟨_, rfl, .intercalate ?_ ?_ ?_⟩
  · cases f.connective <;> decide
  · rintro rfl
    exact hne rfl
  · intro pieces hpieces
    have hmem : (.ok pieces : Except Cause _) ∈ conditions.map .ok := List.mem_map_of_mem hpieces
    rw [← mapM_eq_ok_iff.1 hconditions] at hmem
    obtain ⟨c, -, hc⟩ := List.mem_map.1 hmem
    exact Condition.isCondition hc

end Filters

end TableFlow
