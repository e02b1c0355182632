import TableFlow.Sql.Token
import TableFlow.Proofs.Lexing
import TableFlow.Proofs.Numerals

/-!
# Reading SQL tokens back

A text that was written token by token is read token by token, whatever its strings and identifiers hold
(`Sql.Reads.lex_text`): a quote that is doubled never ends the text that it stands in, and behind each token there is
something that does not belong to it.
-/

namespace TableFlow.Sql

/-- What stands behind a token that was written: nothing, a blank or a comma. -/
def Apart (rest : List Char) : Prop :=
  ∀ c, rest.head? = some c → c = ' ' ∨ c = ','

namespace Apart

private theorem nil : Apart [] := by
  intro c h
  cases h

private theorem cons {c : Char} (hc : c = ' ' ∨ c = ',') (rest : List Char) : Apart (c :: rest) := by
  intro d hd
  obtain rfl : c = d := by simpa using hd
  exact hc

theorem stops {p : Char → Bool} {rest : List Char} (h : Apart rest) (hblank : p ' ' = false) (hcomma : p ',' = false) :
    Stops p rest := by
  intro c hc
  rcases h c hc with rfl | rfl
  · exact hblank
  · exact hcomma

end Apart

/-- The lexer reads the characters as these lexemes and goes on behind them. -/
def IsRead (written : List Char) (lexemes : List Lexeme) (rest : List Char) : Prop :=
  lex (written ++ rest) = (lex rest).map (lexemes ++ ·)

private theorem IsRead.append {first second : List Char} {ls ms : List Lexeme} {rest : List Char}
    (hfirst : IsRead first ls (second ++ rest)) (hsecond : IsRead second ms rest) :
    IsRead (first ++ second) (ls ++ ms) rest := by
  rw [IsRead, List.append_assoc, hfirst, hsecond, Option.map_map]
  congr 1
  funext more
  exact (List.append_assoc ls ms more).symm

private theorem isRead_of_first? {written rest : List Char} {l : Option Lexeme}
    (h : first? (written ++ rest) = some (l, rest)) :
    IsRead written l.toList rest :=
  lex_of_first? h

private theorem isRead_blank (rest : List Char) : IsRead [' '] [] rest :=
  isRead_of_first? (l := none) rfl

theorem isRead_comma (rest : List Char) : IsRead [','] [.sign ","] rest := by
  refine isRead_of_first? (l := some (.sign ",")) ?_
  simp [first?, sign?, doubleSigns, singleSigns, startsWord]

/-! ### Quoted texts -/

private theorem quoted?_cons_of_ne {q c : Char} (h : c ≠ q) (cs : List Char) :
    quoted? q (c :: cs) = (quoted? q cs).map fun r => (c :: r.1, r.2) := by
  cases cs with
  | nil => simp [quoted?, h]
  | cons d cs => simp only [quoted?, if_neg h]

private theorem quoted?_close {q : Char} {rest : List Char} (hrest : Stops (· == q) rest) :
    quoted? q (q :: rest) = some ([], rest) := by
  cases rest with
  | nil => simp [quoted?]
  | cons d rest =>
    have hd : d ≠ q := by simpa using hrest d rfl
    simp [quoted?, hd]

/-- A body whose quotes are doubled is read back. -/
private theorem quoted?_doubled (q : Char) (body : List Char) {rest : List Char} (hrest : Stops (· == q) rest) :
    quoted? q (body.flatMap (fun c => if c = q then [q, q] else [c]) ++ q :: rest) = some (body, rest) := by
  induction body with
  | nil => exact quoted?_close hrest
  | cons c body ih =>
    rw [List.flatMap_cons, List.append_assoc]
    by_cases hc : c = q
    · rw [if_pos hc, List.cons_append, List.cons_append, List.nil_append]
      simp only [quoted?, if_true, ih, Option.map_some, hc]
    · rw [if_neg hc, List.singleton_append, quoted?_cons_of_ne hc, ih, Option.map_some]

private theorem toList_enclosed (q : Char) (s : String) (rest : List Char) :
    (enclosed q s).toList ++ rest =
      q :: (s.toList.flatMap (fun c => if c = q then [q, q] else [c]) ++ q :: rest) := by
  rw [enclosed, String.toList_ofList, List.cons_append, List.cons_append, List.append_assoc, List.singleton_append]

theorem isRead_identifier (name : String) {rest : List Char} (hrest : Stops (· == '"') rest) :
    IsRead (Token.identifier name).text.toList [.identifier name] rest := by
  refine isRead_of_first? (l := some (.identifier name)) ?_
  rw [Token.text, toList_enclosed]
  have hbody := quoted?_doubled '"' name.toList hrest
  simp [first?, hbody]

theorem isRead_string (text : String) {rest : List Char} (hrest : Stops (· == '\x27') rest) :
    IsRead (Token.string text).text.toList [.string text] rest := by
  refine isRead_of_first? (l := some (.string text)) ?_
  rw [Token.text, toList_enclosed]
  have hbody := quoted?_doubled '\x27' text.toList hrest
  simp [first?, hbody]

/-! ### Words and signs -/

/-- A word starts with a character that starts nothing else. -/
def isKeyword : List Char → Bool
  | [] => false
  | c :: cs => c.isAlpha && cs.all Char.isAlpha

private theorem isDigit_eq_false_of_isAlpha {c : Char} (h : c.isAlpha = true) : c.isDigit = false := by
  change (decide (c.val ≥ 'A'.val ∧ c.val ≤ 'Z'.val) || (decide (c.val ≥ 'a'.val) && decide (c.val ≤ 'z'.val))) = true
    at h
  show (decide (c.val ≥ '0'.val) && decide (c.val ≤ '9'.val)) = false
  simp only [Bool.or_eq_true, Bool.and_eq_true, decide_eq_true_eq, Bool.and_eq_false_iff, decide_eq_false_iff_not,
    ge_iff_le, UInt32.le_iff_toNat_le] at h ⊢
  have hnine : '9'.val.toNat = 57 := rfl
  have hA : 'A'.val.toNat = 65 := rfl
  have ha : 'a'.val.toNat = 97 := rfl
  omega

theorem isRead_keyword {text : String} (htext : isKeyword text.toList = true) {rest : List Char} (hrest : Apart rest) :
    IsRead text.toList [.word text] rest := by
  refine isRead_of_first? (l := some (.word text)) ?_
  obtain ⟨cs, rfl⟩ : ∃ cs, text = .ofList cs := ⟨text.toList, String.ofList_toList.symm⟩
  rw [String.toList_ofList] at htext ⊢
  cases cs with
  | nil => cases htext
  | cons c cs =>
    obtain ⟨hc, hcs⟩ := Bool.and_eq_true_iff.1 htext
    have hne : ∀ d, d.isAlpha = false → c ≠ d := by
      rintro d hd rfl
      rw [hc] at hd
      cases hd
    have hblank : c.isWhitespace = false := by
      simp [Char.isWhitespace, hne ' ' rfl, hne '\t' rfl, hne '\r' rfl, hne '\n' rfl]
    have hcontinues : ∀ d ∈ cs, continuesWord d = true := by
      intro d hd
      simp [continuesWord, startsWord, List.all_eq_true.1 hcs d hd]
    have hstops : Stops continuesWord rest := hrest.stops rfl rfl
    rw [List.cons_append, first?]
    simp only [hblank, hne '-' rfl, hne '/' rfl, hne '\x27' rfl, hne '"' rfl, hne '$' rfl, hne '.' rfl,
      isDigit_eq_false_of_isAlpha hc, startsWord, hc, takeWhile_run hcontinues hstops,
      dropWhile_run hcontinues hstops, Bool.true_or, Bool.false_eq_true, false_and, or_false, if_false, if_true]

/-- The signs that a condition is written with. -/
theorem isRead_sign {text : String} (htext : text ∈ ["*", "=", "<>", ">", "<", ">=", "<="]) {rest : List Char}
    (hrest : Apart rest) : IsRead text.toList [.sign text] rest := by
  refine isRead_of_first? (l := some (.sign text)) ?_
  cases rest with
  | nil =>
    simp only [List.mem_cons, List.not_mem_nil, or_false] at htext
    rcases htext with rfl | rfl | rfl | rfl | rfl | rfl | rfl <;> rfl
  | cons c rest =>
    simp only [List.mem_cons, List.not_mem_nil, or_false] at htext
    rcases hrest c rfl with rfl | rfl <;> rcases htext with rfl | rfl | rfl | rfl | rfl | rfl | rfl <;> rfl

/-! ### Numbers -/

private theorem fraction_of_apart {rest : List Char} (hrest : Apart rest) : fraction rest = ([], rest) := by
  cases rest with
  | nil => rfl
  | cons c rest => rcases hrest c rfl with rfl | rfl <;> rfl

private theorem exponent_of_apart {rest : List Char} (hrest : Apart rest) : exponent rest = ([], rest) := by
  cases rest with
  | nil => rfl
  | cons c rest => rcases hrest c rfl with rfl | rfl <;> simp [exponent]

private theorem number?_append {written rest : List Char} (h : IsNumber written) (hrest : Apart rest) :
    number? (written ++ rest) = some (.number (.ofList written), rest) := by
  obtain ⟨whole, places, rfl, -, hwhole, hplaces⟩ := h
  have hstop : rest.head?.any continuesWord = false := by
    cases hhead : rest.head? with
    | none => rfl
    | some c => exact hrest.stops (p := continuesWord) rfl rfl c hhead
  have hplaces : Stops Char.isDigit (places ++ rest) ∧ fraction (places ++ rest) = (places, rest) := by
    rcases hplaces with rfl | ⟨digits, rfl, hdigits⟩
    · exact ⟨hrest.stops rfl rfl, fraction_of_apart hrest⟩
    · have hrest' : Stops Char.isDigit rest := hrest.stops rfl rfl
      refine ⟨Stops.cons rfl _, ?_⟩
      rw [List.cons_append, fraction, takeWhile_run hdigits hrest', dropWhile_run hdigits hrest']
  rw [List.append_assoc, number?]
  simp only [takeWhile_run hwhole hplaces.1, dropWhile_run hwhole hplaces.1, hplaces.2, exponent_of_apart hrest,
    hstop, List.append_nil, Bool.false_eq_true, if_false]

theorem isRead_number {written rest : List Char} (h : IsNumber written) (hrest : Apart rest) :
    IsRead written [.number (.ofList written)] rest := by
  refine isRead_of_first? (l := some (.number (.ofList written))) ?_
  have hread := number?_append h hrest
  obtain ⟨whole, places, rfl, hne, hwhole, -⟩ := h
  obtain ⟨c, more, rfl⟩ := List.exists_cons_of_ne_nil hne
  have hc := hwhole c List.mem_cons_self
  have hblank : c.isWhitespace = false := by
    simp [Char.isWhitespace, ne_of_isDigit hc (d := ' ') rfl, ne_of_isDigit hc (d := '\t') rfl,
      ne_of_isDigit hc (d := '\r') rfl, ne_of_isDigit hc (d := '\n') rfl]
  rw [List.cons_append, List.cons_append] at hread ⊢
  simp only [first?, hblank, ne_of_isDigit hc (d := '-') rfl, ne_of_isDigit hc (d := '/') rfl,
    ne_of_isDigit hc (d := '\x27') rfl, ne_of_isDigit hc (d := '"') rfl, ne_of_isDigit hc (d := '$') rfl, hc, hread,
    Bool.false_eq_true, false_and, true_or, if_false, if_true, Option.map_some]

/-- A minus in front of a number starts no comment. -/
private theorem isRead_minus {written : List Char} (h : IsNumber written) (rest : List Char) :
    IsRead ['-'] [.sign "-"] (written ++ rest) := by
  refine isRead_of_first? (l := some (.sign "-")) ?_
  obtain ⟨whole, places, rfl, hne, hwhole, -⟩ := h
  obtain ⟨c, more, rfl⟩ := List.exists_cons_of_ne_nil hne
  have hc := ne_of_isDigit (hwhole c List.mem_cons_self) (d := '-') rfl
  simp [first?, sign?, doubleSigns, singleSigns, startsWord, hc]

/-- The lexemes of a number with a sign. -/
def signed (negative : Bool) (written : List Char) : List Lexeme :=
  (if negative then [.sign "-"] else []) ++ [.number (.ofList written)]

theorem isRead_signed (negative : Bool) {written rest : List Char} (h : IsNumber written) (hrest : Apart rest) :
    IsRead ((if negative then ['-'] else []) ++ written) (signed negative written) rest := by
  cases negative with
  | false => exact isRead_number h hrest
  | true => exact (isRead_minus h rest).append (isRead_number h hrest)

theorem isRead_placeholder (n : Nat) {rest : List Char} (hrest : Apart rest) :
    IsRead (Token.placeholder n).text.toList [.placeholder n] rest := by
  refine isRead_of_first? (l := some (.placeholder n)) ?_
  have htext : (Token.placeholder n).text.toList = '$' :: Nat.toDigits 10 n := by
    show ("$" ++ Nat.repr n).toList = _
    rw [String.toList_append, Nat.toList_repr]
    rfl
  have hdigits : ∀ c ∈ Nat.toDigits 10 n, c.isDigit = true := fun _ h => isDigit_of_mem_toDigits h
  have hstops : Stops Char.isDigit rest := hrest.stops rfl rfl
  have hread : placeholder? (Nat.toDigits 10 n ++ rest) = some (.placeholder n, rest) := by
    rw [placeholder?, takeWhile_run hdigits hstops, dropWhile_run hdigits hstops]
    split
    · rename_i hnil
      exact absurd hnil Nat.toDigits_ne_nil
    · rw [Nat.ofDigitChars_ten_toDigits]
  rw [htext, List.cons_append]
  simp [first?, hread]

/-! ### Lists of tokens -/

/-- The token is read as these lexemes wherever something else stands behind it. -/
def Token.IsRead (t : Token) (ls : List Lexeme) : Prop :=
  ∀ rest, Apart rest → Sql.IsRead t.text.toList ls rest

/-- The tokens are read as the lexemes; a point stands only between two identifiers. -/
inductive Reads : List Token → List Lexeme → Prop
  | nil : Reads [] []
  | cons {t : Token} {tokens : List Token} {ls more : List Lexeme} (token : t.IsRead ls) (ne : t ≠ .point)
    (tail : Reads tokens more) : Reads (t :: tokens) (ls ++ more)
  | qualified (first second : String) {tokens : List Token} {more : List Lexeme} (tail : Reads tokens more) :
    Reads (.identifier first :: .point :: .identifier second :: tokens)
      (.identifier first :: .sign "." :: .identifier second :: more)

namespace Reads

variable {tokens others : List Token} {ls ms : List Lexeme}

theorem append (h : Reads tokens ls) (h' : Reads others ms) : Reads (tokens ++ others) (ls ++ ms) := by
  induction h with
  | nil => exact h'
  | cons token ne _ ih =>
    rw [List.append_assoc]
    exact .cons token ne ih
  | qualified first second _ ih => exact .qualified first second ih

theorem intercalate {separator : Token} {l : Lexeme} (hseparator : separator.IsRead [l]) (hne : separator ≠ .point) :
    ∀ {parts : List (List Token)} {lexemes : List (List Lexeme)}, parts.length = lexemes.length →
      (∀ part ∈ parts.zip lexemes, Reads part.1 part.2) →
      Reads ([separator].intercalate parts) ([l].intercalate lexemes)
  | [], [], _, _ => .nil
  | [part], [ls], _, h => by simpa using h (part, ls) (by simp)
  | part :: part' :: parts, ls :: ls' :: lexemes, hlength, h => by
    have htail : Reads ([separator].intercalate (part' :: parts)) ([l].intercalate (ls' :: lexemes)) :=
      intercalate hseparator hne (Nat.succ.inj hlength) fun p hp => h p (List.mem_cons_of_mem _ hp)
    rw [List.intercalate_cons_cons, List.intercalate_cons_cons, List.append_assoc, List.append_assoc]
    exact (h (part, ls) List.mem_cons_self).append (.cons hseparator hne htail)

private theorem head_ne_point {u : Token} (h : Reads (u :: tokens) ls) : u ≠ .point := by
  cases h with
  | cons _ ne _ => exact ne
  | qualified => exact Token.noConfusion

end Reads

theorem Token.gap_of_ne_point {t u : Token} (ht : t ≠ .point) (hu : u ≠ .point) :
    t.gap u = if u = .comma then "" else " " := by
  cases t <;> cases u <;> first | rfl | exact absurd rfl ht | exact absurd rfl hu

private theorem head?_text_comma (tokens : List Token) : (text (.comma :: tokens)).toList.head? = some ',' := by
  cases tokens with
  | nil => rfl
  | cons u tokens =>
    rw [text, String.toList_append, String.toList_append]
    rfl

private theorem exists_toList_text_identifier (name : String) (tokens : List Token) :
    ∃ cs, (text (.identifier name :: tokens)).toList = '"' :: cs := by
  have hname : ∀ rest, ∃ cs, (Token.identifier name).text.toList ++ rest = '"' :: cs := fun rest =>
    ⟨_, toList_enclosed '"' name rest⟩
  cases tokens with
  | nil =>
    have h := hname []
    rwa [List.append_nil] at h
  | cons u tokens =>
    rw [text, String.toList_append, String.toList_append, List.append_assoc]
    exact hname _

/-- One more token in front. -/
private theorem lex_text_cons {t : Token} {tokens : List Token} {ls more : List Lexeme} (token : t.IsRead ls)
    (ne : t ≠ .point) (tail : Reads tokens more) (htail : lex (text tokens).toList = some more) :
    lex (text (t :: tokens)).toList = some (ls ++ more) := by
  cases tokens with
  | nil =>
    have hread := token [] Apart.nil
    rw [Sql.IsRead, List.append_nil, lex_nil] at hread
    have hmore : some [] = some more := by rwa [text, String.toList_empty, lex_nil] at htail
    rw [text, hread, ← Option.some.inj hmore, Option.map_some]
  | cons u tokens =>
    have hu := tail.head_ne_point
    rw [text, String.toList_append, String.toList_append, Token.gap_of_ne_point ne hu]
    by_cases hcomma : u = .comma
    · subst hcomma
      have hapart : Apart (text (.comma :: tokens)).toList := by
        intro c hc
        rw [head?_text_comma] at hc
        exact .inr (Option.some.inj hc).symm
      rw [if_pos rfl, String.toList_empty, List.append_nil, token _ hapart, htail, Option.map_some]
    · have hblank : Sql.IsRead t.text.toList ls ([' '] ++ (text (u :: tokens)).toList) :=
        token _ (Apart.cons (.inl rfl) _)
      have hread := hblank.append (isRead_blank _)
      rw [Sql.IsRead, htail, List.append_nil] at hread
      rw [if_neg hcomma]
      exact hread

/-- What was written as tokens is read as their lexemes. -/
theorem Reads.lex_text {tokens : List Token} {ls : List Lexeme} (h : Reads tokens ls) :
    lex (text tokens).toList = some ls := by
  induction h with
  | nil => exact lex_nil
  | cons token ne tail ih => exact lex_text_cons token ne tail ih
  | @qualified first second tokens more tail ih =>
    have hsecond := lex_text_cons (fun _ hrest => isRead_identifier second (hrest.stops rfl rfl)) Token.noConfusion
      tail ih
    obtain ⟨cs, hcs⟩ := exists_toList_text_identifier second tokens
    have hpoint : IsRead ['.'] [.sign "."] (text (.identifier second :: tokens)).toList := by
      refine isRead_of_first? (l := some (.sign ".")) ?_
      rw [hcs]
      simp [first?, sign?, doubleSigns, singleSigns, startsWord]
    have hfirst := (isRead_identifier first (Stops.cons (c := '.') rfl _)).append hpoint
    rw [IsRead, hsecond] at hfirst
    have htext : (text (.identifier first :: .point :: .identifier second :: tokens)).toList =
        (Token.identifier first).text.toList ++ ['.'] ++ (text (.identifier second :: tokens)).toList := by
      have hbefore : (Token.identifier first).gap .point = "" := rfl
      have hbehind : Token.point.gap (.identifier second) = "" := rfl
      have hpoint : Token.point.text.toList = ['.'] := rfl
      rw [text, text, hbefore, hbehind]
      simp only [String.toList_append, String.toList_empty, hpoint, List.append_nil, List.append_assoc]
    rw [htext, hfirst, Option.map_some]
    rfl

end TableFlow.Sql
