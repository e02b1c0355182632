/-!
# A lexer for SQL

Lexemes are what a database sees in an SQL text: words, numbers, signs, strings and identifiers without their quotes,
and the numbers of placeholders (`Sql.lex`).  Blanks and comments separate lexemes and are nothing themselves.  The
lexer is a specification: nothing but proofs uses it.

Each reader gives what it read and what follows, which is a suffix of its text (`Sql.first?_suffix`), so the lexer
comes to an end.
-/

namespace TableFlow.Sql

/-- A lexical unit of SQL, decoded. -/
inductive Lexeme where
  | word (text : String)
  | number (text : String)
  | sign (text : String)
  | string (text : String)
  | identifier (name : String)
  | placeholder (n : Nat)
deriving DecidableEq

/-! ### The lexer -/

/-- The body of a quoted text and what follows its closing quote; two quotes beside each other are one of the body. -/
def quoted? (q : Char) : List Char → Option (List Char × List Char)
  | [] => none
  | [c] => if c = q then some ([], []) else none
  | c :: d :: rest =>
    if c = q then
      if d = q then (quoted? q rest).map fun (body, rest) => (q :: body, rest)
      else some ([], d :: rest)
    else (quoted? q (d :: rest)).map fun (body, rest) => (c :: body, rest)

/-- What follows a comment in brackets; comments inside it are open at `depth` places. -/
def afterComment? : Nat → List Char → Option (List Char)
  | 0, '*' :: '/' :: cs => some cs
  | depth + 1, '*' :: '/' :: cs => afterComment? depth cs
  | depth, '/' :: '*' :: cs => afterComment? (depth + 1) cs
  | depth, _ :: cs => afterComment? depth cs
  | _, [] => none

/-- A character that a word may start with. -/
def startsWord (c : Char) : Bool :=
  c.isAlpha || c == '_' || 128 ≤ c.toNat

/-- A character that may follow in a word. -/
def continuesWord (c : Char) : Bool :=
  startsWord c || c.isDigit || c == '$'

/-- The fraction of a number with its point, if there is one, and what follows. -/
def fraction : List Char → List Char × List Char
  | '.' :: cs => ('.' :: cs.takeWhile Char.isDigit, cs.dropWhile Char.isDigit)
  | cs => ([], cs)

/-- The sign of an exponent, if there is one, and what follows. -/
def exponentSign : List Char → List Char × List Char
  | '+' :: cs => (['+'], cs)
  | '-' :: cs => (['-'], cs)
  | cs => ([], cs)

/-- The exponent of a number with its letter, if there is one, and what follows. -/
def exponent : List Char → List Char × List Char
  | [] => ([], [])
  | c :: cs =>
    let (sign, behind) := exponentSign cs
    let run := behind.takeWhile Char.isDigit
    if (c = 'e' ∨ c = 'E') ∧ run ≠ [] then (c :: sign ++ run, behind.dropWhile Char.isDigit) else ([], c :: cs)

/-- A number and what follows it, which is no word. -/
def number? (cs : List Char) : Option (Lexeme × List Char) :=
  let whole := cs.takeWhile Char.isDigit
  let (places, behind) := fraction (cs.dropWhile Char.isDigit)
  let (power, rest) := exponent behind
  if rest.head?.any continuesWord then none else some (.number (.ofList (whole ++ places ++ power)), rest)

/-- The number of a placeholder and what follows it. -/
def placeholder? (cs : List Char) : Option (Lexeme × List Char) :=
  match cs.takeWhile Char.isDigit with
  | [] => none
  | run => some (.placeholder (Nat.ofDigitChars 10 run 0), cs.dropWhile Char.isDigit)

/-- The signs of two characters. -/
def doubleSigns : List (List Char) :=
  [['<', '>'], ['<', '='], ['>', '='], ['!', '='], ['|', '|'], [':', ':']]

/-- The signs of one character. -/
def singleSigns : List Char :=
  ['+', '-', '*', '/', '%', '<', '>', '=', ',', '.', ';', ':', '(', ')', '[', ']']

/-- A sign and what follows it; of two characters, if they can be one sign. -/
def sign? : List Char → Option (Lexeme × List Char)
  | [] => none
  | c :: cs =>
    if c :: cs.take 1 ∈ doubleSigns then some (.sign (.ofList (c :: cs.take 1)), cs.drop 1)
    else if c ∈ singleSigns then some (.sign (.ofList [c]), cs)
    else none

/-- The lexeme that a text starts with, nothing being found in a blank or a comment, and what follows it. -/
def first? : List Char → Option (Option Lexeme × List Char)
  | [] => none
  | c :: cs =>
    if c.isWhitespace then some (none, cs)
    else if c = '-' ∧ cs.head? = some '-' then some (none, cs.dropWhile (· != '\n'))
    else if c = '/' ∧ cs.head? = some '*' then (afterComment? 0 (cs.drop 1)).map (none, ·)
    else if c = '\x27' then (quoted? c cs).map fun (body, rest) => (some (.string (.ofList body)), rest)
    else if c = '"' then (quoted? c cs).map fun (body, rest) => (some (.identifier (.ofList body)), rest)
    else if c = '$' then (placeholder? cs).map fun (l, rest) => (some l, rest)
    else if c.isDigit ∨ (c = '.' ∧ cs.head?.any Char.isDigit) then
      (number? (c :: cs)).map fun (l, rest) => (some l, rest)
    else if startsWord c then
      some (some (.word (.ofList (c :: cs.takeWhile continuesWord))), cs.dropWhile continuesWord)
    else (sign? (c :: cs)).map fun (l, rest) => (some l, rest)

/-! ### What is left is behind what was read -/

section Suffixes

variable {cs rest : List Char}

/-- What is read does not matter for what is left. -/
private theorem exists_of_map_eq_some {α : Type} {f : α × List Char → Option Lexeme × List Char} {l : Option Lexeme}
    {read : Option (α × List Char)} (h : read.map f = some (l, rest)) (hf : ∀ r, (f r).2 = r.2) :
    ∃ a, read = some (a, rest) := by
  obtain ⟨⟨a, rest'⟩, hread, heq⟩ := Option.map_eq_some_iff.1 h
  have hrest := hf (a, rest')
  rw [heq] at hrest
  obtain rfl : rest = rest' := hrest
  exact ⟨a, hread⟩

private theorem quoted?_suffix {q : Char} {body : List Char} (h : quoted? q cs = some (body, rest)) : rest <:+ cs := by
  fun_induction quoted? q cs generalizing body with
  | case1 => cases h
  | case2 => simp_all
  | case3 => cases h
  | case4 tail ih =>
    obtain ⟨⟨body', rest'⟩, hread, heq⟩ := Option.map_eq_some_iff.1 h
    cases heq
    exact (ih hread).trans (List.suffix_append [q, q] tail)
  | case5 d tail hd =>
    cases h
    exact List.suffix_cons q (d :: tail)
  | case6 c d tail hc ih =>
    obtain ⟨⟨body', rest'⟩, hread, heq⟩ := Option.map_eq_some_iff.1 h
    cases heq
    exact (ih hread).trans (List.suffix_cons c (d :: tail))

private theorem afterComment?_suffix {depth : Nat} (h : afterComment? depth cs = some rest) : rest <:+ cs := by
  fun_induction afterComment? depth cs with
  | case1 tail =>
    cases h
    exact List.suffix_append ['*', '/'] _
  | case2 depth tail ih => exact (ih h).trans (List.suffix_append ['*', '/'] _)
  | case3 depth tail ih => exact (ih h).trans (List.suffix_append ['/', '*'] _)
  | case4 depth c tail _ _ _ ih => exact (ih h).trans (List.suffix_cons c tail)
  | case5 => cases h

private theorem fraction_suffix (cs : List Char) : (fraction cs).2 <:+ cs := by
  fun_cases fraction cs with
  | case1 cs => exact (List.dropWhile_suffix _).trans (List.suffix_cons _ _)
  | case2 => exact List.suffix_refl cs

private theorem exponentSign_suffix (cs : List Char) : (exponentSign cs).2 <:+ cs := by
  fun_cases exponentSign cs with
  | case1 cs => exact List.suffix_cons _ _
  | case2 cs => exact List.suffix_cons _ _
  | case3 => exact List.suffix_refl cs

private theorem exponent_suffix (cs : List Char) : (exponent cs).2 <:+ cs := by
  cases cs with
  | nil => exact List.suffix_refl []
  | cons c cs =>
    simp only [exponent]
    split
    · exact ((List.dropWhile_suffix _).trans (exponentSign_suffix cs)).trans (List.suffix_cons c cs)
    · exact List.suffix_refl (c :: cs)

/-- A number starts with a digit or with a point. -/
private theorem number?_suffix {c : Char} {l : Lexeme} (hc : c.isDigit = true ∨ c = '.')
    (h : number? (c :: cs) = some (l, rest)) : rest <:+ cs := by
  have hplaces : (fraction ((c :: cs).dropWhile Char.isDigit)).2 <:+ cs := by
    rcases hc with hc | rfl
    · rw [List.dropWhile_cons_of_pos hc]
      exact (fraction_suffix _).trans (List.dropWhile_suffix _)
    · exact List.dropWhile_suffix _
  simp only [number?] at h
  split at h
  · cases h
  · cases h
    exact (exponent_suffix _).trans hplaces

private theorem placeholder?_suffix {l : Lexeme} (h : placeholder? cs = some (l, rest)) : rest <:+ cs := by
  rw [placeholder?] at h
  split at h
  · cases h
  · cases h
    exact List.dropWhile_suffix _

private theorem sign?_suffix {c : Char} {l : Lexeme} (h : sign? (c :: cs) = some (l, rest)) : rest <:+ cs := by
  rw [sign?] at h
  split at h
  · cases h
    exact List.drop_suffix 1 cs
  · split at h
    · cases h
      exact List.suffix_refl cs
    · cases h

theorem first?_suffix {c : Char} {l : Option Lexeme} (h : first? (c :: cs) = some (l, rest)) : rest <:+ cs := by
  rw [first?] at h
  split at h
  · cases h
    exact List.suffix_refl cs
  split at h
  · cases h
    exact List.dropWhile_suffix _
  split at h
  · obtain ⟨rest', hr, heq⟩ := Option.map_eq_some_iff.1 h
    cases heq
    exact (afterComment?_suffix hr).trans (List.drop_suffix 1 cs)
  split at h
  · obtain ⟨_, hr⟩ := exists_of_map_eq_some h fun _ => rfl
    exact quoted?_suffix hr
  split at h
  · obtain ⟨_, hr⟩ := exists_of_map_eq_some h fun _ => rfl
    exact quoted?_suffix hr
  split at h
  · obtain ⟨_, hr⟩ := exists_of_map_eq_some h fun _ => rfl
    exact placeholder?_suffix hr
  split at h
  · rename_i hc
    obtain ⟨_, hr⟩ := exists_of_map_eq_some h fun _ => rfl
    exact number?_suffix (hc.imp id And.left) hr
  split at h
  · cases h
    exact List.dropWhile_suffix _
  · obtain ⟨_, hr⟩ := exists_of_map_eq_some h fun _ => rfl
    exact sign?_suffix hr

end Suffixes

/-- The lexemes of a text. -/
def lex (cs : List Char) : Option (List Lexeme) :=
  match cs with
  | [] => some []
  | c :: cs =>
    match h : first? (c :: cs) with
    | none => none
    | some (l, rest) =>
      have : rest.length < cs.length + 1 := Nat.lt_succ_of_le (first?_suffix h).length_le
      (lex rest).map (l.toList ++ ·)
termination_by cs.length

/-! ### Single lexemes -/

theorem lex_nil : lex [] = some [] := by
  rw [lex]

theorem lex_of_first? {cs rest : List Char} {l : Option Lexeme} (h : first? cs = some (l, rest)) :
    lex cs = (lex rest).map (l.toList ++ ·) := by
  cases cs with
  | nil => cases h
  | cons c cs =>
    rw [lex]
    split
    · rename_i hnone
      rw [h] at hnone
      cases hnone
    · rename_i hsome
      rw [h] at hsome
      cases hsome
      rfl

end TableFlow.Sql
