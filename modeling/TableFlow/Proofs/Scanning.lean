import TableFlow.Json.Reader
import TableFlow.Proofs.Numerals

/-!
# Scanning written JSON

The first half of reading a written value back: its text is scanned into the tokens that it was written as
(`Json.Value.Sound.run_chars`).  A value is sound when its text can say all of it: nothing in it is unreadable and its
integers fit 64 bits.
-/

namespace TableFlow.Json

/-- The value is what its text says, and it nests containers at most `room` deep. -/
inductive Value.Sound : Nat → Value → Prop
  | null {room : Nat} : Sound room .null
  | bool {room : Nat} (b : Bool) : Sound room (.bool b)
  | int {room : Nat} {n : Int} (exact : isExactInt n = true) : Sound room (.int n)
  | double {room : Nat} (d : Double) : Sound room (.double d)
  | string {room : Nat} (s : String) : Sound room (.string s)
  | array {room : Nat} {items : List Value} (parts : ∀ v ∈ items, Sound room v) : Sound (room + 1) (.array items)
  | object {room : Nat} {members : List (String × Value)} (parts : ∀ m ∈ members, Sound room m.2) :
    Sound (room + 1) (.object members)

namespace Value

mutual

/-- The tokens that a value is written as. -/
def tokens : Value → List Token
  | string s => [.text (some s)]
  | array items => .openArray :: itemTokens items ++ [.closeArray]
  | object members => .openObject :: memberTokens members ++ [.closeObject]
  | v => [.scalar v]

/-- The tokens of items with commas between them. -/
def itemTokens : List Value → List Token
  | [] => []
  | [v] => v.tokens
  | v :: items => v.tokens ++ .comma :: itemTokens items

/-- The tokens of members with commas between them. -/
def memberTokens : List (String × Value) → List Token
  | [] => []
  | [(name, v)] => .text (some name) :: .colon :: v.tokens
  | (name, v) :: members => .text (some name) :: .colon :: v.tokens ++ .comma :: memberTokens members

end

end Value

/-! ### Scanners at work -/

namespace Scan

/-- The tokens that a scanner ends with behind a text. -/
def run (s : Scan) (cs : List Char) : Option (List Token) := do
  let s ← cs.foldlM step s
  s.finish

private theorem run_cons {s s' : Scan} {c : Char} (h : s.step c = some s') (cs : List Char) :
    s.run (c :: cs) = s'.run cs := by
  simp [run, h]

private theorem run_punctuation {c : Char} {t : Token} (h : punctuation? c = some t) (hspace : isSpace c = false)
    (hquote : c ≠ '"') (back : List Token) (cs : List Char) :
    run ⟨back, .gap⟩ (c :: cs) = run ⟨t :: back, .gap⟩ cs := by
  refine run_cons ?_ cs
  simp [step, fromGap, hspace, hquote, h]

/-! ### Words -/

/-- The text ends here or goes on with a delimiter. -/
def Ends (rest : List Char) : Prop :=
  ∀ c, rest.head? = some c → isDelimiter c = true

private theorem Ends.nil : Ends [] := by
  intro c h
  cases h

private theorem Ends.cons {c : Char} (h : isDelimiter c = true) (rest : List Char) : Ends (c :: rest) := by
  intro d hd
  obtain rfl : c = d := by simpa using hd
  exact h

/-- Inside a word, characters that are no delimiters belong to it. -/
private theorem run_word_append {word more : List Char} (hmore : ∀ c ∈ more, isDelimiter c = false) (back : List Token)
    (rest : List Char) :
    run ⟨back, .word word⟩ (more ++ rest) = run ⟨back, .word (more.reverse ++ word)⟩ rest := by
  induction more generalizing word with
  | nil => rfl
  | cons c more ih =>
    obtain ⟨hc, hmore⟩ := List.forall_mem_cons.1 hmore
    have hstep : step ⟨back, .word word⟩ c = some ⟨back, .word (c :: word)⟩ := by simp [step, hc]
    rw [List.cons_append, run_cons hstep, ih hmore, List.reverse_cons, List.append_assoc, List.singleton_append]

/-- A word ends where the text does or a delimiter follows. -/
private theorem run_word_end {word : List Char} {v : Value} (hv : Value.ofWord? word.reverse = some v)
    {rest : List Char} (hrest : Ends rest) (back : List Token) :
    run ⟨back, .word word⟩ rest = run ⟨.scalar v :: back, .gap⟩ rest := by
  cases rest with
  | nil => simp [run, finish, hv]
  | cons c rest =>
    have hc := hrest c rfl
    have hstep : step ⟨back, .word word⟩ c = step ⟨.scalar v :: back, .gap⟩ c := by simp [step, hc, hv]
    simp only [run, List.foldlM_cons, hstep]

/-- A word without delimiters is scanned to its value. -/
theorem run_word {word : List Char} {v : Value} (hne : word ≠ []) (hword : ∀ c ∈ word, isDelimiter c = false)
    (hv : Value.ofWord? word = some v) {rest : List Char} (hrest : Ends rest) (back : List Token) :
    run ⟨back, .gap⟩ (word ++ rest) = run ⟨.scalar v :: back, .gap⟩ rest := by
  obtain ⟨c, more, rfl⟩ := List.exists_cons_of_ne_nil hne
  obtain ⟨hc, hmore⟩ := List.forall_mem_cons.1 hword
  have hstart : step ⟨back, .gap⟩ c = some ⟨back, .word [c]⟩ := by
    simp only [isDelimiter, Bool.or_eq_false_iff, beq_eq_false_iff_ne, Option.isSome_eq_false_iff,
      Option.isNone_iff_eq_none] at hc
    simp [step, fromGap, hc]
  rw [List.cons_append, run_cons hstart, run_word_append hmore, run_word_end _ hrest]
  rwa [List.reverse_append, List.reverse_reverse]

/-! ### Strings -/

/-- A character inside a string that is neither a quote nor a backslash. -/
def IsPlain (c : Char) : Prop :=
  c ≠ '"' ∧ c ≠ '\\' ∧ ¬c < ' '

private theorem run_text_plain {c : Char} (h : IsPlain c) (back : List Token) (body rest : List Char) :
    run ⟨back, .text body⟩ (c :: rest) = run ⟨back, .text (c :: body)⟩ rest := by
  refine run_cons ?_ rest
  simp [step, h.1, h.2.1, h.2.2]

private theorem run_text_backslash {c : Char} (h : ¬c < ' ') (back : List Token) (body rest : List Char) :
    run ⟨back, .text body⟩ ('\\' :: c :: rest) = run ⟨back, .text (c :: '\\' :: body)⟩ rest := by
  have hbackslash : step ⟨back, .text body⟩ '\\' = some ⟨back, .escape ('\\' :: body)⟩ := rfl
  have hstep : step ⟨back, .escape ('\\' :: body)⟩ c = some ⟨back, .text (c :: '\\' :: body)⟩ := by simp [step, h]
  rw [run_cons hbackslash, run_cons hstep]

private theorem isPlain_digitChar {n : Nat} (h : n < 16) : IsPlain n.digitChar := by
  have hall : ∀ n < 16, n.digitChar ≠ '"' ∧ n.digitChar ≠ '\\' ∧ ¬n.digitChar < ' ' := by decide
  exact hall n h

/-- A character below the blank has two hexadecimal digits, the first being zero or one. -/
private theorem toNat_lt_of_lt_blank {c : Char} (h : c < ' ') : c.toNat < 32 := by
  have hblank : ' '.val.toNat = 32 := rfl
  rw [Char.lt_def, UInt32.lt_iff_toNat_lt, hblank] at h
  exact h

private theorem run_text_escaped (c : Char) (back : List Token) (body rest : List Char) :
    run ⟨back, .text body⟩ (escaped c ++ rest) = run ⟨back, .text ((escaped c).reverse ++ body)⟩ rest := by
  unfold escaped
  split
  iterate 7 exact run_text_backslash (by decide) back body rest
  rename_i hquote hbackslash _ _ _ _ _
  split
  · rename_i hcontrol
    have hlt := toNat_lt_of_lt_blank hcontrol
    have hzero : IsPlain '0' := isPlain_digitChar (n := 0) (by decide)
    rw [List.cons_append, List.cons_append, run_text_backslash (by decide), List.cons_append, List.cons_append,
      List.cons_append, List.cons_append, List.nil_append, run_text_plain hzero, run_text_plain hzero,
      run_text_plain (isPlain_digitChar (by omega)), run_text_plain (isPlain_digitChar (by omega))]
    rfl
  · rename_i hcontrol
    exact run_text_plain ⟨hquote, hbackslash, hcontrol⟩ back body rest

private theorem run_text_flatMap (s : List Char) (back : List Token) (body rest : List Char) :
    run ⟨back, .text body⟩ (s.flatMap escaped ++ rest) =
      run ⟨back, .text ((s.flatMap escaped).reverse ++ body)⟩ rest := by
  induction s generalizing body with
  | nil => rfl
  | cons c s ih =>
    rw [List.flatMap_cons, List.append_assoc, run_text_escaped, ih, List.reverse_append, List.append_assoc]

end Scan

namespace CodeUnit

private theorem hexDigit?_digitChar {n : Nat} (h : n < 16) : hexDigit? n.digitChar = some n := by
  have hall : ∀ n < 16, hexDigit? n.digitChar = some n := by decide
  exact hall n h

private theorem ofBody?_escape {c : Char} {u : CodeUnit} (h : ofEscape? c = some u) (body : List Char) :
    ofBody? ('\\' :: c :: body) = (ofBody? body).map (u :: ·) := by
  have hc : c ≠ 'u' := by
    rintro rfl
    cases h
  cases hbody : ofBody? body <;> simp [ofBody?, h, hc, hbody]

private theorem ofBody?_plain {c : Char} (h : c ≠ '\\') (body : List Char) :
    ofBody? (c :: body) = (ofBody? body).map (whole c :: ·) := by
  cases hbody : ofBody? body <;> simp [ofBody?, h, hbody]

private theorem ofBody?_control {c : Char} (h : c < ' ') (body : List Char) :
    ofBody? ('\\' :: 'u' :: '0' :: '0' :: (c.toNat / 16).digitChar :: (c.toNat % 16).digitChar :: body) =
      (ofBody? body).map (whole c :: ·) := by
  have hlt := Scan.toNat_lt_of_lt_blank h
  have hunit : ofHex? '0' '0' (c.toNat / 16).digitChar (c.toNat % 16).digitChar = some (whole c) := by
    have hzero : hexDigit? '0' = some 0 := rfl
    have hsum : ((0 * 16 + 0) * 16 + c.toNat / 16) * 16 + c.toNat % 16 = c.toNat := by omega
    simp only [ofHex?, hzero, hexDigit?_digitChar (n := c.toNat / 16) (by omega),
      hexDigit?_digitChar (n := c.toNat % 16) (by omega), Option.bind_eq_bind, Option.bind_some, hsum, ofNat]
    rw [if_neg (by omega), if_neg (by omega), Char.ofNat_toNat]
  cases hbody : ofBody? body <;> simp [ofBody?, hunit, hbody]

private theorem ofBody?_escaped (c : Char) (body : List Char) :
    ofBody? (escaped c ++ body) = (ofBody? body).map (whole c :: ·) := by
  unfold escaped
  split
  iterate 7 exact ofBody?_escape rfl body
  rename_i _ hbackslash _ _ _ _ _
  split
  · rename_i hcontrol
    exact ofBody?_control hcontrol body
  · exact ofBody?_plain hbackslash body

private theorem ofBody?_flatMap (s : List Char) : ofBody? (s.flatMap escaped) = some (s.map whole) := by
  induction s with
  | nil => rfl
  | cons c s ih => rw [List.flatMap_cons, ofBody?_escaped, ih, Option.map_some, List.map_cons]

private theorem chars?_map_whole (s : List Char) : chars? (s.map whole) = some s := by
  induction s with
  | nil => rfl
  | cons c s ih => simp [chars?, ih]

end CodeUnit

namespace Scan

/-- A written string is scanned to itself. -/
private theorem run_quoted (s : String) (back : List Token) (rest : List Char) :
    run ⟨back, .gap⟩ (quoted s ++ rest) = run ⟨.text (some s) :: back, .gap⟩ rest := by
  have hopen : step ⟨back, .gap⟩ '"' = some ⟨back, .text []⟩ := rfl
  have htoken : Token.ofBody? (s.toList.flatMap escaped) = some (.text (some s)) := by
    rw [Token.ofBody?, CodeUnit.ofBody?_flatMap, Option.bind_eq_bind, Option.bind_some, CodeUnit.chars?_map_whole,
      Option.map_some, String.ofList_toList]
  have hclose : step ⟨back, .text (s.toList.flatMap escaped).reverse⟩ '"' = some ⟨.text (some s) :: back, .gap⟩ := by
    simp [step, htoken]
  rw [quoted, List.cons_append, List.cons_append, List.append_assoc, run_cons hopen, run_text_flatMap, List.append_nil,
    List.singleton_append, run_cons hclose]

end Scan

/-! ### Numbers -/

/-- A character that numbers are written with. -/
def IsNumeric (c : Char) : Prop :=
  c.isDigit = true ∨ c = '.' ∨ c = '-' ∨ c = '+' ∨ c = 'e'

theorem Scan.isDelimiter_of_isNumeric {c : Char} (h : IsNumeric c) : isDelimiter c = false := by
  rcases h with hdigit | rfl | rfl | rfl | rfl
  · have hne : ∀ d ∈ [' ', '\t', '\n', '\r', '"', '[', ']', '\x7b', '\x7d', ',', ':'], c ≠ d := by
      intro d hd
      have hall : ∀ d ∈ [' ', '\t', '\n', '\r', '"', '[', ']', '\x7b', '\x7d', ',', ':'], d.isDigit = false := by
        simp
      exact ne_of_isDigit hdigit (hall d hd)
    simp only [List.forall_mem_cons] at hne
    simp [isDelimiter, isSpace, punctuation?, hne]
  all_goals rfl

private theorem isNumeric_sign {negative : Bool} {c : Char} (h : c ∈ if negative then ['-'] else []) : IsNumeric c := by
  cases negative with
  | false => exact absurd h List.not_mem_nil
  | true => exact .inr (.inr (.inl (List.mem_singleton.1 h)))

private theorem isNumeric_toDigits {n : Nat} {c : Char} (h : c ∈ Nat.toDigits 10 n) : IsNumeric c :=
  .inl (isDigit_of_mem_toDigits h)

private theorem isNumeric_layout {d : Decimal} {c : Char} (h : c ∈ d.layout) : IsNumeric c := by
  rw [Decimal.layout] at h
  split at h
  · rcases List.mem_append.1 h with h | h
    · exact (d.isNumber_positional.isDigit_or_eq_point h).imp_right .inl
    · split at h
      · simp only [List.mem_cons, List.not_mem_nil, or_false] at h
        rcases h with rfl | rfl
        · exact .inr (.inl rfl)
        · exact .inl rfl
      · exact absurd h List.not_mem_nil
  · have hdigits : ∀ x ∈ d.digitChars, IsNumeric x := fun x hx => isNumeric_toDigits hx
    rcases List.mem_append.1 h with h | h
    · split at h
      · rename_i first second more hchars
        rw [hchars] at hdigits
        rcases List.mem_cons.1 h with rfl | h
        · exact hdigits _ List.mem_cons_self
        · rcases List.mem_cons.1 h with rfl | h
          · exact .inr (.inl rfl)
          · exact hdigits c (List.mem_cons_of_mem _ h)
      · exact hdigits c h
    · rcases List.mem_cons.1 h with rfl | h
      · exact .inr (.inr (.inr (.inr rfl)))
      · rcases List.mem_cons.1 h with rfl | h
        · split
          · exact .inr (.inr (.inl rfl))
          · exact .inr (.inr (.inr (.inl rfl)))
        · exact isNumeric_toDigits h

theorem isNumeric_int {n : Int} {c : Char} (h : c ∈ (toString n).toList) : IsNumeric c := by
  rw [toList_toString_int, List.mem_append] at h
  exact h.elim isNumeric_sign isNumeric_toDigits

private theorem isNumeric_scientific {d : Double} {c : Char} (h : c ∈ d.scientific.toList) : IsNumeric c := by
  rw [Double.toList_scientific, List.mem_append] at h
  exact h.elim isNumeric_sign isNumeric_layout

/-! ### Values -/

namespace Scan

/-- A number is scanned to its value. -/
private theorem run_number {word : List Char} {v : Value} (hv : Value.ofWord? word = some v)
    (hword : ∀ c ∈ word, IsNumeric c) {rest : List Char} (hrest : Ends rest) (back : List Token) :
    run ⟨back, .gap⟩ (word ++ rest) = run ⟨.scalar v :: back, .gap⟩ rest := by
  have hne : word ≠ [] := by
    rintro rfl
    cases hv
  exact run_word hne (fun c hc => isDelimiter_of_isNumeric (hword c hc)) hv hrest back

end Scan

namespace Value

/-- What is written is scanned to its tokens wherever something else stands behind it. -/
def IsScanned (written : List Char) (tokens : List Token) : Prop :=
  ∀ back rest, Scan.Ends rest → Scan.run ⟨back, .gap⟩ (written ++ rest) = Scan.run ⟨tokens.reverse ++ back, .gap⟩ rest

private theorem isScanned_items {items : List Value} (h : ∀ v ∈ items, IsScanned v.chars v.tokens) :
    IsScanned (itemChars items) (itemTokens items) := by
  match items, h with
  | [], _ => exact fun _ _ _ => rfl
  | [v], h => exact h v List.mem_cons_self
  | v :: w :: items, h =>
    obtain ⟨hv, htail⟩ := List.forall_mem_cons.1 h
    intro back rest hrest
    have hcomma : Scan.Ends (',' :: (itemChars (w :: items) ++ rest)) := Scan.Ends.cons rfl _
    have hchars : itemChars (v :: w :: items) = v.chars ++ ',' :: itemChars (w :: items) := rfl
    have htokens : itemTokens (v :: w :: items) = v.tokens ++ .comma :: itemTokens (w :: items) := rfl
    rw [hchars, htokens, List.append_assoc, List.cons_append, hv back _ hcomma,
      Scan.run_punctuation (c := ',') (t := .comma) rfl rfl (by decide), isScanned_items htail _ _ hrest]
    simp only [List.reverse_append, List.reverse_cons, List.append_assoc, List.cons_append, List.nil_append]

private theorem isScanned_member (name : String) {v : Value} (h : IsScanned v.chars v.tokens) :
    IsScanned (quoted name ++ ':' :: v.chars) (.text (some name) :: .colon :: v.tokens) := by
  intro back rest hrest
  rw [List.append_assoc, Scan.run_quoted, List.cons_append,
    Scan.run_punctuation (c := ':') (t := .colon) rfl rfl (by decide), h _ _ hrest]
  simp

private theorem isScanned_members {members : List (String × Value)}
    (h : ∀ m ∈ members, IsScanned m.2.chars m.2.tokens) : IsScanned (memberChars members) (memberTokens members) := by
  match members, h with
  | [], _ => exact fun _ _ _ => rfl
  | [(name, v)], h => exact isScanned_member name (h _ List.mem_cons_self)
  | (name, v) :: m :: members, h =>
    obtain ⟨hv, htail⟩ := List.forall_mem_cons.1 h
    intro back rest hrest
    have hcomma : Scan.Ends (',' :: (memberChars (m :: members) ++ rest)) := Scan.Ends.cons rfl _
    have hchars : memberChars ((name, v) :: m :: members) =
        quoted name ++ ':' :: v.chars ++ ',' :: memberChars (m :: members) := rfl
    have htokens : memberTokens ((name, v) :: m :: members) =
        .text (some name) :: .colon :: v.tokens ++ .comma :: memberTokens (m :: members) := rfl
    rw [hchars, htokens, List.append_assoc, List.cons_append, isScanned_member name hv back _ hcomma,
      Scan.run_punctuation (c := ',') (t := .comma) rfl rfl (by decide), isScanned_members htail _ _ hrest]
    simp only [List.reverse_append, List.reverse_cons, List.append_assoc, List.cons_append, List.nil_append]

private theorem isScanned_word {v : Value} (h : v.chars ∈ ["null".toList, "true".toList, "false".toList])
    (hword : Value.ofWord? v.chars = some v) : IsScanned v.chars [.scalar v] := by
  have hplain : ∀ word ∈ ["null".toList, "true".toList, "false".toList],
      word ≠ [] ∧ ∀ c ∈ word, Scan.isDelimiter c = false := by
    simp [Scan.isDelimiter, Scan.isSpace, Scan.punctuation?]
  intro back rest hrest
  exact Scan.run_word (hplain _ h).1 (hplain _ h).2 hword hrest back

private theorem Sound.isScanned {room : Nat} {v : Value} (h : Sound room v) : IsScanned v.chars v.tokens := by
  induction h with
  | null => exact isScanned_word (by simp [Value.chars]) rfl
  | bool b => cases b <;> exact isScanned_word (by simp [Value.chars]) rfl
  | int exact =>
    exact fun back rest hrest => Scan.run_number (ofWord?_int exact) (fun _ h => isNumeric_int h) hrest back
  | double d =>
    exact fun back rest hrest => Scan.run_number (ofWord?_scientific d) (fun _ h => isNumeric_scientific h) hrest back
  | string s => exact fun back rest _ => Scan.run_quoted s back rest
  | @array room items parts ih =>
    intro back rest _
    have hclose : Scan.Ends (']' :: rest) := Scan.Ends.cons rfl _
    rw [chars, tokens, List.append_assoc, List.cons_append,
      Scan.run_punctuation (c := '[') (t := .openArray) rfl rfl (by decide), List.singleton_append,
      isScanned_items ih _ _ hclose, Scan.run_punctuation (c := ']') (t := .closeArray) rfl rfl (by decide)]
    simp
  | @object room members parts ih =>
    intro back rest _
    have hclose : Scan.Ends ('\x7d' :: rest) := Scan.Ends.cons rfl _
    rw [chars, tokens, List.append_assoc, List.cons_append,
      Scan.run_punctuation (c := '\x7b') (t := .openObject) rfl rfl (by decide), List.singleton_append,
      isScanned_members ih _ _ hclose, Scan.run_punctuation (c := '\x7d') (t := .closeObject) rfl rfl (by decide)]
    simp

/-- The text of a sound value is scanned to its tokens. -/
theorem Sound.ofChars?_chars {room : Nat} {v : Value} (h : Sound room v) : Token.ofChars? v.chars = some v.tokens := by
  have hrun := h.isScanned [] [] Scan.Ends.nil
  rw [List.append_nil, List.append_nil] at hrun
  show Scan.run Scan.start v.chars = _
  rw [Scan.start, hrun]
  simp [Scan.run, Scan.finish]

end Value

end TableFlow.Json
