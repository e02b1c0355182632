import TableFlow.Json.Value

/-!
# JSON tokens

A JSON text is read in two passes, and this is the first: characters to tokens.  One character after the other
moves a scanner that is in a gap between tokens, in a word, in a string or behind a backslash in one.  A word is a
longest run of characters that are no delimiters; it has to be a number or one of the three names.  The body of a
string is decoded when its closing quote is met.
-/

namespace TableFlow.Json

/-- A token of a JSON text. -/
inductive Token where
  | openArray
  | closeArray
  | openObject
  | closeObject
  | comma
  | colon
  /-- A number or one of the three names. -/
  | scalar (v : Value)
  /-- A string, unless it holds half of a surrogate pair. -/
  | text (s : Option String)

/-! ### Numbers -/

/-- A number as it is spelled. -/
structure Numeral where
  negative : Bool
  whole : List Char
  fraction : List Char
  exponent : Int
  /-- Neither a fraction nor an exponent is written. -/
  plain : Bool

namespace Numeral

/-- A nonempty run of digits and what follows it. -/
def digits? (cs : List Char) : Option (List Char × List Char) :=
  match cs.takeWhile Char.isDigit with
  | [] => none
  | run => some (run, cs.dropWhile Char.isDigit)

/-- The digits before the point: a zero stands alone. -/
def whole? (cs : List Char) : Option (List Char × List Char) := do
  let (run, rest) ← digits? cs
  if run.head? = some '0' ∧ run.length ≠ 1 then none else some (run, rest)

/-- The digits behind a point, if there is one. -/
def fraction? : List Char → Option (List Char × List Char)
  | '.' :: cs => digits? cs
  | cs => some ([], cs)

/-- The signed digits of an exponent that ends the number. -/
def exponentDigits? (cs : List Char) : Option Int := do
  let (negative, cs) := match cs with
    | '-' :: cs => (true, cs)
    | '+' :: cs => (false, cs)
    | cs => (false, cs)
  match ← digits? cs with
  | (run, []) =>
    let n : Int := Nat.ofDigitChars 10 run 0
    some (if negative then -n else n)
  | _ => none

/-- The exponent, zero if none is written. -/
def exponent? : List Char → Option Int
  | [] => some 0
  | 'e' :: cs => exponentDigits? cs
  | 'E' :: cs => exponentDigits? cs
  | _ => none

/-- The number that a word spells. -/
def ofWord? (word : List Char) : Option Numeral := do
  let (negative, cs) := match word with
    | '-' :: cs => (true, cs)
    | cs => (false, cs)
  let (whole, behind) ← whole? cs
  let (fraction, rest) ← fraction? behind
  let exponent ← exponent? rest
  some ⟨negative, whole, fraction, exponent, behind.isEmpty⟩

/-- The double nearest to the number; `unreadable` when it is beyond all of them.  The number is rounded once, where a
reader that rounds its digits and its power of ten apart may be one place off.  This exact reading stands for the
assumption that a number is read back as it was written. -/
def double (n : Numeral) : Value :=
  match Double.ofDecimal? n.negative (Nat.ofDigitChars 10 (n.whole ++ n.fraction) 0)
      (n.exponent - n.fraction.length) with
  | some d => .double d
  | none => .unreadable

/-- A plain number that fits 64 bits is an integer, but for `-0`, which is a double. -/
def value (n : Numeral) : Value :=
  let size : Int := Nat.ofDigitChars 10 n.whole 0
  let signed := if n.negative then -size else size
  if n.plain ∧ Value.isExactInt signed ∧ ¬(n.negative ∧ size = 0) then .int signed else n.double

end Numeral

/-- The value of a word. -/
def Value.ofWord? (word : List Char) : Option Value :=
  if word = ['n', 'u', 'l', 'l'] then some .null
  else if word = ['t', 'r', 'u', 'e'] then some (.bool true)
  else if word = ['f', 'a', 'l', 's', 'e'] then some (.bool false)
  else (Numeral.ofWord? word).map Numeral.value

/-! ### Strings -/

/-- A part of a string body: a character, or half of a surrogate pair. -/
inductive CodeUnit where
  | whole (c : Char)
  | high (n : Nat)
  | low (n : Nat)

namespace CodeUnit

/-- The number of a hexadecimal digit. -/
def hexDigit? (c : Char) : Option Nat :=
  if c.isDigit then some (c.toNat - '0'.toNat)
  else if 'a' ≤ c ∧ c ≤ 'f' then some (c.toNat - 'a'.toNat + 10)
  else if 'A' ≤ c ∧ c ≤ 'F' then some (c.toNat - 'A'.toNat + 10)
  else none

/-- The unit with a number below `2 ^ 16`. -/
def ofNat (n : Nat) : CodeUnit :=
  if 0xD800 ≤ n ∧ n < 0xDC00 then high n
  else if 0xDC00 ≤ n ∧ n < 0xE000 then low n
  else whole (Char.ofNat n)

/-- The unit that four hexadecimal digits give. -/
def ofHex? (a b c d : Char) : Option CodeUnit := do
  let a ← hexDigit? a
  let b ← hexDigit? b
  let c ← hexDigit? c
  let d ← hexDigit? d
  some (ofNat (((a * 16 + b) * 16 + c) * 16 + d))

/-- The character that a letter behind a backslash stands for. -/
def ofEscape? : Char → Option CodeUnit
  | '"' => some (whole '"')
  | '\\' => some (whole '\\')
  | '/' => some (whole '/')
  | 'b' => some (whole '\x08')
  | 'f' => some (whole '\x0c')
  | 'n' => some (whole '\n')
  | 'r' => some (whole '\r')
  | 't' => some (whole '\t')
  | _ => none

/-- The units of a string body; nothing if a backslash starts no escape. -/
def ofBody? : List Char → Option (List CodeUnit)
  | [] => some []
  | ['\\'] => none
  | '\\' :: 'u' :: a :: b :: c :: d :: body => do
    let u ← ofHex? a b c d
    let us ← ofBody? body
    some (u :: us)
  | '\\' :: c :: body => do
    let u ← ofEscape? c
    let us ← ofBody? body
    some (u :: us)
  | c :: body => do
    let us ← ofBody? body
    some (whole c :: us)

/-- The characters of units, each high half being followed by its low half. -/
def chars? : List CodeUnit → Option (List Char)
  | [] => some []
  | whole c :: us => do
    let cs ← chars? us
    some (c :: cs)
  | high h :: low l :: us => do
    let cs ← chars? us
    some (Char.ofNat (0x10000 + (h - 0xD800) * 0x400 + (l - 0xDC00)) :: cs)
  | _ => none

end CodeUnit

/-- The token of a string body. -/
def Token.ofBody? (body : List Char) : Option Token := do
  let units ← CodeUnit.ofBody? body
  some (.text ((CodeUnit.chars? units).map String.ofList))

/-! ### Scanning -/

/-- Where a scanner is; characters of an unfinished token are kept last first. -/
inductive Inside where
  | gap
  | word (back : List Char)
  | text (back : List Char)
  | escape (back : List Char)

/-- A scanner: the tokens so far, last first, and where it is. -/
structure Scan where
  back : List Token
  inside : Inside

namespace Scan

/-- A scanner in front of a text. -/
def start : Scan := ⟨[], .gap⟩

/-- Space that may stand between tokens. -/
def isSpace (c : Char) : Bool :=
  c == ' ' || c == '\t' || c == '\n' || c == '\r'

/-- The token that one character makes. -/
def punctuation? : Char → Option Token
  | '[' => some .openArray
  | ']' => some .closeArray
  | '\x7b' => some .openObject
  | '\x7d' => some .closeObject
  | ',' => some .comma
  | ':' => some .colon
  | _ => none

/-- A character met between tokens. -/
def fromGap (back : List Token) (c : Char) : Scan :=
  if isSpace c then ⟨back, .gap⟩
  else if c = '"' then ⟨back, .text []⟩
  else match punctuation? c with
    | some t => ⟨t :: back, .gap⟩
    | none => ⟨back, .word [c]⟩

/-- A character that ends a word. -/
def isDelimiter (c : Char) : Bool :=
  isSpace c || c == '"' || (punctuation? c).isSome

/-- One character moves the scanner; a string holds no control characters. -/
def step (s : Scan) (c : Char) : Option Scan :=
  match s.inside with
  | .gap => some (fromGap s.back c)
  | .word word =>
    if isDelimiter c then do
      let v ← Value.ofWord? word.reverse
      some (fromGap (.scalar v :: s.back) c)
    else some ⟨s.back, .word (c :: word)⟩
  | .text body =>
    if c = '"' then do
      let t ← Token.ofBody? body.reverse
      some ⟨t :: s.back, .gap⟩
    else if c < ' ' then none
    else some ⟨s.back, if c = '\\' then .escape (c :: body) else .text (c :: body)⟩
  | .escape body => if c < ' ' then none else some ⟨s.back, .text (c :: body)⟩

/-- The tokens when the text ends here. -/
def finish (s : Scan) : Option (List Token) :=
  match s.inside with
  | .gap => some s.back.reverse
  | .word word => do
    let v ← Value.ofWord? word.reverse
    some (.scalar v :: s.back).reverse
  | .text _ => none
  | .escape _ => none

end Scan

/-- The tokens of a text. -/
def Token.ofChars? (cs : List Char) : Option (List Token) := do
  let s ← cs.foldlM Scan.step Scan.start
  s.finish

end TableFlow.Json
