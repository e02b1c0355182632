import TableFlow.Json.Value
import TableFlow.Number.Decimal

/-!
# Writing JSON texts

`Value.text` writes a value without any space.  In a string only the quote, the backslash and control characters are
escaped.
-/

namespace TableFlow.Json

/-- A character inside a written string. -/
def escaped (c : Char) : List Char :=
  match c with
  | '"' => ['\\', '"']
  | '\\' => ['\\', '\\']
  | '\x08' => ['\\', 'b']
  | '\t' => ['\\', 't']
  | '\n' => ['\\', 'n']
  | '\x0c' => ['\\', 'f']
  | '\r' => ['\\', 'r']
  | c =>
    if c < ' ' then ['\\', 'u', '0', '0', (c.toNat / 16).digitChar, (c.toNat % 16).digitChar]
    else [c]

/-- A string in quotes. -/
def quoted (s : String) : List Char :=
  '"' :: s.toList.flatMap escaped ++ ['"']

namespace Value

mutual

/-- The characters of a value; what is unreadable is written as `null`. -/
def chars : Value → List Char
  | null => ['n', 'u', 'l', 'l']
  | bool b => if b then ['t', 'r', 'u', 'e'] else ['f', 'a', 'l', 's', 'e']
  | int n => (toString n).toList
  | double d => d.scientific.toList
  | string s => quoted s
  | array items => '[' :: itemChars items ++ [']']
  | object members => '\x7b' :: memberChars members ++ ['\x7d']
  | unreadable => ['n', 'u', 'l', 'l']

/-- Items with commas between them. -/
def itemChars : List Value → List Char
  | [] => []
  | [v] => v.chars
  | v :: items => v.chars ++ ',' :: itemChars items

/-- Members with commas between them. -/
def memberChars : List (String × Value) → List Char
  | [] => []
  | [(name, v)] => quoted name ++ ':' :: v.chars
  | (name, v) :: members => quoted name ++ ':' :: v.chars ++ ',' :: memberChars members

end

/-- The text of a value. -/
def text (v : Value) : String :=
  .ofList v.chars

end Value

end TableFlow.Json
