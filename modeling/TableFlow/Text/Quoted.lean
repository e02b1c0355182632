import TableFlow.Text.Printable

/-!
# Quoted strings in diagnostics

A string is shown between double quotes.  The quote, the backslash and five controls have short escapes, and every
other character that is not shown as itself is written as its number in hexadecimal.
-/

namespace TableFlow.Text

/-- A character inside a quoted string. -/
def shown (c : Char) : List Char :=
  match c with
  | '"' => ['\\', '"']
  | '\\' => ['\\', '\\']
  | '\x00' => ['\\', '0']
  | '\t' => ['\\', 't']
  | '\n' => ['\\', 'n']
  | '\r' => ['\\', 'r']
  | c =>
    if isShown c then [c]
    else '\\' :: 'u' :: '\x7b' :: Nat.toDigits 16 c.toNat ++ ['\x7d']

/-- A string between double quotes. -/
def quote (s : String) : String :=
  .ofList ('"' :: s.toList.flatMap shown ++ ['"'])

end TableFlow.Text
