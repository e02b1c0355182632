/-!
# SQL text

Statements are built as lists of tokens and written with one space between two tokens, except around the point of a
qualified name and in front of a comma.  Strings and identifiers may hold any character: a quote inside is doubled.
-/

namespace TableFlow.Sql

/-- A text between two quote characters, those inside being doubled. -/
def enclosed (q : Char) (s : String) : String :=
  .ofList (q :: s.toList.flatMap (fun c => if c = q then [q, q] else [c]) ++ [q])

/-- A token of a statement. -/
inductive Token where
  /-- A keyword, a sign or a number, as it stands. -/
  | word (text : String)
  | identifier (name : String)
  | string (text : String)
  /-- The place of the parameter with a number. -/
  | placeholder (n : Nat)
  | point
  | comma
deriving DecidableEq

namespace Token

/-- The text of a token. -/
def text : Token → String
  | word text => text
  | identifier name => enclosed '"' name
  | string text => enclosed '\x27' text
  | placeholder n => "$" ++ toString n
  | point => "."
  | comma => ","

/-- What stands between two tokens. -/
def gap : Token → Token → String
  | point, _ => ""
  | _, point => ""
  | _, comma => ""
  | _, _ => " "

end Token

/-- The text of a list of tokens. -/
def text : List Token → String
  | [] => ""
  | [t] => t.text
  | t :: u :: rest => t.text ++ t.gap u ++ text (u :: rest)

end TableFlow.Sql
