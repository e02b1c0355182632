import TableFlow.Script.Basic

/-!
# Names and templates in scripts

A name is written as it stands when it is a word that means nothing else, and between backquotes otherwise.  A column
of the rows at hand is written behind `this`, so that it is never taken for a function.

In a template a backslash and braces are doubled and a column stands in braces.  The template is delimited by quotes
that do not occur in it: double ones or single ones, or, if it holds both, an odd run of one of them which is longer
than every run in it.
-/

namespace TableFlow.Script

/-- Words that mean something else. -/
def keywords : List String :=
  ["let", "into", "case", "prql", "type", "module", "internal", "func", "import", "enum", "this", "that", "true",
    "false", "null"]

/-- A character that a bare name may start with. -/
def startsName (c : Char) : Bool :=
  c.isAlpha || c == '_' || c == '$'

/-- A character that may follow in a bare name. -/
def continuesName (c : Char) : Bool :=
  startsName c || c.isDigit

/-- The characters are a word. -/
def isWord : List Char → Bool
  | [] => false
  | c :: cs => startsName c && cs.all continuesName

/-- A name in a script. -/
def nameText (name : String) : String :=
  if isWord name.toList && !keywords.contains name then name else "`" ++ name ++ "`"

/-- A column of the rows at hand. -/
def columnText (name : String) : String :=
  "this." ++ nameText name

/-- A character of a template's text. -/
def escaped (c : Char) : List Char :=
  if c = '\\' ∨ c = '\x7b' ∨ c = '\x7d' then [c, c] else [c]

/-- A piece inside a template's delimiters. -/
def pieceChars : Piece → List Char
  | .text s => s.toList.flatMap escaped
  | .column name => '\x7b' :: (columnText name).toList ++ ['\x7d']

/-- The template inside its delimiters. -/
def body (t : Template) : List Char :=
  t.flatMap pieceChars

/-- The length of the longest run of a character, `run` of them standing directly in front. -/
def longestRun (q : Char) (run : Nat) : List Char → Nat
  | [] => run
  | c :: cs => if c = q then longestRun q (run + 1) cs else max run (longestRun q 0 cs)

/-- The quotes on both sides of a body that holds both kinds of them: the kind that the body neither starts nor ends
with if that is the single one, and the next odd number above the longest run. -/
def longDelimiter (cs : List Char) : List Char :=
  let q := if cs.head? = some '"' ∨ cs.getLast? = some '"' then '\x27' else '"'
  .replicate ((longestRun q 0 cs + 1) / 2 * 2 + 1) q

/-- The quotes on both sides of a body. -/
def delimiter (cs : List Char) : List Char :=
  if !cs.contains '"' then ['"']
  else if !cs.contains '\x27' then ['\x27']
  else longDelimiter cs

/-- The text of a template. -/
def templateText (t : Template) : String :=
  .ofList ('s' :: delimiter (body t) ++ body t ++ delimiter (body t))

end TableFlow.Script
