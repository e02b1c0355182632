import TableFlow.Script.Quoting

/-!
# The text of scripts

A declaration puts its source and its transforms on lines of their own, and an empty line follows it.  Inside a join
the flow of the joined table stands on one line.
-/

namespace TableFlow

/-- Texts in braces, with commas between them. -/
def bracedList (texts : List String) : String :=
  "\x7b" ++ ", ".intercalate texts ++ "\x7d"

namespace Source

/-- The text of a source. -/
def text : Source → String
  | table schema name => Script.nameText schema ++ "." ++ Script.nameText name
  | declaration name => Script.nameText name

end Source

/-- The text of new columns. -/
def deriveText (columns : List (String × String)) : String :=
  "derive " ++ bracedList (columns.map fun c => Script.nameText c.1 ++ " = " ++ Script.columnText c.2)

/-- The text of a selection. -/
def selectText (columns : List String) : String :=
  "select " ++ bracedList (columns.map Script.columnText)

/-- The text of a flat table on one line. -/
def FlatTable.text (t : FlatTable) : String :=
  "from " ++ (Source.table t.schema t.name).text ++ " | " ++ deriveText t.columns ++ " | " ++ selectText t.names

/-- The text of a sort column. -/
def SortKey.text (k : SortKey) : String :=
  (if k.descending then "-" else "") ++ Script.columnText k.column

namespace Transform

/-- The range of rows that is taken; a range from the first row on is given by its end. -/
def rangeText : UInt64 → Option UInt64 → String
  | first, some last => if first = 1 then toString last.toNat else toString first.toNat ++ ".." ++ toString last.toNat
  | first, none => toString first.toNat ++ ".."

/-- The text of a transform. -/
def text : Transform → String
  | derive columns => deriveText columns
  | select columns => selectText columns
  | filter condition => "filter " ++ Script.templateText condition
  | sort keys => "sort " ++ bracedList (keys.map SortKey.text)
  | aggregate group operation column label =>
    let new := "aggregate "
      ++ bracedList [Script.nameText label ++ " = " ++ operation.name ++ " " ++ Script.columnText column]
    if group.isEmpty then new
    else "group " ++ bracedList (group.map Script.columnText) ++ " (" ++ new ++ ")"
  | join label table left right =>
    "join side:left " ++ Script.nameText label ++ " = (" ++ table.text ++ ") (" ++ Script.columnText left
      ++ " == that." ++ Script.nameText right ++ ")"
  | take first last => "take " ++ rangeText first last

end Transform

/-- The text of a flow with something between its parts. -/
def Flow.text (separator : String) (f : Flow) : String :=
  "from " ++ f.source.text ++ .join (f.transforms.map fun t => separator ++ t.text)

/-- The text of a declaration. -/
def Declaration.text (d : Declaration) : String :=
  "let " ++ Script.nameText d.name ++ " = (\n  " ++ d.flow.text "\n  " ++ "\n)"

/-- The text of a script. -/
def Script.text (s : Script) : String :=
  .join (s.declarations.map fun d => d.text ++ "\n\n") ++ s.main.text "\n" ++ "\n"

end TableFlow
