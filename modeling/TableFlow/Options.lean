import TableFlow.Document.Layout

/-!
# Options

What the caller may choose about queries: the dialect and layout of SQL, how diagnostics are shown, and how many rows
a table query gives when it does not say so itself.
-/

namespace TableFlow

open Document (Layout Mode Reader Vocabulary)
open Document.Layout (withDefault)

/-- The dialects of SQL. -/
inductive Dialect where
  | ansi
  | bigQuery
  | clickHouse
  | duckDb
  | generic
  | glareDb
  | msSql
  | mySql
  | postgres
  | sqLite
  | snowflake
deriving DecidableEq

/-- The names of dialects. -/
def Dialect.vocabulary : Vocabulary Dialect where
  all := [.ansi, .bigQuery, .clickHouse, .duckDb, .generic, .glareDb, .msSql, .mySql, .postgres, .sqLite, .snowflake]
  name
    | .ansi => "Ansi"
    | .bigQuery => "BigQuery"
    | .clickHouse => "ClickHouse"
    | .duckDb => "DuckDb"
    | .generic => "Generic"
    | .glareDb => "GlareDb"
    | .msSql => "MsSql"
    | .mySql => "MySql"
    | .postgres => "Postgres"
    | .sqLite => "SQLite"
    | .snowflake => "Snowflake"

/-- How diagnostics are shown. -/
inductive DisplayStyle where
  | plain
  | ansiColor
deriving DecidableEq

/-- The names of display styles. -/
def DisplayStyle.vocabulary : Vocabulary DisplayStyle where
  all := [.plain, .ansiColor]
  name
    | .plain => "Plain"
    | .ansiColor => "AnsiColor"

/-- The choices of a caller. -/
structure Options where
  dialect : Dialect := .postgres
  /-- SQL is laid out on lines. -/
  format : Bool := false
  /-- SQL ends in a comment on its maker. -/
  signatureComment : Bool := false
  display : DisplayStyle := .plain
  /-- The rows of a table query that asks for no range. -/
  defaultLimit : UInt64 := 100
deriving DecidableEq

namespace Options

/-- One of the choices, as it is called in documents. -/
inductive Setting where
  | dialect
  | format
  | signatureComment
  | display
  | defaultLimit
deriving DecidableEq

/-- The names of settings. -/
def Setting.vocabulary : Vocabulary Setting where
  all := [.dialect, .format, .signatureComment, .display, .defaultLimit]
  name
    | .dialect => "dialect"
    | .format => "format"
    | .signatureComment => "signature_comment"
    | .display => "display"
    | .defaultLimit => "default_limit"

/-- The fields of options. -/
def layout (mode : Mode) (room : Nat) : Layout Options :=
  Options.mk <$> withDefault "dialect" .postgres (Document.choice Dialect.vocabulary mode room)
    <*> withDefault "format" false Document.flag <*> withDefault "signature_comment" false Document.flag
    <*> withDefault "display" .plain (Document.choice DisplayStyle.vocabulary mode room)
    <*> withDefault "default_limit" 100 Document.word64

/-- Options are a record. -/
def read (mode : Mode) : Nat → Reader Options :=
  Layout.reader "Options" mode (layout mode)

/-- The options that a text describes. -/
def ofText (text : String) : Except Document.Reject Options :=
  Document.ofText (read .streamed) text

/-- The options with one of them chosen anew by a value. -/
def set (o : Options) (setting : Setting) (v : Json.Value) : Except Document.Reject Options :=
  match setting with
  | .dialect =>
    (Document.choice Dialect.vocabulary .built Document.maxDepth v).map fun dialect => { o with dialect }
  | .format => (Document.flag v).map fun format => { o with format }
  | .signatureComment => (Document.flag v).map fun signatureComment => { o with signatureComment }
  | .display =>
    (Document.choice DisplayStyle.vocabulary .built Document.maxDepth v).map fun display => { o with display }
  | .defaultLimit => (Document.word64 v).map fun defaultLimit => { o with defaultLimit }

/-- The document of options. -/
def json (o : Options) : Json.Value :=
  .object [("dialect", .string (Dialect.vocabulary.name o.dialect)), ("format", .bool o.format),
    ("signature_comment", .bool o.signatureComment),
    ("display", .string (DisplayStyle.vocabulary.name o.display)), ("default_limit", .int o.defaultLimit.toNat)]

end Options

end TableFlow
