import TableFlow.Json.Token

/-!
# Reading JSON texts

The second pass: tokens to a value.  The containers that are open at a token form a stack, so the depth of a text is
limited by nothing here; whoever reads a document out of the value sets its own limit.  `Value.ofText?` accepts
exactly the grammatical texts, surrounded by nothing but space.
-/

namespace TableFlow.Json

/-- A member of an object that is being read; the name may be an unreadable string. -/
abbrev Member := Option String × Value

/-- A container that is open around the place being read; its parts so far are kept last first. -/
inductive Frame where
  | array (back : List Value)
  /-- The member named `name` is being read. -/
  | object (back : List Member) (name : Option String)

/-- What was read last, and so what may follow. -/
inductive Place where
  /-- A value must follow. -/
  | value
  /-- An array was opened. -/
  | arrayOpened
  /-- An object was opened. -/
  | objectOpened
  /-- A member must follow those that were read. -/
  | member (back : List Member)
  /-- A member's name was read. -/
  | named (back : List Member) (name : Option String)
  /-- A value is complete. -/
  | after (v : Value)

namespace Value

/-- The string of a token, if it is readable. -/
def ofString : Option String → Value
  | some s => .string s
  | none => .unreadable

/-- An object with an unreadable name is itself unreadable. -/
def ofMembers (members : List Member) : Value :=
  match members.mapM fun m => m.1.map fun name => (name, m.2) with
  | some members => .object members
  | none => .unreadable

/-- A token met where a value must stand. -/
def begin (frames : List Frame) : Token → Option (List Frame × Place)
  | .scalar v => some (frames, .after v)
  | .text s => some (frames, .after (ofString s))
  | .openArray => some (frames, .arrayOpened)
  | .openObject => some (frames, .objectOpened)
  | _ => none

/-- A token met after a complete value. -/
def continued (v : Value) : List Frame → Token → Option (List Frame × Place)
  | .array back :: frames, .comma => some (.array (v :: back) :: frames, .value)
  | .array back :: frames, .closeArray => some (frames, .after (.array (v :: back).reverse))
  | .object back name :: frames, .comma => some (frames, .member ((name, v) :: back))
  | .object back name :: frames, .closeObject => some (frames, .after (ofMembers ((name, v) :: back).reverse))
  | _, _ => none

/-- One token moves the reader. -/
def step : List Frame × Place → Token → Option (List Frame × Place)
  | (frames, .value), t => begin frames t
  | (frames, .arrayOpened), .closeArray => some (frames, .after (.array []))
  | (frames, .arrayOpened), t => begin (.array [] :: frames) t
  | (frames, .objectOpened), .closeObject => some (frames, .after (.object []))
  | (frames, .objectOpened), .text name => some (frames, .named [] name)
  | (frames, .member back), .text name => some (frames, .named back name)
  | (frames, .named back name), .colon => some (.object back name :: frames, .value)
  | (frames, .after v), t => continued v frames t
  | _, _ => none

/-- The value of a list of tokens. -/
def ofTokens? (tokens : List Token) : Option Value := do
  match ← tokens.foldlM step ([], .value) with
  | ([], .after v) => some v
  | _ => none

/-- The value of a list of characters. -/
def ofChars? (cs : List Char) : Option Value := do
  let tokens ← Token.ofChars? cs
  ofTokens? tokens

/-- The value of a text. -/
def ofText? (text : String) : Option Value :=
  ofChars? text.toList

end Value

end TableFlow.Json
