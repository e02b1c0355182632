/-!
# Failures

What the library reports when it cannot do what it was asked: a reason and any number of hints.  A failure is shown
as one line for the reason and one for each hint, a list of failures as the texts of its members below each other.
-/

namespace TableFlow

/-- Why something failed. -/
inductive Reason where
  | simple (text : String)
  /-- A look-up of something of the given kind, such as a table, found nothing under a name. -/
  | notFound (kind name : String)
  | unexpected (found : String)
  /-- The library broke one of its own rules. -/
  | bug (details : Option String)
deriving DecidableEq

namespace Reason

/-- The sentence for a reason. -/
def text : Reason → String
  | simple text => text
  | notFound kind name => s!"{kind} `{name}` not found"
  | unexpected found => s!"unexpected {found}"
  | bug none => "internal compiler error"
  | bug (some details) => s!"internal compiler error; {details}"

end Reason

/-- A reason with hints on what to do about it. -/
structure Failure where
  reason : Reason
  hints : List String
deriving DecidableEq

namespace Failure

/-- A failure without hints. -/
def of (reason : Reason) : Failure := ⟨reason, []⟩

/-- One more hint, behind the others. -/
def addHint (hint : String) (f : Failure) : Failure :=
  { f with hints := f.hints ++ [hint] }

/-- Other hints in place of all that were there. -/
def setHints (hints : List String) (f : Failure) : Failure :=
  { f with hints }

/-- The text of a failure. -/
def text (f : Failure) : String :=
  s!"Error: {f.reason.text}" ++ .join (f.hints.map fun hint => s!"\n↳ Hint: {hint}")

/-- The text of several failures. -/
def listText (fs : List Failure) : String :=
  "\n".intercalate (fs.map text)

end Failure

end TableFlow
