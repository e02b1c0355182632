import TableFlow.Number.Decimal

/-!
# Literals

The values that a condition compares a column with.  Integers of 64 bits are exact, signed ones and those above them
that fit without a sign; every other number is a double.
-/

namespace TableFlow

/-- A value in a condition. -/
inductive Literal where
  | null
  | boolean (b : Bool)
  | integer (n : Int64)
  | unsigned (n : UInt64)
  | float (d : Double)
  | string (s : String)
deriving DecidableEq

/-- The value without quotes. -/
def Literal.text : Literal → String
  | null => "null"
  | boolean b => if b then "true" else "false"
  | integer n => toString n.toInt
  | unsigned n => toString n.toNat
  | float d => d.plain
  | string s => s

/-- The pattern of the texts that contain a value; nothing is contained in no text. -/
def Literal.pattern? : Literal → Option String
  | null => none
  | value => some ("%" ++ value.text ++ "%")

end TableFlow
