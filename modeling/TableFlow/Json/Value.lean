import TableFlow.Number.Double

/-!
# JSON values

The values that JSON texts stand for.  Members of an object keep their order and may repeat a name, for readers of
documents look at both.  A number is an integer when it is spelled as one and fits 64 bits, and a double otherwise.
Some grammatical texts stand for nothing: a number beyond every double, or a string with half of a surrogate pair.
They are kept as `unreadable`, because a document may hold them where nobody looks.
-/

namespace TableFlow.Json

/-- What a JSON text stands for. -/
inductive Value where
  | null
  | bool (b : Bool)
  | int (n : Int)
  | double (d : Double)
  | string (s : String)
  | array (items : List Value)
  | object (members : List (String × Value))
  | unreadable
deriving Inhabited

namespace Value

mutual

/-- The value is readable to the last part and nests containers at most `room` deep. -/
def fits : Nat → Value → Bool
  | _, unreadable => false
  | 0, array _ => false
  | 0, object _ => false
  | room + 1, array items => itemsFit room items
  | room + 1, object members => membersFit room members
  | _, _ => true

/-- Every item fits. -/
def itemsFit : Nat → List Value → Bool
  | _, [] => true
  | room, v :: items => v.fits room && itemsFit room items

/-- Every member's value fits. -/
def membersFit : Nat → List (String × Value) → Bool
  | _, [] => true
  | room, (_, v) :: members => v.fits room && membersFit room members

end

/-- The integers that are kept exactly: those of 64 bits, signed or unsigned. -/
def isExactInt (n : Int) : Bool :=
  Int64.minValue.toInt ≤ n && n < UInt64.size

end Value

end TableFlow.Json
