import TableFlow.Document.Mismatch

/-!
# The first of several refusals

The parts of a document are read independently of each other, and each refusal is placed at the part it is about.
When parts are put together the refusal at the least place stands, so a document is refused for the first thing
that is wrong with it, in the order of its text and not in the order in which a reader asks for the parts.
-/

namespace TableFlow.Document

/-- A part that was read, or a refusal at a place. -/
abbrev Placed (α : Type) := Except (Nat × Reject) α

namespace Placed

/-- A refusal, or what was read, put at a place. -/
def placed {α : Type} (place : Nat) (r : Except Reject α) : Placed α :=
  r.mapError (place, ·)

/-- Two parts put together; of two refusals the one at the lesser place stands, of two at one place the first. -/
def join {α β : Type} : Placed (α → β) → Placed α → Placed β
  | .ok f, .ok a => .ok (f a)
  | .ok _, .error e => .error e
  | .error e, .ok _ => .error e
  | .error e, .error e' => .error (if e'.1 < e.1 then e' else e)

/-- The place of a refusal no longer matters. -/
def settle {α : Type} (p : Placed α) : Except Reject α :=
  p.mapError (·.2)

end Placed

end TableFlow.Document
