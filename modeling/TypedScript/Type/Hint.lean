import TypedScript.Type.Basic

/-!
# Contextual hints

What a literal takes from the type expected of it. A hint may be absent; a nullable
hint counts for the type inside.
-/
namespace TypedScript

/-- The type expected of an expression, where one is. -/
abbrev Hint := Option Ty

namespace Hint

/-- The hint without its nullable wrapper; no hint is unknown. -/
def unwrap : Hint → Ty
  | none => .unknown
  | some (.nullable t) => t
  | some t => t

/-- The element type a list literal should take. -/
def element? (h : Hint) : Hint :=
  match h.unwrap with
  | .list t => some t
  | _ => none

/-- The shape an object literal is checked against. -/
def shape? (h : Hint) : Option Interface :=
  match h.unwrap with
  | .interface shape => some shape
  | _ => none

/-- The signature an arrow function adopts. -/
def function? (h : Hint) : Option Signature :=
  match h.unwrap with
  | .function sig => some sig
  | _ => none

/-- The hint says more than that anything goes. -/
def isInformative : Hint → Bool
  | none => false
  | some t => !t.isAbsorbing

/-- The hint an operand takes from its neighbour. -/
def numeric (t : Ty) : Hint := if t.isNumeric then some t else none

end Hint

end TypedScript
