import TypedScript.Type.Equality

/-!
# Unions and null

Unions are flat and hold no two equal members; nullables wrap neither null nor a
nullable. The constructors here keep both rules.
-/
namespace TypedScript

mutual

/-- The alternatives of a type: its members when it is a union, all the way down. -/
def Ty.alternatives : Ty → List Ty
  | .union ms => Ty.allAlternatives ms
  | t => [t]
termination_by structural t => t

def Ty.allAlternatives : List Ty → List Ty
  | [] => []
  | m :: ms => m.alternatives ++ Ty.allAlternatives ms
termination_by structural ts => ts

end

namespace Ty

/-- Add a type at the end unless an equal one is there. -/
def addDistinct (kept : List Ty) (t : Ty) : List Ty :=
  if kept.any (fun s => s.equals t) then kept else kept ++ [t]

/-- The types of a list without those equal to an earlier one. -/
def distinct (ts : List Ty) : List Ty := ts.foldl addDistinct []

/-- The union of some types. A single alternative stands for itself, and the union
of nothing is unknown. -/
def unionOf (ts : List Ty) : Ty :=
  match distinct (allAlternatives ts) with
  | [] => unknown
  | [t] => t
  | ms => union ms

/-- The union of some types, those that are missing left out. -/
def unionOfPresent (ts : List (Option Ty)) : Ty := unionOf (ts.filterMap id)

/-- The type or null. -/
def orNull : Ty → Ty
  | nullable t => nullable t
  | prim .null => null
  | t => nullable t

/-- The type as the result of an asynchronous function. -/
def asFuture : Ty → Ty
  | future t => future t
  | t => future t

end Ty

mutual

/-- Null is a value of the type. -/
def Ty.allowsNull : Ty → Bool
  | .nullable _ => true
  | .union ms => Ty.anyAllowsNull ms
  | .prim p => p = .null || p.isAbsorbing
  | _ => false
termination_by structural t => t

def Ty.anyAllowsNull : List Ty → Bool
  | [] => false
  | m :: ms => m.allowsNull || Ty.anyAllowsNull ms
termination_by structural ts => ts

end

mutual

/-- The type without null. A union gives up its null member, and then its members
give up theirs; a union without a null member is left alone. -/
def Ty.stripNull : Ty → Ty
  | .nullable t => t
  | .union ms =>
    if ms.any Ty.isNull then Ty.unionOf (Ty.strippedMembers ms) else .union ms
  | t => t
termination_by structural t => t

def Ty.strippedMembers : List Ty → List Ty
  | [] => []
  | m :: ms =>
    if m.isNull then Ty.strippedMembers ms else m.stripNull :: Ty.strippedMembers ms
termination_by structural ts => ts

end

end TypedScript
