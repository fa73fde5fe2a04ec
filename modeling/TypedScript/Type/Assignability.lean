import TypedScript.Type.Union
import TypedScript.Type.Class
import TypedScript.Type.Printer

/-!
# Assignability

When a value of one type may be stored where another is expected. The definition
follows the value: its own shape answers for some targets, and the rest are searched
for a part that accepts it, the inside of a nullable or a member of a union.

Any and unknown accept every value; as values they fit nothing else. A reference
fits only the same reference.
-/
namespace TypedScript

mutual

/-- Search a target for a part that accepts a value. `direct` is the answer of the
value's own shape, where it has one. -/
def Ty.accepts (direct : Ty → Option Bool) : Ty → Bool
  | .nullable t =>
    match direct (.nullable t) with
    | some b => b
    | none => t.accepts direct
  | .union ms =>
    match direct (.union ms) with
    | some b => b
    | none => Ty.someAccepts direct ms
  | t => t.isAbsorbing || (direct t).getD false
termination_by structural t => t

def Ty.someAccepts (direct : Ty → Option Bool) : List Ty → Bool
  | [] => false
  | m :: ms => m.accepts direct || Ty.someAccepts direct ms
termination_by structural ts => ts

end

/-- One member that a structural value offers: its name, whether it may be absent,
and the types it may be used as. -/
structure Offer where
  name : String
  isOptional : Bool
  fits : Ty → Bool

namespace Offer

/-- The first offer of a name stands; later ones are hidden by it. -/
def find? (offers : List Offer) (name : String) : Option Offer :=
  offers.find? fun o => o.name == name

/-- Every property that is required is offered, and every property offered fits. -/
def satisfy (offers : List Offer) (wanted : Interface) : Bool :=
  wanted.properties.all fun w =>
    match find? offers w.name with
    | none => w.isOptional
    | some o => !(o.isOptional && !w.isOptional) && o.fits w.type

end Offer

mutual

def Ty.assignableTo : Ty → Ty → Bool
  | .union ms, t => t.isAbsorbing || Ty.allAssignableTo ms t
  | .prim p, t =>
    t.accepts fun u =>
      if (Ty.prim p).equals u then some true
      else
        match u with
        | .prim q => some (p.canWiden q)
        | _ => if p = .null then some u.allowsNull else none
  | .list a, t =>
    t.accepts fun u =>
      if (Ty.list a).equals u then some true
      else
        match u with
        | .list b => some (a.assignableTo b)
        | _ => none
  | .nullable a, t =>
    t.accepts fun u =>
      if (Ty.nullable a).equals u then some true
      else
        match u with
        | .nullable b => some (a.assignableTo b)
        | .union ms => some ((Ty.union ms).allowsNull && a.assignableTo (.union ms))
        | _ => some false
  | .cls c, t =>
    t.accepts fun u =>
      if (Ty.cls c).equals u then some true
      else
        match u with
        | .cls d => some (c.isSubclassOf d.name)
        | .interface shape => some (Offer.satisfy (Class.offers c) shape)
        | _ => none
  | .interface ⟨name, properties, typeParams⟩, t =>
    t.accepts fun u =>
      if (Ty.interface ⟨name, properties, typeParams⟩).equals u then some true
      else
        match u with
        | .interface shape => some (Offer.satisfy (Ty.propertyOffers properties) shape)
        | _ => none
  | v, t => t.accepts fun u => if v.equals u then some true else none
termination_by structural t => t

def Ty.allAssignableTo : List Ty → Ty → Bool
  | [], _ => true
  | m :: ms, t => m.assignableTo t && Ty.allAssignableTo ms t
termination_by structural ts => ts

def Ty.propertyOffers : List Property → List Offer
  | [] => []
  | ⟨name, type, isOptional⟩ :: ps =>
    ⟨name, isOptional, fun t => type.assignableTo t⟩ :: Ty.propertyOffers ps
termination_by structural ps => ps

/-- What instances of a class offer to everyone, the nearest class first and
properties before methods. -/
def Class.offers : Class → List Offer
  | ⟨_, parent, properties, methods, _, _, _⟩ =>
    Class.memberOffers properties ++ Class.memberOffers methods ++ Class.parentOffers parent
termination_by structural c => c

def Class.parentOffers : Option Class → List Offer
  | none => []
  | some c => c.offers
termination_by structural c => c

def Class.memberOffers : List Member → List Offer
  | [] => []
  | ⟨name, type, visibility, isStatic, isReadonly, owner⟩ :: ms =>
    if Member.isOffered ⟨name, type, visibility, isStatic, isReadonly, owner⟩ then
      ⟨name, false, fun t => type.assignableTo t⟩ :: Class.memberOffers ms
    else Class.memberOffers ms
termination_by structural ms => ms

end

mutual

/-- The first reference in a type, by name and file. Members of classes and interfaces
are not searched. -/
def Ty.findRef : Ty → Option (String × String)
  | .ref name file => some (name, file)
  | .list t => t.findRef
  | .map k v => k.findRef.or v.findRef
  | .nullable t => t.findRef
  | .future t => t.findRef
  | .union ms => Ty.findRefIn ms
  | .function ⟨params, result, _, _⟩ => (Ty.findRefInParams params).or result.findRef
  | .generic base args => base.findRef.or (Ty.findRefIn args)
  | _ => none
termination_by structural t => t

def Ty.findRefIn : List Ty → Option (String × String)
  | [] => none
  | t :: ts => t.findRef.or (Ty.findRefIn ts)
termination_by structural ts => ts

def Ty.findRefInParams : List Param → Option (String × String)
  | [] => none
  | ⟨_, t⟩ :: ps => t.findRef.or (Ty.findRefInParams ps)
termination_by structural ps => ps

end

/-- Why a value does not fit its target. -/
inductive Mismatch where
  | unresolved (name : String)
  | notAssignable (value target : Ty)

namespace Mismatch

def cause : Mismatch → String
  | unresolved _ => "unresolved type reference"
  | notAssignable _ _ => "type is not assignable"

def message : Mismatch → String
  | unresolved name => name ++ ": unresolved type reference"
  | notAssignable value target =>
    value.text ++ " is not assignable to " ++ target.text ++ ": type is not assignable"

end Mismatch

namespace Ty

/-- Why a value does not fit, or `none` when it does. A reference on either side is
reported before the types are compared. -/
def mismatch? (value target : Ty) : Option Mismatch :=
  match value.findRef.or target.findRef with
  | some (name, _) => some (.unresolved name)
  | none => if value.assignableTo target then none else some (.notAssignable value target)

end Ty

end TypedScript
