import TypedScript.Type.Basic
import TypedScript.Text.ByName

/-!
# Equality of types

Structural types are equal when their parts are. Unions compare as sets,
signatures ignore parameter names and declared type parameters, and classes, enums
and type parameters compare by name.

Unions and shapes are compared from one side only, so it can matter which of two types is
asked whether it equals the other.
-/
namespace TypedScript

namespace Interface

def property? (shape : Interface) (name : String) : Option Property :=
  ByName.find? Property.name name shape.properties

end Interface

/-- Which of two types is asked whether it equals the other. -/
inductive Asked where
  | first | second

mutual

/-- The type that is asked equals the other. A union is compared by its own members, each of which
asks the members of the other union; a shape by its own properties. -/
def Ty.equalsBy : Ty → Asked → Ty → Bool
  | .prim p, _, t =>
    match t with
    | .prim q => p = q
    | _ => false
  | .list a, k, t =>
    match t with
    | .list b => a.equalsBy k b
    | _ => false
  | .map key a, k, t =>
    match t with
    | .map l b => key.equalsBy k l && a.equalsBy k b
    | _ => false
  | .nullable a, k, t =>
    match t with
    | .nullable b => a.equalsBy k b
    | _ => false
  | .union ms, k, t =>
    match t with
    | .union os =>
      ms.length == os.length &&
        match k with
        | .first => Ty.coveredBy ms os
        | .second => os.all fun o => Ty.hasEqual ms o
    | _ => false
  | .function ⟨params, result, isVariadic, _⟩, k, t =>
    match t with
    | .function o =>
      Ty.sameParams params k o.params && isVariadic == o.isVariadic && result.equalsBy k o.result
    | _ => false
  | .interface ⟨name, properties, _⟩, k, t =>
    match t with
    | .interface o =>
      name == o.name && properties.length == o.properties.length &&
        match k with
        | .first => Ty.sameProperties properties o
        | .second => o.properties.all fun q => Ty.hasProperty properties q
    | _ => false
  | .cls c, _, t =>
    match t with
    | .cls d => c.name == d.name
    | _ => false
  | .enum e, _, t =>
    match t with
    | .enum d => e.name == d.name
    | _ => false
  | .future a, k, t =>
    match t with
    | .future b => a.equalsBy k b
    | _ => false
  | .ref name file, _, t =>
    match t with
    | .ref n f => name == n && file == f
    | _ => false
  | .param name, _, t =>
    match t with
    | .param n => name == n
    | _ => false
  | .generic base args, k, t =>
    match t with
    | .generic b as => base.equalsBy k b && Ty.sameTypes args k as
    | _ => false
termination_by structural t => t

/-- Each type of the first list has one in the second that equals it. -/
def Ty.coveredBy : List Ty → List Ty → Bool
  | [], _ => true
  | m :: ms, os => os.any (fun o => m.equalsBy .second o) && Ty.coveredBy ms os
termination_by structural ts => ts

/-- Some type of the list equals the other one. -/
def Ty.hasEqual : List Ty → Ty → Bool
  | [], _ => false
  | m :: ms, t => m.equalsBy .first t || Ty.hasEqual ms t
termination_by structural ts => ts

/-- The lists have equal types at equal positions. -/
def Ty.sameTypes : List Ty → Asked → List Ty → Bool
  | [], _, [] => true
  | a :: as, k, b :: bs => a.equalsBy k b && Ty.sameTypes as k bs
  | [], _, _ :: _ => false
  | _ :: _, _, [] => false
termination_by structural ts => ts

def Ty.sameParams : List Param → Asked → List Param → Bool
  | [], _, [] => true
  | ⟨_, a⟩ :: as, k, b :: bs => a.equalsBy k b.type && Ty.sameParams as k bs
  | [], _, _ :: _ => false
  | _ :: _, _, [] => false
termination_by structural ps => ps

def Ty.sameProperties : List Property → Interface → Bool
  | [], _ => true
  | ⟨name, type, isOptional⟩ :: rest, o =>
    (match o.property? name with
     | some q => isOptional == q.isOptional && type.equalsBy .first q.type
     | none => false) &&
      Ty.sameProperties rest o
termination_by structural ps => ps

/-- The first property of the name is the same. -/
def Ty.hasProperty : List Property → Property → Bool
  | [], _ => false
  | ⟨name, type, isOptional⟩ :: rest, q =>
    if name == q.name then isOptional == q.isOptional && type.equalsBy .second q.type
    else Ty.hasProperty rest q
termination_by structural ps => ps

end

def Ty.equals (a b : Ty) : Bool := a.equalsBy .first b

end TypedScript
