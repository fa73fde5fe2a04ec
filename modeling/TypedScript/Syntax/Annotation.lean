import TypedScript.Source.Location

/-!
# Type annotations

Types as they are written. An annotation that is left out is a form of its own: what
it means depends on where it is missing.
-/
namespace TypedScript

/-- A name at a place. -/
structure Ident where
  name : String
  location : Location := {}

mutual

inductive Annotation where
  | omitted
  | named (place : Location) (name : String) (args : List Annotation)
  | array (place : Location) (element : Annotation)
  | nullable (place : Location) (base : Annotation)
  | union (place : Location) (members : List Annotation)
  | function (place : Location) (params : List ParamDecl) (result : Annotation)
  | object (place : Location) (properties : List PropertyDecl)

/-- A parameter; a variadic one comes last and takes the remaining arguments. -/
structure ParamDecl where
  name : Ident
  type : Annotation
  isVariadic : Bool
  location : Location

/-- A property of an interface or of an object type. -/
structure PropertyDecl where
  name : String
  type : Annotation
  isOptional : Bool
  location : Location

end

/-- A type parameter with an optional bound. -/
structure TypeParamDecl where
  name : String
  bound : Annotation
  location : Location

instance : Inhabited Annotation := ⟨.omitted⟩
instance : Inhabited ParamDecl := ⟨⟨⟨"", {}⟩, default, false, {}⟩⟩
instance : Inhabited PropertyDecl := ⟨⟨"", default, false, {}⟩⟩

namespace Annotation

def isOmitted : Annotation → Bool
  | omitted => true
  | _ => false

def location : Annotation → Location
  | omitted => {}
  | named l _ _ => l
  | array l _ => l
  | nullable l _ => l
  | union l _ => l
  | function l _ _ => l
  | object l _ => l

end Annotation

end TypedScript
