import TypedScript.Checking.Expressions

/-!
# List and object literals

A literal takes the element type or the shape that is expected of it, and its parts
must fit; otherwise its type is made from the types of its parts.
-/
namespace TypedScript

/-- An entry of an object literal with a check of its value. -/
inductive Entry where
  | property (key : Ident) (value : Part)
  | spread (x : Part)

namespace Rule

open Check

/-- The type of the elements that a spread adds to a list. -/
def spreadElement (place : Location) (t : Ty) : Check Ty := do
  match t with
  | .list element => return element
  | _ =>
    if t.isAbsorbing then return .any
    misplaced Code.invalidSpread place ("cannot spread " ++ t.text ++ " into a list")

/-- The elements of a list with their types. -/
def elements (hint : Hint) : List Argument → Check (List (Argument × Ty))
  | [] => return []
  | a :: as => do
    let t ← if a.isSpread then do
        let t ← a.check (hint.map Ty.list)
        record a.expr.id t
        spreadElement a.location t
      else a.check hint
    return (a, t) :: (← elements hint as)

def fitElements (want : Ty) : List (Argument × Ty) → Check Unit
  | [] => return
  | (a, t) :: rest => do
    assignable a.location t want ("expected " ++ want.text)
    fitElements want rest

def list (parts : List Argument) (expected : Hint) : Check Ty := do
  let hint := expected.element?
  let found ← elements hint parts
  match hint with
  | some want =>
    if !want.isAbsorbing then
      fitElements want found
      return .list want
    else if found.isEmpty then return .list want
    else return .list (← common (found.map Prod.snd))
  | none =>
    if found.isEmpty then return .list .unknown
    return .list (← common (found.map Prod.snd))

/-- The properties that a spread adds to an object. -/
def spreadShape? (t : Ty) : Check (Option (List Property)) := do
  match t with
  | .interface shape => return some shape.properties
  | .cls c => ofSearch ((← get).scopes.offered c)
  | _ => return none

/-- What an object literal has so far. -/
structure Gathered where
  properties : List Property := []
  /-- The keys that were written, latest first. -/
  keys : List Ident := []

namespace Gathered

def add (g : Gathered) (p : Property) : Gathered :=
  { g with properties := ByName.insert Property.name p g.properties }

/-- The place of a property: its key, or the whole literal. -/
def place (g : Gathered) (whole : Location) (name : String) : Location :=
  match g.keys.find? fun k => k.name == name with
  | some k => k.location
  | none => whole

def property? (g : Gathered) (name : String) : Option Property :=
  ByName.find? Property.name name g.properties

end Gathered

/-- Gather the properties of an object literal; a later one wins. -/
def gather (shape : Option Interface) : Gathered → List Entry → Check Gathered
  | g, [] => return g
  | g, .property key value :: rest => do
    let hint := (shape.bind fun i => i.property? key.name).map Property.type
    let t ← value.check hint
    gather shape { g.add ⟨key.name, t, false⟩ with keys := key :: g.keys } rest
  | g, .spread x :: rest => do
    let t ← x.check none
    match ← spreadShape? (← deref t) with
    | some properties => gather shape (properties.foldl Gathered.add g) rest
    | none =>
      if t.isAbsorbing then gather shape g rest
      else
        misplaced Code.invalidSpread x.location ("cannot spread " ++ t.text ++ " into an object")

/-- Demand that the shape has every property. -/
def knownOnly (whole : Location) (shape : Interface) (g : Gathered) : List Property → Check Unit
  | [] => return
  | p :: ps => do
    if (shape.property? p.name).isNone then
      typeMismatch (g.place whole p.name)
        ("property " ++ p.name ++ " does not exist on " ++ shape.text)
    knownOnly whole shape g ps

/-- Demand the properties of a shape. -/
def fitShape (whole : Location) (shape : Interface) (g : Gathered) : List Property → Check Unit
  | [] => return
  | want :: rest => do
    match g.property? want.name with
    | some have' =>
      assignable (g.place whole want.name) have'.type want.type ("property " ++ want.name)
    | none =>
      if !want.isOptional then
        typeMismatch whole
          ("missing property " ++ want.name ++ " required by " ++ shape.text)
    fitShape whole shape g rest

def object (place : Location) (entries : List Entry) (expected : Hint) : Check Ty := do
  let g ← gather expected.shape? {} entries
  match expected.shape? with
  | none => return .interface ⟨"", g.properties, []⟩
  | some shape =>
    knownOnly place shape g g.properties
    fitShape place shape g shape.properties
    return .interface shape

end Rule

end TypedScript
