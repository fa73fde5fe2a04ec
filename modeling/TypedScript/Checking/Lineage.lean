import TypedScript.Scope.Scopes
import TypedScript.Type.Class

/-!
# Lineages

A class with its ancestors as they are defined now. A class holds a snapshot of its
superclass; each ancestor is read again by name, so members that were added after a
subclass was declared are found.

A name may mean another class by then, so a walk up a lineage can come back to where it
was. Such a walk never ends, unless it finds what it looks for on its way.
-/
namespace TypedScript

/-- What a walk up a lineage comes to. -/
inductive Search (α : Type) where
  | found (a : α)
  | absent
  | endless

/-- The snapshots that a symbol holds: a class and its superclasses. -/
def Symbol.snapshots (x : Symbol) : List Class :=
  match x.type with
  | some (.cls c) => c.chain
  | _ => []

namespace Scopes

/-- The class as it is defined now. -/
def refresh (s : Scopes) (c : Class) : Class := (s.classNamed? c.name).getD c

/-- The class and its ancestors, `limit` of them at most. -/
def lineageWithin (s : Scopes) : Nat → Class → List Class
  | 0, _ => []
  | limit + 1, c =>
    let c := s.refresh c
    match c.parent with
    | none => [c]
    | some p => c :: s.lineageWithin limit p

/-- The class and its ancestors are `limit` classes at most. -/
def endsWithin (s : Scopes) : Nat → Class → Bool
  | 0, _ => false
  | limit + 1, c =>
    match (s.refresh c).parent with
    | none => true
    | some p => s.endsWithin limit p

/-- The snapshots that a lineage can come to: those behind the class and those behind the
classes in force. -/
def inSight (s : Scopes) (c : Class) : List Class :=
  c.chain ++ s.chain.flatten.flatMap Symbol.snapshots

/-- A lineage that does not go in a circle is no longer than all snapshots in sight
together. -/
def lineageLimit (s : Scopes) (c : Class) : Nat := (s.inSight c).length

/-- The class and its ancestors, nearest first. One that goes in a circle is cut off. -/
def lineage (s : Scopes) (c : Class) : List Class := s.lineageWithin (s.lineageLimit c) c

/-- The lineage does not go in a circle. -/
def hasEnd (s : Scopes) (c : Class) : Bool := s.endsWithin (s.lineageLimit c) c

/-- The answer of the nearest class that has one. -/
def nearest {α : Type} (s : Scopes) (c : Class) (answer? : Class → Option α) : Search α :=
  match (s.lineage c).findSome? answer? with
  | some a => .found a
  | none => if s.hasEnd c then .absent else .endless

def findMember (s : Scopes) (c : Class) (name : String) : Search Member :=
  s.nearest c fun d => d.ownMember? name

/-- Whether the nearest class that declares the name declares a method. -/
def isMethod (s : Scopes) (c : Class) (name : String) : Search Bool :=
  s.nearest c fun d => (d.ownMember? name).map fun _ => (d.property? name).isNone

/-- The constructor of the class as it is given, or else of the nearest ancestor that has one. -/
def constructor (s : Scopes) (c : Class) : Search Signature :=
  match c.ctor, c.parent with
  | some sig, _ => .found sig
  | none, some p => s.nearest p Class.ctor
  | none, none => .absent

/-- The properties that instances of the class offer to everyone. -/
def offered (s : Scopes) (c : Class) : Search (List Property) :=
  if s.hasEnd c then
    .found <| ByName.ofList Property.name <| (s.lineage c).reverse.flatMap fun d =>
      (d.properties.filter Member.isOffered).map fun m => ⟨m.name, m.type, false⟩
  else .endless

end Scopes

end TypedScript
