import TypedScript.Type.Basic
import TypedScript.Text.ByName

/-!
# Classes

Building classes member by member, and searching a class with the snapshots of its
superclasses. Every change gives a new class; the one it came from stays as it was.
-/
namespace TypedScript

namespace Member

/-- A member declared without an owner belongs to the class it is added to. -/
def ownedBy (m : Member) (className : String) : Member :=
  if m.owner = "" then { m with owner := className } else m

@[simp] theorem name_ownedBy (m : Member) (className : String) :
    (m.ownedBy className).name = m.name := by
  unfold ownedBy
  split <;> rfl

@[simp] theorem type_ownedBy (m : Member) (className : String) :
    (m.ownedBy className).type = m.type := by
  unfold ownedBy
  split <;> rfl

end Member

namespace Class

/-- A class without members. -/
def empty (name : String) (parent : Option Class) : Class where
  name := name
  parent := parent
  properties := []
  methods := []
  ctor := none
  typeParams := []
  isAbstract := false

def withProperty (c : Class) (m : Member) : Class :=
  { c with properties := ByName.insert Member.name (m.ownedBy c.name) c.properties }

def withMethod (c : Class) (m : Member) : Class :=
  { c with methods := ByName.insert Member.name (m.ownedBy c.name) c.methods }

def withConstructor (c : Class) (sig : Signature) : Class := { c with ctor := some sig }

def property? (c : Class) (name : String) : Option Member :=
  ByName.find? Member.name name c.properties

def method? (c : Class) (name : String) : Option Member :=
  ByName.find? Member.name name c.methods

/-- The member declared by the class itself; a property hides a method. -/
def ownMember? (c : Class) (name : String) : Option Member :=
  (c.property? name).or (c.method? name)

@[simp] theorem method?_withMethod_self (c : Class) (m : Member) :
    (c.withMethod m).method? m.name = some (m.ownedBy c.name) := by
  have h := ByName.find?_insert_self Member.name (m.ownedBy c.name) c.methods
  rwa [m.name_ownedBy] at h

theorem method?_withMethod_of_ne (c : Class) (m : Member) {name : String} (h : name ≠ m.name) :
    (c.withMethod m).method? name = c.method? name :=
  ByName.find?_insert_of_ne _ _ _ _ (by rwa [m.name_ownedBy])

@[simp] theorem property?_withProperty_self (c : Class) (m : Member) :
    (c.withProperty m).property? m.name = some (m.ownedBy c.name) := by
  have h := ByName.find?_insert_self Member.name (m.ownedBy c.name) c.properties
  rwa [m.name_ownedBy] at h

theorem property?_withProperty_of_ne (c : Class) (m : Member) {name : String}
    (h : name ≠ m.name) : (c.withProperty m).property? name = c.property? name :=
  ByName.find?_insert_of_ne _ _ _ _ (by rwa [m.name_ownedBy])

end Class

mutual

/-- The class followed by the snapshots of its superclasses. -/
def Class.chain : Class → List Class
  | ⟨name, parent, properties, methods, ctor, typeParams, isAbstract⟩ =>
    ⟨name, parent, properties, methods, ctor, typeParams, isAbstract⟩ :: Class.parentChain parent
termination_by structural c => c

def Class.parentChain : Option Class → List Class
  | none => []
  | some c => c.chain
termination_by structural c => c

end

namespace Class

def findMember? (c : Class) (name : String) : Option Member :=
  c.chain.findSome? fun d => d.ownMember? name

def isSubclassOf (c : Class) (name : String) : Bool :=
  c.chain.any fun d => d.name == name

end Class

namespace Member

/-- Instances offer the member to everyone. -/
def isOffered (m : Member) : Bool := !m.isStatic && m.visibility = .pub

end Member

end TypedScript
