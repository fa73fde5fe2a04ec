import TypedScript.Type.Kind

/-!
# Types

The types of the language. Lists, maps, nullables, unions, functions, futures,
interfaces and applied generics are structural; classes and enums are known by
their name. A class carries a snapshot of its superclass.

A type parameter occurs by name only. Its bound is kept by the signature, class or
interface that declares it.
-/
namespace TypedScript

inductive Visibility where
  | pub | priv | prot
  deriving DecidableEq

namespace Visibility

def name : Visibility → String
  | pub => "public"
  | priv => "private"
  | prot => "protected"

def ofName? (s : String) : Option Visibility := [pub, priv, prot].find? fun v => v.name == s

end Visibility

/-- The constant behind an enum member. -/
inductive EnumValue where
  | int (n : Int)
  | str (s : String)
  deriving DecidableEq

structure EnumMember where
  name : String
  value : EnumValue
  deriving DecidableEq

/-- A nominal set of named constants, in declaration order. -/
structure Enum where
  name : String
  members : List EnumMember
  deriving DecidableEq

namespace Enum

def member? (e : Enum) (name : String) : Option EnumMember :=
  e.members.find? fun m => m.name == name

end Enum

mutual

inductive Ty where
  | prim (p : Prim)
  | list (element : Ty)
  | map (key value : Ty)
  | nullable (inner : Ty)
  | union (members : List Ty)
  | function (sig : Signature)
  | interface (shape : Interface)
  | cls (c : Class)
  | enum (e : Enum)
  | future (inner : Ty)
  | ref (name file : String)
  | param (name : String)
  | generic (base : Ty) (args : List Ty)

/-- A function signature. When it is variadic, its last parameter has a list type
and takes every remaining argument. -/
structure Signature where
  params : List Param
  result : Ty
  isVariadic : Bool
  typeParams : List TypeParam

structure Param where
  name : String
  type : Ty

/-- A declared type parameter with the bound its arguments must meet. -/
structure TypeParam where
  name : String
  bound : Option Ty

/-- A structural shape, its properties sorted by name. Object literals give shapes
with an empty name. -/
structure Interface where
  name : String
  properties : List Property
  typeParams : List TypeParam

structure Property where
  name : String
  type : Ty
  isOptional : Bool

/-- A class, its members sorted by name. -/
structure Class where
  name : String
  parent : Option Class
  properties : List Member
  methods : List Member
  ctor : Option Signature
  typeParams : List TypeParam
  isAbstract : Bool

/-- A property or method, with the class that declares it. -/
structure Member where
  name : String
  type : Ty
  visibility : Visibility
  isStatic : Bool
  isReadonly : Bool
  owner : String

end

instance : Inhabited Ty := ⟨.prim .unknown⟩
instance : Inhabited Signature := ⟨⟨[], default, false, []⟩⟩
instance : Inhabited TypeParam := ⟨⟨"", none⟩⟩
instance : Inhabited Member := ⟨⟨"", default, .pub, false, false, ""⟩⟩
instance : Inhabited Class := ⟨⟨"", none, [], [], none, [], false⟩⟩

namespace Ty

abbrev int : Ty := prim .int
abbrev str : Ty := prim .str
abbrev bool : Ty := prim .bool
abbrev null : Ty := prim .null
abbrev void : Ty := prim .void
abbrev any : Ty := prim .any
abbrev unknown : Ty := prim .unknown

def kind : Ty → Kind
  | prim p => .prim p
  | list _ => .list
  | map _ _ => .map
  | nullable _ => .nullable
  | union _ => .union
  | function _ => .function
  | interface _ => .interface
  | cls _ => .cls
  | enum _ => .enum
  | future _ => .future
  | ref _ _ => .ref
  | param _ => .param
  | generic _ _ => .generic

def isPrim (p : Prim) : Ty → Bool
  | prim q => p = q
  | _ => false

def isAny : Ty → Bool := isPrim .any
def isUnknown : Ty → Bool := isPrim .unknown
def isNull : Ty → Bool := isPrim .null
def isVoid : Ty → Bool := isPrim .void
def isBool : Ty → Bool := isPrim .bool
def isStr : Ty → Bool := isPrim .str

/-- The type accepts every value. -/
def isAbsorbing : Ty → Bool
  | prim p => p.isAbsorbing
  | _ => false

def isNumeric (t : Ty) : Bool := t.kind.isNumeric
def isInteger (t : Ty) : Bool := t.kind.isInteger
def isFloat (t : Ty) : Bool := t.kind.isFloat

/-- The primitive behind a primitive type. -/
def prim? : Ty → Option Prim
  | prim p => some p
  | _ => none

def signature? : Ty → Option Signature
  | function sig => some sig
  | _ => none

def class? : Ty → Option Class
  | cls c => some c
  | _ => none

theorem bind_class?_eq_some {t : Option Ty} {c : Class} :
    t.bind class? = some c ↔ t = some (cls c) := by
  cases t with
  | none => simp
  | some t => cases t <;> simp [class?]

end Ty

namespace Signature

def withResult (sig : Signature) (result : Ty) : Signature := { sig with result }

end Signature

end TypedScript
