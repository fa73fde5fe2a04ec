import TypedScript.Type.Union

/-!
# Substitution

Replacing type parameters by types. A signature's own type parameters hide outer
bindings; classes, enums and the base of an applied generic are left alone.
-/
namespace TypedScript

/-- A type for each of some names, sorted by name. -/
abbrev Subst := List (String × Ty)

namespace Subst

def get? (s : Subst) (name : String) : Option Ty :=
  (ByName.find? Prod.fst name s).map Prod.snd

/-- Bind a name, in the stead of an earlier binding. -/
def bind (s : Subst) (name : String) (t : Ty) : Subst := ByName.insert Prod.fst (name, t) s

/-- The bindings of names that are not declared by `params`. -/
def without (s : Subst) (params : List TypeParam) : Subst :=
  s.filter fun b => !params.any fun p => p.name == b.1

/-- Bind names to types, position by position. -/
def zip (names : List String) (types : List Ty) : Subst :=
  (names.zip types).foldl (fun s b => s.bind b.1 b.2) []

end Subst

mutual

def Ty.substituteIn (s : Subst) : Ty → Ty
  | .param name => (s.get? name).getD (.param name)
  | .list t => .list (t.substituteIn s)
  | .map k v => .map (k.substituteIn s) (v.substituteIn s)
  | .nullable t => (t.substituteIn s).orNull
  | .future t => .future (t.substituteIn s)
  | .union ms => Ty.unionOf (Ty.substituteAll s ms)
  | .function ⟨params, result, isVariadic, typeParams⟩ =>
    let inner := s.without typeParams
    if inner.isEmpty then .function ⟨params, result, isVariadic, typeParams⟩
    else
      .function ⟨Ty.substituteParams inner params, result.substituteIn inner,
        isVariadic, typeParams⟩
  | .interface ⟨name, properties, typeParams⟩ =>
    .interface ⟨name, Ty.substituteProperties s properties, typeParams⟩
  | .generic base args => .generic base (Ty.substituteAll s args)
  | t => t
termination_by structural t => t

def Ty.substituteAll (s : Subst) : List Ty → List Ty
  | [] => []
  | t :: ts => t.substituteIn s :: Ty.substituteAll s ts
termination_by structural ts => ts

def Ty.substituteParams (s : Subst) : List Param → List Param
  | [] => []
  | ⟨name, t⟩ :: ps => ⟨name, t.substituteIn s⟩ :: Ty.substituteParams s ps
termination_by structural ps => ps

def Ty.substituteProperties (s : Subst) : List Property → List Property
  | [] => []
  | ⟨name, t, isOptional⟩ :: ps =>
    ⟨name, t.substituteIn s, isOptional⟩ :: Ty.substituteProperties s ps
termination_by structural ps => ps

end

namespace Ty

/-- Replace type parameters by their bindings; unbound ones stay. -/
def substitute (t : Ty) (s : Subst) : Ty :=
  if s.isEmpty then t else t.substituteIn s

end Ty

mutual

/-- A type parameter occurs in the type. Interfaces and the base of an applied
generic are not searched. -/
def Ty.hasParam : Ty → Bool
  | .param _ => true
  | .list t => t.hasParam
  | .map k v => k.hasParam || v.hasParam
  | .nullable t => t.hasParam
  | .future t => t.hasParam
  | .union ms => Ty.someHasParam ms
  | .function ⟨params, result, _, _⟩ => Ty.someParamHasParam params || result.hasParam
  | .generic _ args => Ty.someHasParam args
  | _ => false
termination_by structural t => t

def Ty.someHasParam : List Ty → Bool
  | [] => false
  | t :: ts => t.hasParam || Ty.someHasParam ts
termination_by structural ts => ts

def Ty.someParamHasParam : List Param → Bool
  | [] => false
  | ⟨_, t⟩ :: ps => t.hasParam || Ty.someParamHasParam ps
termination_by structural ps => ps

end

end TypedScript
