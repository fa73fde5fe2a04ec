import TypedScript.Type.Assignability
import TypedScript.Type.Substitution

/-!
# Type arguments

Finding the type arguments of a generic call from its value arguments, and checking
them against the bounds of the parameters.
-/
namespace TypedScript

namespace Subst

/-- Bind a parameter that an argument determines. A second numeric argument widens
the first; any other second argument is ignored. -/
def infer (s : Subst) (name : String) (arg : Ty) : Subst :=
  match s.get? name with
  | none => s.bind name arg
  | some (.prim p) =>
    match arg with
    | .prim q => if p.isNumeric && q.isNumeric then s.bind name (.prim (p.wider q)) else s
    | _ => s
  | some _ => s

end Subst

mutual

/-- Match a parameter type against an argument type, binding the declared names that
stand in the parameter. -/
def Ty.unify (declared : List String) : Ty → Ty → Subst → Subst
  | .param name, arg, s => if declared.contains name then s.infer name arg else s
  | .list p, arg, s =>
    match arg with
    | .list a => p.unify declared a s
    | _ => s
  | .map k v, arg, s =>
    match arg with
    | .map l w => v.unify declared w (k.unify declared l s)
    | _ => s
  | .nullable p, arg, s =>
    match arg with
    | .nullable a => p.unify declared a s
    | a => if a.isNull then s else p.unify declared a s
  | .future p, arg, s =>
    match arg with
    | .future a => p.unify declared a s
    | _ => s
  | .function ⟨params, result, _, _⟩, arg, s =>
    match arg with
    | .function o =>
      if o.params.length = params.length then
        result.unify declared o.result (Ty.unifyParams declared params o.params s)
      else s
    | _ => s
  | .generic base args, arg, s =>
    match arg with
    | .generic b as =>
      if as.length = args.length && base.equals b then Ty.unifyAll declared args as s else s
    | _ => s
  | _, _, s => s
termination_by structural t => t

def Ty.unifyAll (declared : List String) : List Ty → List Ty → Subst → Subst
  | p :: ps, a :: as, s => Ty.unifyAll declared ps as (p.unify declared a s)
  | _, _, s => s
termination_by structural ts => ts

def Ty.unifyParams (declared : List String) : List Param → List Param → Subst → Subst
  | ⟨_, p⟩ :: ps, a :: as, s => Ty.unifyParams declared ps as (p.unify declared a.type s)
  | _, _, s => s
termination_by structural ps => ps

end

namespace TypeParam

/-- A parameter that no argument determines takes its bound, or unknown. -/
def fallback (p : TypeParam) : Ty := p.bound.getD .unknown

/-- A type for each declared parameter, from pairs of a parameter type and an
argument type. -/
def inferArguments (declared : List TypeParam) (pairs : List (Ty × Ty)) : Subst :=
  let names := declared.map TypeParam.name
  let found := pairs.foldl (fun s p => p.1.unify names p.2 s) []
  declared.foldl
    (fun s p => match s.get? p.name with
      | some _ => s
      | none => s.bind p.name p.fallback) found

/-- The parameter's binding does not meet its bound. An unknown binding is not
checked. -/
def violation? (s : Subst) (p : TypeParam) : Option (Ty × Ty) :=
  match p.bound, s.get? p.name with
  | some bound, some t => if t.isUnknown || t.assignableTo bound then none else some (t, bound)
  | _, _ => none

/-- The first parameter whose binding does not meet its bound. -/
def firstViolation? (declared : List TypeParam) (s : Subst) : Option (Ty × Ty × String) :=
  declared.findSome? fun p => (p.violation? s).map fun v => (v.1, v.2, p.name)

/-- Pair explicit type arguments with the declared parameters. -/
def explicitArguments? (declared : List TypeParam) (args : List Ty) : Option Subst :=
  if args.length = declared.length then some (Subst.zip (declared.map TypeParam.name) args)
  else none

end TypeParam

end TypedScript
