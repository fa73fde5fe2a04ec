import TypedScript.Report.Catalogue
import TypedScript.Type.Arguments
import TypedScript.Type.Class
import TypedScript.Type.Printer

/-!
# Access to members and type arguments

Hidden members are reached from their own class only. The members of types without a
declaration are given by a table that the caller may supply.

Type arguments are as many as there are parameters, and each meets the bound of its
parameter.
-/
namespace TypedScript

namespace Member

/-- The member may be used inside class `current`, which is empty outside any class. -/
def isAccessibleFrom (m : Member) (current : String) : Bool :=
  match m.visibility with
  | .pub => true
  | .priv => current == m.owner
  | .prot => current != "" && current == m.owner

/-- Why the member may not be used, or `none` when it may. -/
def refusal? (m : Member) (current : String) : Option Diagnostic :=
  if m.isAccessibleFrom current then none
  else
    some ((Diagnostic.error (m.visibility.name ++ " member " ++ m.name ++ " of " ++ m.owner ++
      " is not accessible here")).withCode Code.visibility)

end Member

/-- The members of types that no declaration describes. -/
inductive Builtins where
  /-- Strings and lists have a length. -/
  | standard
  /-- A member is known by the text of its receiver and its own name. -/
  | table (entries : List (String × String × Ty))

namespace Builtins

def member? (b : Builtins) (receiver : Ty) (name : String) : Option Ty :=
  match b with
  | standard =>
    if name == "length" then
      match receiver with
      | .list _ => some .int
      | .prim .str => some .int
      | _ => none
    else none
  | table entries =>
    (entries.find? fun e => e.1 == receiver.text && e.2.1 == name).map fun e => e.2.2

end Builtins

namespace Typing

/-- The first type argument that does not meet its bound. -/
def constraints? (declared : List TypeParam) (s : Subst) : Option Diagnostic :=
  (TypeParam.firstViolation? declared s).map fun (t, bound, name) =>
    (Diagnostic.error ("type argument " ++ t.text ++ " does not satisfy constraint " ++
      bound.text ++ " of " ++ name)).withCode Code.constraintViolation

/-- Explicit type arguments, as many as there are parameters. -/
def explicitArguments (declared : List TypeParam) (args : List Ty) : Except Diagnostic Subst :=
  match TypeParam.explicitArguments? declared args with
  | some s => .ok s
  | none =>
    .error ((Diagnostic.error ("expected " ++ toString declared.length ++
      " type argument(s), got " ++ toString args.length)).withCode Code.wrongArgumentCount)

end Typing

end TypedScript
