import TypedScript.Syntax.Naming
import TypedScript.Type.Union
import TypedScript.Type.Substitution

/-!
# What a condition tells

The types that variables have when a condition holds, and when it fails. A condition of
another shape than those below tells nothing.

* `x == null` leaves the type without null when it fails.
* `typeof x == "name"` gives the named type when it holds.
* `x instanceof C` gives the class when it holds.
* `a && b` tells when it holds what both operands tell; `a || b` when it fails.
* `!` and `!=` exchange the two readings.
-/
namespace TypedScript

/-- A refined type for each of some variables, sorted by name. -/
abbrev Narrowings := Subst

/-- What is known about names where a condition stands. -/
structure Surroundings where
  typeOf? : String → Option Ty
  classNamed? : String → Option Class

/-- The narrowings of the two outcomes of a condition. -/
structure Outcomes where
  holds : Narrowings := []
  fails : Narrowings := []

namespace Outcomes

def nothing : Outcomes := {}

/-- The outcomes of the negated condition. -/
def swap (o : Outcomes) : Outcomes := ⟨o.fails, o.holds⟩

end Outcomes

namespace Narrowings

/-- The entries of both, those of the second winning. -/
def merge (a b : Narrowings) : Narrowings := b.foldl (fun n e => Subst.bind n e.1 e.2) a

end Narrowings

namespace Condition

/-- The types that a `typeof` comparison can name. -/
def namedType? : String → Option Ty
  | "int" => some .int
  | "float" => some (.prim .float)
  | "str" => some .str
  | "string" => some .str
  | "bool" => some .bool
  | "boolean" => some .bool
  | _ => none

/-- The variable and the type of a comparison of its `typeof` with a string. -/
def typeTest? (x y : Expr) : Option (String × Ty) :=
  match x.unparen, y.unparen with
  | .typeOf _ e, .literal _ .string text =>
    match e.name?, namedType? text with
    | some name, some t => some (name, t)
    | _, _ => none
  | _, _ => none

/-- The variable that is compared with null. -/
def nullTest? (x y : Expr) : Option String :=
  match y.unparen with
  | .literal _ .null _ => x.name?
  | _ => none

/-- The type of a variable that is known not to be null, where that says something. -/
def withoutNull? (env : Surroundings) (name : String) : Option Ty :=
  match env.typeOf? name with
  | none => none
  | some t =>
    if t.isAbsorbing || !t.allowsNull then none
    else if t.stripNull.equals t then none
    else some t.stripNull

/-- What `x == y` tells, with the operands in either order. -/
def equality (env : Surroundings) (x y : Expr) : Outcomes :=
  match (typeTest? x y).or (typeTest? y x) with
  | some (name, t) => { holds := [(name, t)] }
  | none =>
    match (nullTest? x y).or (nullTest? y x) with
    | some name =>
      match withoutNull? env name with
      | some t => { fails := [(name, t)] }
      | none => .nothing
    | none => .nothing

/-- What a condition tells in its surroundings. -/
def analyze (env : Surroundings) : Expr → Outcomes
  | .paren _ x => analyze env x
  | .unary _ .not x => (analyze env x).swap
  | .instanceOf _ x cls =>
    match x.name?, env.classNamed? cls.name with
    | some name, some c => { holds := [(name, .cls c)] }
    | _, _ => .nothing
  | .binary _ x .and y => { holds := (analyze env x).holds.merge (analyze env y).holds }
  | .binary _ x .or y => { fails := (analyze env x).fails.merge (analyze env y).fails }
  | .binary _ x .eq y => equality env x y
  | .binary _ x .notEq y => (equality env x y).swap
  | _ => .nothing
termination_by structural e => e

end Condition

end TypedScript
