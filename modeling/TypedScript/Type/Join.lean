import TypedScript.Type.Assignability

/-!
# Common types

The one type given to several expressions: list elements, match arms, branches and
return values.
-/
namespace TypedScript.Ty

/-- The widest union that a common type may be, unless configured otherwise. -/
def defaultUnionWidth : Int := 5

/-- Fold numeric primitives with the wider of two; `none` when one is not numeric. -/
def joinNumeric? (first : Ty) (rest : List Ty) : Option Prim :=
  rest.foldl
    (fun acc t =>
      match acc, t.prim? with
      | some p, some q => if q.isNumeric then some (p.wider q) else none
      | _, _ => none)
    (match first.prim? with
     | some p => if p.isNumeric then some p else none
     | none => none)

/-- The common type of several.

* Of no types it is unknown, and of one type that type.
* When all others fit the first, it is the first.
* Numeric types give the wider of them.
* One type besides null gives its nullable.
* Otherwise it is the union, or any when that has more than `width` members. -/
def common (ts : List Ty) (width : Int) : Ty :=
  let width := if width ≤ 0 then defaultUnionWidth else width
  match ts with
  | [] => unknown
  | [t] => t
  | first :: rest =>
    if rest.all (fun t => t.equals first || t.assignableTo first) then first
    else
      match joinNumeric? first rest with
      | some p => prim p
      | none =>
        let values := distinct (ts.filter fun t => !t.isNull)
        if ts.any isNull then
          match values with
          | [t] => t.orNull
          | _ => if width < values.length + 1 then any else unionOf (values ++ [null])
        else if width < values.length then any
        else unionOf values

end TypedScript.Ty
