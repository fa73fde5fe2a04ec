import TypedScript.Scope.Scopes
import TypedScript.Type.Substitution
import TypedScript.Type.Assignability

/-!
# Resolving annotations

From an annotation to the type it means. A name that is not declared yet becomes a
reference to it, so declarations may refer forward; dereferencing replaces references
once their names are declared.
-/
namespace TypedScript

/-- Why an annotation means nothing. -/
inductive ResolveError where
  | arity (name : String) (expected found : Nat)
  | notAType (name : String) (kind : SymbolKind)
  | variadicNotLast (name : String)
  | variadicNotList (name : String) (type : Ty)
  | inProperty (name : String) (e : ResolveError)
  | inParameter (name : String) (e : ResolveError)

namespace ResolveError

def message : ResolveError → String
  | arity name expected found =>
    name ++ " expects " ++ toString expected ++ " type argument(s), got " ++ toString found
  | notAType name kind => name ++ " is a " ++ kind.name ++ ", not a type"
  | variadicNotLast name => "variadic parameter " ++ name ++ " must be last"
  | variadicNotList name type =>
    "variadic parameter " ++ name ++ " must have a list type, got " ++ type.text
  | inProperty name e => "property " ++ name ++ ": " ++ e.message
  | inParameter name e => "parameter " ++ name ++ ": " ++ e.message

end ResolveError

namespace Scopes

/-- Demand a number of type arguments. -/
def withArity (name : String) (expected : Nat) (args : List Ty) (t : List Ty → Ty) :
    Except ResolveError Ty :=
  if args.length = expected then .ok (t args) else .error (.arity name expected args.length)

/-- The body of an alias with its parameters replaced by arguments. -/
def applyAlias (a : AliasDecl) (body : Ty) (args : List Ty) : Except ResolveError Ty :=
  if a.typeParams.length = args.length then
    .ok (body.substitute (Subst.zip (a.typeParams.map TypeParamDecl.name) args))
  else .error (.arity a.name.name a.typeParams.length args.length)

/-- What a name is looked up as, applied to arguments. A name that is not declared yet is
referred to. -/
def applySymbol (file name : String) (args : List Ty) : Option Symbol → Except ResolveError Ty
  | some ⟨_, _, kind, some t, _, origin⟩ =>
    if !kind.isType then .error (.notAType name kind)
    else if args.isEmpty then .ok t
    else
      match origin with
      | .typeAlias a => applyAlias a t args
      | _ => .ok (.generic t args)
  | _ => if args.isEmpty then .ok (.ref name file) else .ok (.generic (.ref name file) args)

/-- The type named `name` applied to arguments. -/
def applyNamed (s : Scopes) (file name : String) (args : List Ty) : Except ResolveError Ty :=
  match name with
  | "List" | "Array" => withArity name 1 args fun ts => .list (ts.headD .unknown)
  | "Map" =>
    withArity name 2 args fun ts => .map (ts.headD .unknown) (ts.tail.headD .unknown)
  | "Future" | "Promise" => withArity name 1 args fun ts => .future (ts.headD .unknown)
  | _ =>
    match Prim.ofSpelling? name with
    | some p => withArity name 0 args fun _ => .prim p
    | none => applySymbol file name args (s.lookup? name)

mutual

def resolve (s : Scopes) (file : String) : Annotation → Except ResolveError Ty
  | .omitted => .ok .unknown
  | .named _ name args =>
    match resolveAll s file args with
    | .ok ts => s.applyNamed file name ts
    | .error e => .error e
  | .array _ element =>
    match resolve s file element with
    | .ok t => .ok (.list t)
    | .error e => .error e
  | .nullable _ base =>
    match resolve s file base with
    | .ok t => .ok t.orNull
    | .error e => .error e
  | .union _ members =>
    match resolveAll s file members with
    | .ok ts => .ok (Ty.unionOf ts)
    | .error e => .error e
  | .function _ params result =>
    match resolveParams s file params, resolve s file result with
    | .ok (ps, isVariadic), .ok t =>
      .ok (.function ⟨ps, if result.isOmitted then .void else t, isVariadic, []⟩)
    | .error e, _ => .error e
    | .ok _, .error e => .error e
  | .object _ properties =>
    match resolveProperties s file properties with
    | .ok ps => .ok (.interface ⟨"", ByName.ofList Property.name ps, []⟩)
    | .error e => .error e
termination_by structural a => a

def resolveAll (s : Scopes) (file : String) : List Annotation → Except ResolveError (List Ty)
  | [] => .ok []
  | a :: as =>
    match resolve s file a with
    | .error e => .error e
    | .ok t =>
      match resolveAll s file as with
      | .error e => .error e
      | .ok ts => .ok (t :: ts)
termination_by structural as => as

/-- The parameters in order, and whether the last one is variadic. -/
def resolveParams (s : Scopes) (file : String) :
    List ParamDecl → Except ResolveError (List Param × Bool)
  | [] => .ok ([], false)
  | p :: ps =>
    match resolveParam s file p with
    | .error e => .error e
    | .ok t =>
      if p.isVariadic && !ps.isEmpty then .error (.variadicNotLast p.name.name)
      else
        match resolveParams s file ps with
        | .error e => .error e
        | .ok (rest, isVariadic) => .ok (⟨p.name.name, t⟩ :: rest, p.isVariadic || isVariadic)
termination_by structural ps => ps

/-- A parameter without annotation takes anything; a variadic one must be a list. -/
def resolveParam (s : Scopes) (file : String) : ParamDecl → Except ResolveError Ty
  | ⟨_, .omitted, isVariadic, _⟩ => .ok (if isVariadic then .list .any else .any)
  | ⟨name, type, isVariadic, _⟩ =>
    match resolve s file type with
    | .error e => .error (.inParameter name.name e)
    | .ok t =>
      if isVariadic && t.kind != .list then .error (.variadicNotList name.name t) else .ok t
termination_by structural p => p

def resolveProperties (s : Scopes) (file : String) :
    List PropertyDecl → Except ResolveError (List Property)
  | [] => .ok []
  | ⟨name, type, isOptional, _⟩ :: ps =>
    match resolve s file type with
    | .error e => .error (.inProperty name e)
    | .ok t =>
      match resolveProperties s file ps with
      | .error e => .error e
      | .ok rest => .ok (⟨name, t, isOptional⟩ :: rest)
termination_by structural ps => ps

end

/-- The signature of a declaration; without a result annotation it returns nothing. -/
def resolveSignature (s : Scopes) (file : String) (typeParams : List TypeParam)
    (params : List ParamDecl) (result : Annotation) : Except ResolveError Signature :=
  match resolveParams s file params with
  | .error e => .error e
  | .ok (ps, isVariadic) =>
    match result with
    | .omitted => .ok ⟨ps, .void, isVariadic, typeParams⟩
    | result =>
      match resolve s file result with
      | .ok t => .ok ⟨ps, t, isVariadic, typeParams⟩
      | .error e => .error e

end Scopes

mutual

/-- Replace references by what `follow` gives for their names. A type without
references is left alone. -/
def Ty.derefBy (follow : String → Option Ty) : Ty → Ty
  | .ref name file => (follow name).getD (.ref name file)
  | .list t => .list (t.derefBy follow)
  | .map k v => .map (k.derefBy follow) (v.derefBy follow)
  | .nullable t => if t.findRef.isNone then .nullable t else (t.derefBy follow).orNull
  | .future t => .future (t.derefBy follow)
  | .union ms =>
    if (Ty.findRefIn ms).isNone then .union ms else Ty.unionOf (Ty.derefAll follow ms)
  | .function ⟨params, result, isVariadic, typeParams⟩ =>
    .function ⟨Ty.derefParams follow params, result.derefBy follow, isVariadic, typeParams⟩
  | .generic base args => .generic (base.derefBy follow) (Ty.derefAll follow args)
  | t => t
termination_by structural t => t

def Ty.derefAll (follow : String → Option Ty) : List Ty → List Ty
  | [] => []
  | t :: ts => t.derefBy follow :: Ty.derefAll follow ts
termination_by structural ts => ts

def Ty.derefParams (follow : String → Option Ty) : List Param → List Param
  | [] => []
  | ⟨name, t⟩ :: ps => ⟨name, t.derefBy follow⟩ :: Ty.derefParams follow ps
termination_by structural ps => ps

end

namespace Scopes

/-- Replace references, and those in what replaces them, `limit` times at most. -/
def derefWithin (s : Scopes) : Nat → Ty → Ty
  | 0, t => t
  | limit + 1, t => t.derefBy fun name => (s.typeNamed? name).map (s.derefWithin limit)

/-- The longest chain of references that is followed. -/
def derefLimit : Nat := 33

/-- The type with every declared reference replaced by what it means now. -/
def deref (s : Scopes) (t : Ty) : Ty := s.derefWithin derefLimit t

/-- An annotation with its references replaced. -/
def resolveNow (s : Scopes) (file : String) (a : Annotation) : Except ResolveError Ty :=
  (s.resolve file a).map s.deref

end Scopes

end TypedScript
