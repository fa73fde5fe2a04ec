import TypedScript.Checking.Check
import TypedScript.Text.Integer
import TypedScript.Typing.Literals

/-!
# Declaring types and functions

Registering a declaration in the innermost scope: its signature or members are resolved,
its bodies are left for later. A function without a result annotation has an unknown
result until its body is checked.
-/
namespace TypedScript

namespace Scopes

/-- Change the type of a symbol wherever it is declared. -/
def retypeSymbol (s : Scopes) (id : SymbolId) (t : Ty) : Scopes :=
  let change (scope : Scope) : Scope :=
    List.map (fun x => if x.id = id then { x with type := some t } else x) scope
  { s with global := change s.global, entered := s.entered.map change }

end Scopes

namespace Declare

open Check

def invalidType {α : Type} (place : Location) (e : ResolveError) : Check α :=
  refuse Code.invalidType place "invalid type annotation" e.message

/-- Resolve an annotation; references stay. -/
def resolve (place : Location) (a : Annotation) : Check Ty := do
  let s ← get
  match s.scopes.resolve s.options.file a with
  | .ok t => return t
  | .error e => invalidType place e

/-- Declare the names of type parameters. -/
def typeParamNames : List TypeParamDecl → Check Unit
  | [] => return
  | p :: ps => do
    match (← get).scopes.define p.name .typeParam (some (.param p.name)) false .unknown with
    | .ok (_, scopes) => modify fun s => { s with scopes }
    | .error _ => fail (.redeclared (← file) (some p.location) none p.name)
    typeParamNames ps

/-- Resolve the bounds of type parameters whose names are declared. -/
def typeParamBounds : List TypeParamDecl → Check (List TypeParam)
  | [] => return []
  | p :: ps => do
    let bound ← if p.bound.isOmitted then pure none else some <$> resolve p.location p.bound
    return ⟨p.name, bound⟩ :: (← typeParamBounds ps)

/-- Declare type parameters; a bound may mention any of them. -/
def typeParams (ps : List TypeParamDecl) : Check (List TypeParam) := do
  typeParamNames ps
  typeParamBounds ps

/-- The signature of a function-like declaration. -/
def signature (tps : List TypeParamDecl) (params : List ParamDecl) (result : Annotation)
    (isAsync : Bool) (place : Location) : Check Signature :=
  during Session.enterScope do
    let tps ← typeParams tps
    let s ← get
    match s.scopes.resolveSignature s.options.file tps params result with
    | .error e => invalidType place e
    | .ok sig =>
      if result.isOmitted then return sig.withResult .unknown
      else if isAsync then return sig.withResult sig.result.asFuture
      else return sig

def callableSignature (f : Callable) : Check Signature :=
  signature f.typeParams f.params f.result f.isAsync f.location

def function (f : Callable) : Check Unit := do
  let sig ← callableSignature f
  let _ ← declare f.name .function (.function sig) false (.function f)
  trace .purple ("  ✓ registered fn " ++ f.name.name ++ ": " ++ sig.text)

/-- The class that a declaration extends. -/
def parent (c : ClassDecl) : Check (Option Class) := do
  match c.parent with
  | none => return none
  | some base =>
    match ← lookup? base.name with
    | none =>
      fail ((Diagnostic.error ("superclass " ++ base.name ++ " not found"))
        |>.withCode Code.superclassNotFound
        |>.withPrimary (← file) (some base.location) "not found in this scope"
        |>.withHelp ("declare the superclass before " ++ c.name.name))
    | some symbol =>
      match symbol.kind, symbol.type with
      | .cls, some (.cls parent) => return some parent
      | _, _ => fail (.notAClass (← file) (some base.location) base.name)

def redeclaredMember {α : Type} (name : Ident) : Check α := do
  fail (.redeclared (← file) (some name.location) none name.name)

def fields (c : Class) : List FieldDecl → Check Class
  | [] => return c
  | f :: fs => do
    if (c.ownMember? f.name.name).isSome then redeclaredMember f.name
    let type ← if f.type.isOmitted then pure Ty.unknown else resolve f.location f.type
    fields (c.withProperty
      ⟨f.name.name, type, f.visibility, f.isStatic, f.isReadonly, ""⟩) fs

def methods (c : Class) : List Callable → Check Class
  | [] => return c
  | m :: ms => do
    if (c.ownMember? m.name.name).isSome then redeclaredMember m.name
    let sig ← callableSignature m
    methods (c.withMethod ⟨m.name.name, .function sig, m.visibility, m.isStatic, false, ""⟩) ms

def setType (symbol : Symbol) (t : Ty) : Check Unit :=
  modify fun s => { s with scopes := s.scopes.retypeSymbol symbol.id t }

/-- Declare the type parameters of a class. While the bounds are read the class has its
parameters already, so a bound may apply the class to arguments. -/
def classTypeParams (symbol : Symbol) (c : Class) (ps : List TypeParamDecl) : Check Class := do
  typeParamNames ps
  setType symbol (.cls { c with typeParams := ps.map fun p => ⟨p.name, none⟩ })
  let tps ← tryCatch (typeParamBounds ps) fun fault => do
    setType symbol (.cls c)
    throw fault
  let c := { c with typeParams := tps }
  setType symbol (.cls c)
  return c

/-- The class is declared before its members, so they may mention it; they see it
without members. -/
def cls (d : ClassDecl) : Check Unit := do
  let parent ← parent d
  let c := { Class.empty d.name.name parent with isAbstract := d.isAbstract }
  let symbol ← declare d.name .cls (.cls c) false (.cls d)
  during Session.enterScope do
    let c ← classTypeParams symbol c d.typeParams
    let c ← fields c d.fields
    let c ← methods c d.methods
    let c ← match d.ctor with
      | none => pure c
      | some m =>
        let sig ← signature [] m.params .omitted false m.location
        pure (c.withConstructor (sig.withResult .void))
    retype symbol (.cls c)
    trace .purple ("  ✓ registered class " ++ d.name.name ++ " (" ++
      toString c.properties.length ++ " properties, " ++
      toString c.methods.length ++ " methods)")

/-- The properties of the interfaces that a declaration extends. -/
def inherited : List Ident → Check (List Property)
  | [] => return []
  | base :: rest => do
    match ← lookup? base.name with
    | none => fail (.undefinedSymbol (← file) (some base.location) base.name)
    | some symbol =>
      match symbol.type with
      | some (.interface shape) => return shape.properties ++ (← inherited rest)
      | _ =>
        refuse Code.invalidType base.location "expected an interface"
          (base.name ++ " is not an interface")

def properties : List PropertyDecl → Check (List Property)
  | [] => return []
  | p :: ps => do
    let t ← resolve p.location p.type
    return ⟨p.name, t, p.isOptional⟩ :: (← properties ps)

def interface (d : InterfaceDecl) : Check Unit := do
  let shape ← during Session.enterScope do
    let tps ← typeParams d.typeParams
    let base ← inherited d.bases
    let own ← properties d.properties
    return (⟨d.name.name, ByName.ofList Property.name (base ++ own), tps⟩ : Interface)
  let _ ← declare d.name .interface (.interface shape) false (.place d.location)
  trace .purple ("  ✓ registered interface " ++ shape.name)

/-- The value of an enum initializer: a string, or an integer under at most one minus. -/
def enumValue? : Expr → Option EnumValue
  | .unary _ .minus (.literal _ .int text) =>
    (Text.readInt64? text).map fun n => .int (wrap64 (-n))
  | .literal _ .int text => (Text.readInt64? text).map .int
  | .literal _ .string text => some (.str text)
  | _ => none

/-- Number the members of an enum. A member without initializer is one more than the
last integer before it; strings do not count. -/
def enumMembers (next : Int) (done : List EnumMember) :
    List EnumMemberDecl → Check (List EnumMember)
  | [] => return done
  | m :: ms => do
    if done.any fun d => d.name == m.name.name then redeclaredMember m.name
    match m.value with
    | none =>
      enumMembers (wrap64 (next + 1)) (done ++ [⟨m.name.name, .int next⟩]) ms
    | some e =>
      match enumValue? e with
      | some (.int n) =>
        enumMembers (wrap64 (n + 1)) (done ++ [⟨m.name.name, .int n⟩]) ms
      | some (.str s) => enumMembers next (done ++ [⟨m.name.name, .str s⟩]) ms
      | none =>
        refuse Code.invalidEnumValue e.location "not an int or string literal"
          ("enum member " ++ m.name.name ++ " must be an integer or string literal")

def enum (d : EnumDecl) : Check Unit := do
  let members ← enumMembers 0 [] d.members
  let _ ← declare d.name .enum (.enum ⟨d.name.name, members⟩) false (.place d.location)
  trace .purple ("  ✓ registered enum " ++ d.name.name ++ " (" ++
    toString members.length ++ " members)")

def typeAlias (d : AliasDecl) : Check Unit := do
  let body ← during Session.enterScope do
    let _ ← typeParams d.typeParams
    resolve d.location d.type
  let _ ← declare d.name .typeAlias body false (.typeAlias d)
  trace .purple ("  ✓ registered type " ++ d.name.name ++ " = " ++ body.text)

/-- Register a declaration. Other nodes declare nothing. -/
def node : Node → Check Unit
  | .classDecl d => cls d
  | .interfaceDecl d => interface d
  | .enumDecl d => enum d
  | .aliasDecl d => typeAlias d
  | .function f => function f
  | _ => return

/-- Register nodes one after another, reporting the fault of each. -/
def all : List Node → Check Unit
  | [] => return
  | n :: ns => do
    reporting (node n)
    all ns

end Declare

end TypedScript
