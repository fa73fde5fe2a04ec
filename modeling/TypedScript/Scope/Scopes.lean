import TypedScript.Report.Diagnostic
import TypedScript.Scope.Symbol

/-!
# Nested scopes

A global scope and the local scopes entered above it, innermost first. A name means
the symbol of the innermost scope that has it.

Every scope has a number and stays when it is left. The local scopes in force can be set
aside and put back by their numbers; what is declared or changed in them in the meantime
stays.
-/
namespace TypedScript

/-- The symbols of one scope, each name once. -/
abbrev Scope := List Symbol

namespace Scope

def named? (s : Scope) (name : String) : Option Symbol := List.find? (fun x => x.name == name) s

/-- Give the symbol of this name another type. -/
def retype (s : Scope) (name : String) (t : Ty) : Scope :=
  List.map (fun x => if x.name = name then { x with type := some t } else x) s

end Scope

/-- The number of a local scope. -/
abbrev ScopeId := Nat

structure Scopes where
  global : Scope := []
  /-- Every local scope that was ever entered, by its number. -/
  entered : Array Scope := #[]
  /-- The local scopes in force, innermost first. -/
  locals : List ScopeId := []
  /-- The number of scopes above the global one, counted on entering and leaving. -/
  depth : Nat := 0
  nextId : SymbolId := 0

namespace Scopes

def scope (s : Scopes) (i : ScopeId) : Scope := s.entered.getD i []

/-- Change a local scope. -/
def modifyScope (s : Scopes) (i : ScopeId) (f : Scope → Scope) : Scopes :=
  { s with entered := s.entered.modify i f }

/-- The innermost scope. -/
def current (s : Scopes) : Scope :=
  match s.locals with
  | [] => s.global
  | i :: _ => s.scope i

/-- The scopes a name is searched in, innermost first. -/
def chain (s : Scopes) : List Scope := s.locals.map s.scope ++ [s.global]

def lookup? (s : Scopes) (name : String) : Option Symbol :=
  s.chain.findSome? fun scope => scope.named? name

/-- The symbol with this number, in force or not. -/
def symbol? (s : Scopes) (id : SymbolId) : Option Symbol :=
  (s.global :: s.entered.toList).findSome? fun scope => List.find? (fun x => x.id == id) scope

/-- Declare a name in the innermost scope. -/
def define (s : Scopes) (name : String) (kind : SymbolKind) (type : Option Ty)
    (isConst : Bool) (origin : Origin) : Except SymbolError (Symbol × Scopes) :=
  match s.current.named? name with
  | some _ => .error (.redeclared name)
  | none =>
    let symbol : Symbol := ⟨s.nextId, name, kind, type, isConst, origin⟩
    let s := { s with nextId := s.nextId + 1 }
    .ok (symbol,
      match s.locals with
      | [] => { s with global := s.global ++ [symbol] }
      | i :: _ => s.modifyScope i (· ++ [symbol]))

/-- Change the type of the symbol that a name means. -/
def update (s : Scopes) (name : String) (t : Ty) : Except SymbolError Scopes :=
  match s.locals.find? fun i => ((s.scope i).named? name).isSome with
  | some i => .ok (s.modifyScope i fun scope => scope.retype name t)
  | none =>
    match s.global.named? name with
    | some _ => .ok { s with global := s.global.retype name t }
    | none => .error (.undeclared name)

/-- Change the type of a symbol, unless its name means another one here. -/
def updateSymbol (s : Scopes) (id : SymbolId) (name : String) (t : Ty) :
    Except SymbolError Scopes :=
  match s.lookup? name with
  | some visible => if visible.id = id then s.update name t else .error (.shadowed name)
  | none => s.update name t

def enter (s : Scopes) : Scopes :=
  { s with
    entered := s.entered.push []
    locals := s.entered.size :: s.locals
    depth := s.depth + 1 }

def exit (s : Scopes) : Except Misuse Scopes :=
  match s.locals with
  | [] => .error .exitGlobal
  | _ :: ls => .ok { s with locals := ls, depth := s.depth - 1 }

/-- The scopes with only the global one in force. -/
def detach (s : Scopes) : Scopes := { s with locals := [], depth := 0 }

/-- The scopes with these local ones in force, which are at this depth. -/
def reattach (s : Scopes) (locals : List ScopeId) (depth : Nat) : Scopes := { s with locals, depth }

@[simp] theorem depth_enter (s : Scopes) : s.enter.depth = s.depth + 1 := rfl

/-- A new scope has no symbols, and the others stay as they are. -/
@[simp] theorem scope_enter (s : Scopes) (i : ScopeId) : s.enter.scope i = s.scope i := by
  simp only [scope, enter, Array.getD_eq_getD_getElem?, Array.getElem?_push]
  split
  · rename_i h
    simp [h]
  · rfl

/-- A scope without symbols hides nothing. -/
@[simp] theorem lookup?_enter (s : Scopes) (name : String) :
    s.enter.lookup? name = s.lookup? name := by
  have hnew : s.scope s.entered.size = [] := by simp [scope, Array.getD_eq_getD_getElem?]
  have hchain : s.enter.chain = [] :: s.chain := by
    simp only [chain, funext s.scope_enter]
    simp [enter, hnew]
  rw [lookup?, hchain]
  rfl

@[simp] theorem exit_enter (s : Scopes) :
    s.enter.exit = .ok { s with entered := s.entered.push [] } := rfl

@[simp] theorem reattach_detach (s : Scopes) : s.detach.reattach s.locals s.depth = s := rfl

/-- The type that a name stands for. -/
def typeNamed? (s : Scopes) (name : String) : Option Ty :=
  match s.lookup? name with
  | some x => if x.kind.isType then x.type else none
  | none => none

/-- The current definition of a class. -/
def classNamed? (s : Scopes) (name : String) : Option Class :=
  match s.lookup? name with
  | some x => if x.kind = .cls then x.type.bind Ty.class? else none
  | none => none

end Scopes

end TypedScript
