import TypedScript.Narrowing.Condition
import TypedScript.Report.Diagnostic
import TypedScript.Scope.Symbol
import TypedScript.SharedStack

/-!
# The stack of narrowings

Each branch of a program pushes the narrowings that hold in it and pops them at its
end. A refinement is made for what a name means where it is pushed, and applies only
while the name still means that; a nested declaration of the name hides it.

Assigning to a variable makes the stack forget: every live refinement of it becomes its
declared type, also after the pop of any inner frame.

Every frame has a number. Frames that are set aside and put back are the same frames, so
what is forgotten in the meantime stays forgotten.
-/
namespace TypedScript

/-- What names mean at a point, as the number of a symbol. -/
abbrev Binder := String → Option SymbolId

structure Refinement where
  name : String
  type : Ty
  binding : Option SymbolId

/-- Refinements of different names. -/
abbrev Frame := List Refinement

/-- The number of a frame. -/
abbrev FrameId := Nat

structure NarrowingStack where
  /-- Every frame that was ever pushed, by its number. -/
  pushed : Array Frame := #[]
  /-- The frames in force. -/
  stack : SharedStack FrameId := .empty

namespace Frame

/-- The type that a frame gives to a name with this meaning. -/
def lookup? (f : Frame) (name : String) (meaning : Option SymbolId) : Option Ty :=
  match List.find? (fun r => r.name == name) f with
  | some r => if r.binding = meaning then some r.type else none
  | none => none

/-- Reset the refinement of a name with this meaning. -/
def reset (f : Frame) (name : String) (meaning : Option SymbolId) (declared : Ty) : Frame :=
  List.map
    (fun r => if r.name = name ∧ r.binding = meaning then { r with type := declared } else r) f

end Frame

namespace NarrowingStack

/-- The sizes that rows of frames come in. -/
def rowSizes : List Nat :=
  [1, 2, 4, 8, 16, 32, 64, 143, 287, 607, 1023, 1535, 2303, 3071, 4095]

def frame (s : NarrowingStack) (i : FrameId) : Frame := s.pushed.getD i []

/-- The frames in force, innermost first. -/
def live (s : NarrowingStack) : List Frame := s.stack.toList.map s.frame

def depth (s : NarrowingStack) : Nat := s.stack.height

/-- Add a frame; each refinement is made for what its name means now. -/
def push (s : NarrowingStack) (bind : Binder) (n : Narrowings) : NarrowingStack where
  pushed := s.pushed.push (List.map (fun e => ⟨e.1, e.2, bind e.1⟩) n)
  stack := s.stack.push rowSizes s.pushed.size

def pop (s : NarrowingStack) : Except Misuse NarrowingStack :=
  match s.stack.pop? with
  | none => .error .popOnEmpty
  | some stack => .ok { s with stack }

/-- Pop the frame that was pushed as the `depth`-th. -/
def popAt (s : NarrowingStack) (depth : Nat) : Except Misuse NarrowingStack :=
  if s.depth = depth then s.pop else .error .unbalancedPop

/-- The refined type of a name, from the innermost frame that refines its meaning. -/
def lookup? (s : NarrowingStack) (bind : Binder) (name : String) : Option Ty :=
  s.live.findSome? fun f => Frame.lookup? f name (bind name)

/-- Reset every refinement of what a name means now to its declared type. -/
def forget (s : NarrowingStack) (bind : Binder) (name : String) (declared : Ty) :
    NarrowingStack :=
  { s with
    pushed := s.stack.toList.foldl
      (fun frames i => frames.modify i fun f => Frame.reset f name (bind name) declared) s.pushed }

/-- No frame in force. -/
def detach (s : NarrowingStack) : NarrowingStack := { s with stack := s.stack.fresh }

/-- The frames of a mark in force. -/
def reattach (s : NarrowingStack) (m : StackMark) : NarrowingStack :=
  { s with stack := s.stack.backTo m }

@[simp] theorem depth_push (s : NarrowingStack) (bind : Binder) (n : Narrowings) :
    (s.push bind n).depth = s.depth + 1 := by
  simp [depth, push]

@[simp] theorem depth_forget (s : NarrowingStack) (bind : Binder) (name : String)
    (declared : Ty) : (s.forget bind name declared).depth = s.depth := rfl

@[simp] theorem reattach_detach (s : NarrowingStack) : s.detach.reattach s.stack.top = s := by
  simp [detach, reattach]

end NarrowingStack

end TypedScript
