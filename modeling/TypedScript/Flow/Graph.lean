import TypedScript.Syntax.Naming

/-!
# Flow graphs

Basic blocks of a function body and the edges between them. Blocks are numbered from
one in the order they are made; the first is the entry, the second the exit. Edges are
kept in the order they are added.
-/
namespace TypedScript

abbrev BlockId := Nat

/-- How a block ends. -/
inductive Terminator where
  | fallthrough | ret | throw | break | continue | conditional | loop
  deriving DecidableEq

namespace Terminator

def name : Terminator → String
  | fallthrough => "fallthrough"
  | ret => "return"
  | throw => "throw"
  | .break => "break"
  | .continue => "continue"
  | conditional => "conditional"
  | loop => "loop"

end Terminator

/-- The construct that a block is a branch of. -/
inductive BranchKind where
  | ifBranch | elseBranch | caseBranch | tryBranch | catchBranch
  deriving DecidableEq

namespace BranchKind

def name : BranchKind → String
  | ifBranch => "if"
  | elseBranch => "else"
  | caseBranch => "case"
  | tryBranch => "try"
  | catchBranch => "catch"

end BranchKind

structure FlowBlock where
  nodes : List Node := []
  terminator : Terminator := .fallthrough
  location : Option Location := none
  isReachable : Bool := false
  /-- The block leaves the function. -/
  returns : Bool := false
  /-- Control may go on after the block. -/
  falls : Bool := true
  branch : Option BranchKind := none
  /-- The statement that the block is a branch of. -/
  origin : Option Node := none

structure FlowGraph where
  blocks : Array FlowBlock := #[]
  edges : List (BlockId × BlockId) := []

namespace FlowGraph

def entry : BlockId := 1

def exit : BlockId := 2

/-- The block with this number; a number without a block has an empty one. -/
def block (g : FlowGraph) (b : BlockId) : FlowBlock := (g.blocks[b - 1]?).getD {}

/-- The numbers of the blocks in increasing order. -/
def ids (g : FlowGraph) : List BlockId := List.range' 1 g.blocks.size

/-- The blocks that control can go to from a block. -/
def successors (g : FlowGraph) (b : BlockId) : List BlockId :=
  (g.edges.filter fun e => e.1 == b).map Prod.snd

/-- The blocks that control can come from. -/
def predecessors (g : FlowGraph) (b : BlockId) : List BlockId :=
  (g.edges.filter fun e => e.2 == b).map Prod.fst

/-- Control can come to the block. -/
def isEntered (g : FlowGraph) (b : BlockId) : Bool := g.edges.any fun e => e.2 == b

/-- Collect what can be reached from the blocks in `work`, besides those in `seen`. -/
def search (next : BlockId → List BlockId) :
    Nat → List BlockId → List BlockId → List BlockId
  | 0, _, seen => seen
  | _ + 1, [], seen => seen
  | fuel + 1, b :: work, seen =>
    if seen.contains b then search next fuel work seen
    else search next fuel (next b ++ work) (b :: seen)

/-- The blocks that can be reached from `start`. Each block is expanded once and each
edge gives one block to look at in each direction, which bounds the search. -/
def reach (g : FlowGraph) (next : BlockId → List BlockId) (start : List BlockId) :
    List BlockId :=
  search next (2 * g.edges.length + start.length + 1) start []

/-- The blocks connected with the entry or the exit, in increasing order. -/
def connected (g : FlowGraph) : List BlockId :=
  let found := g.reach (fun b => g.successors b ++ g.predecessors b) [entry, exit]
  g.ids.filter fun b => found.contains b

end FlowGraph

end TypedScript
