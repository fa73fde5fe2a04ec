import TypedScript.Flow.Graph

/-!
# Building flow graphs

The graph of a function body. Building a statement starts in a block and gives the
block where control goes on, or none when control never comes past the statement.

A break or continue without a target changes nothing. Statements behind a point that
control never passes are not built; the first such run of a block is reported.
-/
namespace TypedScript

/-- Where break and continue go to. A switch has no place for continue. -/
structure JumpTargets where
  onBreak : BlockId
  onContinue : Option BlockId

/-- A run of statements that are never reached, by the first of them and the last. -/
structure DeadCode where
  first : Node
  last : Node

/-- The place of the run. -/
def DeadCode.place (code : DeadCode) : Location := code.first.location.upTo code.last.location

structure FlowBuilder where
  graph : FlowGraph := {}
  /-- Statements that are never reached, in the order they were found. -/
  unreachable : List DeadCode := []

/-- Steps that extend a graph. -/
abbrev Build := StateM FlowBuilder

namespace Build

/-- Add a block and give its number. -/
def newBlock (b : FlowBlock) : Build BlockId := do
  modify fun s => { s with graph.blocks := s.graph.blocks.push b }
  return (← get).graph.blocks.size

def addEdge (source target : BlockId) : Build Unit :=
  modify fun s => { s with graph.edges := s.graph.edges ++ [(source, target)] }

def change (b : BlockId) (f : FlowBlock → FlowBlock) : Build Unit :=
  modify fun s => { s with graph.blocks := s.graph.blocks.modify (b - 1) f }

def append (b : BlockId) (n : Node) : Build Unit :=
  change b fun x => { x with nodes := x.nodes ++ [n] }

def isReachable (b : BlockId) : Build Bool := return ((← get).graph.block b).isReachable

/-- An edge from where control falls out of a branch, if it does. -/
def join (last : Option BlockId) (target : BlockId) : Build Unit :=
  match last with
  | some b => addEdge b target
  | none => return

/-- A block that control enters only by the edges added so far; none without any. -/
def entered (b : BlockId) : Build (Option BlockId) := do
  let reachable := (← get).graph.isEntered b
  change b fun x => { x with isReachable := reachable }
  return if reachable then some b else none

/-- End a block by leaving the function. -/
def leave (b : BlockId) (n : Node) (terminator : Terminator) : Build (Option BlockId) := do
  change b fun x =>
    { x with nodes := x.nodes ++ [n], terminator, returns := true, falls := false }
  addEdge b FlowGraph.exit
  return none

/-- End a block by a jump. -/
def jump (b : BlockId) (n : Node) (terminator : Terminator) (target : BlockId) :
    Build (Option BlockId) := do
  change b fun x => { x with nodes := x.nodes ++ [n], terminator, falls := false }
  addEdge b target
  return none

/-- Start a branch of a statement. -/
def branch (source : BlockId) (place : Location) (kind : BranchKind) (origin : Node) :
    Build BlockId := do
  let isReachable ← isReachable source
  let b ← newBlock { isReachable, location := some place, branch := some kind, origin := some origin }
  addEdge source b
  return b

/-- End a block with a choice between branches. -/
def choose (b : BlockId) (n : Node) : Build Unit :=
  change b fun x => { x with nodes := x.nodes ++ [n], terminator := .conditional }

/-- How to build a statement from the block that control is in. -/
abbrev Steps := BlockId → Build (Option BlockId)

def breakStmt (targets : Option JumpTargets) (place : Location) : Steps := fun b =>
  match targets with
  | some t => jump b (.breakStmt place) .break t.onBreak
  | none => return some b

def continueStmt (targets : Option JumpTargets) (place : Location) : Steps := fun b =>
  match targets with
  | some ⟨_, some target⟩ => jump b (.continueStmt place) .continue target
  | _ => return some b

/-! ## Statements with parts -/

/-- A part of a statement that control branches off to. -/
structure Branch where
  place : Location
  steps : Steps

def inBranch (source : BlockId) (stmt : Node) (kind : BranchKind) (part : Branch) :
    Build (Option BlockId) := do
  let start ← branch source part.place kind stmt
  part.steps start

/-- Without an else branch control can always go on. -/
def ifStmt (stmt : Node) (place : Location) (yes : Branch) (no : Option Branch) : Steps :=
  fun b => do
    choose b stmt
    let afterYes ← inBranch b stmt .ifBranch yes
    match no with
    | none =>
      let merge ← newBlock { location := some place, isReachable := true }
      join afterYes merge
      addEdge b merge
      return some merge
    | some no =>
      let afterNo ← inBranch b stmt .elseBranch no
      let merge ← newBlock { location := some place }
      join afterYes merge
      join afterNo merge
      entered merge

/-- A loop is left when its condition fails or by a break, an infinite one by a break
only. The body is told where its jumps go to. -/
def loop (place bodyPlace : Location) (infinite : Bool) (body : JumpTargets → Steps) : Steps :=
  fun b => do
    let isReachable ← isReachable b
    let header ← newBlock { location := some place, isReachable, terminator := .loop }
    addEdge b header
    let start ← newBlock { location := some bodyPlace, isReachable }
    addEdge header start
    let after ← newBlock { location := some place }
    if !infinite then addEdge header after
    join (← body ⟨after, some header⟩ start) header
    entered after

/-- The branches of a switch, which are told where its breaks go to. -/
def clauses (stmt : Node) (after : BlockId) : List (JumpTargets → Branch) → BlockId → Build Unit
  | [], _ => return
  | c :: rest, b => do
    join (← inBranch b stmt .caseBranch (c ⟨after, none⟩)) after
    clauses stmt after rest b

/-- Without a default clause control can always go on. -/
def switch (stmt : Node) (place : Location) (hasDefault : Bool)
    (cs : List (JumpTargets → Branch)) : Steps :=
  fun b => do
    choose b stmt
    let after ← newBlock { location := some place }
    clauses stmt after cs b
    if !hasDefault then addEdge b after
    entered after

/-- A try statement up to its finally block. -/
def attempt (stmt : Node) (place : Location) (tried : Branch) (caught : Option Branch) : Steps :=
  fun b => do
    choose b stmt
    let merge ← newBlock { location := some place }
    join (← inBranch b stmt .tryBranch tried) merge
    if let some h := caught then join (← inBranch b stmt .catchBranch h) merge
    entered merge

/-- A finally block stands where the parts before it join. When control never comes there, it is
built all the same, away from the rest. -/
def tryStmt (stmt : Node) (place : Location) (tried : Branch) (caught final : Option Branch) :
    Steps :=
  fun b => do
    let merged ← attempt stmt place tried caught b
    match final, merged with
    | none, merged => return merged
    | some f, some m => f.steps m
    | some f, none =>
      let last ← newBlock { location := some f.place, isReachable := true }
      let _ ← f.steps last
      return none

end Build

/-- A condition that is literally true. -/
def Expr.isLiteralTrue (e : Expr) : Bool :=
  match e.unparen with
  | .literal _ .bool text => text == "true"
  | _ => false

/-- What is dead of some statements that are never reached. Declarations do not count. An absent
statement is never the first, but may be the last. -/
def deadCode? (nodes : List Node) : Option DeadCode :=
  let nodes := nodes.filter fun n => !n.isDeclaration
  match nodes.find? fun n => !n.isEmpty, nodes.getLast? with
  | some first, some last => some ⟨first, last⟩
  | _, _ => none

namespace Build

/-- Report the statements behind a point that control never passes. -/
def reportUnreachable (rest : List Node) : Build Unit :=
  match deadCode? rest with
  | some code => modify fun s => { s with unreachable := s.unreachable ++ [code] }
  | none => return

/-- A statement and the rest of its block. A declaration stays where it is and is never out of
reach. -/
def andThen (n : Node) (rest : List Node) (first others : Steps) : Steps := fun b =>
  if n.isDeclaration then do
    append b n
    others b
  else do
    match ← first b with
    | some b => others b
    | none =>
      reportUnreachable rest
      return none

mutual

def node (targets : Option JumpTargets) : Node → Steps
  | .ret l value => fun b => leave b (.ret l value) .ret
  | .throwStmt l x => fun b => leave b (.throwStmt l x) .throw
  | .breakStmt l => breakStmt targets l
  | .continueStmt l => continueStmt targets l
  | .ifStmt l cond body otherwise =>
    ifStmt (.ifStmt l cond body otherwise) l ⟨body.location, block targets body⟩
      (if otherwise.isEmpty then none else some ⟨otherwise.location, node targets otherwise⟩)
  | .whileLoop l cond body =>
    loop l body.location cond.isLiteralTrue fun t => block (some t) body
  | .forLoop l _ cond _ body =>
    loop l body.location ((cond.map Expr.isLiteralTrue).getD true) fun t => block (some t) body
  | .forOf l _ _ body => loop l body.location false fun t => block (some t) body
  | .switch l subject cases =>
    switch (.switch l subject cases) l (cases.any fun c => c.values.isEmpty) (clauseBranches cases)
  | .tryStmt l body param handler final =>
    tryStmt (.tryStmt l body param handler final) l ⟨body.location, block targets body⟩
      (block? targets handler) (block? targets final)
  | .block body => block targets body
  | .empty => fun b => return some b
  | n => fun b => do
    append b n
    return some b
termination_by structural n => n

def block (targets : Option JumpTargets) : Block → Steps
  | ⟨ns, _⟩ => nodes targets ns
termination_by structural b => b

def block? (targets : Option JumpTargets) : Option Block → Option Branch
  | none => none
  | some b => some ⟨b.location, block targets b⟩
termination_by structural b => b

def clauseBranches : List SwitchClause → List (JumpTargets → Branch)
  | [] => []
  | ⟨_, body⟩ :: cs => (fun t => ⟨body.location, block (some t) body⟩) :: clauseBranches cs
termination_by structural cs => cs

/-- Build statements one after the other. -/
def nodes (targets : Option JumpTargets) : List Node → Steps
  | [] => fun b => return some b
  | n :: rest => andThen n rest (node targets n) (nodes targets rest)
termination_by structural ns => ns

end

end Build

namespace FlowGraph

/-- The graph of a function body, and what is dead in it. -/
def build (body : Option Block) (place : Option Location) : FlowGraph × List DeadCode :=
  let start : Build Unit := do
    let first ← Build.newBlock { isReachable := true, location := place }
    let last ← Build.newBlock {}
    match body with
    | some b => Build.join (← Build.block none b first) last
    | none => Build.addEdge first last
  let s := (start.run {}).2
  (s.graph, s.unreachable)

end FlowGraph

end TypedScript
