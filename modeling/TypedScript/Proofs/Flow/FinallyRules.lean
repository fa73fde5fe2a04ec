import TypedScript.Proofs.Flow.Construction

/-!
# Completions under a rule for finally blocks

All completions that a statement can have, computed from the statement alone. What a finally block
does to the completions of the parts before it is left open as a rule, so that the same
computation serves for the graph and for what the block is meant to do.

The graph of a body lets control come to the end exactly if the body can end normally under the
rule that the builder follows: only control that falls out of the parts comes to the finally
block, and jumps go past it.
-/
namespace TypedScript

/-- How a statement can come to its end. -/
inductive Completion where
  | normal
  | broken
  | continued
  | returned
  | thrown
  deriving DecidableEq

/-- The completions that are possible. -/
abbrev Completions := Completion → Bool

namespace Completions

/-- A loop ends when its condition fails or by a break, and the function can be left from its
body. -/
def loop (fails : Bool) (body : Completions) : Completions
  | .normal => fails || body .broken
  | .broken | .continued => false
  | o => body o

/-- A switch ends behind any clause or by a break. -/
def switch (skips : Bool) (clauses : Completions) : Completions
  | .normal => skips || clauses .broken || clauses .normal
  | .broken => false
  | o => clauses o

/-- A handler may always come to run, and nothing is thrown past it. -/
def attempt (tried : Completions) : Option Completions → Completions
  | none => tried
  | some caught => fun o => o != .thrown && tried o || caught o

/-- One statement after the other. -/
def andThen (first others : Completions) : Completions := fun o =>
  first .normal && others o || o != .normal && first o

/-- What a finally block makes of the completions of the parts before it. -/
abbrev Rule := Completions → Completions → Completions

def guarded (rule : Rule) (part : Completions) : Option Completions → Completions
  | none => part
  | some final => rule part final

end Completions

open Completions in
mutual

/-- The completions of a statement inside the innermost loop or switch `k`. A jump that is out of
place does nothing. -/
def Node.completions (rule : Rule) (k : Option Breakable) : Node → Completions
  | .ret _ _ => (· == .returned)
  | .throwStmt _ _ => (· == .thrown)
  | .breakStmt _ => (· == if k.isSome then .broken else .normal)
  | .continueStmt _ => (· == if k = some .loop then .continued else .normal)
  | .block body => body.completions rule k
  | .ifStmt _ _ body otherwise =>
    fun o => body.completions rule k o || otherwise.completions rule k o
  | .whileLoop _ cond body => loop (!cond.isLiteralTrue) (body.completions rule (some .loop))
  | .forLoop _ _ cond _ body =>
    loop (!(cond.map Expr.isLiteralTrue).getD true) (body.completions rule (some .loop))
  | .forOf _ _ _ body => loop true (body.completions rule (some .loop))
  | .switch _ _ cases =>
    switch (!cases.any fun c => c.values.isEmpty) (SwitchClause.completions rule cases)
  | .tryStmt _ body _ handler final =>
    guarded rule (attempt (body.completions rule k) (Block.completions? rule k handler))
      (Block.completions? rule k final)
  | _ => (· == .normal)
termination_by structural n => n

def Block.completions (rule : Rule) (k : Option Breakable) : Block → Completions
  | ⟨ns, _⟩ => Node.rowCompletions rule k ns
termination_by structural b => b

def Block.completions? (rule : Rule) (k : Option Breakable) : Option Block → Option Completions
  | none => none
  | some b => some (b.completions rule k)
termination_by structural b => b

def SwitchClause.completions (rule : Rule) : List SwitchClause → Completions
  | [] => fun _ => false
  | ⟨_, body⟩ :: cs => fun o =>
    body.completions rule (some .switch) o || SwitchClause.completions rule cs o
termination_by structural cs => cs

def Node.rowCompletions (rule : Rule) (k : Option Breakable) : List Node → Completions
  | [] => (· == .normal)
  | n :: ns => andThen (n.completions rule k) (Node.rowCompletions rule k ns)
termination_by structural ns => ns

end

/-- Completions of a body. A missing body does nothing. -/
def Block.bodyCompletions (rule : Completions.Rule) : Option Block → Completions
  | none => (· == .normal)
  | some b => b.completions rule none

/-- A finally block as it stands in the graph: control comes to it from behind the parts, and jumps
out of them go past it. -/
def Completions.behind (part final : Completions) : Completions := part.andThen final

/-! ## Endings -/

def Ending.completion : Ending → Completion
  | .normal => .normal
  | .broken => .broken

/-- The ending is among the completions. -/
def Completions.Ends (os : Completions) (e : Ending) : Prop := os e.completion = true

namespace Completions

variable {e : Ending} {first others part final : Completions}

@[simp] lemma ends_normal : Ends (· == .normal) e ↔ e = .normal := by
  cases e <;> simp [Ends, Ending.completion]

lemma ends_broken : Ends (· == .broken) e ↔ e = .broken := by
  cases e <;> simp [Ends, Ending.completion]

/-- What leaves the function or goes back in a loop is no ending. -/
lemma false_iff_ends (c : Completion) (hnormal : c ≠ .normal) (hbroken : c ≠ .broken) :
    False ↔ Ends (· == c) e := by
  cases e <;> simp [Ends, Ending.completion, hnormal.symm, hbroken.symm]

@[simp] lemma ends_loop {fails : Bool} :
    (loop fails part).Ends e ↔ e = .normal ∧ (fails = true ∨ part.Ends .broken) := by
  cases e <;> simp [Ends, Ending.completion, loop]

@[simp] lemma ends_switch {skips : Bool} : (switch skips part).Ends e ↔
    e = .normal ∧ (skips = true ∨ part.Ends .broken ∨ part.Ends .normal) := by
  cases e <;> simp [Ends, Ending.completion, switch, or_assoc]

lemma ends_attempt {caught : Option Completions} :
    (attempt part caught).Ends e ↔ part.Ends e ∨ ∃ f ∈ caught.map Ends, f e := by
  cases caught with
  | none => simp [attempt]
  | some caught => cases e <;> simp [Ends, Ending.completion, attempt]

@[simp] lemma ends_andThen : (andThen first others).Ends e ↔
    first.Ends .normal ∧ others.Ends e ∨ e = .broken ∧ first.Ends .broken := by
  cases e <;> simp [Ends, Ending.completion, andThen]

end Completions

namespace SwitchClause

variable {rule : Completions.Rule} {e : Ending}

lemma ends_completions {cs : List SwitchClause} : (completions rule cs).Ends e ↔
    ∃ c ∈ cs, (c.body.completions rule (some .switch)).Ends e := by
  induction cs with
  | nil => simp [completions, Completions.Ends]
  | cons c cs ih =>
    obtain ⟨_, body⟩ := c
    simp only [List.mem_cons, exists_eq_or_imp, ← ih]
    simp [completions, Completions.Ends]

end SwitchClause

/-! ## Completions in the graph -/

/-- What the targets of jumps belong to. Only a loop has a place for continue. -/
def JumpTargets.kind? : Option JumpTargets → Option Breakable
  | none => none
  | some ⟨_, some _⟩ => some .loop
  | some ⟨_, none⟩ => some .switch

namespace Flow

open FlowGraph Completions

variable {t : Option JumpTargets} {n : Node} {l : Location}

lemma builds_straight (hn : n.isStraight = true) :
    Builds t (Build.node t n) (n.completions behind (JumpTargets.kind? t)).Ends := by
  have hends : ∀ e, e = .normal ↔ (n.completions behind (JumpTargets.kind? t)).Ends e := by
    intro e
    rw [← ends_normal]
    cases n <;> first | rfl | simp [Node.isStraight] at hn
  cases n with
  | empty => exact builds_nothing.congr hends
  | varDecl | exprStmt | function | classDecl | interfaceDecl | enumDecl | aliasDecl | field
  | method | expr | typeNode => exact (builds_append _).congr hends
  | _ => cases hn

lemma builds_breakStmt : Builds t (Build.node t (.breakStmt l))
    ((Node.breakStmt l).completions behind (JumpTargets.kind? t)).Ends := by
  obtain _ | ⟨after, _ | header⟩ := t
  · exact builds_nothing.congr fun _ => ends_normal.symm
  · exact (builds_break (.breakStmt l) .break).congr fun _ => ends_broken.symm
  · exact (builds_break (.breakStmt l) .break).congr fun _ => ends_broken.symm

lemma builds_continueStmt : Builds t (Build.node t (.continueStmt l))
    ((Node.continueStmt l).completions behind (JumpTargets.kind? t)).Ends := by
  obtain _ | ⟨after, _ | header⟩ := t
  · exact builds_nothing.congr fun _ => ends_normal.symm
  · exact builds_nothing.congr fun _ => ends_normal.symm
  · exact (builds_continue rfl (.continueStmt l) .continue).congr fun _ =>
      false_iff_ends .continued (by decide) (by decide)

lemma builds_ifStmt {c : Expr} {b : Block} {body : Completions}
    (hbody : Builds t (Build.block t b) body.Ends)
    (hn : Builds t (Build.node t n) (n.completions behind (JumpTargets.kind? t)).Ends) :
    Builds t (Build.node t (.ifStmt l c b n))
      (Completions.Ends fun o => body o || n.completions behind (JumpTargets.kind? t) o) := by
  cases hempty : n.isEmpty with
  | true =>
    obtain rfl : n = .empty := by cases n <;> first | rfl | cases hempty
    exact (builds_if hbody).congr (by simp [← ends_normal, Ends, Node.completions])
  | false =>
    have hsteps : Build.node t (.ifStmt l c b n) = Build.ifStmt (.ifStmt l c b n) l
        ⟨b.location, Build.block t b⟩ (some ⟨n.location, Build.node t n⟩) := by
      simp [Build.node, hempty]
    rw [hsteps]
    exact (builds_ifElse hbody hn).congr (by simp [Ends])

lemma builds_tryStmt {stmt : Node} {place : Location} {steps : Build.Steps} {tried : Completions}
    {handler final : Option Build.Branch} {caught last : Option Completions}
    (htried : Builds t steps tried.Ends) (hcaught : BuildsPart t handler (caught.map Ends))
    (hlast : BuildsPart t final (last.map Ends)) :
    Builds t (Build.tryStmt stmt l ⟨place, steps⟩ handler final)
      (guarded behind (attempt tried caught) last).Ends := by
  have hattempt : Builds t (Build.attempt stmt l ⟨place, steps⟩ handler)
      (attempt tried caught).Ends :=
    (builds_attempt htried hcaught).congr fun _ => ends_attempt.symm
  cases last with
  | none =>
    cases hlast
    exact builds_try hattempt
  | some last =>
    cases hlast with
    | some hlast => exact (builds_finally hattempt hlast).congr fun _ => ends_andThen.symm

lemma builds_row {ns : List Node} {others : Completions}
    (hn : Builds t (Build.node t n) (n.completions behind (JumpTargets.kind? t)).Ends)
    (hns : Builds t (Build.nodes t ns) others.Ends) : Builds t (Build.nodes t (n :: ns))
      ((n.completions behind (JumpTargets.kind? t)).andThen others).Ends := by
  cases hdecl : n.isDeclaration with
  | true =>
    have hnormal : n.completions behind (JumpTargets.kind? t) = (· == .normal) := by
      cases n <;> first | rfl | cases hdecl
    exact (builds_declaration hdecl hns).congr (by simp [hnormal])
  | false => exact (builds_andThen hdecl hn hns).congr fun _ => ends_andThen.symm

mutual

theorem builds_node : (n : Node) → (t : Option JumpTargets) →
    Builds t (Build.node t n) (n.completions behind (JumpTargets.kind? t)).Ends
  | .ret l x, _ => (builds_leave (.ret l x) .ret).congr fun _ =>
    false_iff_ends .returned (by decide) (by decide)
  | .throwStmt l x, _ => (builds_leave (.throwStmt l x) .throw).congr fun _ =>
    false_iff_ends .thrown (by decide) (by decide)
  | .breakStmt _, _ => builds_breakStmt
  | .continueStmt _, _ => builds_continueStmt
  | .block b, t => builds_body b t
  | .ifStmt l c b n, t => builds_ifStmt (builds_body b t) (builds_node n t)
  | .whileLoop l c b, t => (builds_loop (builds_loopBody b)).congr (by simp [Node.completions])
  | .forLoop l _ c _ b, t => (builds_loop (builds_loopBody b)).congr (by simp [Node.completions])
  | .forOf l _ _ b, t => (builds_loop (builds_loopBody b)).congr (by simp [Node.completions])
  | .switch l x cs, t => (builds_switch (builds_clauses cs)).congr (by
      simp [Node.completions, SwitchClause.ends_completions, and_or_left, exists_or])
  | .tryStmt l b p handler final, t =>
    builds_tryStmt (builds_body b t) (builds_part handler t) (builds_part final t)
  | .empty, _ | .varDecl .., _ | .exprStmt .., _ | .function .., _
  | .classDecl .., _ | .interfaceDecl .., _ | .enumDecl .., _ | .aliasDecl .., _
  | .field .., _ | .method .., _ | .expr .., _ | .typeNode .., _ =>
    builds_straight rfl
termination_by structural n => n

theorem builds_body : (b : Block) → (t : Option JumpTargets) →
    Builds t (Build.block t b) (b.completions behind (JumpTargets.kind? t)).Ends
  | ⟨ns, _⟩, t => builds_nodes ns t
termination_by structural b => b

theorem builds_loopBody : (b : Block) → (j : JumpTargets) → j.onContinue.isSome = true →
    Builds (some j) (Build.block (some j) b) (b.completions behind (some .loop)).Ends
  | ⟨ns, _⟩, ⟨after, some header⟩, _ => builds_nodes ns (some ⟨after, some header⟩)
termination_by structural b => b

theorem builds_part : (b : Option Block) → (t : Option JumpTargets) →
    BuildsPart t (Build.block? t b)
      ((Block.completions? behind (JumpTargets.kind? t) b).map Ends)
  | none, _ => .none
  | some b, t => .some (builds_body b t)
termination_by structural b => b

theorem builds_nodes : (ns : List Node) → (t : Option JumpTargets) →
    Builds t (Build.nodes t ns) (Node.rowCompletions behind (JumpTargets.kind? t) ns).Ends
  | [], _ => builds_nothing.congr fun _ => ends_normal.symm
  | n :: ns, t => builds_row (builds_node n t) (builds_nodes ns t)
termination_by structural ns => ns

theorem builds_clauses : (cs : List SwitchClause) →
    List.Forall₂ (fun c e => ∀ j : JumpTargets, j.onContinue = none →
      Builds (some j) (c j).steps e) (Build.clauseBranches cs)
      (cs.map fun c => (c.body.completions behind (some .switch)).Ends)
  | [] => .nil
  | ⟨_, b⟩ :: cs => .cons (fun j hj => by
      obtain ⟨after, c⟩ := j
      cases hj
      exact builds_body b (some ⟨after, none⟩)) (builds_clauses cs)
termination_by structural cs => cs

end

end Flow

/-! ## The end of the function -/

namespace FlowGraph

variable {g h : FlowGraph} {b : Nat} {last : Option Nat} {ends : Ending → Prop}

/-- The graph with the first and the last block of a function only. -/
def bare (place : Option Location) : FlowGraph :=
  (({} : FlowGraph).withBlock { isReachable := true, location := place }).withBlock {}

lemma tidy_bare (place : Option Location) : (bare place).Tidy where
  exit_le := Nat.le_refl _
  source _ he := nomatch he
  target _ he := nomatch he
  exits _ he := nomatch he

lemma open_bare (place : Option Location) : (bare place).Open entry where
  pos := Nat.zero_lt_one
  le := Nat.le_succ 1
  stays := rfl
  isLast _ he := nomatch he

/-- The body is built between the first block and the last, and what falls out of it falls to the
last. -/
lemma build_of_built {Q : FlowGraph → Prop} (body : Option Block) (place : Option Location)
    (hjoin : ∀ h last, Built none entry (bare place) h last
      (Block.bodyCompletions Completions.behind body).Ends →
      (Build.join last exit).Ensures h fun _ g => Q g) : Q (build body place).1 := by
  have hbuild {steps : Build.Steps}
      (hsteps : Builds none steps (Block.bodyCompletions Completions.behind body).Ends) :
      Build.Ensures (do
        let first ← Build.newBlock { isReachable := true, location := place }
        let last ← Build.newBlock {}
        Build.join (← steps first) last) {} fun _ g => Q g := by
    refine .newBlock (.newBlock ?_)
    have hbody := hsteps (bare place) entry (tidy_bare place) (open_bare place)
      (fun _ hj => nomatch hj)
    exact hbody.bind fun last h => hjoin h last
  cases body with
  | none => exact hbuild (builds_nothing.congr fun _ => Completions.ends_normal.symm) {} rfl
  | some b => exact hbuild (Flow.builds_body b none) {} rfl

/-- Before control falls out of the body, only blocks that leave the function have an edge to its
end. -/
lemma Tidy.exit_notMem_onward (hg : g.Tidy) : exit ∉ g.onward b := by
  intro hb
  obtain ⟨hstays, hedge⟩ := mem_onward.1 hb
  have hleaves := (hg.exits _ hedge).1 rfl
  simp [hstays] at hleaves

lemma Tidy.not_reached_exit (hg : g.Tidy) : ¬ g.Reached exit := by
  intro hexit
  obtain ⟨x, -, hstep⟩ := hexit.exists_step (by decide)
  exact hg.exit_notMem_onward hstep

/-- From the body control falls to the end exactly if the body can end normally. -/
lemma ensures_exit (hbody : Built none b g h last ends) (hb : g.Reached b) :
    (Build.join last exit).Ensures h fun _ k => k.Reached exit ↔ ends .normal := by
  rintro s rfl
  have hexit := hbody.tidy.not_reached_exit
  cases last with
  | none => exact iff_of_false hexit (hbody.goesOn.not_of_none hb)
  | some x =>
    have hends : ends .normal ↔ s.graph.Reached x := by
      rw [hbody.goesOn.reached x rfl, and_iff_right hb]
    rw [hends]
    show (s.graph.withEdge x exit).Reached exit ↔ s.graph.Reached x
    by_cases hx : s.graph.Reached x
    · have hx' : (s.graph.withEdge x exit).Reached x :=
        hx.mono fun _ he hstays => ⟨mem_edges_withEdge.2 (.inl he), hstays⟩
      have hstays := (hbody.goesOn.passed x rfl).stays
      exact iff_of_true (hx'.step hstays (mem_edges_withEdge.2 (.inr rfl))) hx
    · rw [reached_withEdge_of_reached fun h => absurd h hx]
      exact iff_of_false hexit hx

/-- Control comes to the end of the graph exactly if the body can end normally under the rule
that the graph follows. -/
lemma reached_exit_iff (body : Option Block) (place : Option Location) :
    (build body place).1.Reached exit ↔
      Block.bodyCompletions Completions.behind body .normal = true :=
  build_of_built body place fun _ _ hbody => ensures_exit hbody .refl

lemma allPathsReturn_eq_false : g.allPathsReturn = false ↔ g.Reached exit := by
  simp [allPathsReturn, mem_reach_onward]

/-- What the search for a path to the end finds, said of the body. -/
lemma allPathsReturn_build (body : Option Block) (place : Option Location) :
    (build body place).1.allPathsReturn =
      !Block.bodyCompletions Completions.behind body .normal := by
  have hend := allPathsReturn_eq_false.trans (reached_exit_iff body place)
  cases hbody : Block.bodyCompletions Completions.behind body .normal <;> simp_all

end FlowGraph

end TypedScript
