import TypedScript.Proofs.Flow.FinallyRules

/-!
# Finally blocks on every path

A finally block runs on every exit from the parts before it: when it ends normally, the exit is
taken up again, and otherwise its own end takes the place of the exit. The graph has the block
behind the parts only. The two differ in breaks: a break of the block that only returns, throws
or continues come to is missed, and a break of the parts counts although the block leaves
the function.

The main statement: missing returns are found by the rule of the graph in every body, and by the
rule above in the bodies where no finally block makes this difference.
-/
namespace TypedScript

namespace Completion

def all : List Completion := [.normal, .broken, .continued, .returned, .thrown]

lemma mem_all (c : Completion) : c ∈ all := by cases c <;> decide

end Completion

namespace Completions

variable {part final part' final' : Completions} {e : Ending}

/-- Some completion is possible. -/
def any (part : Completions) : Bool := Completion.all.any part

/-- A finally block as it is meant to run. -/
def onEveryExit (part final : Completions) : Completions := fun c =>
  part c && final .normal || c != .normal && final c && part.any

/-- Control comes to the breaks of a finally block from behind the parts or past a break of
theirs, and does not leave the function in the block after such a break. -/
def settles (part final : Completions) : Bool :=
  (!final .broken || part .normal || part .broken || !part.any) &&
    (!part .broken || final .normal || final .broken)

lemma any_of_mem {c : Completion} (hc : part c = true) : part.any = true :=
  List.any_eq_true.2 ⟨c, c.mem_all, hc⟩

/-- The two rules agree on breaks just then. -/
lemma settles_iff : part.settles final = true ↔
    behind part final .broken = onEveryExit part final .broken := by
  have hnormal : part .normal = true → part.any = true := any_of_mem
  have hbroken : part .broken = true → part.any = true := any_of_mem
  simp only [settles, behind, andThen, onEveryExit]
  revert hnormal hbroken
  generalize part.any = a, part .normal = pn, part .broken = pb, final .normal = fn,
    final .broken = fb
  revert a pn pb fn fb
  decide

end Completions

open Completions in
mutual

/-- At every finally block of a statement the two rules agree. -/
def Node.isSettled (k : Option Breakable) : Node → Bool
  | .block b => b.isSettled k
  | .ifStmt _ _ b n => b.isSettled k && n.isSettled k
  | .whileLoop _ _ b => b.isSettled (some .loop)
  | .forLoop _ _ _ _ b => b.isSettled (some .loop)
  | .forOf _ _ _ b => b.isSettled (some .loop)
  | .switch _ _ cs => SwitchClause.areSettled cs
  | .tryStmt _ b _ handler final =>
    b.isSettled k && Block.isSettled? k handler && Block.isSettled? k final &&
      (Block.completions? onEveryExit k final).all (settles
        (attempt (b.completions onEveryExit k) (Block.completions? onEveryExit k handler)))
  | _ => true
termination_by structural n => n

def Block.isSettled (k : Option Breakable) : Block → Bool
  | ⟨ns, _⟩ => Node.areSettled k ns
termination_by structural b => b

def Block.isSettled? (k : Option Breakable) : Option Block → Bool
  | none => true
  | some b => b.isSettled k
termination_by structural b => b

def Node.areSettled (k : Option Breakable) : List Node → Bool
  | [] => true
  | n :: ns => n.isSettled k && Node.areSettled k ns
termination_by structural ns => ns

def SwitchClause.areSettled : List SwitchClause → Bool
  | [] => true
  | ⟨_, b⟩ :: cs => b.isSettled (some .switch) && SwitchClause.areSettled cs
termination_by structural cs => cs

end

/-! ## Where the rules agree -/

namespace Flow

open Completions

/-- The same endings are possible. -/
def Agree (cs cs' : Completions) : Prop := ∀ e, cs.Ends e ↔ cs'.Ends e

variable {first first' others others' : Completions}

lemma Agree.andThen (hfirst : Agree first first') (hothers : Agree others others') :
    Agree (first.andThen others) (first'.andThen others') := by
  intro e
  rw [ends_andThen, ends_andThen, hfirst .normal, hfirst .broken, hothers e]

lemma Agree.loop {fails : Bool} (hbody : Agree first first') :
    Agree (loop fails first) (loop fails first') := by
  intro e
  rw [ends_loop, ends_loop, hbody .broken]

lemma Agree.switch {skips : Bool} (hclauses : Agree first first') :
    Agree (switch skips first) (switch skips first') := by
  intro e
  rw [ends_switch, ends_switch, hclauses .normal, hclauses .broken]

lemma Agree.either (hfirst : Agree first first') (hothers : Agree others others') :
    Agree (fun c => first c || others c) (fun c => first' c || others' c) := by
  intro e
  have hsplit (cs cs' : Completions) :
      Ends (fun c => cs c || cs' c) e ↔ cs.Ends e ∨ cs'.Ends e := by simp [Ends]
  rw [hsplit, hsplit, hfirst e, hothers e]

lemma Agree.attempt {caught caught' : Option Completions} (htried : Agree first first')
    (hcaught : Option.Rel Agree caught caught') :
    Agree (attempt first caught) (attempt first' caught') := by
  intro e
  rw [ends_attempt, ends_attempt, htried e]
  cases hcaught with
  | none => rfl
  | some hcaught => simp [hcaught e]

/-- A finally block where the rules agree. -/
lemma Agree.guarded {last last' : Option Completions} (hpart : Agree first first')
    (hlast : Option.Rel Agree last last') (hsettles : last'.all first'.settles = true) :
    Agree (guarded behind first last) (guarded onEveryExit first' last') := by
  cases hlast with
  | none => exact hpart
  | @some final final' hlast =>
    intro e
    have hbehind : (behind first final).Ends e ↔ (behind first' final').Ends e :=
      hpart.andThen hlast e
    refine hbehind.trans ?_
    cases e with
    | normal =>
      simp [Ends, Ending.completion, Completions.guarded, behind, Completions.andThen, onEveryExit]
    | broken => exact iff_of_eq (congrArg (· = true) (settles_iff.1 hsettles))

mutual

theorem agree_node : (n : Node) → (k : Option Breakable) → n.isSettled k = true →
    Agree (n.completions behind k) (n.completions onEveryExit k)
  | .block b, k, hn => agree_body b k hn
  | .ifStmt _ _ b n, k, hn =>
    have hparts := Bool.and_eq_true_iff.1 hn
    (agree_body b k hparts.1).either (agree_node n k hparts.2)
  | .whileLoop _ _ b, _, hn => (agree_body b (some .loop) hn).loop
  | .forLoop _ _ _ _ b, _, hn => (agree_body b (some .loop) hn).loop
  | .forOf _ _ _ b, _, hn => (agree_body b (some .loop) hn).loop
  | .switch _ _ cs, _, hn => (agree_clauses cs hn).switch
  | .tryStmt _ b _ handler final, k, hn => by
    simp only [Node.isSettled, Bool.and_eq_true] at hn
    obtain ⟨⟨⟨hbody, hhandler⟩, hfinal⟩, hsettles⟩ := hn
    exact ((agree_body b k hbody).attempt (agree_part handler k hhandler)).guarded
      (agree_part final k hfinal) hsettles
  | .ret .., _, _ | .throwStmt .., _, _ | .breakStmt .., _, _ | .continueStmt .., _, _
  | .empty, _, _ | .varDecl .., _, _ | .exprStmt .., _, _ | .function .., _, _
  | .classDecl .., _, _ | .interfaceDecl .., _, _ | .enumDecl .., _, _ | .aliasDecl .., _, _
  | .field .., _, _ | .method .., _, _ | .expr .., _, _ | .typeNode .., _, _ => fun _ => .rfl
termination_by structural n => n

theorem agree_body : (b : Block) → (k : Option Breakable) → b.isSettled k = true →
    Agree (b.completions behind k) (b.completions onEveryExit k)
  | ⟨ns, _⟩, k, hb => agree_row ns k hb
termination_by structural b => b

theorem agree_part : (b : Option Block) → (k : Option Breakable) → Block.isSettled? k b = true →
    Option.Rel Agree (Block.completions? behind k b) (Block.completions? onEveryExit k b)
  | none, _, _ => .none
  | some b, k, hb => .some (agree_body b k hb)
termination_by structural b => b

theorem agree_row : (ns : List Node) → (k : Option Breakable) → Node.areSettled k ns = true →
    Agree (Node.rowCompletions behind k ns) (Node.rowCompletions onEveryExit k ns)
  | [], _, _ => fun _ => .rfl
  | n :: ns, k, hns =>
    have hparts := Bool.and_eq_true_iff.1 hns
    (agree_node n k hparts.1).andThen (agree_row ns k hparts.2)
termination_by structural ns => ns

theorem agree_clauses : (cs : List SwitchClause) → SwitchClause.areSettled cs = true →
    Agree (SwitchClause.completions behind cs) (SwitchClause.completions onEveryExit cs)
  | [], _ => fun _ => .rfl
  | ⟨_, b⟩ :: cs, hcs =>
    have hparts := Bool.and_eq_true_iff.1 hcs
    (agree_body b (some .switch) hparts.1).either (agree_clauses cs hparts.2)
termination_by structural cs => cs

end

end Flow

/-! ## Missing returns -/

/-- A loop that only its body can end. -/
def Node.endless (n : Node) : Block :=
  ⟨[.whileLoop {} (.literal ⟨0, {}⟩ .bool "true") ⟨[n], {}⟩], {}⟩

/-- An endless loop ends normally by a break only. -/
lemma Node.completions_endless (rule : Completions.Rule) (n : Node) :
    Block.bodyCompletions rule (some n.endless) .normal =
      n.completions rule (some .loop) .broken := by
  have htrue : (Expr.literal ⟨0, {}⟩ .bool "true").isLiteralTrue = true := rfl
  simp only [Block.bodyCompletions, endless, Block.completions, rowCompletions, completions,
    Completions.andThen, Completions.loop, htrue]
  cases n.completions rule (some .loop) .normal <;>
    cases n.completions rule (some .loop) .broken <;> rfl

namespace FlowGraph

open Completions

lemma agree_bodies {body : Option Block} (hbody : Block.isSettled? none body = true) :
    Block.bodyCompletions behind body .normal = true ↔
      Block.bodyCompletions onEveryExit body .normal = true := by
  cases body with
  | none => exact .rfl
  | some b => exact Flow.agree_body b none hbody .normal

/-- What the graph says of a try statement in an endless loop, where the parts of the statement
are settled. -/
lemma agree_endless {l : Location} {b f : Block} {p : Option Ident} {handler : Option Block}
    (hb : b.isSettled (some .loop) = true) (hhandler : Block.isSettled? (some .loop) handler = true)
    (hf : f.isSettled (some .loop) = true) :
    let s := Node.tryStmt l b p handler (some f)
    (s.completions behind (some .loop) .broken = true ↔
      s.completions onEveryExit (some .loop) .broken = true) ↔ s.isSettled (some .loop) = true := by
  intro s
  have hpart := (Flow.agree_body b _ hb).attempt (Flow.agree_part handler _ hhandler)
  have hbehind := hpart.andThen (Flow.agree_body f _ hf) .broken
  have hsettled : s.isSettled (some .loop) = true ↔ settles
      (attempt (b.completions onEveryExit (some .loop))
        (Block.completions? onEveryExit (some .loop) handler))
      (f.completions onEveryExit (some .loop)) = true := by
    simp [s, Node.isSettled, hb, hhandler, hf, Block.isSettled?, Block.completions?]
  rw [hsettled, settles_iff]
  exact (iff_congr hbehind .rfl).trans Bool.eq_iff_iff.symm

/-- Missing returns are found by the rule of the graph, and by the rule that finally blocks run
on every exit where each of them is settled. In an endless loop around one try statement the two
rules give the same answer only then. -/
theorem missing_return_with_finally (body : Option Block) (place : Option Location) :
    ((build body place).1.allPathsReturn = false ↔
      Block.bodyCompletions behind body .normal = true) ∧
    (Block.isSettled? none body = true → ((build body place).1.allPathsReturn = false ↔
      Block.bodyCompletions onEveryExit body .normal = true)) ∧
    ∀ (l : Location) (b f : Block) (p : Option Ident) (handler : Option Block),
      b.isSettled (some .loop) = true → Block.isSettled? (some .loop) handler = true →
      f.isSettled (some .loop) = true →
      let s := Node.tryStmt l b p handler (some f)
      (((build (some s.endless) place).1.allPathsReturn = false ↔
        Block.bodyCompletions onEveryExit (some s.endless) .normal = true) ↔
          s.isSettled (some .loop) = true) := by
  have hgraph (body : Option Block) : (build body place).1.allPathsReturn = false ↔
      Block.bodyCompletions behind body .normal = true :=
    allPathsReturn_eq_false.trans (reached_exit_iff body place)
  refine ⟨hgraph body, fun hbody => (hgraph body).trans (agree_bodies hbody), ?_⟩
  intro l b f p handler hb hhandler hf s
  rw [hgraph, Node.completions_endless, Node.completions_endless]
  exact agree_endless hb hhandler hf

/-- A loop that tries to return a value, gives up when that fails and writes a note in any case. -/
def retrying : Node :=
  let one : Expr := .literal ⟨0, {}⟩ .int "1"
  .tryStmt {} ⟨[.ret {} (some one)], {}⟩ none (some ⟨[.breakStmt {}], {}⟩)
    (some ⟨[.exprStmt {} one], {}⟩)

/-- The note changes nothing, so that control comes to the end by giving up. -/
theorem retrying_can_give_up : Block.isSettled? none (some retrying.endless) = true ∧
    (build (some retrying.endless) none).1.allPathsReturn = false ∧
    retrying.isSettled (some .loop) = true := by
  obtain ⟨-, hsettled, hsharp⟩ := missing_return_with_finally (some retrying.endless) none
  have hends := (hsettled rfl).2 rfl
  exact ⟨rfl, hends, (hsharp _ _ _ _ _ rfl rfl rfl).1 (hsettled rfl)⟩

/-- A value is returned from a loop whose finally block breaks out of it, and a break of a
loop passes a finally block that returns a value. -/
def overridden : Node × Node :=
  let returns : Node := .ret {} (some (.literal ⟨0, {}⟩ .int "1"))
  (.tryStmt {} ⟨[returns], {}⟩ none none (some ⟨[.breakStmt {}], {}⟩),
    .tryStmt {} ⟨[.breakStmt {}], {}⟩ none none (some ⟨[returns], {}⟩))

/-- The first loop comes to its end, and the graph says that it always returns. The second one
always returns, and the graph says that it does not. -/
theorem overridden_exits_misjudged :
    ((build (some overridden.1.endless) none).1.allPathsReturn = true ∧
      Block.bodyCompletions onEveryExit (some overridden.1.endless) .normal = true) ∧
    (build (some overridden.2.endless) none).1.allPathsReturn = false ∧
      Block.bodyCompletions onEveryExit (some overridden.2.endless) .normal = false := by
  rw [allPathsReturn_build, allPathsReturn_build]
  decide

end FlowGraph

end TypedScript
