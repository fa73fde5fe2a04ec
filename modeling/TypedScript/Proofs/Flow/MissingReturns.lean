import TypedScript.Proofs.Flow.FinallyRules

/-!
# Missing returns are found exactly

The graph of a body without finally blocks lets control come to the end exactly if the
body can end normally. What the graph of a body shows is known from the completions of the
body, and without finally blocks these are the ways in which it can end.
-/
namespace TypedScript

open FlowGraph

/-- A condition is taken for true exactly if it is. -/
lemma Expr.isLiteralTrue_iff : (e : Expr) → (e.isLiteralTrue = true ↔ e.IsTrue)
  | .paren _ x => by
    have hx := isLiteralTrue_iff x
    constructor
    · intro h
      exact .paren (hx.1 h)
    · rintro ⟨⟩
      exact hx.2 (by assumption)
  | .literal m kind text => by
    constructor
    · intro h
      cases kind <;> simp_all [isLiteralTrue, unparen]
      exact .literal m
    · rintro ⟨⟩
      rfl
  | .template .. | .ident .. | .binary .. | .unary .. | .stepBefore .. | .stepAfter ..
  | .assign .. | .call .. | .construct .. | .select .. | .optionalSelect .. | .methodCall ..
  | .index .. | .await .. | .this .. | .super .. | .typeOf .. | .instanceOf .. | .range ..
  | .conditional .. | .coalesce .. | .nonNull .. | .matchExpr .. | .classExpr ..
  | .namelessClass .. | .list .. | .object .. | .arrow .. | .spread .. =>
    iff_of_false (by simp [isLiteralTrue, unparen]) nofun
termination_by structural e => e

/-! ## Bodies without finally blocks -/

namespace Flow

open Completions Node

variable {rule : Rule} {k : Option Breakable} {e : Ending} {n : Node}

lemma ends_straight (hn : n.isStraight = true) :
    (n.completions rule k).Ends e ↔ n.CanEnd k e := by
  rw [canEnd_of_isStraight hn, ← ends_normal]
  cases n <;> first | rfl | cases hn

lemma ends_breakStmt {l : Location} :
    ((breakStmt l).completions rule k).Ends e ↔ (breakStmt l).CanEnd k e := by
  cases k with
  | none => exact ends_normal.trans canEnd_breakStmt_none.symm
  | some kind => exact ends_broken.trans canEnd_breakStmt_some.symm

lemma ends_continueStmt {l : Location} :
    ((continueStmt l).completions rule k).Ends e ↔ (continueStmt l).CanEnd k e := by
  rw [canEnd_continueStmt]
  by_cases hk : k = some .loop
  · have hends := false_iff_ends (e := e) .continued (by decide) (by decide)
    simpa [completions, hk] using hends
  · simp [completions, hk]

mutual

/-- Without finally blocks no rule for them matters. -/
theorem ends_node : (n : Node) → (k : Option Breakable) → n.isFinallyFree = true →
    ∀ e, (n.completions rule k).Ends e ↔ n.CanEnd k e
  | .ret l x, k, _, e => by
    simp [completions, ← false_iff_ends .returned (by decide) (by decide)]
  | .throwStmt l x, k, _, e => by
    simp [completions, ← false_iff_ends .thrown (by decide) (by decide)]
  | .breakStmt _, _, _, _ => ends_breakStmt
  | .continueStmt _, _, _, _ => ends_continueStmt
  | .block b, k, hfree, e => (ends_body b k hfree e).trans canEnd_block.symm
  | .ifStmt l c b n, k, hfree, e => by
    obtain ⟨hbody, hn⟩ := Bool.and_eq_true_iff.1 hfree
    rw [canEnd_ifStmt, ← ends_body b k hbody e, ← ends_node n k hn e]
    simp [completions, Ends]
  | .whileLoop l c b, k, hfree, e => by
    rw [canEnd_whileLoop, ← ends_body b (some .loop) hfree .broken]
    simp [completions, ← Expr.isLiteralTrue_iff]
  | .forLoop l _ c _ b, k, hfree, e => by
    rw [canEnd_forLoop, ← ends_body b (some .loop) hfree .broken]
    cases c <;> simp [completions, ← Expr.isLiteralTrue_iff]
  | .forOf l _ _ b, k, _, e => by simp [completions]
  | .switch l x cs, k, hfree, e => by
    have hclauses (e : Ending) : (SwitchClause.completions rule cs).Ends e ↔
        ∃ c ∈ cs, c.body.CanEnd (some .switch) e := by
      rw [SwitchClause.ends_completions]
      exact exists_congr fun c => and_congr_right fun hc => ends_clauses cs hfree c hc e
    rw [canEnd_switch]
    simp [completions, hclauses, and_or_left, exists_or]
  | .tryStmt l b p handler final, k, hfree, e => by
    simp only [isFinallyFree, Bool.and_eq_true, Option.isNone_iff_eq_none] at hfree
    obtain ⟨⟨hbody, hhandler⟩, rfl⟩ := hfree
    rw [canEnd_tryStmt, ← ends_body b k hbody e,
      ← ends_part handler k hhandler e]
    exact ends_attempt
  | .empty, _, _, _ | .varDecl .., _, _, _ | .exprStmt .., _, _, _ | .function .., _, _, _
  | .classDecl .., _, _, _ | .interfaceDecl .., _, _, _ | .enumDecl .., _, _, _
  | .aliasDecl .., _, _, _ | .field .., _, _, _ | .method .., _, _, _ | .expr .., _, _, _
  | .typeNode .., _, _, _ => ends_straight rfl
termination_by structural n => n

theorem ends_body : (b : Block) → (k : Option Breakable) → b.isFinallyFree = true →
    ∀ e, (b.completions rule k).Ends e ↔ b.CanEnd k e
  | ⟨ns, place⟩, k, hfree, e => ends_row ns k place hfree e
termination_by structural b => b

theorem ends_part : (b : Option Block) → (k : Option Breakable) →
    Block.isFinallyFree? b = true → ∀ e,
      (∃ f ∈ (Block.completions? rule k b).map Ends, f e) ↔ ∃ h, b = some h ∧ h.CanEnd k e
  | none, _, _, _ => by simp [Block.completions?]
  | some b, k, hfree, e => by simp [Block.completions?, ends_body b k hfree e]
termination_by structural b => b

theorem ends_row : (ns : List Node) → (k : Option Breakable) →
    (place : Location) → Node.areFinallyFree ns = true →
    ∀ e, (Node.rowCompletions rule k ns).Ends e ↔ Block.CanEnd k ⟨ns, place⟩ e
  | [], _, _, _, _ => by simp [rowCompletions]
  | n :: ns, k, place, hfree, e => by
    obtain ⟨hn, hns⟩ := Bool.and_eq_true_iff.1 hfree
    rw [Block.canEnd_cons, ← ends_node n k hn .normal,
      ← ends_node n k hn .broken, ← ends_row ns k place hns e]
    exact ends_andThen
termination_by structural ns => ns

theorem ends_clauses : (cs : List SwitchClause) →
    SwitchClause.areFinallyFree cs = true → ∀ c ∈ cs, ∀ e,
      (c.body.completions rule (some .switch)).Ends e ↔ c.body.CanEnd (some .switch) e
  | [], _ => List.forall_mem_nil _
  | ⟨_, b⟩ :: cs, hfree =>
    have hparts := Bool.and_eq_true_iff.1 hfree
    List.forall_mem_cons.2
      ⟨ends_body b (some .switch) hparts.1, ends_clauses cs hparts.2⟩
termination_by structural cs => cs

end

end Flow

/-! ## The end of the function -/

/-- Control can come to the end of the body. A missing body does nothing. -/
def Block.Completes : Option Block → Prop
  | none => True
  | some b => b.CanEnd none .normal

namespace FlowGraph

variable {g : FlowGraph}

lemma reached_exit_build {body : Option Block} (hfree : Block.isFinallyFree? body = true)
    (place : Option Location) : (build body place).1.Reached exit ↔ Block.Completes body := by
  rw [reached_exit_iff]
  cases body with
  | none => exact iff_of_true rfl trivial
  | some b => exact Flow.ends_body b none hfree .normal

/-! ## The complaint -/

lemma code_withContext (d : Diagnostic) (file : String) (place : Option Location)
    (message : String) : (d.withContext file place message).code = d.code := by
  unfold Diagnostic.withContext Diagnostic.withLabel Diagnostic.inFile
  dsimp only
  split <;> rfl

lemma code_contexts (file : String) (labels : List (Location × String)) (d : Diagnostic) :
    (labels.foldl (fun d l => d.withContext file (some l.1) l.2) d).code = d.code := by
  induction labels generalizing d with
  | nil => rfl
  | cons l labels ih => rw [List.foldl_cons, ih, code_withContext]

lemma isSome_missingReturn? {file name : String} {place : Option Location}
    {declared : Option Ty} : (g.missingReturn? file name place declared).isSome = true ↔
      (neededResult? declared).isSome = true ∧ g.allPathsReturn = false := by
  unfold missingReturn?
  cases neededResult? declared with
  | none => simp
  | some t => cases g.allPathsReturn <;> simp

lemma code_of_missingReturn? {file name : String} {place : Option Location}
    {declared : Option Ty} {d : Diagnostic}
    (hd : g.missingReturn? file name place declared = some d) : d.code = Code.missingReturn := by
  unfold missingReturn? at hd
  cases hneeded : neededResult? declared with
  | none => simp [hneeded] at hd
  | some t =>
    cases hpaths : g.allPathsReturn with
    | true => simp [hneeded, hpaths] at hd
    | false =>
      rw [hneeded, hpaths] at hd
      obtain rfl := Option.some.inj hd
      exact code_contexts _ _ _

/-- A body without finally blocks comes to its end in the graph exactly if it can end
normally, and just then a declared result that needs a value is complained about. -/
theorem missing_returns_exact (body : Option Block)
    (hfree : Block.isFinallyFree? body = true) (start : Option Location) :
    ((build body start).1.allPathsReturn = false ↔ Block.Completes body) ∧
    ∀ (file name : String) (place : Option Location) (declared : Option Ty),
      (((build body start).1.missingReturn? file name place declared).isSome = true ↔
        (neededResult? declared).isSome = true ∧ Block.Completes body) ∧
      ∀ d, (build body start).1.missingReturn? file name place declared = some d →
        d.code = Code.missingReturn := by
  have hpaths : (build body start).1.allPathsReturn = false ↔ Block.Completes body := by
    rw [allPathsReturn_eq_false, reached_exit_build hfree]
  refine ⟨hpaths, fun file name place declared => ⟨?_, fun d hd => code_of_missingReturn? hd⟩⟩
  rw [isSome_missingReturn?, hpaths]

/-- A loop without a condition around a switch: the clause for one breaks out of the switch
only, so that control comes to the break of the loop; all else returns or goes back. -/
def searchLoop : Block :=
  let one : Expr := .literal ⟨0, {}⟩ .int "1"
  ⟨[.forLoop {} .empty none none
      ⟨[.switch {} one
          [⟨[one], ⟨[.breakStmt {}], {}⟩⟩, ⟨[], ⟨[.ifStmt {} one ⟨[.continueStmt {}], {}⟩
            (.tryStmt {} ⟨[.ret {} (some one)], {}⟩ none (some ⟨[.throwStmt {} one], {}⟩) none)],
            {}⟩⟩],
        .breakStmt {}], {}⟩], {}⟩

/-- The loop can be left, so an integer result may be missing. -/
theorem search_loop_misses_return :
    Block.isFinallyFree? (some searchLoop) = true ∧
    (build (some searchLoop) none).1.allPathsReturn = false ∧
    ∃ d, (build (some searchLoop) none).1.missingReturn? "m.te" "find" none
      (some (.prim .int)) = some d ∧ d.code = Code.missingReturn := by
  obtain ⟨hpaths, hreported⟩ := missing_returns_exact (some searchLoop) rfl none
  obtain ⟨hsome, hcode⟩ := hreported "m.te" "find" none (some (.prim .int))
  have hcompletes : Block.Completes (some searchLoop) :=
    .next (.forBroken (.next (.clause List.mem_cons_self (.stop .breakOut)) (.stop .breakOut)))
      .done
  obtain ⟨d, hd⟩ := Option.isSome_iff_exists.1 (hsome.2 ⟨rfl, hcompletes⟩)
  exact ⟨rfl, hpaths.2 hcompletes, d, hd, hcode d hd⟩

end FlowGraph

end TypedScript
