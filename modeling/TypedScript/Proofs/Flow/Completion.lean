import Mathlib.Tactic.Common
import TypedScript.Checking.Session

/-!
# How statements can end

Whether control can come to the end of a statement, said of the statement itself. A
condition counts as undecided unless it is literally true, and a statement that leaves
the function or jumps never ends normally. The other way to end that matters is a break:
it makes the loop or switch around it end normally.

Statements are looked at inside the innermost loop or switch around them. A break outside
of any and a continue that is not directly in a loop do nothing.
-/
namespace TypedScript

/-- The expression is the literal `true`, perhaps in parentheses. -/
inductive Expr.IsTrue : Expr → Prop
  | literal (m : Mark) : IsTrue (.literal m .bool "true")
  | paren {m : Mark} {x : Expr} : IsTrue x → IsTrue (.paren m x)

/-- How control can leave a statement. -/
inductive Ending where
  | normal
  /-- By a break of the loop or switch around the statement. -/
  | broken

namespace Node

/-- The statement neither jumps nor has parts that could. -/
def isStraight : Node → Bool
  | ret _ _ | throwStmt _ _ | breakStmt _ | continueStmt _ => false
  | block _ | ifStmt _ _ _ _ | whileLoop _ _ _ | forLoop _ _ _ _ _ | forOf _ _ _ _ => false
  | switch _ _ _ | tryStmt _ _ _ _ _ => false
  | _ => true

end Node

mutual

/-- A statement without a finally block can end like this inside the innermost loop or
switch `k`. An absent else branch ends normally, as any absent statement. -/
inductive Node.CanEnd : Option Breakable → Node → Ending → Prop
  | straight {k : Option Breakable} {n : Node} : n.isStraight = true → n.CanEnd k .normal
  | block {k : Option Breakable} {b : Block} {e : Ending} :
      Block.CanEnd k b e → Node.CanEnd k (.block b) e
  | breakOut {k : Breakable} {l : Location} : Node.CanEnd (some k) (.breakStmt l) .broken
  | strayBreak {l : Location} : Node.CanEnd none (.breakStmt l) .normal
  | strayContinue {k : Option Breakable} {l : Location} :
      k ≠ some .loop → Node.CanEnd k (.continueStmt l) .normal
  | ifBody {k : Option Breakable} {l : Location} {c : Expr} {b : Block} {n : Node} {e : Ending} :
      Block.CanEnd k b e → Node.CanEnd k (.ifStmt l c b n) e
  | ifElse {k : Option Breakable} {l : Location} {c : Expr} {b : Block} {n : Node} {e : Ending} :
      Node.CanEnd k n e → Node.CanEnd k (.ifStmt l c b n) e
  | whileFails {k : Option Breakable} {l : Location} {c : Expr} {b : Block} :
      ¬ c.IsTrue → Node.CanEnd k (.whileLoop l c b) .normal
  | whileBroken {k : Option Breakable} {l : Location} {c : Expr} {b : Block} :
      Block.CanEnd (some .loop) b .broken → Node.CanEnd k (.whileLoop l c b) .normal
  | forFails {k : Option Breakable} {l : Location} {init : Node} {c : Expr} {post : Option Expr}
      {b : Block} : ¬ c.IsTrue → Node.CanEnd k (.forLoop l init (some c) post b) .normal
  | forBroken {k : Option Breakable} {l : Location} {init : Node} {c post : Option Expr}
      {b : Block} :
      Block.CanEnd (some .loop) b .broken → Node.CanEnd k (.forLoop l init c post b) .normal
  | forOf {k : Option Breakable} {l : Location} {x : Ident} {e : Expr} {b : Block} :
      Node.CanEnd k (.forOf l x e b) .normal
  | noDefault {k : Option Breakable} {l : Location} {x : Expr} {cs : List SwitchClause} :
      (∀ c ∈ cs, c.values ≠ []) → Node.CanEnd k (.switch l x cs) .normal
  | clause {k : Option Breakable} {l : Location} {x : Expr} {cs : List SwitchClause}
      {c : SwitchClause} {e : Ending} :
      c ∈ cs → Block.CanEnd (some .switch) c.body e → Node.CanEnd k (.switch l x cs) .normal
  | tried {k : Option Breakable} {l : Location} {b : Block} {p : Option Ident}
      {handler : Option Block} {e : Ending} :
      Block.CanEnd k b e → Node.CanEnd k (.tryStmt l b p handler none) e
  | caught {k : Option Breakable} {l : Location} {b h : Block} {p : Option Ident} {e : Ending} :
      Block.CanEnd k h e → Node.CanEnd k (.tryStmt l b p (some h) none) e

inductive Block.CanEnd : Option Breakable → Block → Ending → Prop
  | done {k : Option Breakable} {l : Location} : Block.CanEnd k ⟨[], l⟩ .normal
  | next {k : Option Breakable} {n : Node} {ns : List Node} {l : Location} {e : Ending} :
      n.CanEnd k .normal → Block.CanEnd k ⟨ns, l⟩ e → Block.CanEnd k ⟨n :: ns, l⟩ e
  | stop {k : Option Breakable} {n : Node} {ns : List Node} {l : Location} :
      n.CanEnd k .broken → Block.CanEnd k ⟨n :: ns, l⟩ .broken

end

mutual

/-- No try statement in the statement has a finally block. -/
def Node.isFinallyFree : Node → Bool
  | .block b => b.isFinallyFree
  | .ifStmt _ _ b n => b.isFinallyFree && n.isFinallyFree
  | .whileLoop _ _ b => b.isFinallyFree
  | .forLoop _ _ _ _ b => b.isFinallyFree
  | .forOf _ _ _ b => b.isFinallyFree
  | .switch _ _ cs => SwitchClause.areFinallyFree cs
  | .tryStmt _ b _ handler final =>
    b.isFinallyFree && Block.isFinallyFree? handler && final.isNone
  | _ => true
termination_by structural n => n

def Block.isFinallyFree : Block → Bool
  | ⟨ns, _⟩ => Node.areFinallyFree ns
termination_by structural b => b

def Block.isFinallyFree? : Option Block → Bool
  | none => true
  | some b => b.isFinallyFree
termination_by structural b => b

def Node.areFinallyFree : List Node → Bool
  | [] => true
  | n :: ns => n.isFinallyFree && Node.areFinallyFree ns
termination_by structural ns => ns

def SwitchClause.areFinallyFree : List SwitchClause → Bool
  | [] => true
  | ⟨_, b⟩ :: cs => b.isFinallyFree && SwitchClause.areFinallyFree cs
termination_by structural cs => cs

end

/-! ## The rules read backwards -/

namespace Node

variable {k : Option Breakable} {e : Ending} {l : Location} {b : Block} {n : Node}

lemma canEnd_of_isStraight (hn : n.isStraight = true) : n.CanEnd k e ↔ e = .normal := by
  constructor
  · intro h
    cases h with
    | straight _ => rfl
    | _ => cases hn
  · rintro rfl
    exact .straight hn

@[simp] lemma canEnd_block : (block b).CanEnd k e ↔ b.CanEnd k e := by
  constructor
  · intro h
    cases h with
    | straight h => cases h
    | block h => exact h
  · exact .block

@[simp] lemma not_canEnd_ret {x : Option Expr} : ¬ (ret l x).CanEnd k e := by
  intro h
  cases h with
  | straight h => cases h

@[simp] lemma not_canEnd_throwStmt {x : Expr} : ¬ (throwStmt l x).CanEnd k e := by
  intro h
  cases h with
  | straight h => cases h

@[simp] lemma canEnd_breakStmt_none : (breakStmt l).CanEnd none e ↔ e = .normal := by
  constructor
  · intro h
    cases h <;> rfl
  · rintro rfl
    exact .strayBreak

@[simp] lemma canEnd_breakStmt_some {kind : Breakable} :
    (breakStmt l).CanEnd (some kind) e ↔ e = .broken := by
  constructor
  · intro h
    cases h with
    | straight h => cases h
    | breakOut => rfl
  · rintro rfl
    exact .breakOut

@[simp] lemma canEnd_continueStmt :
    (continueStmt l).CanEnd k e ↔ e = .normal ∧ k ≠ some .loop := by
  constructor
  · intro h
    cases h with
    | straight h => cases h
    | strayContinue h => exact ⟨rfl, h⟩
  · rintro ⟨rfl, h⟩
    exact .strayContinue h

@[simp] lemma canEnd_ifStmt {c : Expr} :
    (ifStmt l c b n).CanEnd k e ↔ b.CanEnd k e ∨ n.CanEnd k e := by
  constructor
  · intro h
    cases h with
    | straight h => cases h
    | ifBody h => exact .inl h
    | ifElse h => exact .inr h
  · rintro (h | h)
    · exact .ifBody h
    · exact .ifElse h

@[simp] lemma canEnd_whileLoop {c : Expr} : (whileLoop l c b).CanEnd k e ↔
    e = .normal ∧ (¬ c.IsTrue ∨ b.CanEnd (some .loop) .broken) := by
  constructor
  · intro h
    cases h with
    | straight h => cases h
    | whileFails h => exact ⟨rfl, .inl h⟩
    | whileBroken h => exact ⟨rfl, .inr h⟩
  · rintro ⟨rfl, h | h⟩
    · exact .whileFails h
    · exact .whileBroken h

@[simp] lemma canEnd_forLoop {c post : Option Expr} : (forLoop l n c post b).CanEnd k e ↔
    e = .normal ∧ ((∃ x, c = some x ∧ ¬ x.IsTrue) ∨ b.CanEnd (some .loop) .broken) := by
  constructor
  · intro h
    cases h with
    | straight h => cases h
    | forFails h => exact ⟨rfl, .inl ⟨_, rfl, h⟩⟩
    | forBroken h => exact ⟨rfl, .inr h⟩
  · rintro ⟨rfl, ⟨x, rfl, h⟩ | h⟩
    · exact .forFails h
    · exact .forBroken h

@[simp] lemma canEnd_forOf {x : Ident} {c : Expr} : (forOf l x c b).CanEnd k e ↔ e = .normal := by
  constructor
  · intro h
    cases h <;> rfl
  · rintro rfl
    exact .forOf

@[simp] lemma canEnd_switch {x : Expr} {cs : List SwitchClause} : (switch l x cs).CanEnd k e ↔
    e = .normal ∧ ((∀ c ∈ cs, c.values ≠ []) ∨ ∃ c ∈ cs,
      c.body.CanEnd (some .switch) .broken ∨ c.body.CanEnd (some .switch) .normal) := by
  constructor
  · intro h
    cases h with
    | straight h => cases h
    | noDefault h => exact ⟨rfl, .inl h⟩
    | @clause _ _ _ _ c e hc h =>
      refine ⟨rfl, .inr ⟨c, hc, ?_⟩⟩
      cases e with
      | normal => exact .inr h
      | broken => exact .inl h
  · rintro ⟨rfl, h | ⟨c, hc, h | h⟩⟩
    · exact .noDefault h
    · exact .clause hc h
    · exact .clause hc h

@[simp] lemma canEnd_tryStmt {p : Option Ident} {handler : Option Block} :
    (tryStmt l b p handler none).CanEnd k e ↔
      b.CanEnd k e ∨ ∃ h, handler = some h ∧ h.CanEnd k e := by
  constructor
  · intro h
    cases h with
    | straight h => cases h
    | tried h => exact .inl h
    | caught h => exact .inr ⟨_, rfl, h⟩
  · rintro (h | ⟨handler, rfl, h⟩)
    · exact .tried h
    · exact .caught h

end Node

namespace Block

variable {k : Option Breakable} {e : Ending} {l : Location} {n : Node} {ns : List Node}

@[simp] lemma canEnd_nil : CanEnd k ⟨[], l⟩ e ↔ e = .normal := by
  constructor
  · intro h
    cases h
    rfl
  · rintro rfl
    exact .done

@[simp] lemma canEnd_cons : CanEnd k ⟨n :: ns, l⟩ e ↔
    n.CanEnd k .normal ∧ CanEnd k ⟨ns, l⟩ e ∨ e = .broken ∧ n.CanEnd k .broken := by
  constructor
  · intro h
    cases h with
    | next hn hns => exact .inl ⟨hn, hns⟩
    | stop hn => exact .inr ⟨rfl, hn⟩
  · rintro (⟨hn, hns⟩ | ⟨rfl, hn⟩)
    · exact .next hn hns
    · exact .stop hn

end Block

end TypedScript
