import Mathlib.Data.List.Nodup
import TypedScript.Proofs.Flow.MissingReturns

/-!
# Dead code

Which statements of a body can never run, said of the body itself. Control enters a block of the
body if it comes to the statement that the block is a part of, so if it enters the block around
that statement and the statements before it there can end normally. In a block that is entered,
the statements behind those that cannot end normally are stranded. Declarations do nothing where
they stand and are never stranded.

Blocks of a body are told apart by their paths: the number of a statement in its block, the number
of a part in its statement, and so on. The stranded statements of all blocks can be collected in
one pass over the body, which stops where control does.
-/
namespace TypedScript

/-! ## Blocks that control enters -/

mutual

/-- Control that comes to the statement, inside the innermost loop or switch `k`, can enter the
block with this path in it. What is the innermost loop or switch there is given too. -/
inductive Node.Enters :
    Option Breakable → Node → List Nat → Option Breakable → Block → Prop
  | block {k k' : Option Breakable} {b inner : Block} {p : List Nat} :
      Block.Enters k b p k' inner → Node.Enters k (.block b) p k' inner
  | ifBody {k k' : Option Breakable} {l : Location} {c : Expr} {b inner : Block} {n : Node}
      {p : List Nat} :
      Block.Enters k b p k' inner → Node.Enters k (.ifStmt l c b n) (0 :: p) k' inner
  | ifElse {k k' : Option Breakable} {l : Location} {c : Expr} {b inner : Block} {n : Node}
      {p : List Nat} :
      Node.Enters k n p k' inner → Node.Enters k (.ifStmt l c b n) (1 :: p) k' inner
  | whileBody {k k' : Option Breakable} {l : Location} {c : Expr} {b inner : Block}
      {p : List Nat} :
      Block.Enters (some .loop) b p k' inner → Node.Enters k (.whileLoop l c b) (0 :: p) k' inner
  | forBody {k k' : Option Breakable} {l : Location} {init : Node} {c post : Option Expr}
      {b inner : Block} {p : List Nat} :
      Block.Enters (some .loop) b p k' inner →
      Node.Enters k (.forLoop l init c post b) (0 :: p) k' inner
  | forOfBody {k k' : Option Breakable} {l : Location} {x : Ident} {e : Expr} {b inner : Block}
      {p : List Nat} :
      Block.Enters (some .loop) b p k' inner → Node.Enters k (.forOf l x e b) (0 :: p) k' inner
  | clause {k k' : Option Breakable} {l : Location} {x : Expr} {cs : List SwitchClause} {i : Nat}
      {c : SwitchClause} {inner : Block} {p : List Nat} :
      cs[i]? = some c → Block.Enters (some .switch) c.body p k' inner →
      Node.Enters k (.switch l x cs) (i :: p) k' inner
  | tried {k k' : Option Breakable} {l : Location} {b inner : Block} {x : Option Ident}
      {handler : Option Block} {p : List Nat} :
      Block.Enters k b p k' inner → Node.Enters k (.tryStmt l b x handler none) (0 :: p) k' inner
  | caught {k k' : Option Breakable} {l : Location} {b h inner : Block} {x : Option Ident}
      {p : List Nat} :
      Block.Enters k h p k' inner → Node.Enters k (.tryStmt l b x (some h) none) (1 :: p) k' inner

inductive Block.Enters :
    Option Breakable → Block → List Nat → Option Breakable → Block → Prop
  | here {k : Option Breakable} {b : Block} : Block.Enters k b [] k b
  | within {k k' : Option Breakable} {ns : List Node} {l : Location} {i : Nat} {n : Node}
      {inner : Block} {p : List Nat} :
      ns[i]? = some n → Block.CanEnd k ⟨ns.take i, l⟩ .normal → Node.Enters k n p k' inner →
      Block.Enters k ⟨ns, l⟩ (i :: p) k' inner

end

mutual

/-- A path leads to one block. -/
theorem Node.Enters.unique {k k₁ k₂ : Option Breakable} {n : Node} {b₁ b₂ : Block}
    {p : List Nat} : n.Enters k p k₁ b₁ → n.Enters k p k₂ b₂ → k₁ = k₂ ∧ b₁ = b₂
  | .block h, .block h' => h.unique h'
  | .ifBody h, .ifBody h' => h.unique h'
  | .ifElse h, .ifElse h' => h.unique h'
  | .whileBody h, .whileBody h' => h.unique h'
  | .forBody h, .forBody h' => h.unique h'
  | .forOfBody h, .forOfBody h' => h.unique h'
  | .clause hc h, .clause hc' h' => h.unique (Option.some.inj (hc.symm.trans hc') ▸ h')
  | .tried h, .tried h' => h.unique h'
  | .caught h, .caught h' => h.unique h'

theorem Block.Enters.unique {k k₁ k₂ : Option Breakable} {b b₁ b₂ : Block} {p : List Nat} :
    b.Enters k p k₁ b₁ → b.Enters k p k₂ b₂ → k₁ = k₂ ∧ b₁ = b₂
  | .here, .here => ⟨rfl, rfl⟩
  | .within hn _ h, .within hn' _ h' => h.unique (Option.some.inj (hn.symm.trans hn') ▸ h')

end

/-! ## Stranded statements -/

namespace Node

/-- A statement that is no declaration has this number. -/
def StatementAt (ns : List Node) (i : Nat) : Prop :=
  ∃ n, ns[i]? = some n ∧ n.isDeclaration = false

/-- The run goes from the first to the last statement whose number is in `P`. It does not start
with an absent one. -/
def Spans (ns : List Node) (P : Nat → Prop) (code : DeadCode) : Prop :=
  ∃ i j, ns[i]? = some code.first ∧ ns[j]? = some code.last ∧ P i ∧ P j ∧
    code.first.isEmpty = false ∧ (∀ x, P x → x ≤ j) ∧
    ∀ x n, P x → ns[x]? = some n → n.isEmpty = false → i ≤ x

end Node

namespace Block

/-- The statement with this number stands behind others that cannot end normally. -/
def Stranded (k : Option Breakable) (b : Block) (i : Nat) : Prop :=
  Node.StatementAt b.nodes i ∧ ¬ CanEnd k ⟨b.nodes.take i, b.location⟩ .normal

/-- There are stranded statements in the block, and the run goes from the first to the last. -/
def StrandedOver (k : Option Breakable) (b : Block) (code : DeadCode) : Prop :=
  Node.Spans b.nodes (b.Stranded k) code

/-- Control can enter a block at this path in which these statements are stranded. -/
def DeadAt (k : Option Breakable) (b : Block) (p : List Nat) (code : DeadCode) : Prop :=
  ∃ k' inner, b.Enters k p k' inner ∧ inner.StrandedOver k' code

end Block

def Node.DeadAt (k : Option Breakable) (n : Node) (p : List Nat) (code : DeadCode) : Prop :=
  ∃ k' inner, n.Enters k p k' inner ∧ inner.StrandedOver k' code

/-! ### The first and the last -/

section Filter

variable {α : Type} {f : α → Bool} {xs : List α} {a : α}

lemma find?_eq_some_first : xs.find? f = some a ↔ ∃ i : Nat, xs[i]? = some a ∧
    f a = true ∧ ∀ (j : Nat) b, xs[j]? = some b → f b = true → i ≤ j := by
  rw [List.find?_eq_some_iff_getElem]
  constructor
  · rintro ⟨ha, i, hi, rfl, hfirst⟩
    refine ⟨i, List.getElem?_eq_getElem hi, ha, fun j b hj hb => Nat.le_of_not_lt fun hlt => ?_⟩
    have hnot := hfirst j hlt
    grind
  · rintro ⟨i, hi, ha, hfirst⟩
    obtain ⟨hlt, rfl⟩ := List.getElem?_eq_some_iff.1 hi
    refine ⟨ha, i, hlt, rfl, fun j hj => ?_⟩
    have hle := hfirst j
    grind

lemma getLast?_filter_eq_some : (xs.filter f).getLast? = some a ↔ ∃ i : Nat, xs[i]? = some a ∧
    f a = true ∧ ∀ (j : Nat) b, xs[j]? = some b → f b = true → j ≤ i := by
  rw [← List.head?_reverse, ← List.filter_reverse, List.head?_filter, find?_eq_some_first]
  constructor
  · rintro ⟨i, hi, ha, hlast⟩
    obtain ⟨hlt, -⟩ := List.getElem?_eq_some_iff.1 hi
    rw [List.length_reverse] at hlt
    rw [List.getElem?_reverse hlt] at hi
    refine ⟨xs.length - 1 - i, hi, ha, fun j b hj hb => ?_⟩
    obtain ⟨hjlt, -⟩ := List.getElem?_eq_some_iff.1 hj
    have hle := hlast (xs.length - 1 - j) b (by grind) hb
    omega
  · rintro ⟨i, hi, ha, hlast⟩
    obtain ⟨hlt, -⟩ := List.getElem?_eq_some_iff.1 hi
    refine ⟨xs.length - 1 - i, by grind, ha, fun j b hj hb => ?_⟩
    obtain ⟨hjlt, -⟩ := List.getElem?_eq_some_iff.1 hj
    rw [List.length_reverse] at hjlt
    rw [List.getElem?_reverse hjlt] at hj
    have hle := hlast _ b hj hb
    omega

end Filter

namespace Node

variable {ns : List Node} {n : Node} {P Q : Nat → Prop} {code : DeadCode}

lemma Spans.congr (h : ∀ i, P i ↔ Q i) : Spans ns P code ↔ Spans ns Q code := by
  rw [show P = Q from funext fun i => propext (h i)]

/-- The same statements, one further on. -/
lemma spans_cons : Spans (n :: ns) (fun i => ∃ j, i = j + 1 ∧ P j) code ↔ Spans ns P code := by
  constructor
  · rintro ⟨_, _, hi, hj, ⟨i, rfl, hPi⟩, ⟨j, rfl, hPj⟩, hfirst, hlast, hstart⟩
    refine ⟨i, j, hi, hj, hPi, hPj, hfirst, fun x hx => ?_, fun x m hx hm hne => ?_⟩
    · exact Nat.le_of_succ_le_succ (hlast (x + 1) ⟨x, rfl, hx⟩)
    · exact Nat.le_of_succ_le_succ (hstart (x + 1) m ⟨x, rfl, hx⟩ hm hne)
  · rintro ⟨i, j, hi, hj, hPi, hPj, hfirst, hlast, hstart⟩
    refine ⟨i + 1, j + 1, hi, hj, ⟨i, rfl, hPi⟩, ⟨j, rfl, hPj⟩, hfirst, ?_, ?_⟩
    · rintro _ ⟨x, rfl, hx⟩
      exact Nat.succ_le_succ (hlast x hx)
    · rintro _ m ⟨x, rfl, hx⟩ hm hne
      exact Nat.succ_le_succ (hstart x m hx hm hne)

lemma statementAt_succ {i : Nat} : StatementAt (n :: ns) (i + 1) ↔ StatementAt ns i := Iff.rfl

lemma deadCode?_eq_some_iff : deadCode? ns = some code ↔
    ns.find? (fun n => !n.isDeclaration && !n.isEmpty) = some code.first ∧
      (ns.filter fun n => !n.isDeclaration).getLast? = some code.last := by
  obtain ⟨first, last⟩ := code
  simp only [deadCode?, List.find?_filter, Bool.decide_and, Bool.decide_eq_true]
  cases ns.find? fun n => !n.isDeclaration && !n.isEmpty with
  | none => simp
  | some m => cases (ns.filter fun n => !n.isDeclaration).getLast? <;> simp

/-- What is dead in a row of statements are all in it that are no declarations. -/
lemma deadCode?_eq_some : deadCode? ns = some code ↔ Spans ns (StatementAt ns) code := by
  rw [deadCode?_eq_some_iff, find?_eq_some_first, getLast?_filter_eq_some]
  simp only [Bool.and_eq_true, Bool.not_eq_true']
  constructor
  · rintro ⟨⟨i, hi, ⟨hdecl, hne⟩, hmin⟩, j, hj, hdecl', hmax⟩
    refine ⟨i, j, hi, hj, ⟨_, hi, hdecl⟩, ⟨_, hj, hdecl'⟩, hne, ?_, ?_⟩
    · rintro x ⟨n, hn, hn'⟩
      exact hmax x n hn hn'
    · rintro x n ⟨n', hn', hdecl⟩ hn hne
      obtain rfl := Option.some.inj (hn.symm.trans hn')
      exact hmin x n hn ⟨hdecl, hne⟩
  · rintro ⟨i, j, hi, hj, ⟨n, hn, hdecl⟩, ⟨m, hm, hdecl'⟩, hne, hmax, hmin⟩
    obtain rfl := Option.some.inj (hi.symm.trans hn)
    obtain rfl := Option.some.inj (hj.symm.trans hm)
    refine ⟨⟨i, hi, ⟨hdecl, hne⟩, fun x n hn hn' => ?_⟩, j, hj, hdecl', fun x n hn hn' => ?_⟩
    · exact hmin x n ⟨n, hn, hn'.1⟩ hn hn'.2
    · exact hmax x ⟨n, hn, hn'⟩

end Node

namespace Block

variable {k : Option Breakable} {ns : List Node} {n : Node} {l : Location} {i : Nat}
  {code : DeadCode}

lemma stranded_cons (hn : n.CanEnd k .normal) :
    Stranded k ⟨n :: ns, l⟩ i ↔ ∃ j, i = j + 1 ∧ Stranded k ⟨ns, l⟩ j := by
  cases i with
  | zero => simp [Stranded]
  | succ i => simp [Stranded, Node.statementAt_succ, hn]

lemma stranded_cons_of_not (hn : ¬ n.CanEnd k .normal) :
    Stranded k ⟨n :: ns, l⟩ i ↔ ∃ j, i = j + 1 ∧ Node.StatementAt ns j := by
  cases i with
  | zero => simp [Stranded]
  | succ i => simp [Stranded, Node.statementAt_succ, hn]

lemma strandedOver_cons : StrandedOver k ⟨n :: ns, l⟩ code ↔
    n.CanEnd k .normal ∧ StrandedOver k ⟨ns, l⟩ code ∨
      ¬ n.CanEnd k .normal ∧ deadCode? ns = some code := by
  by_cases hn : n.CanEnd k .normal
  · simp only [hn, true_and, not_true_eq_false, false_and, or_false]
    exact (Node.Spans.congr fun _ => stranded_cons hn).trans Node.spans_cons
  · simp only [hn, false_and, not_false_eq_true, true_and, false_or]
    rw [Node.deadCode?_eq_some]
    exact (Node.Spans.congr fun _ => stranded_cons_of_not hn).trans Node.spans_cons

lemma StrandedOver.isEmpty_last {b : Block} (h : b.StrandedOver k code)
    (hpresent : .empty ∉ b.nodes) : code.last.isEmpty = false := by
  obtain ⟨_, _, _, hlast, -⟩ := h
  have hmem := List.mem_of_getElem? hlast
  cases hcode : code.last with
  | empty => exact absurd (hcode ▸ hmem) hpresent
  | _ => rfl

/-- Stranded statements in a row of statements, or in a block that control enters from it. The
statements of the row are numbered from `i` on. -/
def RowDeadAt (k : Option Breakable) (l : Location) (i : Nat) (ns : List Node) (p : List Nat)
    (code : DeadCode) : Prop :=
  p = [] ∧ StrandedOver k ⟨ns, l⟩ code ∨ ∃ j n q, p = (i + j) :: q ∧ ns[j]? = some n ∧
    CanEnd k ⟨ns.take j, l⟩ .normal ∧ n.DeadAt k q code

variable {b : Block} {p : List Nat}

lemma deadAt_iff : DeadAt k ⟨ns, l⟩ p code ↔ RowDeadAt k l 0 ns p code := by
  constructor
  · rintro ⟨k', inner, h, hdead⟩
    cases h with
    | here => exact .inl ⟨rfl, hdead⟩
    | within hn hbefore h =>
      exact .inr ⟨_, _, _, by rw [Nat.zero_add], hn, hbefore, _, _, h, hdead⟩
  · rintro (⟨rfl, hdead⟩ | ⟨j, n, q, rfl, hn, hbefore, k', inner, h, hdead⟩)
    · exact ⟨_, _, .here, hdead⟩
    · rw [Nat.zero_add]
      exact ⟨_, _, .within hn hbefore h, hdead⟩

lemma not_rowDeadAt_nil : ¬ RowDeadAt k l i [] p code := by
  rintro (⟨-, _, _, h, -⟩ | ⟨_, _, _, -, h, -⟩)
  · cases h
  · cases h

/-- Behind a statement that cannot end normally control enters no block, and all statements are
stranded. -/
lemma rowDeadAt_cons : RowDeadAt k l i (n :: ns) p code ↔
    (∃ q, p = i :: q ∧ n.DeadAt k q code) ∨
    n.CanEnd k .normal ∧ RowDeadAt k l (i + 1) ns p code ∨
    ¬ n.CanEnd k .normal ∧ p = [] ∧ deadCode? ns = some code := by
  constructor
  · rintro (⟨rfl, hdead⟩ | ⟨j, m, q, rfl, hm, hbefore, hdead⟩)
    · obtain ⟨hn, hdead⟩ | ⟨hn, hdead⟩ := strandedOver_cons.1 hdead
      · exact .inr (.inl ⟨hn, .inl ⟨rfl, hdead⟩⟩)
      · exact .inr (.inr ⟨hn, rfl, hdead⟩)
    · cases j with
      | zero =>
        obtain rfl := Option.some.inj hm
        exact .inl ⟨q, rfl, hdead⟩
      | succ j =>
        obtain ⟨hn, hbefore⟩ : n.CanEnd k .normal ∧ CanEnd k ⟨ns.take j, l⟩ .normal := by
          simpa using hbefore
        exact .inr (.inl ⟨hn, .inr ⟨j, m, q, by rw [Nat.add_right_comm, Nat.add_assoc], hm,
          hbefore, hdead⟩⟩)
  · rintro (⟨q, rfl, hdead⟩ | ⟨hn, ⟨rfl, hdead⟩ | ⟨j, m, q, rfl, hm, hbefore, hdead⟩⟩ |
      ⟨hn, rfl, hdead⟩)
    · exact .inr ⟨0, n, q, rfl, rfl, .done, hdead⟩
    · exact .inl ⟨rfl, strandedOver_cons.2 (.inl ⟨hn, hdead⟩)⟩
    · exact .inr ⟨j + 1, m, q, by rw [Nat.add_right_comm, Nat.add_assoc], hm,
        .next hn hbefore, hdead⟩
    · exact .inl ⟨rfl, strandedOver_cons.2 (.inr ⟨hn, hdead⟩)⟩

end Block

namespace Node

variable {k : Option Breakable} {l : Location} {b : Block} {n : Node} {p : List Nat}
  {code : DeadCode}

@[simp] lemma deadAt_block : (block b).DeadAt k p code ↔ b.DeadAt k p code := by
  constructor
  · rintro ⟨k', inner, ⟨h⟩, hdead⟩
    exact ⟨k', inner, h, hdead⟩
  · rintro ⟨k', inner, h, hdead⟩
    exact ⟨k', inner, .block h, hdead⟩

@[simp] lemma deadAt_ifStmt {c : Expr} : (ifStmt l c b n).DeadAt k p code ↔
    (∃ q, p = 0 :: q ∧ b.DeadAt k q code) ∨ ∃ q, p = 1 :: q ∧ n.DeadAt k q code := by
  constructor
  · rintro ⟨k', inner, h, hdead⟩
    cases h with
    | ifBody h => exact .inl ⟨_, rfl, _, _, h, hdead⟩
    | ifElse h => exact .inr ⟨_, rfl, _, _, h, hdead⟩
  · rintro (⟨q, rfl, k', inner, h, hdead⟩ | ⟨q, rfl, k', inner, h, hdead⟩)
    · exact ⟨_, _, .ifBody h, hdead⟩
    · exact ⟨_, _, .ifElse h, hdead⟩

@[simp] lemma deadAt_whileLoop {c : Expr} : (whileLoop l c b).DeadAt k p code ↔
    ∃ q, p = 0 :: q ∧ b.DeadAt (some .loop) q code := by
  constructor
  · rintro ⟨k', inner, h, hdead⟩
    cases h with
    | whileBody h => exact ⟨_, rfl, _, _, h, hdead⟩
  · rintro ⟨q, rfl, k', inner, h, hdead⟩
    exact ⟨_, _, .whileBody h, hdead⟩

@[simp] lemma deadAt_forLoop {c post : Option Expr} : (forLoop l n c post b).DeadAt k p code ↔
    ∃ q, p = 0 :: q ∧ b.DeadAt (some .loop) q code := by
  constructor
  · rintro ⟨k', inner, h, hdead⟩
    cases h with
    | forBody h => exact ⟨_, rfl, _, _, h, hdead⟩
  · rintro ⟨q, rfl, k', inner, h, hdead⟩
    exact ⟨_, _, .forBody h, hdead⟩

@[simp] lemma deadAt_forOf {x : Ident} {e : Expr} : (forOf l x e b).DeadAt k p code ↔
    ∃ q, p = 0 :: q ∧ b.DeadAt (some .loop) q code := by
  constructor
  · rintro ⟨k', inner, h, hdead⟩
    cases h with
    | forOfBody h => exact ⟨_, rfl, _, _, h, hdead⟩
  · rintro ⟨q, rfl, k', inner, h, hdead⟩
    exact ⟨_, _, .forOfBody h, hdead⟩

@[simp] lemma deadAt_switch {x : Expr} {cs : List SwitchClause} :
    (switch l x cs).DeadAt k p code ↔
      ∃ i c q, p = i :: q ∧ cs[i]? = some c ∧ c.body.DeadAt (some .switch) q code := by
  constructor
  · rintro ⟨k', inner, h, hdead⟩
    cases h with
    | clause hc h => exact ⟨_, _, _, rfl, hc, _, _, h, hdead⟩
  · rintro ⟨i, c, q, rfl, hc, k', inner, h, hdead⟩
    exact ⟨_, _, .clause hc h, hdead⟩

@[simp] lemma deadAt_tryStmt {x : Option Ident} {handler : Option Block} :
    (tryStmt l b x handler none).DeadAt k p code ↔
      (∃ q, p = 0 :: q ∧ b.DeadAt k q code) ∨
      ∃ q, p = 1 :: q ∧ ∃ h, handler = some h ∧ h.DeadAt k q code := by
  constructor
  · rintro ⟨k', inner, h, hdead⟩
    cases h with
    | tried h => exact .inl ⟨_, rfl, _, _, h, hdead⟩
    | caught h => exact .inr ⟨_, rfl, _, rfl, _, _, h, hdead⟩
  · rintro (⟨q, rfl, k', inner, h, hdead⟩ | ⟨q, rfl, _, rfl, k', inner, h, hdead⟩)
    · exact ⟨_, _, .tried h, hdead⟩
    · exact ⟨_, _, .caught h, hdead⟩

end Node

/-! ## Collecting stranded statements -/

/-- The stranded statements of some blocks, with the path of the block. -/
abbrev DeadRuns := List (List Nat × DeadCode)

namespace DeadRuns

variable {runs others : DeadRuns} {i : Nat} {p : List Nat} {code : DeadCode}

/-- The same, of the part with this number. -/
def under (i : Nat) (runs : DeadRuns) : DeadRuns := runs.map fun run => (i :: run.1, run.2)

@[simp] lemma mem_under : (p, code) ∈ under i runs ↔ ∃ q, p = i :: q ∧ (q, code) ∈ runs := by
  constructor
  · intro h
    obtain ⟨⟨q, _⟩, hrun, heq⟩ := List.mem_map.1 h
    obtain ⟨rfl, rfl⟩ := Prod.mk.inj heq
    exact ⟨q, rfl, hrun⟩
  · rintro ⟨q, rfl, hrun⟩
    exact List.mem_map.2 ⟨_, hrun, rfl⟩

@[simp] lemma codes_under : (under i runs).map Prod.snd = runs.map Prod.snd := by
  simp [under]

/-- No block is named twice. -/
def Distinct (runs : DeadRuns) : Prop := (runs.map Prod.fst).Nodup

lemma Distinct.under (h : runs.Distinct) : (under i runs).Distinct := by
  have hpaths : (DeadRuns.under i runs).map Prod.fst = (runs.map Prod.fst).map (i :: ·) := by
    simp [DeadRuns.under]
  rw [Distinct, hpaths]
  exact List.Nodup.map (fun _ _ heq => (List.cons.inj heq).2) h

/-- A part is told apart from what lies elsewhere. -/
lemma Distinct.beside (h : runs.Distinct) (hothers : others.Distinct)
    (hne : ∀ run ∈ others, ∀ q, run.1 ≠ i :: q) : (DeadRuns.under i runs ++ others).Distinct := by
  rw [Distinct, List.map_append, List.nodup_append]
  refine ⟨h.under, hothers, ?_⟩
  rintro p hp _ hp' rfl
  obtain ⟨⟨_, code⟩, hrun, rfl⟩ := List.mem_map.1 hp
  obtain ⟨other, hother, heq⟩ := List.mem_map.1 hp'
  obtain ⟨q, hq, -⟩ := mem_under.1 hrun
  exact hne other hother q (heq.trans hq)

lemma path_ne_of_mem_under {j : Nat} (hij : i ≠ j) :
    ∀ run ∈ under j runs, ∀ q, run.1 ≠ i :: q := by
  rintro ⟨p, code⟩ hrun q heq
  obtain ⟨q', hq', -⟩ := mem_under.1 hrun
  exact hij (List.cons.inj (heq.symm.trans hq')).1

end DeadRuns

open Completions DeadRuns in
mutual

/-- The stranded statements in the blocks of a statement that control comes to. What is in a finally
block is left out. -/
def Node.deadRuns (k : Option Breakable) : Node → DeadRuns
  | .block b => b.deadRuns k
  | .ifStmt _ _ body otherwise =>
    under 0 (body.deadRuns k) ++ under 1 (otherwise.deadRuns k)
  | .whileLoop _ _ body => under 0 (body.deadRuns (some .loop))
  | .forLoop _ _ _ _ body => under 0 (body.deadRuns (some .loop))
  | .forOf _ _ _ body => under 0 (body.deadRuns (some .loop))
  | .switch _ _ cases => SwitchClause.deadRuns 0 cases
  | .tryStmt _ body _ handler _ =>
    under 0 (body.deadRuns k) ++ under 1 (Block.deadRuns? k handler)
  | _ => []
termination_by structural n => n

def Block.deadRuns (k : Option Breakable) : Block → DeadRuns
  | ⟨ns, _⟩ => Node.rowDeadRuns k 0 ns
termination_by structural b => b

def Block.deadRuns? (k : Option Breakable) : Option Block → DeadRuns
  | none => []
  | some b => b.deadRuns k
termination_by structural b => b

def SwitchClause.deadRuns : Nat → List SwitchClause → DeadRuns
  | _, [] => []
  | i, ⟨_, body⟩ :: cs =>
    under i (body.deadRuns (some .switch)) ++ SwitchClause.deadRuns (i + 1) cs
termination_by structural _ cs => cs

/-- Behind a statement that cannot end normally no more is looked at. -/
def Node.rowDeadRuns (k : Option Breakable) :
    Nat → List Node → DeadRuns
  | _, [] => []
  | i, n :: ns =>
    under i (n.deadRuns k) ++
      if n.completions behind k .normal then Node.rowDeadRuns k (i + 1) ns
      else (deadCode? ns).toList.map fun code => ([], code)
termination_by structural _ ns => ns

end

lemma SwitchClause.codes_deadRuns (cs : List SwitchClause) (i : Nat) :
    (SwitchClause.deadRuns i cs).map Prod.snd =
      cs.flatMap fun c => (c.body.deadRuns (some .switch)).map Prod.snd := by
  induction cs generalizing i with
  | nil => rfl
  | cons c cs ih =>
    obtain ⟨_, b⟩ := c
    simp [SwitchClause.deadRuns, ih]

namespace Flow

open Completions

lemma mem_deadRuns_row {n : Node} {ns : List Node} {k : Option Breakable} {l : Location}
    {i : Nat} {p : List Nat} {code : DeadCode}
    (hends : (n.completions behind k).Ends .normal ↔ n.CanEnd k .normal)
    (hn : ∀ p code, (p, code) ∈ n.deadRuns k ↔ n.DeadAt k p code)
    (hns : ∀ p code, (p, code) ∈ Node.rowDeadRuns k (i + 1) ns ↔
      Block.RowDeadAt k l (i + 1) ns p code) :
    (p, code) ∈ Node.rowDeadRuns k i (n :: ns) ↔
      Block.RowDeadAt k l i (n :: ns) p code := by
  rw [Block.rowDeadAt_cons, ← hends, ← hns, Node.rowDeadRuns, List.mem_append,
    DeadRuns.mem_under]
  refine or_congr (exists_congr fun q => and_congr_right fun _ => hn q code) ?_
  by_cases hnormal : n.completions behind k .normal = true
  · simp [Ends, Ending.completion, hnormal]
  · simp [Ends, Ending.completion, hnormal, and_comm, eq_comm]

mutual

/-- Without finally blocks exactly the stranded statements are collected. -/
theorem mem_deadRuns_node : (n : Node) → (k : Option Breakable) → n.isFinallyFree = true →
    ∀ p code, (p, code) ∈ n.deadRuns k ↔ n.DeadAt k p code
  | .block b, k, hfree, p, code => (mem_deadRuns_body b k hfree p code).trans
      Node.deadAt_block.symm
  | .ifStmt l c b n, k, hfree, p, code => by
    obtain ⟨hbody, hn⟩ := Bool.and_eq_true_iff.1 hfree
    simp [Node.deadRuns, mem_deadRuns_body b k hbody, mem_deadRuns_node n k hn]
  | .whileLoop l c b, k, hfree, p, code => by
    simp [Node.deadRuns, mem_deadRuns_body b (some .loop) hfree]
  | .forLoop l _ c _ b, k, hfree, p, code => by
    simp [Node.deadRuns, mem_deadRuns_body b (some .loop) hfree]
  | .forOf l _ _ b, k, hfree, p, code => by
    simp [Node.deadRuns, mem_deadRuns_body b (some .loop) hfree]
  | .switch l x cs, k, hfree, p, code => by
    simp [Node.deadRuns, mem_deadRuns_clauses cs 0 hfree]
  | .tryStmt l b x handler final, k, hfree, p, code => by
    simp only [Node.isFinallyFree, Bool.and_eq_true, Option.isNone_iff_eq_none] at hfree
    obtain ⟨⟨hbody, hhandler⟩, rfl⟩ := hfree
    simp [Node.deadRuns, mem_deadRuns_body b k hbody, mem_deadRuns_part handler k hhandler]
  | .ret .., _, _, _, _ | .throwStmt .., _, _, _, _ | .breakStmt .., _, _, _, _
  | .continueStmt .., _, _, _, _ | .empty, _, _, _, _ | .varDecl .., _, _, _, _
  | .exprStmt .., _, _, _, _ | .function .., _, _, _, _ | .classDecl .., _, _, _, _
  | .interfaceDecl .., _, _, _, _ | .enumDecl .., _, _, _, _ | .aliasDecl .., _, _, _, _
  | .field .., _, _, _, _ | .method .., _, _, _, _ | .expr .., _, _, _, _
  | .typeNode .., _, _, _, _ => iff_of_false nofun nofun
termination_by structural n => n

theorem mem_deadRuns_body : (b : Block) → (k : Option Breakable) → b.isFinallyFree = true →
    ∀ p code, (p, code) ∈ b.deadRuns k ↔ b.DeadAt k p code
  | ⟨ns, l⟩, k, hfree, p, code =>
    (mem_deadRuns_nodes ns k l 0 hfree p code).trans Block.deadAt_iff.symm
termination_by structural b => b

theorem mem_deadRuns_part : (b : Option Block) → (k : Option Breakable) →
    Block.isFinallyFree? b = true → ∀ p code,
      (p, code) ∈ Block.deadRuns? k b ↔ ∃ h, b = some h ∧ h.DeadAt k p code
  | none, _, _, _, _ => by simp [Block.deadRuns?]
  | some b, k, hfree, p, code => by simp [Block.deadRuns?, mem_deadRuns_body b k hfree]
termination_by structural b => b

theorem mem_deadRuns_nodes : (ns : List Node) → (k : Option Breakable) → (l : Location) →
    (i : Nat) → Node.areFinallyFree ns = true → ∀ p code,
      (p, code) ∈ Node.rowDeadRuns k i ns ↔ Block.RowDeadAt k l i ns p code
  | [], _, _, _, _, _, _ => iff_of_false nofun Block.not_rowDeadAt_nil
  | n :: ns, k, l, i, hfree, _, _ =>
    have hparts := Bool.and_eq_true_iff.1 hfree
    mem_deadRuns_row (ends_node n k hparts.1 .normal) (mem_deadRuns_node n k hparts.1)
      (mem_deadRuns_nodes ns k l (i + 1) hparts.2)
termination_by structural ns => ns

theorem mem_deadRuns_clauses : (cs : List SwitchClause) → (i : Nat) →
    SwitchClause.areFinallyFree cs = true → ∀ p code,
      (p, code) ∈ SwitchClause.deadRuns i cs ↔ ∃ j c q, p = (i + j) :: q ∧
        cs[j]? = some c ∧ c.body.DeadAt (some .switch) q code
  | [], _, _, _, _ => by simp [SwitchClause.deadRuns]
  | ⟨values, b⟩ :: cs, i, hfree, _, code => by
    obtain ⟨hbody, hrest⟩ := Bool.and_eq_true_iff.1 hfree
    rw [SwitchClause.deadRuns, List.mem_append, DeadRuns.mem_under,
      mem_deadRuns_clauses cs (i + 1) hrest]
    constructor
    · rintro (⟨q, rfl, hrun⟩ | ⟨j, c, q, rfl, hc, hdead⟩)
      · exact ⟨0, ⟨values, b⟩, q, rfl, rfl, (mem_deadRuns_body b _ hbody q code).1 hrun⟩
      · exact ⟨j + 1, c, q, by rw [Nat.add_right_comm, Nat.add_assoc], hc, hdead⟩
    · rintro ⟨j, c, q, rfl, hc, hdead⟩
      cases j with
      | zero =>
        obtain rfl := Option.some.inj hc
        exact .inl ⟨q, rfl, (mem_deadRuns_body b _ hbody q code).2 hdead⟩
      | succ j => exact .inr ⟨j, c, q, by rw [Nat.add_right_comm, Nat.add_assoc], hc, hdead⟩
termination_by structural cs => cs

end

/-! ### No block twice -/

lemma path_of_mem_clauses (cs : List SwitchClause) (i : Nat) :
    ∀ run ∈ SwitchClause.deadRuns i cs, ∃ j q, i ≤ j ∧ run.1 = j :: q := by
  induction cs generalizing i with
  | nil => exact nofun
  | cons c cs ih =>
    obtain ⟨_, b⟩ := c
    rintro ⟨p, code⟩ hrun
    obtain hrun | hrun := List.mem_append.1 hrun
    · obtain ⟨q, rfl, -⟩ := DeadRuns.mem_under.1 hrun
      exact ⟨i, q, Nat.le_refl i, rfl⟩
    · obtain ⟨j, q, hj, hp⟩ := ih (i + 1) _ hrun
      exact ⟨j, q, Nat.le_of_succ_le hj, hp⟩

lemma path_of_mem_row (ns : List Node) (k : Option Breakable) (i : Nat) :
    ∀ run ∈ Node.rowDeadRuns k i ns, run.1 = [] ∨ ∃ j q, i ≤ j ∧ run.1 = j :: q := by
  induction ns generalizing i with
  | nil => exact nofun
  | cons n ns ih =>
    rintro ⟨p, code⟩ hrun
    obtain hrun | hrun := List.mem_append.1 hrun
    · obtain ⟨q, rfl, -⟩ := DeadRuns.mem_under.1 hrun
      exact .inr ⟨i, q, Nat.le_refl i, rfl⟩
    · split at hrun
      · obtain hp | ⟨j, q, hj, hp⟩ := ih (i + 1) _ hrun
        · exact .inl hp
        · exact .inr ⟨j, q, Nat.le_of_succ_le hj, hp⟩
      · obtain ⟨_, -, heq⟩ := List.mem_map.1 hrun
        exact .inl (Prod.mk.inj heq).1.symm

lemma distinct_row {n : Node} {ns : List Node} {k : Option Breakable} {i : Nat}
    (hn : (n.deadRuns k).Distinct) (hns : (Node.rowDeadRuns k (i + 1) ns).Distinct) :
    (Node.rowDeadRuns k i (n :: ns)).Distinct := by
  rw [Node.rowDeadRuns]
  split
  · refine hn.beside hns fun run hrun q heq => ?_
    obtain hp | ⟨j, q', hj, hp⟩ := path_of_mem_row ns k (i + 1) run hrun
    · cases hp.symm.trans heq
    · cases hp.symm.trans heq
      exact Nat.not_succ_le_self i hj
  · refine hn.beside ?_ fun run hrun q heq => ?_
    · cases deadCode? ns <;> simp [DeadRuns.Distinct]
    · obtain ⟨_, -, rfl⟩ := List.mem_map.1 hrun
      cases heq

mutual

theorem distinct_node : (n : Node) → (k : Option Breakable) → (n.deadRuns k).Distinct
  | .block b, k => distinct_body b k
  | .ifStmt _ _ b n, k =>
    (distinct_body b k).beside (distinct_node n k).under
      (DeadRuns.path_ne_of_mem_under Nat.zero_ne_one)
  | .whileLoop _ _ b, _ => (distinct_body b (some .loop)).under
  | .forLoop _ _ _ _ b, _ => (distinct_body b (some .loop)).under
  | .forOf _ _ _ b, _ => (distinct_body b (some .loop)).under
  | .switch _ _ cs, _ => distinct_clauses cs 0
  | .tryStmt _ b _ handler _, k =>
    (distinct_body b k).beside (distinct_part handler k).under
      (DeadRuns.path_ne_of_mem_under Nat.zero_ne_one)
  | .ret .., _ | .throwStmt .., _ | .breakStmt .., _ | .continueStmt .., _ | .empty, _
  | .varDecl .., _ | .exprStmt .., _ | .function .., _ | .classDecl .., _
  | .interfaceDecl .., _ | .enumDecl .., _ | .aliasDecl .., _ | .field .., _ | .method .., _
  | .expr .., _ | .typeNode .., _ => List.nodup_nil
termination_by structural n => n

theorem distinct_body : (b : Block) → (k : Option Breakable) → (b.deadRuns k).Distinct
  | ⟨ns, _⟩, k => distinct_nodes ns k 0
termination_by structural b => b

theorem distinct_part : (b : Option Block) → (k : Option Breakable) →
    (Block.deadRuns? k b).Distinct
  | none, _ => List.nodup_nil
  | some b, k => distinct_body b k
termination_by structural b => b

theorem distinct_nodes : (ns : List Node) → (k : Option Breakable) → (i : Nat) →
    (Node.rowDeadRuns k i ns).Distinct
  | [], _, _ => List.nodup_nil
  | n :: ns, k, i => distinct_row (distinct_node n k) (distinct_nodes ns k (i + 1))
termination_by structural ns => ns

theorem distinct_clauses : (cs : List SwitchClause) → (i : Nat) →
    (SwitchClause.deadRuns i cs).Distinct
  | [], _ => List.nodup_nil
  | ⟨_, b⟩ :: cs, i => by
    refine (distinct_body b (some .switch)).beside (distinct_clauses cs (i + 1)) ?_
    intro run hrun q heq
    obtain ⟨j, q', hj, hp⟩ := path_of_mem_clauses cs (i + 1) run hrun
    cases hp.symm.trans heq
    exact Nat.not_succ_le_self i hj
termination_by structural cs => cs

end

end Flow

end TypedScript
