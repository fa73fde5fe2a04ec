import TypedScript.Proofs.Bodies
import TypedScript.Proofs.Flow.FinallyRules

/-!
# Jumps bind by nesting

A break belongs to the innermost loop or switch around it in the same function body, a
continue needs that to be a loop. A jump without a place to go to is stray.

The check of a body finds out by a stack of loops and switches in the session, which is
shared with whatever is checked on the way; the flow graph is built under the targets of the
innermost loop or switch. Both are shown to do what they would do if every jump were decided by
the nesting of statements alone. So the jumps that are refused are the jumps that the flow
passes over.
-/
namespace TypedScript

/-- The statements that leave a loop, a switch or a turn of a loop. -/
inductive Jump where
  | break | continue
  deriving DecidableEq

namespace Jump

def node (place : Location) : Jump → Node
  | .break => .breakStmt place
  | .continue => .continueStmt place

/-- The jump has no place to go to when `k` is the innermost loop or switch around it. -/
def isStray : Jump → Option Breakable → Bool
  | _, none => true
  | .continue, some .switch => true
  | _, some _ => false

/-- The code of the diagnostic about a stray jump. -/
def code : Jump → String
  | .break => Code.invalidBreak
  | .continue => Code.invalidContinue

/-- Refuse a stray jump. -/
def refuse (k : Option Breakable) (place : Location) : Jump → Check Unit
  | .break => Check.misplaced Code.invalidBreak place "break outside a loop or switch"
  | .continue =>
    if k.isNone then Check.misplaced Code.invalidContinue place "continue outside a loop"
    else Check.misplaced Code.invalidContinue place "continue inside switch"
      "use break to leave a switch"

/-- The check of a jump, decided by what is around it. -/
def check (k : Option Breakable) (j : Jump) (place : Location) : Check Unit :=
  if j.isStray k then j.refuse k place else return

def terminator : Jump → Terminator
  | .break => .break
  | .continue => .continue

/-- Where the jump goes to. -/
def target (t : Option JumpTargets) : Jump → BlockId
  | .break => (t.map JumpTargets.onBreak).getD 0
  | .continue => (t.bind JumpTargets.onContinue).getD 0

/-- The part of a flow graph for a jump, decided by what is around it. -/
def build (k : Option Breakable) (t : Option JumpTargets) (j : Jump) (place : Location) :
    Build.Steps := fun b =>
  if j.isStray k then return some b else Build.jump b (j.node place) j.terminator (j.target t)

end Jump

/-! ## Statements with what is around them -/

namespace Nested

section Check

open Check Rule

/-- What to check at a jump inside `k`. -/
abbrev JumpCheck := Option Breakable → Jump → Location → Check Unit

variable (d : Demand) (jump : JumpCheck)

mutual

/-- Check a block inside `k`. Each jump in it is left to `jump`, which is told the innermost
loop or switch around the jump; functions and classes are checked as ever. -/
def checkBlock (k : Option Breakable) : Block → Check Unit
  | ⟨ns, _⟩ => do
    Declare.all ns
    checkNodes k ns
termination_by structural b => b

def checkBlock? (k : Option Breakable) : Option Block → Option (Check Unit)
  | none => none
  | some b => some (checkBlock k b)
termination_by structural b => b

def checkClauses : List SwitchClause → List ClauseCheck
  | [] => []
  | ⟨values, b⟩ :: cs => ⟨Walk.parts d values, checkBlock (some .switch) b⟩ :: checkClauses cs
termination_by structural cs => cs

def checkNode (k : Option Breakable) : Node → Check Unit
  | .breakStmt place => jump k .break place
  | .continueStmt place => jump k .continue place
  | .block b => during Session.enterScope (checkBlock k b)
  | .ifStmt _ c b .empty => ifStmt ⟨c, Walk.expr d c⟩ (checkBlock k b) .none
  | .ifStmt _ c b (.block n) =>
    ifStmt ⟨c, Walk.expr d c⟩ (checkBlock k b) (.block (checkBlock k n))
  | .ifStmt _ c b n => ifStmt ⟨c, Walk.expr d c⟩ (checkBlock k b) (.node (checkNode k n))
  | .whileLoop _ c b => whileLoop ⟨c, Walk.expr d c⟩ (checkBlock (some .loop) b)
  | .forLoop _ init c post b =>
    forLoop (checkNode k init) (Walk.part? d c) (Walk.part? d post) (checkBlock (some .loop) b)
  | .forOf _ var x b => forOf var ⟨x, Walk.expr d x⟩ (checkBlock (some .loop) b)
  | .switch _ x cs => switch ⟨x, Walk.expr d x⟩ (checkClauses cs)
  | .tryStmt _ b param handler final =>
    tryStmt (checkBlock k b) param (checkBlock? k handler) (checkBlock? k final)
  | n => Walk.node d n
termination_by structural n => n

def checkNodes (k : Option Breakable) : List Node → Check Unit
  | [] => return
  | n :: ns => do
    reporting (checkNode k n)
    checkNodes k ns
termination_by structural ns => ns

end

end Check

section Build

open Build

/-- What to build at a jump inside `k`. -/
abbrev JumpBuild := Option Breakable → Option JumpTargets → Jump → Location → Steps

variable (jump : JumpBuild)

mutual

/-- Build a statement inside `k`. Each jump in it is left to `jump`, which is told the innermost
loop or switch around the jump. -/
def buildNode (k : Option Breakable) (t : Option JumpTargets) : Node → Steps
  | .breakStmt place => jump k t .break place
  | .continueStmt place => jump k t .continue place
  | .ifStmt l cond body otherwise =>
    ifStmt (.ifStmt l cond body otherwise) l ⟨body.location, buildBlock k t body⟩
      (if otherwise.isEmpty then none else some ⟨otherwise.location, buildNode k t otherwise⟩)
  | .whileLoop l cond body =>
    loop l body.location cond.isLiteralTrue fun t => buildBlock (some .loop) (some t) body
  | .forLoop l _ cond _ body =>
    loop l body.location ((cond.map Expr.isLiteralTrue).getD true) fun t =>
      buildBlock (some .loop) (some t) body
  | .forOf l _ _ body => loop l body.location false fun t => buildBlock (some .loop) (some t) body
  | .switch l subject cases =>
    switch (.switch l subject cases) l (cases.any fun c => c.values.isEmpty) (buildClauses cases)
  | .tryStmt l body param handler final =>
    tryStmt (.tryStmt l body param handler final) l ⟨body.location, buildBlock k t body⟩
      (buildBlock? k t handler) (buildBlock? k t final)
  | .block body => buildBlock k t body
  | n => Build.node t n
termination_by structural n => n

def buildBlock (k : Option Breakable) (t : Option JumpTargets) : Block → Steps
  | ⟨ns, _⟩ => buildNodes k t ns
termination_by structural b => b

def buildBlock? (k : Option Breakable) (t : Option JumpTargets) : Option Block → Option Branch
  | none => none
  | some b => some ⟨b.location, buildBlock k t b⟩
termination_by structural b => b

def buildClauses : List SwitchClause → List (JumpTargets → Branch)
  | [] => []
  | ⟨_, body⟩ :: cs =>
    (fun t => ⟨body.location, buildBlock (some .switch) (some t) body⟩) :: buildClauses cs
termination_by structural cs => cs

def buildNodes (k : Option Breakable) (t : Option JumpTargets) : List Node → Steps
  | [] => fun b => return some b
  | n :: rest => andThen n rest (buildNode k t n) (buildNodes k t rest)
termination_by structural ns => ns

end

/-- The graph of a function body. -/
def build (b : Block) (place : Option Location) : FlowGraph × List DeadCode :=
  let start : Build Unit := do
    let first ← newBlock { isReachable := true, location := place }
    let last ← newBlock {}
    join (← buildBlock jump none none b first) last
  let s := (start.run {}).2
  (s.graph, s.unreachable)

end Build

end Nested

/-! ## Flow graphs -/

namespace Build

variable {t : Option JumpTargets}

/-- The body of a loop is only told of targets that a loop has. -/
lemma loop_congr {l place : Location} {infinite : Bool} {body body' : JumpTargets → Steps}
    (h : ∀ after header, body ⟨after, some header⟩ = body' ⟨after, some header⟩) :
    loop l place infinite body = loop l place infinite body' := by
  unfold loop
  simp only [h]

lemma clauses_congr {stmt : Node} {after : BlockId} {cs cs' : List (JumpTargets → Branch)}
    (h : List.Forall₂ (fun c c' => ∀ after, c ⟨after, none⟩ = c' ⟨after, none⟩) cs cs') :
    clauses stmt after cs = clauses stmt after cs' := by
  induction h with
  | nil => rfl
  | cons hc _ ih =>
    funext b
    simp only [clauses, hc, ih]

lemma switch_congr {stmt : Node} {l : Location} {hasDefault : Bool}
    {cs cs' : List (JumpTargets → Branch)}
    (h : List.Forall₂ (fun c c' => ∀ after, c ⟨after, none⟩ = c' ⟨after, none⟩) cs cs') :
    switch stmt l hasDefault cs = switch stmt l hasDefault cs' := by
  unfold switch
  simp only [clauses_congr h]

lemma breakStmt_eq (place : Location) :
    breakStmt t place = Jump.build (JumpTargets.kind? t) t .break place := by
  obtain _ | ⟨after, _ | header⟩ := t <;> rfl

lemma continueStmt_eq (place : Location) :
    continueStmt t place = Jump.build (JumpTargets.kind? t) t .continue place := by
  obtain _ | ⟨after, _ | header⟩ := t <;> rfl

end Build

namespace Nested

open Build

mutual

theorem node_eq_buildNode : (n : Node) → (t : Option JumpTargets) →
    Build.node t n = buildNode Jump.build (JumpTargets.kind? t) t n
  | .breakStmt place, _ => breakStmt_eq place
  | .continueStmt place, _ => continueStmt_eq place
  | .ifStmt l cond body otherwise, t => by
    simp only [Build.node, buildNode, block_eq_buildBlock body t, node_eq_buildNode otherwise t]
  | .whileLoop _ _ body, _ => loop_congr fun after header =>
    block_eq_buildBlock body (some ⟨after, some header⟩)
  | .forLoop _ _ _ _ body, _ => loop_congr fun after header =>
    block_eq_buildBlock body (some ⟨after, some header⟩)
  | .forOf _ _ _ body, _ => loop_congr fun after header =>
    block_eq_buildBlock body (some ⟨after, some header⟩)
  | .switch _ _ cases, _ => switch_congr (clauses_eq_buildClauses cases)
  | .tryStmt l body param handler final, t => by
    simp only [Build.node, buildNode, block_eq_buildBlock body t, block?_eq_buildBlock? handler t,
      block?_eq_buildBlock? final t]
  | .block body, t => block_eq_buildBlock body t
  | .ret .., _ | .throwStmt .., _ | .empty, _ | .varDecl .., _ | .exprStmt .., _
  | .function .., _ | .classDecl .., _ | .interfaceDecl .., _ | .enumDecl .., _
  | .aliasDecl .., _ | .field .., _ | .method .., _ | .expr .., _ | .typeNode .., _ => rfl
termination_by structural n => n

theorem block_eq_buildBlock : (b : Block) → (t : Option JumpTargets) →
    Build.block t b = buildBlock Jump.build (JumpTargets.kind? t) t b
  | ⟨ns, _⟩, t => nodes_eq_buildNodes ns t
termination_by structural b => b

theorem block?_eq_buildBlock? : (b : Option Block) → (t : Option JumpTargets) →
    Build.block? t b = buildBlock? Jump.build (JumpTargets.kind? t) t b
  | none, _ => rfl
  | some b, t => by simp only [Build.block?, buildBlock?, block_eq_buildBlock b t]
termination_by structural b => b

theorem clauses_eq_buildClauses : (cs : List SwitchClause) →
    List.Forall₂ (fun c c' => ∀ after, c ⟨after, none⟩ = c' ⟨after, none⟩)
      (clauseBranches cs) (buildClauses Jump.build cs)
  | [] => .nil
  | ⟨_, body⟩ :: cs => .cons
    (fun after => congrArg _ (block_eq_buildBlock body (some ⟨after, none⟩)))
    (clauses_eq_buildClauses cs)
termination_by structural cs => cs

theorem nodes_eq_buildNodes : (ns : List Node) → (t : Option JumpTargets) →
    Build.nodes t ns = buildNodes Jump.build (JumpTargets.kind? t) t ns
  | [], _ => rfl
  | n :: rest, t => congrArg₂ _ (node_eq_buildNode n t) (nodes_eq_buildNodes rest t)
termination_by structural ns => ns

end

end Nested

/-! ## Checks -/

lemma Session.Kept.innermostBreakable? {s t : Session} (h : s.Kept t) :
    t.innermostBreakable? = s.innermostBreakable? :=
  congrArg List.head? h.breakables.toList_eq

namespace Check

open Session

variable {α β : Type} {k : Option Breakable} {c c' : Check α} {f f' : α → Check β}

/-- The first check comes back to where it started, and inside `k` the second one does the
same. -/
structure SameIn (k : Option Breakable) (c c' : Check α) : Prop where
  keeps : c.Keeps Kept.contract
  agree : ∀ s, s.innermostBreakable? = k → c.AgreeAt s c'

namespace SameIn

lemma of_yields {P : α → Prop} (hc : c.Yields Kept.contract P) : SameIn k c c where
  keeps := hc.mono fun _ _ => trivial
  agree _ _ := rfl

lemma pure (a : α) : SameIn k (Pure.pure a) (Pure.pure a) := .of_yields (Kept.stepLaws.pure a)

lemma bind (hc : SameIn k c c') (hf : ∀ a, SameIn k (f a) (f' a)) :
    SameIn k (c >>= f) (c' >>= f') where
  keeps := Kept.stepLaws.bind hc.keeps fun a _ => (hf a).keeps
  agree s hs := (hc.agree s hs).bind fun a t hrun =>
    (hf a).agree t (((hc.keeps s).rel trivial hrun).innermostBreakable?.trans hs)

/-- After the same beginning. -/
lemma after {P : α → Prop} (hc : c.Yields Kept.contract P) (hf : ∀ a, SameIn k (f a) (f' a)) :
    SameIn k (c >>= f) (c >>= f') :=
  .bind (.of_yields hc) hf

lemma during {k' : Option Breakable} {enter : Session → Session × Undo} (he : Session.Entry enter)
    (hk : ∀ s, s.innermostBreakable? = k → (enter s).1.innermostBreakable? = k')
    (hc : SameIn k' c c') : SameIn k (Check.during enter c) (Check.during enter c') where
  keeps := Kept.stepLaws.during (he.opens id) hc.keeps
  agree s hs := .during (hc.agree _ (hk s hs))

lemma inScope {body body' : Check Unit} (n : Narrowings) (hbody : SameIn k body body') :
    SameIn k (Rule.inScope n body) (Rule.inScope n body') :=
  .during (.narrowings n) (fun _ => id) (.during .scope (fun _ => id) hbody)

lemma inBreakable (b : Breakable) (hc : SameIn (some b) c c') :
    SameIn k (Check.during (fun s => s.enterBreakable b) c)
      (Check.during (fun s => s.enterBreakable b) c') :=
  .during (.breakable b) (fun s _ => by
    simp [enterBreakable, Session.innermostBreakable?]) hc

lemma reporting {c c' : Check Unit} (hc : SameIn k c c') :
    SameIn k (Check.reporting c) (Check.reporting c') where
  keeps := Kept.stepLaws.reporting hc.keeps
  agree s hs := (hc.agree s hs).reporting

/-! ### The rules of statements -/

section Rules

variable {cond x : Part} {b b' init init' : Check Unit}

/-- What follows `else` is the same inside `k`. -/
inductive Else (k : Option Breakable) : Rule.ElseCheck → Rule.ElseCheck → Prop
  | none : Else k .none .none
  | block {c c' : Check Unit} : SameIn k c c' → Else k (.block c) (.block c')
  | node {c c' : Check Unit} : SameIn k c c' → Else k (.node c) (.node c')

lemma ifStmt {o o' : Rule.ElseCheck} (hcond : cond.Keeps Kept.contract) (hb : SameIn k b b')
    (ho : Else k o o') : SameIn k (Rule.ifStmt cond b o) (Rule.ifStmt cond b' o') := by
  refine .after (Kept.stepLaws.condition hcond) fun outcomes =>
    .bind (hb.inScope outcomes.holds) fun _ => ?_
  cases ho with
  | none => exact .pure ()
  | block hc => exact hc.inScope outcomes.fails
  | node hc => exact .during (.narrowings outcomes.fails) (fun _ => id) hc

lemma loopBody (n : Narrowings) (hb : SameIn (some .loop) b b') :
    SameIn k (Rule.loopBody n b) (Rule.loopBody n b') :=
  .inBreakable .loop (hb.inScope n)

lemma whileLoop (hcond : cond.Keeps Kept.contract) (hb : SameIn (some .loop) b b') :
    SameIn k (Rule.whileLoop cond b) (Rule.whileLoop cond b') :=
  .after (Kept.stepLaws.condition hcond) fun outcomes => hb.loopBody outcomes.holds

lemma forLoop {cond post : Option Part} (hinit : SameIn k init init')
    (hcond : ∀ c, cond = some c → c.Keeps Kept.contract)
    (hpost : ∀ x, post = some x → x.Keeps Kept.contract) (hb : SameIn (some .loop) b b') :
    SameIn k (Rule.forLoop init cond post b) (Rule.forLoop init' cond post b') := by
  refine .during .scope (fun _ => id) (.bind hinit fun _ => ?_)
  cases cond
  case' none => refine .after (Kept.stepLaws.pure []) fun n => ?_
  case' some c =>
    refine .after (P := fun _ => True)
      (Kept.stepLaws.map (Kept.stepLaws.condition (hcond c rfl))) fun n => ?_
  all_goals
    refine .inBreakable .loop (.bind (hb.inScope n) fun _ => ?_)
    cases post with
    | none => exact .pure ()
    | some x =>
      exact .of_yields (P := fun _ => True) (Kept.stepLaws.map (hpost x rfl).unhinted)

lemma forOf (var : Ident) (hx : x.Keeps Kept.contract) (hb : SameIn (some .loop) b b') :
    SameIn k (Rule.forOf var x b) (Rule.forOf var x b') := by
  refine .after hx.unhinted fun t => ?_
  cases Typing.iteration? t with
  | none => exact .of_yields (P := fun _ => True) (Kept.stepLaws.invalidOperation _ _)
  | some element =>
    exact .during .scope (fun _ => id) (.after (Kept.stepLaws.declare _ _ _ _ False.elim) fun _ =>
      hb.loopBody [])

/-- Clauses of a switch with the same values. -/
structure Clause (c c' : ClauseCheck) : Prop where
  values : c.values = c'.values
  keeps : ∀ x ∈ c.values, x.Keeps Kept.contract
  body : SameIn (some .switch) c.body c'.body

lemma clauses (t : Ty) {cs cs' : List ClauseCheck} (hcs : List.Forall₂ Clause cs cs') :
    SameIn (some .switch) (Rule.clauses t cs) (Rule.clauses t cs') := by
  induction hcs with
  | nil => exact .pure ()
  | cons hc _ ih =>
    simp only [Rule.clauses, ← hc.values]
    exact .after (Kept.stepLaws.caseValues False.elim _ hc.keeps) fun _ =>
      .bind (hc.body.inScope []) fun _ => ih

lemma switch {cs cs' : List ClauseCheck} (hx : x.Keeps Kept.contract)
    (hcs : List.Forall₂ Clause cs cs') : SameIn k (Rule.switch x cs) (Rule.switch x cs') :=
  .after hx.unhinted fun t => .inBreakable .switch (.clauses t hcs)

lemma handler (param : Option Ident) (hb : SameIn k b b') :
    SameIn k (Rule.handler param b) (Rule.handler param b') := by
  refine .during .scope (fun _ => id) ?_
  cases param with
  | none => exact hb.inScope []
  | some p => exact .after (Kept.stepLaws.declare _ _ _ _ False.elim) fun _ => hb.inScope []

lemma tryStmt (param : Option Ident) {caught caught' final final' : Option (Check Unit)}
    (hb : SameIn k b b') (hcaught : Option.Rel (SameIn k) caught caught')
    (hfinal : Option.Rel (SameIn k) final final') :
    SameIn k (Rule.tryStmt b param caught final) (Rule.tryStmt b' param caught' final') := by
  refine .bind (hb.inScope []) fun _ => ?_
  cases hcaught
  case' some hc => refine .bind (hc.handler param) fun _ => ?_
  all_goals
    cases hfinal with
    | none => exact .pure ()
    | some hc => exact hc.inScope []

end Rules

lemma breakStmt (place : Location) :
    SameIn k (Rule.breakStmt place) (Jump.check k .break place) where
  keeps := Kept.stepLaws.breakStmt place
  agree s hs := by
    unfold AgreeAt Rule.breakStmt
    rw [run_bind, run_get]
    dsimp only
    rw [hs]
    obtain _ | ⟨_ | _⟩ := k <;> rfl

lemma continueStmt (place : Location) :
    SameIn k (Rule.continueStmt place) (Jump.check k .continue place) where
  keeps := Kept.stepLaws.continueStmt place
  agree s hs := by
    unfold AgreeAt Rule.continueStmt
    rw [run_bind, run_get]
    dsimp only
    rw [hs]
    obtain _ | ⟨_ | _⟩ := k <;> rfl

end SameIn

end Check

namespace Nested

open Check Session

variable {d : Demand}

mutual

theorem sameIn_node (hd : d.Keeps Kept.contract) : (n : Node) → (k : Option Breakable) →
    SameIn k (Walk.node d n) (checkNode d Jump.check k n)
  | .breakStmt place, _ => .breakStmt place
  | .continueStmt place, _ => .continueStmt place
  | .block b, k => .during .scope (fun _ => id) (sameIn_block hd b k)
  | .ifStmt _ c b .empty, k =>
    .ifStmt (Kept.stepLaws.walkPart hd c) (sameIn_block hd b k) .none
  | .ifStmt _ c b (.block n), k =>
    .ifStmt (Kept.stepLaws.walkPart hd c) (sameIn_block hd b k) (.block (sameIn_block hd n k))
  | .ifStmt _ c b (.varDecl ..), k | .ifStmt _ c b (.exprStmt ..), k | .ifStmt _ c b (.ret ..), k
  | .ifStmt _ c b (.ifStmt ..), k | .ifStmt _ c b (.whileLoop ..), k
  | .ifStmt _ c b (.forLoop ..), k | .ifStmt _ c b (.forOf ..), k | .ifStmt _ c b (.switch ..), k
  | .ifStmt _ c b (.breakStmt ..), k | .ifStmt _ c b (.continueStmt ..), k
  | .ifStmt _ c b (.throwStmt ..), k | .ifStmt _ c b (.tryStmt ..), k
  | .ifStmt _ c b (.function ..), k | .ifStmt _ c b (.classDecl ..), k
  | .ifStmt _ c b (.interfaceDecl ..), k | .ifStmt _ c b (.enumDecl ..), k
  | .ifStmt _ c b (.aliasDecl ..), k | .ifStmt _ c b (.field ..), k | .ifStmt _ c b (.method ..), k
  | .ifStmt _ c b (.expr ..), k | .ifStmt _ c b (.typeNode ..), k =>
    .ifStmt (Kept.stepLaws.walkPart hd c) (sameIn_block hd b k) (.node (sameIn_node hd _ k))
  | .whileLoop _ c b, _ =>
    .whileLoop (Kept.stepLaws.walkPart hd c) (sameIn_block hd b (some .loop))
  | .forLoop _ init c post b, k =>
    .forLoop (sameIn_node hd init k) (Kept.stepLaws.walkPart? hd c)
      (Kept.stepLaws.walkPart? hd post) (sameIn_block hd b (some .loop))
  | .forOf _ var x b, _ =>
    .forOf var (Kept.stepLaws.walkPart hd x) (sameIn_block hd b (some .loop))
  | .switch _ x cs, _ => .switch (Kept.stepLaws.walkPart hd x) (sameIn_clauses hd cs)
  | .tryStmt _ b param handler final, k =>
    .tryStmt param (sameIn_block hd b k) (sameIn_block? hd handler k) (sameIn_block? hd final k)
  | .empty, _ | .varDecl .., _ | .exprStmt .., _ | .ret .., _ | .throwStmt .., _
  | .function .., _ | .classDecl .., _ | .interfaceDecl .., _ | .enumDecl .., _
  | .aliasDecl .., _ | .field .., _ | .method .., _ | .expr .., _ | .typeNode .., _ =>
    .of_yields (Kept.stepLaws.walkNode hd _)
termination_by structural n => n

theorem sameIn_block (hd : d.Keeps Kept.contract) : (b : Block) → (k : Option Breakable) →
    SameIn k (Walk.block d b) (checkBlock d Jump.check k b)
  | ⟨ns, _⟩, k => .after (Kept.stepLaws.declareAll ns) fun _ => sameIn_nodes hd ns k
termination_by structural b => b

theorem sameIn_block? (hd : d.Keeps Kept.contract) :
    (b : Option Block) → (k : Option Breakable) →
    Option.Rel (SameIn k) (Walk.block? d b) (checkBlock? d Jump.check k b)
  | none, _ => .none
  | some b, k => .some (sameIn_block hd b k)
termination_by structural b => b

theorem sameIn_clauses (hd : d.Keeps Kept.contract) : (cs : List SwitchClause) →
    List.Forall₂ SameIn.Clause (Walk.clauses d cs) (checkClauses d Jump.check cs)
  | [] => .nil
  | ⟨values, b⟩ :: cs => .cons
    ⟨rfl, Kept.stepLaws.walkParts hd values, sameIn_block hd b (some .switch)⟩
    (sameIn_clauses hd cs)
termination_by structural cs => cs

theorem sameIn_nodes (hd : d.Keeps Kept.contract) : (ns : List Node) → (k : Option Breakable) →
    SameIn k (Walk.nodes d ns) (checkNodes d Jump.check k ns)
  | [], _ => .pure ()
  | n :: ns, k => .bind (sameIn_node hd n k).reporting fun _ => sameIn_nodes hd ns k
termination_by structural ns => ns

end

/-- Loops around a function do not count in its body. -/
lemma functionBody_eq (hd : d.Keeps Kept.contract) (f : FunctionSpec) (b : Block) (s : Session) :
    Rule.functionBody f (Walk.body d (.block b)) s =
      Rule.functionBody f (.block b (checkBlock d Jump.check none b)) s := by
  have hbody (declared : Hint) (t : Session) : AgreeAt t
      (during (fun s => s.enterFunction ⟨f.name, declared, [], f.isAsync, f.isStatic⟩) do
        Rule.checkBody f declared (Walk.body d (.block b))
        Rule.result f declared)
      (during (fun s => s.enterFunction ⟨f.name, declared, [], f.isAsync, f.isStatic⟩) do
        Rule.checkBody f declared (.block b (checkBlock d Jump.check none b))
        Rule.result f declared) :=
    .during (.bind (.bind ((sameIn_block hd b none).agree _ rfl) fun _ _ _ => rfl) fun _ _ _ => rfl)
  refine AgreeAt.during (.after fun _ _ _ => .after fun _ _ _ => .ite ?_ ?_)
  · exact .after fun declared t _ => hbody declared t
  · exact .after fun declared t _ => hbody declared t

end Nested

/-! ## Agreement -/

lemma Diagnostic.code_withPrimary (d : Diagnostic) (file : String) (place : Option Location)
    (label : String) : (d.withPrimary file place label).code = d.code := by
  unfold withPrimary inFile
  dsimp only
  split
  · rfl
  · split <;> rfl

lemma Check.run_misplaced {α : Type} (code : String) (place : Location) (message help : String)
    (s : Session) : ∃ d : Diagnostic, d.code = code ∧
      (Check.misplaced code place message help : Check α) s = (.error (.diagnostic d), s) :=
  ⟨_, Diagnostic.code_withPrimary _ _ _ _, rfl⟩

namespace Jump

variable {k : Option Breakable} {j : Jump} {place : Location}

/-- A stray jump is refused with the code of its kind. -/
lemma check_of_isStray (hj : j.isStray k = true) (place : Location) (s : Session) :
    ∃ d : Diagnostic, d.code = j.code ∧ j.check k place s = (.error (.diagnostic d), s) := by
  have hcheck : j.check k place = j.refuse k place := if_pos hj
  rw [hcheck]
  cases j with
  | «break» => exact Check.run_misplaced _ _ _ _ s
  | «continue» => cases k <;> exact Check.run_misplaced _ _ _ _ s

lemma check_of_not_isStray (hj : ¬ j.isStray k = true) (s : Session) :
    j.check k place s = (.ok (), s) := by
  have hcheck : j.check k place = pure () := if_neg hj
  rw [hcheck]
  rfl

lemma refused_iff (s : Session) : (∃ d : Diagnostic, d.code = j.code ∧
    j.check k place s = (.error (.diagnostic d), s)) ↔ j.isStray k = true := by
  by_cases hj : j.isStray k = true
  · exact iff_of_true (check_of_isStray hj place s) hj
  · refine iff_of_false ?_ hj
    rintro ⟨d, -, hd⟩
    rw [check_of_not_isStray hj] at hd
    cases hd

lemma accepted_iff (s : Session) : j.check k place s = (.ok (), s) ↔ j.isStray k = false := by
  by_cases hj : j.isStray k = true
  · obtain ⟨d, -, hd⟩ := check_of_isStray hj place s
    rw [hd, hj]
    refine iff_of_false (fun hrun => ?_) (by decide)
    cases congrArg Prod.fst hrun
  · exact iff_of_true (check_of_not_isStray hj s) (Bool.eq_false_iff.2 hj)

/-- The flow passes over a stray jump and does not go on behind any other. -/
lemma passed_iff (t : Option JumpTargets) (b : BlockId) (σ : FlowBuilder) :
    (j.build k t place b).run σ = (some b, σ) ↔ j.isStray k = true := by
  by_cases hj : j.isStray k = true
  · have hbuild : j.build k t place b = pure (some b) := if_pos hj
    rw [hbuild]
    exact iff_of_true rfl hj
  · have hbuild : j.build k t place b = Build.jump b (j.node place) j.terminator (j.target t) :=
      if_neg hj
    rw [hbuild]
    refine iff_of_false (fun hrun => ?_) hj
    cases congrArg Prod.fst hrun

end Jump

/-- Both the check of a function body and its flow graph decide each break and continue by the
innermost loop or switch around it in the body. The check refuses just the jumps that are stray
by that, and they are those that leave the flow as it is. -/
theorem jumps_bind_by_nesting (limit : Nat) (b : Block) :
    (∀ (f : FunctionSpec) (s : Session),
      Rule.functionBody f (Walk.body (Walk.demand limit) (.block b)) s =
        Rule.functionBody f
          (.block b (Nested.checkBlock (Walk.demand limit) Jump.check none b)) s) ∧
    (∀ place : Option Location,
      FlowGraph.build (some b) place = Nested.build Jump.build b place) ∧
    ∀ (k : Option Breakable) (j : Jump) (place : Location),
      (∀ s : Session, (∃ d : Diagnostic, d.code = j.code ∧
        j.check k place s = (.error (.diagnostic d), s)) ↔ j.isStray k = true) ∧
      (∀ s : Session, j.check k place s = (.ok (), s) ↔ j.isStray k = false) ∧
      ∀ (t : Option JumpTargets) (c : BlockId) (σ : FlowBuilder),
        (j.build k t place c).run σ = (some c, σ) ↔ j.isStray k = true := by
  refine ⟨fun f s => ?_, fun place => ?_, fun k j place => ?_⟩
  · exact Nested.functionBody_eq (Session.Kept.stepLaws.demand limit) f b s
  · unfold FlowGraph.build Nested.build
    simp only [Nested.block_eq_buildBlock b none, JumpTargets.kind?]
  · exact ⟨Jump.refused_iff, Jump.accepted_iff, Jump.passed_iff⟩

end TypedScript
