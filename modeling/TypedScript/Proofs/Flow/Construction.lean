import TypedScript.Proofs.Flow.Completion
import TypedScript.Proofs.Flow.Growth

/-!
# Building statements into a flow graph

What the building of a statement does to the graph: control that comes to the statement goes on
behind it exactly if the statement can end normally, and comes to the target of a break exactly
if the statement can end with one. Each rule for a construct has a lemma that says so from the
same facts about the parts.
-/
namespace TypedScript

variable {g h k : FlowGraph} {b c m x y : Nat} {t u : Option JumpTargets} {p q : Prop}
  {last other : Option Nat} {r : Prop} {ends ends' : Ending → Prop} {α β : Type}

/-! ## Steps on the graph -/

namespace Build

/-- From a builder with the graph `g` the steps come to a result and a graph that are
related by `Q`. -/
def Ensures (steps : Build α) (g : FlowGraph) (Q : α → FlowGraph → Prop) : Prop :=
  ∀ s : FlowBuilder, s.graph = g → Q (steps.run s).1 (steps.run s).2.graph

namespace Ensures

variable {P Q : α → FlowGraph → Prop} {R : β → FlowGraph → Prop}

lemma pure {a : α} (ha : Q a g) : Ensures (Pure.pure a) g Q := by
  rintro s rfl
  exact ha

lemma bind {steps : Build α} {rest : α → Build β} (hsteps : steps.Ensures g Q)
    (hrest : ∀ a h, Q a h → (rest a).Ensures h R) : (steps >>= rest).Ensures g R :=
  fun s hs => hrest _ _ (hsteps s hs) _ rfl

lemma mono {steps : Build α} (hsteps : steps.Ensures g P) (himp : ∀ a h, P a h → Q a h) :
    steps.Ensures g Q :=
  fun s hs => himp _ _ (hsteps s hs)

lemma newBlock {blk : FlowBlock} {rest : BlockId → Build β}
    (hrest : (rest (g.size + 1)).Ensures (g.withBlock blk) R) :
    (newBlock blk >>= rest).Ensures g R := by
  refine bind (Q := fun n h => n = g.size + 1 ∧ h = g.withBlock blk) ?_ ?_
  · rintro s rfl
    exact ⟨Array.size_push blk, rfl⟩
  · rintro _ _ ⟨rfl, rfl⟩
    exact hrest

lemma addEdge {rest : Unit → Build β} (hrest : (rest ()).Ensures (g.withEdge x c) R) :
    (addEdge x c >>= rest).Ensures g R := by
  refine bind (Q := fun _ h => h = g.withEdge x c) ?_ ?_
  · rintro s rfl
    rfl
  · rintro _ _ rfl
    exact hrest

lemma change {f : FlowBlock → FlowBlock} {rest : Unit → Build β}
    (hrest : (rest ()).Ensures (g.change b f) R) : (change b f >>= rest).Ensures g R := by
  refine bind (Q := fun _ h => h = g.change b f) ?_ ?_
  · rintro s rfl
    rfl
  · rintro _ _ rfl
    exact hrest

lemma isReachable {rest : Bool → Build β}
    (hrest : (rest (g.block b).isReachable).Ensures g R) :
    (isReachable b >>= rest).Ensures g R := by
  rintro s rfl
  exact hrest s rfl

end Ensures

end Build

namespace FlowGraph

/-- The graph with an edge from where control falls out of a branch. -/
def joined (g : FlowGraph) : Option Nat → Nat → FlowGraph
  | some x, m => g.withEdge x m
  | none, _ => g

/-- The graph with a new block and an edge to it. -/
def sprout (g : FlowGraph) (blk : FlowBlock) (x : Nat) : FlowGraph :=
  (g.withBlock blk).withEdge x (g.size + 1)

section Sprout

variable {blk : FlowBlock}

@[simp] lemma size_sprout : (g.sprout blk x).size = g.size + 1 := by
  simp [sprout]

lemma Passed.withBlock (hg : g.Tidy) (hb : g.Passed b) : (g.withBlock blk).Passed b := by
  have hgrown : Progress none (g.size + 1) g (g.withBlock blk) False := progress_withBlock hg blk
  exact hgrown.passed hb (Nat.ne_of_lt (Nat.lt_succ_of_le hb.le))

lemma Passed.withEdge (hb : g.Passed b) : (g.withEdge x c).Passed b := ⟨hb.pos, hb.le, hb.stays⟩

lemma Passed.sprout (hg : g.Tidy) (hb : g.Passed b) : (g.sprout blk x).Passed b :=
  (hb.withBlock hg).withEdge

/-- Control comes to the new block from where the edge starts. -/
lemma pending_sprout (hg : g.Tidy) (hblk : blk.returns = false) (hx : g.Passed x) :
    (g.sprout blk x).Pending (g.size + 1) (g.Reached x) := by
  have hne : g.size + 1 ≠ x := Nat.ne_of_gt (Nat.lt_succ_of_le hx.le)
  refine ((pending_withBlock hg blk hblk).withEdge (hx.withBlock hg) hne).congr ?_
  rw [reached_withBlock hg, false_or]

lemma progress_sprout (hg : g.Tidy) (hblk : blk.returns = false) (hx : g.Passed x) :
    Progress t x g (g.sprout blk x) False := by
  have hne : g.size + 1 ≠ x := Nat.ne_of_gt (Nat.lt_succ_of_le hx.le)
  exact (progress_withBlock hg blk).withEdge (hx.withBlock hg) (.inl rfl) hx.le
    (pending_withBlock hg blk hblk) (Nat.lt_succ_self _) hne

end Sprout

end FlowGraph

lemma Build.Ensures.sprout {blk : FlowBlock} {rest : Nat → Build β} {R : β → FlowGraph → Prop}
    (hrest : (rest (g.size + 1)).Ensures (g.sprout blk b) R) :
    (Build.newBlock blk >>= fun x => Build.addEdge b x >>= fun _ => rest x).Ensures g R :=
  .newBlock (.addEdge hrest)

lemma Build.Ensures.join {rest : Unit → Build β} {R : β → FlowGraph → Prop}
    (hrest : (rest ()).Ensures (g.joined last m) R) : (Build.join last m >>= rest).Ensures g R := by
  cases last with
  | none => exact fun s hs => hrest s hs
  | some x => exact .addEdge hrest

open FlowGraph

/-! ## Built statements -/

/-- Control that comes to `b` in `g` goes on in the block `last` of `h`, if there is one, and it
does so exactly if `p`. -/
structure GoesOn (b : Nat) (g h : FlowGraph) (last : Option Nat) (p : Prop) : Prop where
  isSome : g.Reached b → p → last.isSome = true
  passed : ∀ x, last = some x → h.Passed x
  reached : ∀ x, last = some x → (h.Reached x ↔ g.Reached b ∧ p)

namespace GoesOn

lemma congr (hlast : GoesOn b g h last p) (hpq : p ↔ q) : GoesOn b g h last q := propext hpq ▸ hlast

lemma none (hnot : g.Reached b → ¬ p) : GoesOn b g h .none p where
  isSome hb hp := absurd hp (hnot hb)
  passed _ hx := nomatch hx
  reached _ hx := nomatch hx

lemma not_of_none (hlast : GoesOn b g h .none p) (hb : g.Reached b) : ¬ p :=
  fun hp => by simpa using hlast.isSome hb hp

lemma some (hx : h.Passed x) (hreached : h.Reached x ↔ g.Reached b ∧ p) :
    GoesOn b g h (some x) p where
  isSome _ _ := rfl
  passed _ hy := Option.some.inj hy ▸ hx
  reached _ hy := Option.some.inj hy ▸ hreached

/-- Control comes to `y` from `b` exactly if `r`. -/
lemma after (hlast : GoesOn y h k last p) (hr : h.Reached y ↔ g.Reached b ∧ r) :
    GoesOn b g k last (r ∧ p) where
  isSome hb hp := hlast.isSome (hr.2 ⟨hb, hp.1⟩) hp.2
  passed := hlast.passed
  reached x hx := by rw [hlast.reached x hx, hr, and_assoc]

/-- The graph grows at another block. -/
lemma grown (hlast : GoesOn b g h last p) (hhk : Progress t y h k q)
    (hx : ∀ x, last = Option.some x → x ≠ y ∧ ¬ IsBroken t x) : GoesOn b g k last p where
  isSome := hlast.isSome
  passed x hx' := hhk.passed (hlast.passed x hx') (hx x hx').1
  reached x hx' := by
    rw [hhk.old x (hlast.passed x hx').le, hlast.reached x hx']
    exact or_iff_left fun hbroken => (hx x hx').2 hbroken.2.2

lemma withBlock {blk : FlowBlock} (hh : h.Tidy) (hlast : GoesOn b g h last p) :
    GoesOn b g (h.withBlock blk) last p := by
  have hhk : Progress .none (h.size + 1) h (h.withBlock blk) False := progress_withBlock hh blk
  refine hlast.grown hhk fun x hx => ⟨?_, by simp [IsBroken]⟩
  exact Nat.ne_of_lt (Nat.lt_succ_of_le (hlast.passed x hx).le)

/-- Another branch joins at a block that waits. -/
lemma joined (hlast : GoesOn b g h last p) (hm : h.Pending m q)
    (hother : ∀ x, other = Option.some x → m ≠ x) (hx : ∀ x, last = Option.some x → m ≠ x) :
    GoesOn b g (h.joined other m) last p := by
  cases other with
  | none => exact hlast
  | some y =>
    refine ⟨hlast.isSome, fun x hx' => ?_, fun x hx' => ?_⟩
    · exact (hlast.passed x hx').withEdge
    · rw [FlowGraph.joined, reached_withEdge_of_last hm.isLast (hother y rfl).symm,
        hlast.reached x hx']
      exact or_iff_left fun heq => hx x hx' heq.1.symm

end GoesOn

/-- A statement that can end like `ends` was built from `b` on. Control goes on in the
block `last`, if there is one. -/
structure Built (t : Option JumpTargets) (b : Nat) (g h : FlowGraph) (last : Option Nat)
    (ends : Ending → Prop) : Prop extends Progress t b g h (ends .broken) where
  goesOn : GoesOn b g h last (ends .normal)
  isOpen : ∀ x, last = some x → h.Open x
  place : ∀ x, last = some x → x = b ∨ g.size < x

/-- The steps build a statement that can end like `ends`, whatever was built before. -/
def Builds (t : Option JumpTargets) (steps : Build.Steps) (ends : Ending → Prop) : Prop :=
  ∀ g b, g.Tidy → g.Open b → g.HasTargets t b →
    (steps b).Ensures g fun last h => Built t b g h last ends

lemma Built.congr (hbuilt : Built t b g h last ends) (hends : ∀ e, ends e ↔ ends' e) :
    Built t b g h last ends' := by
  obtain rfl : ends = ends' := funext fun e => propext (hends e)
  exact hbuilt

lemma Builds.congr {steps : Build.Steps} (hsteps : Builds t steps ends)
    (hends : ∀ e, ends e ↔ ends' e) : Builds t steps ends' :=
  fun g b hg hb ht => (hsteps g b hg hb ht).mono fun _ _ hbuilt => hbuilt.congr hends

/-- Control goes on in the block that it was in. -/
lemma FlowGraph.Progress.built (hgh : Progress t b g h (ends .broken)) (hb : h.Open b)
    (hreached : h.Reached b ↔ g.Reached b) (hnormal : ends .normal) :
    Built t b g h (some b) ends where
  toProgress := hgh
  goesOn := .some hb.toPassed (by rw [hreached, and_iff_left hnormal])
  isOpen _ hx := Option.some.inj hx ▸ hb
  place _ hx := .inl (Option.some.inj hx).symm

/-- Control does not go on. -/
lemma FlowGraph.Progress.ended (hgh : Progress t b g h (ends .broken))
    (hnormal : g.Reached b → ¬ ends .normal) : Built t b g h none ends where
  toProgress := hgh
  goesOn := .none hnormal
  isOpen _ hx := nomatch hx
  place _ hx := nomatch hx

/-- The branches of a statement have joined, and control goes on in the block where they
did if an edge goes there. -/
lemma FlowGraph.Progress.entered (hgh : Progress t b g h (ends .broken)) (hb : b ≤ g.size)
    (ht : g.HasTargets t b) (hm : h.Pending m (g.Reached b ∧ ends .normal)) (hnew : g.size < m) :
    (Build.entered m).Ensures h fun last k => Built t b g k last ends := by
  have hchange : ∀ (reachable : Bool) (blk : FlowBlock),
      { blk with isReachable := reachable }.returns = blk.returns := fun _ _ => rfl
  rintro s rfl
  have hgrown : Progress t b g (s.graph.change m fun blk =>
      { blk with isReachable := s.graph.isEntered m }) (ends .broken) :=
    (hgh.andThen (progress_change hgh.tidy (hchange _)) ht hb).congr fun _ => iff_of_eq (or_false _)
  have hresult : (Build.entered m).run s =
      (if s.graph.isEntered m = true then some m else none,
        { s with graph := s.graph.change m fun blk =>
          { blk with isReachable := s.graph.isEntered m } }) := rfl
  rw [hresult]
  by_cases hentered : s.graph.isEntered m = true
  · rw [if_pos hentered]
    have hopen := hm.isOpen.change (b := m) (hchange (s.graph.isEntered m))
    exact
      { toProgress := hgrown
        goesOn := .some hopen.toPassed (by rw [reached_change (hchange _), hm.reached])
        isOpen := fun _ hx => Option.some.inj hx ▸ hopen
        place := fun _ hx => .inr (Option.some.inj hx ▸ hnew) }
  · rw [if_neg hentered]
    exact hgrown.ended fun hb hnormal => hentered (hm.isEntered ⟨hb, hnormal⟩)

/-! ## Simple statements -/

/-- A statement that leaves no trace in the graph. -/
lemma builds_nothing : Builds t (fun b => return some b) (· = .normal) := by
  intro g b hg hb _
  exact .pure (((Progress.refl hg).congr (by simp)).built hb .rfl rfl)

/-- A change of the block that control is in, which keeps control there. -/
lemma ensures_change {f : FlowBlock → FlowBlock} {rest : Unit → Build α}
    {Q : α → FlowGraph → Prop} (hg : g.Tidy) (hb : g.Open b) (ht : g.HasTargets t b)
    (hf : ∀ blk, (f blk).returns = blk.returns)
    (hrest : ∀ h, Progress t b g h False → h.Open b → h.HasTargets t b →
      (h.Reached b ↔ g.Reached b) → (rest ()).Ensures h Q) :
    (Build.change b f >>= rest).Ensures g Q := by
  have hgh : Progress t b g (g.change b f) False := progress_change hg hf
  exact .change (hrest _ hgh (hb.change hf) (hgh.hasTargets ht hb.le (.inl rfl))
    (reached_change hf))

lemma builds_append (n : Node) :
    Builds t (fun b => do Build.append b n; return some b) (· = .normal) := by
  intro g b hg hb ht
  refine ensures_change hg hb ht (fun _ => rfl) fun h hgh hopen _ hreached => .pure ?_
  exact (hgh.congr (by simp)).built hopen hreached rfl

/-- A statement that leaves the function. -/
lemma builds_leave (n : Node) (terminator : Terminator) :
    Builds t (fun b => Build.leave b n terminator) (fun _ => False) := by
  intro g b hg hb _
  refine .change (.addEdge (.pure ?_))
  exact (progress_leave hg hb fun _ => rfl).ended fun _ => id

lemma builds_jump {j : JumpTargets} (n : Node) (terminator : Terminator)
    (hjump : ∀ g b, g.Tidy → g.Passed b → g.Lands b j →
      Progress (some j) b g (g.withEdge b c) p) :
    Builds (some j) (fun b => Build.jump b n terminator c) (fun e => e = .broken ∧ p) := by
  intro g b hg hb ht
  refine ensures_change hg hb ht (fun _ => rfl) fun h hgh hopen htargets _ => .addEdge (.pure ?_)
  have hhk := hjump h b hgh.tidy hopen.toPassed (htargets j rfl)
  exact ((hgh.andThen hhk ht hb.le).congr (by simp)).ended (by simp)

lemma builds_break {j : JumpTargets} (n : Node) (terminator : Terminator) :
    Builds (some j) (fun b => Build.jump b n terminator j.onBreak) (· = .broken) :=
  (builds_jump n terminator fun _ _ hg hb hj => progress_break hg hb hj).congr (by simp)

lemma builds_continue {j : JumpTargets} (hc : j.onContinue = some c) (n : Node)
    (terminator : Terminator) :
    Builds (some j) (fun b => Build.jump b n terminator c) (fun _ => False) :=
  (builds_jump n terminator fun _ _ hg hb hj => progress_continue hg hb hj hc).congr (by simp)

/-! ## Branches -/

/-- Control that comes to `b` in `g` falls out of a branch in the block `last` of `h`, which was
made for the branch. -/
structure FallsOut (b : Nat) (g h : FlowGraph) (last : Option Nat) (p : Prop) : Prop
    extends GoesOn b g h last p where
  isNew : ∀ x, last = some x → g.size < x

namespace FallsOut

lemma ne_next (hlast : FallsOut b g h last p) : ∀ x, last = some x → h.size + 1 ≠ x :=
  fun x hx => Nat.ne_of_gt (Nat.lt_succ_of_le (hlast.passed x hx).le)

lemma withBlock {blk : FlowBlock} (hlast : FallsOut b g h last p) (hh : h.Tidy) :
    FallsOut b g (h.withBlock blk) last p :=
  ⟨hlast.toGoesOn.withBlock hh, hlast.isNew⟩

end FallsOut

/-- A branch was built from `b` in blocks of its own. Control falls out of it in the block
`last`, if it does. -/
structure Branched (t : Option JumpTargets) (b : Nat) (g h : FlowGraph) (last : Option Nat)
    (ends : Ending → Prop) : Prop extends Progress t b g h (ends .broken) where
  passed : h.Passed b
  fallsOut : FallsOut b g h last (ends .normal)

lemma ensures_inBranch {stmt : Node} {kind : BranchKind} {part : Build.Branch} (hg : g.Tidy)
    (hb : g.Passed b) (ht : g.HasTargets t b) (hpart : Builds t part.steps ends) :
    (Build.inBranch b stmt kind part).Ensures g fun last h => Branched t b g h last ends := by
  have hne : g.size + 1 ≠ b := Nat.ne_of_gt (Nat.lt_succ_of_le hb.le)
  have hbranch : (Build.branch b part.place kind stmt).Ensures g fun start h =>
      start = g.size + 1 ∧ Progress t b g h False ∧ h.Passed b ∧
        h.Pending start (g.Reached b) := by
    refine .isReachable (.sprout (.pure ⟨rfl, ?_, ?_, ?_⟩))
    · exact progress_sprout hg rfl hb
    · exact hb.sprout hg
    · exact pending_sprout hg rfl hb
  refine hbranch.bind ?_
  rintro _ h ⟨rfl, hgh, hpassed, hpending⟩
  have hnew : g.size < g.size + 1 := Nat.lt_succ_self _
  have hr : h.Reached (g.size + 1) ↔ g.Reached b ∧ True := by rw [hpending.reached, and_true]
  refine (hpart h _ hgh.tidy hpending.isOpen (hgh.hasTargets ht hb.le (.inr hnew))).mono
    fun last k hbuilt => ?_
  have hsize := hgh.size_le
  exact
    { toProgress := (hgh.trans hbuilt.toProgress ht (.inr hnew) hr).congr (by simp)
      passed := hbuilt.passed hpassed hne.symm
      fallsOut :=
        { toGoesOn := (hbuilt.goesOn.after hr).congr (iff_of_eq (true_and _))
          isNew := fun x hx => by
            have hplace := hbuilt.place x hx
            omega } }

/-- A statement at `b` whose branches are being built: control gets through `b` to them. -/
structure Branching (t : Option JumpTargets) (b : Nat) (g h : FlowGraph) (p : Prop) : Prop
    extends Progress t b g h p where
  passed : h.Passed b
  isOld : b ≤ g.size
  hasTargets : g.HasTargets t b

namespace Branching

lemma targets (hgh : Branching t b g h p) : h.HasTargets t b :=
  hgh.toProgress.hasTargets hgh.hasTargets hgh.isOld (.inl rfl)

lemma trans (hgh : Branching t b g h p) (hhk : Branched t b h k last ends) :
    Branching t b g k (p ∨ ends .broken) where
  toProgress := hgh.toProgress.andThen hhk.toProgress hgh.hasTargets hgh.isOld
  passed := hhk.passed
  isOld := hgh.isOld
  hasTargets := hgh.hasTargets

lemma reached (hgh : Branching t b g h p) : h.Reached b ↔ g.Reached b := by
  rw [hgh.old b hgh.isOld]
  exact or_iff_left fun hbroken => hgh.hasTargets.not_isBroken (.inl rfl) hbroken.2.2

/-- What falls out of a branch falls out of it from the start of the statement. -/
lemma fallsOut (hgh : Branching t b g h p) (hlast : FallsOut b h k last q) :
    FallsOut b g k last q where
  toGoesOn := (hlast.after (r := True) (by rw [hgh.reached, and_true])).congr
    (iff_of_eq (true_and _))
  isNew x hx := Nat.lt_of_le_of_lt hgh.size_le (hlast.isNew x hx)

/-- It waits while another branch is built. -/
lemma waits (hgh : Branching t b g h p) (hlast : FallsOut b g h last q)
    (hhk : Branched t b h k other ends) : FallsOut b g k last q where
  toGoesOn := hlast.grown hhk.toProgress fun x hx =>
    ⟨Nat.ne_of_gt (Nat.lt_of_le_of_lt hgh.isOld (hlast.isNew x hx)),
      hgh.hasTargets.not_isBroken (.inr (hlast.isNew x hx))⟩
  isNew := hlast.isNew

end Branching

/-- A statement with branches starts with a choice in the block that control is in. -/
lemma ensures_choose {n : Node} {rest : Unit → Build α} {Q : α → FlowGraph → Prop}
    (hg : g.Tidy) (hb : g.Open b) (ht : g.HasTargets t b)
    (hrest : ∀ h, Branching t b g h False → (rest ()).Ensures h Q) :
    (Build.choose b n >>= rest).Ensures g Q := by
  refine ensures_change hg hb ht (fun _ => rfl) fun h hgh hopen _ _ => ?_
  exact hrest h ⟨hgh, hopen.toPassed, hb.le, ht⟩

lemma Branching.ensures_inBranch {stmt : Node} {kind : BranchKind} {part : Build.Branch}
    (hgh : Branching t b g h p) (hpart : Builds t part.steps ends) :
    (Build.inBranch b stmt kind part).Ensures h fun last k => Branched t b h k last ends :=
  TypedScript.ensures_inBranch hgh.tidy hgh.passed hgh.targets hpart

/-! ### Where branches join -/

/-- The branches join at the block `m`, which control comes to if `q`. -/
structure Joining (t : Option JumpTargets) (b : Nat) (g h : FlowGraph) (p : Prop) (m : Nat)
    (q : Prop) : Prop extends Branching t b g h p where
  isNew : g.size < m
  pending : h.Pending m (g.Reached b ∧ q)

/-- A block where branches join, made before or after they are. -/
lemma Branching.joining (hgh : Branching t b g h p) (blk : FlowBlock) (hblk : blk.returns = false) :
    Joining t b g (h.withBlock blk) p (h.size + 1) False := by
  have hne : b ≠ h.size + 1 := Nat.ne_of_lt (Nat.lt_succ_of_le hgh.passed.le)
  have hhk (y : Nat) : Progress t y h (h.withBlock blk) False := progress_withBlock hgh.tidy blk
  exact
    { toProgress := (hgh.andThen (hhk b) hgh.hasTargets hgh.isOld).congr (by simp)
      passed := (hhk (h.size + 1)).passed hgh.passed hne
      isOld := hgh.isOld
      hasTargets := hgh.hasTargets
      isNew := Nat.lt_succ_of_le hgh.size_le
      pending := (pending_withBlock hgh.tidy blk hblk).congr (by simp) }

namespace Joining

lemma ne (hgh : Joining t b g h p m q) : m ≠ b :=
  Nat.ne_of_gt (Nat.lt_of_le_of_lt hgh.isOld hgh.isNew)

lemma ne_of_branched (hgh : Joining t b g h p m q) (hhk : Branched u b h k last ends) :
    ∀ x, last = some x → m ≠ x :=
  fun x hx => Nat.ne_of_lt (Nat.lt_of_le_of_lt hgh.pending.le (hhk.fallsOut.isNew x hx))

/-- Control falls out of a branch to where the branches join. -/
lemma joined (hgh : Joining t b g h p m q) (hlast : FallsOut b g h last r)
    (hne : ∀ x, last = some x → m ≠ x) : Joining t b g (h.joined last m) p m (q ∨ r) := by
  cases last with
  | none =>
    have hnot := hlast.not_of_none
    exact { hgh with pending := hgh.pending.congr (and_congr_right fun hb => by simp [hnot hb]) }
  | some x =>
    have hpassed := hlast.passed x rfl
    have hnew := hlast.isNew x rfl
    exact
      { toProgress := hgh.toProgress.withEdge hpassed (.inr hnew) hgh.isOld hgh.pending hgh.isNew
          (hne x rfl)
        passed := hgh.passed.withEdge
        isOld := hgh.isOld
        hasTargets := hgh.hasTargets
        isNew := hgh.isNew
        pending := (hgh.pending.withEdge hpassed (hne x rfl)).congr
          (by rw [hlast.reached x rfl, and_or_left]) }

/-- Control goes straight to where the branches join. -/
lemma skip (hgh : Joining t b g h p m q) : Joining t b g (h.withEdge b m) p m True where
  toProgress := hgh.toProgress.withEdge hgh.passed (.inl rfl) hgh.isOld hgh.pending hgh.isNew hgh.ne
  passed := hgh.passed.withEdge
  isOld := hgh.isOld
  hasTargets := hgh.hasTargets
  isNew := hgh.isNew
  pending := (hgh.pending.withEdge hgh.passed hgh.ne).congr (by
    rw [hgh.reached, and_true]
    exact or_iff_right_of_imp And.left)

/-- A branch whose jumps go where those of the statement go. -/
lemma outer (hgh : Joining t b g h p m q) (hhk : Branched t b h k last ends) :
    Joining t b g (k.joined last m) (p ∨ ends .broken) m (q ∨ ends .normal) := by
  have hpending : k.Pending m (g.Reached b ∧ q) := by
    refine (hhk.pending hgh.pending hgh.ne).congr (or_iff_left fun hbroken => ?_)
    exact hgh.hasTargets.not_isBroken (.inr hgh.isNew) hbroken.2.2
  have hjoining : Joining t b g k (p ∨ ends .broken) m q :=
    { toBranching := hgh.toBranching.trans hhk, isNew := hgh.isNew, pending := hpending }
  exact hjoining.joined (hgh.fallsOut hhk.fallsOut) (hgh.ne_of_branched hhk)

/-- A branch whose breaks go to where the branches join. -/
lemma inner (hgh : Joining t b g h p m q) (hhk : Branched (some ⟨m, none⟩) b h k last ends) :
    Joining t b g (k.joined last m) p m (q ∨ ends .broken ∨ ends .normal) := by
  have hpending : k.Pending m (g.Reached b ∧ (q ∨ ends .broken)) := by
    refine (hhk.pending hgh.pending hgh.ne).congr ?_
    simp [IsBroken, hgh.reached, and_or_left]
  have hprogress : Progress t b g k p := by
    refine hgh.toProgress.inner hhk.toProgress (.inl rfl) ?_ hgh.reached.1
    rintro x ⟨j, hj, rfl⟩
    exact Option.some.inj hj ▸ hgh.isNew
  have hjoining : Joining t b g k p m (q ∨ ends .broken) :=
    { toProgress := hprogress, passed := hhk.passed, isOld := hgh.isOld,
      hasTargets := hgh.hasTargets, isNew := hgh.isNew, pending := hpending }
  rw [← or_assoc]
  exact hjoining.joined (hgh.fallsOut hhk.fallsOut) (hgh.ne_of_branched hhk)

/-- All branches have joined. -/
lemma ensures_entered (hgh : Joining t b g h p m q) (hbroken : p ↔ ends .broken)
    (hnormal : q ↔ ends .normal) :
    (Build.entered m).Ensures h fun last k => Built t b g k last ends :=
  (hgh.toProgress.congr fun _ => hbroken).entered hgh.isOld hgh.hasTargets
    (hgh.pending.congr (and_congr_right fun _ => hnormal)) hgh.isNew

end Joining

/-! ## Statements with parts -/

section Parts

variable {stmt : Node} {l place place' : Location} {yes no tried final : Build.Steps}

/-- Control goes on behind an if statement without an else branch. -/
lemma builds_if (hyes : Builds t yes ends) :
    Builds t (Build.ifStmt stmt l ⟨place, yes⟩ none) (fun e => ends e ∨ e = .normal) := by
  intro g b hg hb ht
  refine ensures_choose hg hb ht fun h hgh => ?_
  refine (hgh.ensures_inBranch hyes).bind fun last k hyes => .newBlock (.join (.addEdge (.pure ?_)))
  have hlast : FallsOut b g k last (ends .normal) := hgh.fallsOut hyes.fallsOut
  have hjoining := (hgh.trans hyes).joining { location := some l, isReachable := true } rfl
  have hdone := (hjoining.joined (hlast.withBlock hyes.tidy) hlast.ne_next).skip
  exact
    { toProgress := hdone.toProgress.congr (by simp)
      goesOn := .some hdone.pending.isOpen.toPassed (hdone.pending.reached.trans (by simp))
      isOpen := fun _ hx => Option.some.inj hx ▸ hdone.pending.isOpen
      place := fun _ hx => .inr (Option.some.inj hx ▸ hdone.isNew) }

lemma builds_ifElse (hyes : Builds t yes ends) (hno : Builds t no ends') :
    Builds t (Build.ifStmt stmt l ⟨place, yes⟩ (some ⟨place', no⟩))
      (fun e => ends e ∨ ends' e) := by
  intro g b hg hb ht
  refine ensures_choose hg hb ht fun h hgh => ?_
  refine (hgh.ensures_inBranch hyes).bind fun afterYes h' hyes => ?_
  have hgh' := hgh.trans hyes
  refine (hgh'.ensures_inBranch hno).bind fun afterNo k hno => .newBlock (.join (.join ?_))
  have hyesFalls := hgh'.waits (hgh.fallsOut hyes.fallsOut) hno
  have hnoFalls := hgh'.fallsOut hno.fallsOut
  have hjoining := (hgh'.trans hno).joining { location := some l } rfl
  have hjoined := hjoining.joined (hyesFalls.withBlock hno.tidy) hyesFalls.ne_next
  -- The edge from the one branch does not lead to where the other one falls out.
  have hnoWaits := (hnoFalls.withBlock hno.tidy).joined hjoining.pending hyesFalls.ne_next
    hnoFalls.ne_next
  have hdone := hjoined.joined ⟨hnoWaits, hnoFalls.isNew⟩ hnoFalls.ne_next
  exact hdone.ensures_entered (by simp) (by simp)

/-- An optional part that can end like the one in `ends`. -/
abbrev BuildsPart (t : Option JumpTargets) : Option Build.Branch → Option (Ending → Prop) → Prop :=
  Option.Rel fun part ends => Builds t part.steps ends

/-- A try statement up to its finally block. -/
lemma builds_attempt {handler : Option Build.Branch} {caught : Option (Ending → Prop)}
    (htried : Builds t tried ends) (hcaught : BuildsPart t handler caught) :
    Builds t (Build.attempt stmt l ⟨place, tried⟩ handler)
      (fun e => ends e ∨ ∃ f ∈ caught, f e) := by
  intro g b hg hb ht
  refine ensures_choose hg hb ht fun h hgh => .newBlock ?_
  have hjoining := hgh.joining { location := some l } rfl
  refine (hjoining.ensures_inBranch htried).bind fun last k htried => .join ?_
  have htried := hjoining.outer htried
  cases hcaught with
  | none => exact htried.ensures_entered (by simp) (by simp)
  | some hcaught =>
    refine (htried.ensures_inBranch hcaught).bind fun last k hcaught => .join ?_
    exact (htried.outer hcaught).ensures_entered (by simp) (by simp)

lemma builds_try {caught : Option Build.Branch}
    (hattempt : Builds t (Build.attempt stmt l ⟨place, tried⟩ caught) ends) :
    Builds t (Build.tryStmt stmt l ⟨place, tried⟩ caught none) ends :=
  fun g b hg hb ht => (hattempt g b hg hb ht).bind fun _ _ hbuilt => .pure hbuilt

/-- Two statements were built one after the other. -/
lemma Built.trans (hgh : Built t b g h (some x) ends) (hhk : Built t x h k last ends')
    (ht : g.HasTargets t b) :
    Built t b g k last (fun e => ends .normal ∧ ends' e ∨ e = .broken ∧ ends .broken) := by
  have hplace := hgh.place x rfl
  have hr := hgh.goesOn.reached x rfl
  have hsize := hgh.size_le
  exact
    { toProgress := (hgh.toProgress.trans hhk.toProgress ht hplace hr).congr (by simp [or_comm])
      goesOn := (hhk.goesOn.after hr).congr (by simp)
      isOpen := hhk.isOpen
      place := fun y hy => by
        have hplace' := hhk.place y hy
        omega }

/-- A finally block that control comes to, and one that is built away from the rest: what jumps
out of it there does not matter. -/
lemma builds_finally {caught : Option Build.Branch}
    (hattempt : Builds t (Build.attempt stmt l ⟨place, tried⟩ caught) ends)
    (hfinal : Builds t final ends') :
    Builds t (Build.tryStmt stmt l ⟨place, tried⟩ caught (some ⟨place', final⟩))
      (fun e => ends .normal ∧ ends' e ∨ e = .broken ∧ ends .broken) := by
  intro g b hg hb ht
  refine (hattempt g b hg hb ht).bind fun merged h hgh => ?_
  cases merged with
  | some m =>
    have htargets := hgh.hasTargets ht hb.le (hgh.place m rfl)
    exact (hfinal h m hgh.tidy (hgh.isOpen m rfl) htargets).mono fun last k hhk => hgh.trans hhk ht
  | none =>
    have hnot := hgh.goesOn.not_of_none
    have hnew : g.size < h.size + 1 := Nat.lt_succ_of_le hgh.size_le
    refine .newBlock ?_
    -- No edge leads to the block, so no end of the finally block counts.
    have haway := pending_withBlock hgh.tidy
      { location := some place', isReachable := true } rfl
    have hgh' := hgh.toProgress.andThen (progress_withBlock hgh.tidy
      { location := some place', isReachable := true }) ht hb.le
    refine (hfinal _ _ hgh'.tidy haway.isOpen (hgh'.hasTargets ht hb.le (.inr hnew))).bind
      fun last k hhk => .pure ?_
    have hr := haway.reached.trans (iff_of_eq (and_false (g.Reached b))).symm
    have hdone := hgh'.trans hhk.toProgress ht (.inr hnew) hr
    refine (hdone.congr fun hb => ?_).ended fun hb => ?_
    · simp [hnot hb]
    · simp [hnot hb]

/-! ### Switches -/

/-- Each clause of a switch is a branch, and its breaks go to where the branches join. -/
lemma ensures_clauses {cs : List (JumpTargets → Build.Branch)} {es : List (Ending → Prop)}
    (hcs : List.Forall₂ (fun c e => ∀ j : JumpTargets, j.onContinue = none →
      Builds (some j) (c j).steps e) cs es) :
    ∀ {h q}, Joining t b g h p m q → (Build.clauses stmt m cs b).Ensures h fun _ k =>
      Joining t b g k p m (q ∨ ∃ e ∈ es, e .broken ∨ e .normal) := by
  induction hcs with
  | nil =>
    intro h q hjoining
    exact .pure (by simpa using hjoining)
  | cons hc _ ih =>
    intro h q hjoining
    have hpending := hjoining.pending
    have htargets : h.HasTargets (some ⟨m, none⟩) b := by
      intro j hj
      obtain rfl := Option.some.inj hj
      exact ⟨hpending.exit_lt, hpending.le, hjoining.ne, hpending.isLast, by simp, by simp, by simp⟩
    refine (ensures_inBranch hjoining.tidy hjoining.passed htargets (hc ⟨m, none⟩ rfl)).bind
      fun last k hbranch => .join ((ih (hjoining.inner hbranch)).mono fun _ k hdone => ?_)
    simpa [or_assoc] using hdone

lemma builds_switch {cs : List (JumpTargets → Build.Branch)} {es : List (Ending → Prop)}
    {hasDefault : Bool} (hcs : List.Forall₂ (fun c e => ∀ j : JumpTargets, j.onContinue = none →
      Builds (some j) (c j).steps e) cs es) :
    Builds t (Build.switch stmt l hasDefault cs)
      (fun e => e = .normal ∧ (hasDefault = false ∨ ∃ f ∈ es, f .broken ∨ f .normal)) := by
  intro g b hg hb ht
  refine ensures_choose hg hb ht fun h hgh => .newBlock ?_
  have hjoining := hgh.joining { location := some l } rfl
  refine (ensures_clauses hcs hjoining).bind fun _ k hclauses => ?_
  cases hasDefault with
  | false => exact .addEdge (hclauses.skip.ensures_entered (by simp) (by simp))
  | true => exact hclauses.ensures_entered (by simp) (by simp)

/-! ### Loops -/

/-- A loop at `b` whose body starts in the block `start`. Control can come to the header again,
and it leaves the loop to the block `after`; it does so without the body if `q`. -/
structure Looping (t : Option JumpTargets) (b : Nat) (g h : FlowGraph) (header start after : Nat)
    (q : Prop) : Prop extends Progress t b g h False where
  exit_lt : exit < header
  isNew : g.size < header
  header_lt : header < start
  start_lt : start < after
  passed : h.Passed header
  isOpen : h.Open start
  pending : h.Pending after (g.Reached b ∧ q)
  reached_header : h.Reached header ↔ g.Reached b
  reached_start : h.Reached start ↔ g.Reached b

namespace Looping

/-- The header, the start of the body and the block to leave to are made. -/
lemma ensures_blocks {hd st af : FlowBlock} {rest : Nat → Nat → Nat → Build α}
    {Q : α → FlowGraph → Prop} (hg : g.Tidy) (hb : g.Passed b) (ht : g.HasTargets t b)
    (hhd : hd.returns = false) (hst : st.returns = false) (haf : af.returns = false)
    (hrest : ∀ h header start after, Looping t b g h header start after False →
      (rest header start after).Ensures h Q) :
    Build.Ensures (do
      let header ← Build.newBlock hd
      Build.addEdge b header
      let start ← Build.newBlock st
      Build.addEdge header start
      let after ← Build.newBlock af
      rest header start after) g Q := by
  refine .sprout (.sprout (.newBlock (hrest _ _ _ _ ?_)))
  have hheader := pending_sprout hg hhd hb
  have hgh : Progress t b g (g.sprout hd b) False := progress_sprout hg hhd hb
  have hstart := pending_sprout hgh.tidy hst hheader.isOpen.toPassed
  have hhk := progress_sprout (t := t) hgh.tidy hst hheader.isOpen.toPassed
  have hr : (g.sprout hd b).Reached (g.size + 1) ↔ g.Reached b ∧ True := by
    rw [hheader.reached, and_true]
  have hgk := hgh.trans hhk ht (.inr (Nat.lt_succ_self _)) hr
  have hafter := pending_withBlock hgk.tidy af haf
  have hreached {x : Nat} := reached_withBlock (x := x) hgk.tidy af
  have hblock (y : Nat) : Progress t y _ _ False := progress_withBlock hgk.tidy af
  exact
    { toProgress := (hgk.andThen (hblock b) ht hb.le).congr (by simp)
      exit_lt := hheader.exit_lt
      isNew := Nat.lt_succ_self _
      header_lt := by simp
      start_lt := by simp
      passed := (hheader.isOpen.toPassed.sprout hgh.tidy).withBlock hgk.tidy
      isOpen := (hblock _).isOpen hstart.isOpen (Nat.ne_of_lt (Nat.lt_succ_of_le hstart.le))
      pending := hafter.congr (by simp)
      reached_header := by
        rw [hreached, hhk.old _ (by simp), hheader.reached]
        simp
      reached_start := by rw [hreached, hstart.reached, hheader.reached] }

/-- A loop that is left when its condition fails. -/
lemma skip {header start after : Nat} (hgh : Looping t b g h header start after q)
    (hb : b ≤ g.size) :
    Looping t b g (h.withEdge header after) header start after True := by
  have hne : after ≠ header := Nat.ne_of_gt (Nat.lt_trans hgh.header_lt hgh.start_lt)
  have hreached {x : Nat} (hx : x ≠ after) : (h.withEdge header after).Reached x ↔ h.Reached x := by
    rw [reached_withEdge_of_last hgh.pending.isLast hne.symm]
    exact or_iff_left fun heq => hx heq.1
  exact
    { toProgress := hgh.toProgress.withEdge hgh.passed (.inr hgh.isNew) hb hgh.pending
        (Nat.lt_trans hgh.isNew (Nat.lt_trans hgh.header_lt hgh.start_lt)) hne
      exit_lt := hgh.exit_lt
      isNew := hgh.isNew
      header_lt := hgh.header_lt
      start_lt := hgh.start_lt
      passed := hgh.passed.withEdge
      isOpen := grown_withEdge.isOpen hgh.isOpen (Nat.ne_of_gt hgh.header_lt)
      pending := (hgh.pending.withEdge hgh.passed hne).congr (by
        rw [hgh.reached_header, and_true]
        exact or_iff_right_of_imp And.left)
      reached_header := (hreached hne.symm).trans hgh.reached_header
      reached_start := (hreached (Nat.ne_of_lt hgh.start_lt)).trans hgh.reached_start }

lemma hasTargets {header start after : Nat} (hgh : Looping t b g h header start after q) :
    h.HasTargets (some ⟨after, some header⟩) start := by
  intro j hj
  obtain rfl := Option.some.inj hj
  exact
    { break_exit := hgh.pending.exit_lt
      break_le := hgh.pending.le
      break_ne := Nat.ne_of_gt hgh.start_lt
      break_last := hgh.pending.isLast
      continue_exit := fun _ hc => Option.some.inj hc ▸ hgh.exit_lt
      continue_le := fun _ hc => Option.some.inj hc ▸ hgh.passed.le
      continue_reached := fun _ hc hr =>
        Option.some.inj hc ▸ hgh.reached_header.2 (hgh.reached_start.1 hr) }

/-- Behind the body control comes to the header again, and the loop is left by breaks. -/
lemma ensures_body {header start after : Nat} {body : Build.Steps}
    (hgh : Looping t b g h header start after q) (hb : b ≤ g.size) (ht : g.HasTargets t b)
    (hbody : Builds (some ⟨after, some header⟩) body ends) :
    Build.Ensures (do Build.join (← body start) header; Build.entered after) h fun last k =>
      Built t b g k last (fun e => e = .normal ∧ (q ∨ ends .broken)) := by
  refine (hbody h start hgh.tidy hgh.isOpen hgh.hasTargets).bind fun last k hhk => .join ?_
  have hlt : header < after := Nat.lt_trans hgh.header_lt hgh.start_lt
  have hnew : g.size < after := Nat.lt_trans hgh.isNew hlt
  have hbroken (x : Nat) : IsBroken (some ⟨after, some header⟩) x ↔ x = after := by
    simp [IsBroken]
  have hprogress : Progress t b g k False :=
    hgh.toProgress.inner hhk.toProgress (.inr (Nat.lt_trans hgh.isNew hgh.header_lt))
      (fun x hx => (hbroken x).1 hx ▸ hnew) hgh.reached_start.1
  have hpending : k.Pending after (g.Reached b ∧ (q ∨ ends .broken)) := by
    refine (hhk.pending hgh.pending (Nat.ne_of_gt hgh.start_lt)).congr ?_
    simp [hbroken, hgh.reached_start, and_or_left]
  have hagain : k.Reached header ↔ g.Reached b := by
    rw [hhk.old header hgh.passed.le, hgh.reached_header, hbroken]
    simp [Nat.ne_of_lt hlt]
  cases last with
  | none =>
    exact (hprogress.congr (by simp)).entered hb ht (hpending.congr (by simp)) hnew
  | some x =>
    have hplace := hhk.place x rfl
    have hxnew : g.size < x := by
      have hsize := hgh.size_le
      have hisNew := hgh.isNew
      have hheader := hgh.header_lt
      omega
    have hne : after ≠ x := by
      have hle := hgh.pending.le
      have hstart := hgh.start_lt
      omega
    -- The edge back leads to a block that control comes to before the body, so it adds nothing.
    have hback : k.Reached x → k.Reached header := fun hx =>
      hagain.2 (hgh.reached_start.1 ((hhk.goesOn.reached x rfl).1 hx).1)
    have hle := Nat.le_trans hgh.passed.le hhk.size_le
    have hedge := hprogress.withEdgeBack (hhk.goesOn.passed x rfl) (.inr hxnew) hgh.exit_lt hle
      hback
    exact (hedge.congr (by simp)).entered hb ht
      ((hpending.withEdgeBack hne hback).congr (by simp)) hnew

end Looping

lemma builds_loop {infinite : Bool} {body : JumpTargets → Build.Steps}
    (hbody : ∀ j : JumpTargets, j.onContinue.isSome = true → Builds (some j) (body j) ends) :
    Builds t (Build.loop l place infinite body)
      (fun e => e = .normal ∧ (infinite = false ∨ ends .broken)) := by
  intro g b hg hb ht
  refine .isReachable (Looping.ensures_blocks hg hb.toPassed ht rfl rfl rfl fun h _ _ _ hloop => ?_)
  cases infinite with
  | true => exact (hloop.ensures_body hb.le ht (hbody _ rfl)).mono fun _ _ hbuilt =>
      hbuilt.congr (by simp)
  | false => exact .addEdge (((hloop.skip hb.le).ensures_body hb.le ht (hbody _ rfl)).mono
      fun _ _ hbuilt => hbuilt.congr (by simp))

end Parts

/-! ## Rows of statements -/

section Rows

variable {n : Node} {ns : List Node} {first others : Build.Steps}

/-- Reports leave the graph alone. -/
lemma ensures_reportUnreachable {rest : Unit → Build α} {Q : α → FlowGraph → Prop}
    (hrest : (rest ()).Ensures g Q) : (Build.reportUnreachable ns >>= rest).Ensures g Q := by
  unfold Build.reportUnreachable
  rintro s rfl
  cases deadCode? ns <;> exact hrest _ rfl

lemma builds_declaration (hn : n.isDeclaration = true) (hothers : Builds t others ends) :
    Builds t (Build.andThen n ns first others) ends := by
  intro g b hg hb ht
  unfold Build.andThen
  rw [if_pos hn]
  refine ensures_change hg hb ht (fun _ => rfl) fun h hgh hopen htargets hreached => ?_
  refine (hothers h b hgh.tidy hopen htargets).mono fun last k hhk => ?_
  have hn : Built t b g h (some b) (· = .normal) := (hgh.congr (by simp)).built hopen hreached rfl
  exact (hn.trans hhk ht).congr (by simp)

/-- Behind a statement that control never passes nothing is built. -/
lemma builds_andThen (hn : n.isDeclaration = false) (hfirst : Builds t first ends)
    (hothers : Builds t others ends') : Builds t (Build.andThen n ns first others)
      (fun e => ends .normal ∧ ends' e ∨ e = .broken ∧ ends .broken) := by
  intro g b hg hb ht
  unfold Build.andThen
  rw [if_neg (by simp [hn])]
  refine (hfirst g b hg hb ht).bind fun last h hgh => ?_
  cases last with
  | some x =>
    have htargets := hgh.hasTargets ht hb.le (hgh.place x rfl)
    exact (hothers h x hgh.tidy (hgh.isOpen x rfl) htargets).mono fun _ _ hhk => hgh.trans hhk ht
  | none =>
    refine ensures_reportUnreachable (.pure ?_)
    have hnot := hgh.goesOn.not_of_none
    refine (hgh.toProgress.congr fun hr => ?_).ended fun hr => ?_
    · simp [hnot hr]
    · simp [hnot hr]

end Rows

end TypedScript
