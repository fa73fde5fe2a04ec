import TypedScript.Flow.Returns
import TypedScript.Proofs.Flow.Search

/-!
# How a flow graph grows

While a statement is built, the graph grows at one block: new blocks are added, edges go
out of that block and the new ones, and no other block starts to leave the function. Of the
blocks from before control comes to no other than it did, save for the target of a break; and it
comes to new ones only if it came to the block where the graph grows. That block need not be
reached: a finally block may be built away from the rest.

Three sorts of blocks matter on the way. Building goes on in an open block. A passed block
is one that control gets through, such as the block that ends in a choice. A pending block
waits for branches to join.
-/
namespace TypedScript.FlowGraph

variable {g h k : FlowGraph} {b c x y : Nat}

/-! ## Adding blocks and edges -/

def withBlock (g : FlowGraph) (blk : FlowBlock) : FlowGraph :=
  { g with blocks := g.blocks.push blk }

def withEdge (g : FlowGraph) (source target : Nat) : FlowGraph :=
  { g with edges := g.edges ++ [(source, target)] }

def change (g : FlowGraph) (b : Nat) (f : FlowBlock → FlowBlock) : FlowGraph :=
  { g with blocks := g.blocks.modify (b - 1) f }

/-- The number of blocks, which is the number of the latest one. -/
def size (g : FlowGraph) : Nat := g.blocks.size

/-- The block leaves the function. -/
def leaves (g : FlowGraph) (b : Nat) : Bool := (g.block b).returns

@[simp] lemma size_withBlock (blk : FlowBlock) : (g.withBlock blk).size = g.size + 1 := by
  simp [size, withBlock]

@[simp] lemma size_withEdge : (g.withEdge b c).size = g.size := rfl

@[simp] lemma size_change (f : FlowBlock → FlowBlock) : (g.change b f).size = g.size := by
  simp [size, change]

@[simp] lemma mem_edges_withEdge {e : Nat × Nat} :
    e ∈ (g.withEdge b c).edges ↔ e ∈ g.edges ∨ e = (b, c) := by
  simp [withEdge]

@[simp] lemma edges_change (f : FlowBlock → FlowBlock) : (g.change b f).edges = g.edges := rfl

lemma leaves_withBlock (blk : FlowBlock) (hx : 0 < x) (hle : x ≤ g.size) :
    (g.withBlock blk).leaves x = g.leaves x := by
  have hlt : x - 1 < g.blocks.size := by
    simp only [size] at hle
    omega
  simp [leaves, block, withBlock, Array.getElem?_push_lt, hlt]

lemma leaves_withBlock_new (blk : FlowBlock) :
    (g.withBlock blk).leaves (g.size + 1) = blk.returns := by
  simp [leaves, block, withBlock, size]

@[simp] lemma leaves_withEdge : (g.withEdge b c).leaves x = g.leaves x := rfl

lemma leaves_change_of_ne (f : FlowBlock → FlowBlock) (hx : 0 < x) (hb : 0 < b) (hne : x ≠ b) :
    (g.change b f).leaves x = g.leaves x := by
  have hindex : b - 1 ≠ x - 1 := by omega
  simp [leaves, block, change, Array.getElem?_modify, hindex]

lemma leaves_change_self (f : FlowBlock → FlowBlock) (hb : 0 < b) (hle : b ≤ g.size) :
    (g.change b f).leaves b = (f (g.block b)).returns := by
  have hlt : b - 1 < g.blocks.size := by
    simp only [size] at hle
    omega
  simp [leaves, block, change, hlt, Array.getElem_modify_self]

/-! ## What control reaches -/

lemma mem_onward : c ∈ g.onward b ↔ g.leaves b = false ∧ (b, c) ∈ g.edges := by
  unfold onward leaves successors
  split
  · simp_all
  · simp_all

/-- Control can come to the block without leaving the function before. -/
def Reached (g : FlowGraph) (b : Nat) : Prop := Leads g.onward entry b

lemma Reached.step (hb : g.Reached b) (hstay : g.leaves b = false) (hedge : (b, c) ∈ g.edges) :
    g.Reached c :=
  hb.tail (mem_onward.2 ⟨hstay, hedge⟩)

lemma Reached.mono (hedges : ∀ e : Nat × Nat, e ∈ g.edges → g.leaves e.1 = false →
    e ∈ h.edges ∧ h.leaves e.1 = false) (hx : g.Reached x) : h.Reached x := by
  induction hx with
  | refl => exact .refl
  | tail _ hstep ih =>
    obtain ⟨hstay, hedge⟩ := mem_onward.1 hstep
    obtain ⟨hedge', hstay'⟩ := hedges _ hedge hstay
    exact ih.step hstay' hedge'

lemma Reached.exists_step (hx : g.Reached x) (hne : x ≠ entry) :
    ∃ y, g.Reached y ∧ x ∈ g.onward y := by
  obtain rfl | hstep := Relation.ReflTransGen.cases_tail hx
  · exact absurd rfl hne
  · exact hstep

lemma Reached.exists_edge (hx : g.Reached x) (hne : x ≠ entry) :
    ∃ e : Nat × Nat, e ∈ g.edges ∧ e.2 = x ∧ g.leaves e.1 = false := by
  obtain ⟨y, -, hstep⟩ := hx.exists_step hne
  obtain ⟨hstay, hedge⟩ := mem_onward.1 hstep
  exact ⟨_, hedge, rfl, hstay⟩

/-- An edge to a block from which none goes on. -/
lemma reached_withEdge_of_last (hlast : ∀ e : Nat × Nat, e ∈ g.edges → e.1 ≠ c) (hne : x ≠ c) :
    (g.withEdge x c).Reached y ↔ g.Reached y ∨ y = c ∧ g.Reached x ∧ g.leaves x = false := by
  have hmono {z : Nat} (hz : g.Reached z) : (g.withEdge x c).Reached z :=
    hz.mono fun e he hstay => ⟨mem_edges_withEdge.2 (.inl he), hstay⟩
  constructor
  · intro hy
    induction hy with
    | refl => exact .inl .refl
    | tail _ hstep ih =>
      obtain ⟨hstay, hedge⟩ := mem_onward.1 hstep
      obtain hedge | hedge := mem_edges_withEdge.1 hedge
      · obtain ha | ⟨hc, -⟩ := ih
        · exact .inl (ha.step hstay hedge)
        · exact absurd hc (hlast _ hedge)
      · obtain ⟨rfl, rfl⟩ := Prod.mk.inj hedge
        obtain ha | ⟨rfl, -⟩ := ih
        · exact .inr ⟨rfl, ha, hstay⟩
        · exact absurd rfl hne
  · rintro (hy | ⟨rfl, hx, hstay⟩)
    · exact hmono hy
    · exact (hmono hx).step hstay (mem_edges_withEdge.2 (.inr rfl))

/-- An edge to a block that control comes to anyway. -/
lemma reached_withEdge_of_reached (hc : g.Reached x → g.Reached c) :
    (g.withEdge x c).Reached y ↔ g.Reached y := by
  constructor
  · intro hy
    induction hy with
    | refl => exact .refl
    | tail _ hstep ih =>
      obtain ⟨hstay, hedge⟩ := mem_onward.1 hstep
      obtain hedge | hedge := mem_edges_withEdge.1 hedge
      · exact ih.step hstay hedge
      · obtain ⟨rfl, rfl⟩ := Prod.mk.inj hedge
        exact hc ih
  · exact Reached.mono fun e he hstay => ⟨mem_edges_withEdge.2 (.inl he), hstay⟩

/-- The search for paths to the end finds what control reaches. -/
lemma mem_reach_onward : b ∈ g.reach g.onward [entry] ↔ g.Reached b := by
  have hdegree : ∀ b : Nat,
      (g.onward b).length ≤ (g.successors b).length + (g.predecessors b).length :=
    fun b => length_stop_le (by omega)
  simp [mem_reach_iff hdegree, Reached]

/-- Edges go between blocks of the graph, and just those from blocks that leave the function go
to its end. -/
structure Tidy (g : FlowGraph) : Prop where
  exit_le : exit ≤ g.size
  source : ∀ e : Nat × Nat, e ∈ g.edges → 0 < e.1 ∧ e.1 ≤ g.size
  target : ∀ e : Nat × Nat, e ∈ g.edges → e.2 ≤ g.size
  exits : ∀ e : Nat × Nat, e ∈ g.edges → (e.2 = exit ↔ g.leaves e.1 = true)

lemma Tidy.le_of_reached (hg : g.Tidy) (hx : g.Reached x) : x ≤ g.size := by
  by_cases hne : x = entry
  · exact hne ▸ Nat.le_trans (by decide) hg.exit_le
  · obtain ⟨e, he, rfl, -⟩ := hx.exists_edge hne
    exact hg.target e he

/-- Control that comes to the block gets through. -/
structure Passed (g : FlowGraph) (b : Nat) : Prop where
  pos : 0 < b
  le : b ≤ g.size
  stays : g.leaves b = false

/-- Control that comes to the block has not gone on yet. -/
structure Open (g : FlowGraph) (b : Nat) : Prop extends Passed g b where
  isLast : ∀ e : Nat × Nat, e ∈ g.edges → e.1 ≠ b

/-- The block waits for control, which comes to it exactly if `p`. -/
structure Pending (g : FlowGraph) (b : Nat) (p : Prop) : Prop where
  exit_lt : exit < b
  le : b ≤ g.size
  stays : g.leaves b = false
  isLast : ∀ e : Nat × Nat, e ∈ g.edges → e.1 ≠ b
  reached : g.Reached b ↔ p

lemma Pending.isOpen {p : Prop} (hb : g.Pending b p) : g.Open b where
  pos := Nat.zero_lt_of_lt hb.exit_lt
  le := hb.le
  stays := hb.stays
  isLast := hb.isLast

lemma Pending.congr {p q : Prop} (hb : g.Pending b p) (h : p ↔ q) : g.Pending b q :=
  propext h ▸ hb

/-- A block that no edge goes to is not reached. -/
lemma Pending.isEntered {p : Prop} (hb : g.Pending b p) (hp : p) : g.isEntered b = true := by
  have hne : b ≠ entry := Nat.ne_of_gt (Nat.lt_trans (by decide) hb.exit_lt)
  obtain ⟨e, he, htarget, -⟩ := (hb.reached.2 hp).exists_edge hne
  exact List.any_eq_true.2 ⟨e, he, beq_iff_eq.2 htarget⟩

end TypedScript.FlowGraph

namespace TypedScript.FlowGraph

variable {g h k : FlowGraph} {b c m x y : Nat} {t u : Option JumpTargets} {p q r : Prop}

/-! ## Growing at a block -/

/-- The graph `h` comes from `g` by building on at the block `b`. -/
structure Grown (b : Nat) (g h : FlowGraph) : Prop where
  size_le : g.size ≤ h.size
  source : ∀ e : Nat × Nat, e ∈ h.edges → e ∈ g.edges ∨ e.1 = b ∨ g.size < e.1
  leaves_eq : ∀ x : Nat, 0 < x → x ≤ g.size → x ≠ b → h.leaves x = g.leaves x

namespace Grown

/-- First the graph grows at `b`, then at the same block or at a new one. -/
lemma trans (hgh : Grown b g h) (hhk : Grown y h k) (hy : y = b ∨ g.size < y) : Grown b g k where
  size_le := Nat.le_trans hgh.size_le hhk.size_le
  source e he := by
    have hsize := hgh.size_le
    obtain he | rfl | hnew := hhk.source e he
    · exact hgh.source e he
    · exact .inr hy
    · exact .inr (.inr (by omega))
  leaves_eq x hx hle hne := by
    have hsize := hgh.size_le
    have hxy : x ≠ y := by
      rintro rfl
      obtain rfl | hlt := hy
      · exact hne rfl
      · omega
    rw [hhk.leaves_eq x hx (by omega) hxy, hgh.leaves_eq x hx hle hne]

lemma passed (hgh : Grown b g h) (hx : g.Passed x) (hne : x ≠ b) : h.Passed x where
  pos := hx.pos
  le := Nat.le_trans hx.le hgh.size_le
  stays := (hgh.leaves_eq x hx.pos hx.le hne).trans hx.stays

lemma isLast (hgh : Grown b g h) (hle : x ≤ g.size) (hne : x ≠ b)
    (hx : ∀ e : Nat × Nat, e ∈ g.edges → e.1 ≠ x) : ∀ e : Nat × Nat, e ∈ h.edges → e.1 ≠ x := by
  rintro e he rfl
  obtain he | hb | hnew := hgh.source e he
  · exact hx e he rfl
  · exact hne hb
  · omega

lemma isOpen (hgh : Grown b g h) (hx : g.Open x) (hne : x ≠ b) : h.Open x where
  toPassed := hgh.passed hx.toPassed hne
  isLast := hgh.isLast hx.le hne hx.isLast

end Grown

/-! ## Building a statement -/

/-- The jumps of a statement at `b` have their targets in the graph. A break goes to a block that
waits, a continue to one that control came to before it came to `b`. -/
structure Lands (g : FlowGraph) (b : Nat) (j : JumpTargets) : Prop where
  break_exit : exit < j.onBreak
  break_le : j.onBreak ≤ g.size
  break_ne : j.onBreak ≠ b
  break_last : ∀ e : Nat × Nat, e ∈ g.edges → e.1 ≠ j.onBreak
  continue_exit : ∀ c, j.onContinue = some c → exit < c
  continue_le : ∀ c, j.onContinue = some c → c ≤ g.size
  continue_reached : ∀ c, j.onContinue = some c → g.Reached b → g.Reached c

def HasTargets (g : FlowGraph) (t : Option JumpTargets) (b : Nat) : Prop :=
  ∀ j, t = some j → g.Lands b j

/-- The block is where a break goes to. -/
def IsBroken (t : Option JumpTargets) (x : Nat) : Prop := ∃ j, t = some j ∧ x = j.onBreak

lemma HasTargets.not_isBroken (ht : g.HasTargets t b) (hx : x = b ∨ g.size < x) :
    ¬ IsBroken t x := by
  rintro ⟨j, hj, rfl⟩
  obtain hx | hx := hx
  · exact (ht j hj).break_ne hx
  · exact absurd (ht j hj).break_le (Nat.not_le_of_lt hx)

/-- From `g` to `h` a statement was built on at the block `b`, or some of its parts. Jumps
inside it go to `t`; control that comes to `b` can come to a break if `p`. -/
structure Progress (t : Option JumpTargets) (b : Nat) (g h : FlowGraph) (p : Prop) : Prop
    extends Grown b g h where
  tidy : h.Tidy
  old : ∀ x : Nat, x ≤ g.size → (h.Reached x ↔ g.Reached x ∨ g.Reached b ∧ p ∧ IsBroken t x)
  fresh : ∀ x : Nat, g.size < x → h.Reached x → g.Reached b

namespace Progress

/-- Control comes to the same blocks as before. -/
lemma of_reached (hg : g.Tidy) (hgh : Grown b g h) (hh : h.Tidy)
    (hreached : ∀ x, h.Reached x ↔ g.Reached x) : Progress t b g h False where
  toGrown := hgh
  tidy := hh
  old x _ := by simp [hreached x]
  fresh x hx hr := absurd (hg.le_of_reached ((hreached x).1 hr)) (Nat.not_le_of_lt hx)

lemma refl (hg : g.Tidy) : Progress t b g g False :=
  .of_reached hg ⟨Nat.le_refl _, fun _ he => .inl he, fun _ _ _ _ => rfl⟩ hg fun _ => .rfl

lemma congr (hgh : Progress t b g h p) (hpq : g.Reached b → (p ↔ q)) : Progress t b g h q where
  toGrown := hgh.toGrown
  tidy := hgh.tidy
  old x hx := by
    rw [hgh.old x hx]
    exact or_congr_right (and_congr_right fun hb => and_congr_left fun _ => hpq hb)
  fresh := hgh.fresh

/-- A block where control goes on later is reached from `b` only. -/
lemma back (hgh : Progress t b g h p) (hb : b ≤ g.size) (hx : x = b ∨ g.size < x)
    (hr : h.Reached x) : g.Reached b := by
  obtain rfl | hnew := hx
  · obtain hr | ⟨hr, -⟩ := (hgh.old x hb).1 hr
    · exact hr
    · exact hr
  · exact hgh.fresh x hnew hr

/-- A pending block goes on waiting, and control comes to it by breaks that go there. -/
lemma pending (hgh : Progress t b g h p) (hm : g.Pending m q) (hne : m ≠ b) :
    h.Pending m (q ∨ g.Reached b ∧ p ∧ IsBroken t m) where
  exit_lt := hm.exit_lt
  le := Nat.le_trans hm.le hgh.size_le
  stays := (hgh.leaves_eq m (Nat.zero_lt_of_lt hm.exit_lt) hm.le hne).trans hm.stays
  isLast := hgh.isLast hm.le hne hm.isLast
  reached := by rw [hgh.old m hm.le, hm.reached]

lemma hasTargets (hgh : Progress t b g h p) (ht : g.HasTargets t b) (hb : b ≤ g.size)
    (hx : x = b ∨ g.size < x) : h.HasTargets t x := by
  intro j hj
  have hlands := ht j hj
  have hsize := hgh.size_le
  refine
    { break_exit := hlands.break_exit
      break_le := Nat.le_trans hlands.break_le hsize
      break_ne := fun heq => ht.not_isBroken hx ⟨j, hj, heq.symm⟩
      break_last := hgh.isLast hlands.break_le hlands.break_ne hlands.break_last
      continue_exit := hlands.continue_exit
      continue_le := fun c hc => Nat.le_trans (hlands.continue_le c hc) hsize
      continue_reached := fun c hc hr => ?_ }
  have hrb := hgh.back hb hx hr
  exact (hgh.old c (hlands.continue_le c hc)).2 (.inl (hlands.continue_reached c hc hrb))

/-- Building goes on at `y`, which control comes to from `b` exactly if `r`. -/
lemma trans (hgh : Progress t b g h p) (hhk : Progress t y h k q) (ht : g.HasTargets t b)
    (hy : y = b ∨ g.size < y) (hr : h.Reached y ↔ g.Reached b ∧ r) :
    Progress t b g k (p ∨ r ∧ q) where
  toGrown := hgh.toGrown.trans hhk.toGrown hy
  tidy := hhk.tidy
  old x hx := by
    rw [hhk.old x (Nat.le_trans hx hgh.size_le), hgh.old x hx, hr]
    tauto
  fresh x hx hreached := by
    by_cases hle : x ≤ h.size
    · obtain hreached | ⟨-, -, hbroken⟩ := (hhk.old x hle).1 hreached
      · exact hgh.fresh x hx hreached
      · exact absurd hbroken (ht.not_isBroken (.inr hx))
    · exact (hr.1 (hhk.fresh x (Nat.lt_of_not_le hle) hreached)).1

/-- Building goes on at the same block. -/
lemma andThen (hgh : Progress t b g h p) (hhk : Progress t b h k q) (ht : g.HasTargets t b)
    (hb : b ≤ g.size) : Progress t b g k (p ∨ q) := by
  have hr : h.Reached b ↔ g.Reached b ∧ True := by
    rw [hgh.old b hb, and_true]
    exact or_iff_left fun hbroken => ht.not_isBroken (.inl rfl) hbroken.2.2
  exact (hgh.trans hhk ht (.inl rfl) hr).congr fun _ => by rw [true_and]

/-- A part whose breaks go to a new block breaks out of nothing that was there before. -/
lemma inner (hgh : Progress t b g h p) (hhk : Progress u y h k q) (hy : y = b ∨ g.size < y)
    (hu : ∀ x, IsBroken u x → g.size < x) (hr : h.Reached y → g.Reached b) :
    Progress t b g k p where
  toGrown := hgh.toGrown.trans hhk.toGrown hy
  tidy := hhk.tidy
  old x hx := by
    rw [hhk.old x (Nat.le_trans hx hgh.size_le), hgh.old x hx]
    refine or_iff_left fun hbroken => ?_
    exact absurd hx (Nat.not_le_of_lt (hu x hbroken.2.2))
  fresh x hx hreached := by
    by_cases hle : x ≤ h.size
    · obtain hreached | ⟨hreached, -⟩ := (hhk.old x hle).1 hreached
      · exact hgh.fresh x hx hreached
      · exact hr hreached
    · exact hr (hhk.fresh x (Nat.lt_of_not_le hle) hreached)

end Progress

/-! ## The steps -/

lemma Tidy.withBlock (hg : g.Tidy) (blk : FlowBlock) : (g.withBlock blk).Tidy where
  exit_le := Nat.le_trans hg.exit_le (by simp)
  source e he := ⟨(hg.source e he).1, Nat.le_trans (hg.source e he).2 (by simp)⟩
  target e he := Nat.le_trans (hg.target e he) (by simp)
  exits e he := by
    obtain ⟨hpos, hle⟩ := hg.source e he
    rw [leaves_withBlock blk hpos hle]
    exact hg.exits e he

lemma Tidy.withEdge (hg : g.Tidy) (hx : g.Passed x) (hc : exit < c) (hle : c ≤ g.size) :
    (g.withEdge x c).Tidy where
  exit_le := hg.exit_le
  source e he := by
    obtain he | rfl := mem_edges_withEdge.1 he
    · exact hg.source e he
    · exact ⟨hx.pos, hx.le⟩
  target e he := by
    obtain he | rfl := mem_edges_withEdge.1 he
    · exact hg.target e he
    · exact hle
  exits e he := by
    obtain he | rfl := mem_edges_withEdge.1 he
    · exact hg.exits e he
    · exact iff_of_false (Nat.ne_of_gt hc) (by simp [hx.stays])

lemma reached_withBlock (hg : g.Tidy) (blk : FlowBlock) :
    (g.withBlock blk).Reached x ↔ g.Reached x := by
  have hleaves : ∀ e : Nat × Nat, e ∈ g.edges → (g.withBlock blk).leaves e.1 = g.leaves e.1 :=
    fun e he => leaves_withBlock blk (hg.source e he).1 (hg.source e he).2
  constructor
  · exact Reached.mono fun e he hstay => ⟨he, hleaves e he ▸ hstay⟩
  · exact Reached.mono fun e he hstay => ⟨he, (hleaves e he).trans hstay⟩

lemma progress_withBlock (hg : g.Tidy) (blk : FlowBlock) :
    Progress t b g (g.withBlock blk) False := by
  have hgrown : Grown b g (g.withBlock blk) :=
    ⟨by simp, fun _ he => .inl he, fun _ hx hle _ => leaves_withBlock blk hx hle⟩
  exact .of_reached hg hgrown (hg.withBlock blk) fun _ => reached_withBlock hg blk

/-- Nothing comes to a block that was just made. -/
lemma pending_withBlock (hg : g.Tidy) (blk : FlowBlock) (hblk : blk.returns = false) :
    (g.withBlock blk).Pending (g.size + 1) False where
  exit_lt := Nat.lt_succ_of_le hg.exit_le
  le := by simp
  stays := (leaves_withBlock_new blk).trans hblk
  isLast e he := Nat.ne_of_lt (Nat.lt_succ_of_le (hg.source e he).2)
  reached := by
    rw [reached_withBlock hg, iff_false]
    exact fun hreached => absurd (hg.le_of_reached hreached) (Nat.not_succ_le_self _)

lemma grown_withEdge : Grown x g (g.withEdge x c) where
  size_le := Nat.le_refl _
  source e he := by
    obtain he | rfl := mem_edges_withEdge.1 he
    · exact .inl he
    · exact .inr (.inl rfl)
  leaves_eq _ _ _ _ := rfl

/-- An edge to a block that waits. -/
lemma Pending.withEdge (hm : g.Pending m q) (hx : g.Passed x) (hne : m ≠ x) :
    (g.withEdge x m).Pending m (q ∨ g.Reached x) where
  exit_lt := hm.exit_lt
  le := hm.le
  stays := hm.stays
  isLast := grown_withEdge.isLast hm.le hne hm.isLast
  reached := by
    rw [reached_withEdge_of_last hm.isLast hne.symm, hm.reached]
    simp [hx.stays]

/-- An edge from a block of the statement to a new one that waits. -/
lemma Progress.withEdge (hgh : Progress t b g h p) (hx : h.Passed x) (hxb : x = b ∨ g.size < x)
    (hb : b ≤ g.size) (hm : h.Pending m q) (hnew : g.size < m) (hne : m ≠ x) :
    Progress t b g (h.withEdge x m) p where
  toGrown := hgh.toGrown.trans grown_withEdge hxb
  tidy := hgh.tidy.withEdge hx hm.exit_lt hm.le
  old y hy := by
    rw [reached_withEdge_of_last hm.isLast hne.symm, hgh.old y hy]
    exact or_iff_left fun heq => absurd (heq.1 ▸ hy) (Nat.not_le_of_lt hnew)
  fresh y hy hreached := by
    obtain hreached | ⟨-, hreached, -⟩ :=
      (reached_withEdge_of_last hm.isLast hne.symm).1 hreached
    · exact hgh.fresh y hy hreached
    · exact hgh.back hb hxb hreached

/-- An edge back to where control came from. -/
lemma Progress.withEdgeBack (hgh : Progress t b g h p) (hx : h.Passed x)
    (hxb : x = b ∨ g.size < x) (hexit : exit < c) (hle : c ≤ h.size)
    (hc : h.Reached x → h.Reached c) : Progress t b g (h.withEdge x c) p where
  toGrown := hgh.toGrown.trans grown_withEdge hxb
  tidy := hgh.tidy.withEdge hx hexit hle
  old y hy := by rw [reached_withEdge_of_reached hc, hgh.old y hy]
  fresh y hy hreached := hgh.fresh y hy ((reached_withEdge_of_reached hc).1 hreached)

lemma Pending.withEdgeBack (hm : g.Pending m q) (hne : m ≠ x) (hc : g.Reached x → g.Reached c) :
    (g.withEdge x c).Pending m q where
  exit_lt := hm.exit_lt
  le := hm.le
  stays := hm.stays
  isLast := grown_withEdge.isLast hm.le hne hm.isLast
  reached := by rw [reached_withEdge_of_reached hc, hm.reached]

lemma progress_break (hg : g.Tidy) (hb : g.Passed b) {j : JumpTargets} (hj : g.Lands b j) :
    Progress (some j) b g (g.withEdge b j.onBreak) True where
  toGrown := grown_withEdge
  tidy := hg.withEdge hb hj.break_exit hj.break_le
  old y _ := by
    rw [reached_withEdge_of_last hj.break_last hj.break_ne.symm]
    simp [IsBroken, hb.stays, and_comm]
  fresh y hy hreached := by
    obtain hreached | ⟨-, hreached, -⟩ :=
      (reached_withEdge_of_last hj.break_last hj.break_ne.symm).1 hreached
    · exact absurd (hg.le_of_reached hreached) (Nat.not_le_of_lt hy)
    · exact hreached

lemma progress_continue (hg : g.Tidy) (hb : g.Passed b) {j : JumpTargets} (hj : g.Lands b j)
    (hc : j.onContinue = some c) : Progress t b g (g.withEdge b c) False :=
  (Progress.refl hg).withEdgeBack hb (.inl rfl) (hj.continue_exit c hc) (hj.continue_le c hc)
    (hj.continue_reached c hc)

/-! ### Changes inside a block -/

section Change

variable {f : FlowBlock → FlowBlock}

/-- A change that does not touch where the block leads. -/
lemma leaves_change (hf : ∀ blk, (f blk).returns = blk.returns) :
    (g.change b f).leaves x = g.leaves x := by
  unfold leaves block change
  rw [Array.getElem?_modify]
  split
  · cases g.blocks[x - 1]? with
    | none => rfl
    | some blk => exact hf blk
  · rfl

lemma reached_change (hf : ∀ blk, (f blk).returns = blk.returns) :
    (g.change b f).Reached x ↔ g.Reached x := by
  constructor
  · exact Reached.mono fun e he hstay => ⟨he, leaves_change hf ▸ hstay⟩
  · exact Reached.mono fun e he hstay => ⟨he, (leaves_change hf).trans hstay⟩

lemma Tidy.change (hg : g.Tidy) (hf : ∀ blk, (f blk).returns = blk.returns) :
    (g.change b f).Tidy where
  exit_le := by simpa using hg.exit_le
  source := by simpa using hg.source
  target := by simpa using hg.target
  exits e he := by rw [leaves_change hf, hg.exits e he]

lemma progress_change (hg : g.Tidy) (hf : ∀ blk, (f blk).returns = blk.returns) :
    Progress t c g (g.change b f) False := by
  have hgrown : Grown c g (g.change b f) :=
    ⟨by simp, fun _ he => .inl he, fun _ _ _ _ => leaves_change hf⟩
  exact .of_reached hg hgrown (hg.change hf) fun _ => reached_change hf

lemma Open.change (hx : g.Open x) (hf : ∀ blk, (f blk).returns = blk.returns) :
    (g.change b f).Open x where
  pos := hx.pos
  le := by simpa using hx.le
  stays := (leaves_change hf).trans hx.stays
  isLast := hx.isLast

/-- The block that control is in leaves the function. -/
lemma progress_leave (hg : g.Tidy) (hb : g.Open b) (hf : ∀ blk, (f blk).returns = true) :
    Progress t b g ((g.change b f).withEdge b exit) False := by
  have hself : (g.change b f).leaves b = true :=
    (leaves_change_self f hb.pos hb.le).trans (hf _)
  have hkept : ∀ e : Nat × Nat, e ∈ g.edges → (g.change b f).leaves e.1 = g.leaves e.1 :=
    fun e he => leaves_change_of_ne f (hg.source e he).1 hb.pos (hb.isLast e he)
  have hgrown : Grown b g ((g.change b f).withEdge b exit) := by
    refine Grown.trans (h := g.change b f) ?_ grown_withEdge (.inl rfl)
    exact ⟨by simp, fun _ he => .inl he, fun _ hx _ hne => leaves_change_of_ne f hx hb.pos hne⟩
  refine .of_reached hg hgrown ?_ fun x => ⟨?_, ?_⟩
  · constructor
    · simpa using hg.exit_le
    · intro e he
      obtain he | rfl := mem_edges_withEdge.1 he
      · simpa using hg.source e he
      · simpa using ⟨hb.pos, hb.le⟩
    · intro e he
      obtain he | rfl := mem_edges_withEdge.1 he
      · simpa using hg.target e he
      · simpa using hg.exit_le
    · intro e he
      obtain he | rfl := mem_edges_withEdge.1 he
      · rw [leaves_withEdge, hkept e he, hg.exits e he]
      · exact iff_of_true rfl hself
  · refine Reached.mono fun e he hstay => ?_
    obtain he | rfl := mem_edges_withEdge.1 he
    · exact ⟨he, hkept e he ▸ hstay⟩
    · simp [hself] at hstay
  · exact Reached.mono fun e he hstay =>
      ⟨mem_edges_withEdge.2 (.inl he), (hkept e he).trans hstay⟩

end Change

end TypedScript.FlowGraph
