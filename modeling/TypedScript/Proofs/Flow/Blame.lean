import Mathlib.Data.List.Nodup
import TypedScript.Proofs.Flow.FinallyRules

/-!
# Branches to blame for a missing return

A complaint about a missing return points at branches. They are found backwards, from the blocks
where control falls out of the function up to the nearest branches, and they are listed by
number. Which block the search starts with does not matter.

In the graph of a body, edges from blocks that leave the function go to its end only, and no edge
starts there. So each block on the way back lets control through, and from a listed branch control
can come to the end without a return. When the end can be reached at all, the list misses no branch
from which control can come there without entering another one.
-/
namespace TypedScript.FlowGraph

variable {g h : FlowGraph} {b c x : Nat} {bs cs found : List Nat}

/-! ## The list -/

lemma mem_foldl_insert :
    x ∈ bs.foldl (fun found b => found.insert b) found ↔ x ∈ found ∨ x ∈ bs := by
  induction bs generalizing found with
  | nil => simp
  | cons b bs ih =>
    rw [List.foldl_cons, ih, List.mem_insert_iff, List.mem_cons]
    tauto

lemma nodup_foldl_insert (hfound : found.Nodup) :
    (bs.foldl (fun found b => found.insert b) found).Nodup := by
  induction bs generalizing found with
  | nil => exact hfound
  | cons b bs ih => exact ih hfound.insert

lemma mem_branchesToAny : x ∈ g.branchesToAny bs ↔ ∃ b ∈ bs, x ∈ g.branchesTo b := by
  simp [branchesToAny, mem_foldl_insert]

/-- The branches are in increasing order, so none is there twice. -/
lemma pairwise_branchesToAny (g : FlowGraph) (bs : List Nat) :
    (g.branchesToAny bs).Pairwise (· < ·) := by
  let found : List Nat := (bs.flatMap g.branchesTo).foldl (fun found b => found.insert b) []
  have hsorted : found.mergeSort.Pairwise fun a b => decide (a ≤ b) = true :=
    List.pairwise_mergeSort (by intro a b c; simp; omega) (by intro a b; simp; omega) found
  have hnodup : found.mergeSort.Nodup :=
    (List.mergeSort_perm found _).nodup_iff.2 (nodup_foldl_insert List.nodup_nil)
  exact hsorted.imp₂ (fun a b hle hne => Nat.lt_of_le_of_ne (of_decide_eq_true hle) hne) hnodup

/-- The list depends on the blocks that the search starts with, but not on their order. -/
lemma branchesToAny_congr (hbs : ∀ b, b ∈ bs ↔ b ∈ cs) :
    g.branchesToAny bs = g.branchesToAny cs := by
  have hbs' := g.pairwise_branchesToAny bs
  have hcs' := g.pairwise_branchesToAny cs
  have hmem : ∀ x, x ∈ g.branchesToAny bs ↔ x ∈ g.branchesToAny cs := by
    simp [mem_branchesToAny, hbs]
  have hperm : (g.branchesToAny bs).Perm (g.branchesToAny cs) :=
    (List.perm_ext_iff_of_nodup (hbs'.imp Nat.ne_of_lt) (hcs'.imp Nat.ne_of_lt)).2 hmem
  exact hperm.eq_of_pairwise (fun a b _ _ hab hba => absurd hab (Nat.lt_asymm hba)) hbs' hcs'

/-! ## The graph of a body -/

/-- No edge starts at the end of the function. The edges from blocks that leave it go there, and
of the other blocks at most one has such an edge. -/
structure Finished (g : FlowGraph) : Prop where
  source : ∀ e : Nat × Nat, e ∈ g.edges → 0 < e.1 ∧ e.1 ≤ g.size ∧ e.1 ≠ exit
  leaving : ∀ e : Nat × Nat, e ∈ g.edges → g.leaves e.1 = true → e.2 = exit
  falling : ∀ b c : Nat, exit ∈ g.onward b → exit ∈ g.onward c → b = c

lemma Tidy.finished (hg : g.Tidy) (hlast : ∀ e : Nat × Nat, e ∈ g.edges → e.1 ≠ exit) :
    g.Finished where
  source e he := ⟨(hg.source e he).1, (hg.source e he).2, hlast e he⟩
  leaving e he := (hg.exits e he).2
  falling _ _ hb := absurd hb hg.exit_notMem_onward

/-- Control falls out of the body from the block `x`. -/
lemma Tidy.finished_withEdge (hg : g.Tidy) (hlast : ∀ e : Nat × Nat, e ∈ g.edges → e.1 ≠ exit)
    (hx : g.Passed x) (hne : x ≠ exit) : (g.withEdge x exit).Finished where
  source e he := by
    obtain he | rfl := mem_edges_withEdge.1 he
    · exact (hg.finished hlast).source e he
    · exact ⟨hx.pos, hx.le, hne⟩
  leaving e he hleaves := by
    obtain he | rfl := mem_edges_withEdge.1 he
    · exact (hg.exits e he).2 hleaves
    · rfl
  falling := by
    have honly : ∀ b, exit ∈ (g.withEdge x exit).onward b → b = x := by
      intro b hb
      obtain ⟨hstays, hedge⟩ := mem_onward.1 hb
      obtain hedge | heq := mem_edges_withEdge.1 hedge
      · have hmem : exit ∈ g.onward b := mem_onward.2 ⟨hstays, hedge⟩
        exact absurd hmem hg.exit_notMem_onward
      · exact (Prod.mk.inj heq).1
    intro b c hb hc
    rw [honly b hb, honly c hc]

lemma ensures_finished {place : Option Location} {last : Option Nat} {ends : Ending → Prop}
    (hbody : Built none entry (bare place) h last ends) :
    (Build.join last exit).Ensures h fun _ k => k.Finished := by
  have hsize : (bare place).size = exit := rfl
  have hlast : ∀ e : Nat × Nat, e ∈ h.edges → e.1 ≠ exit := by
    intro e he
    obtain he | heq | hlt := hbody.source e he
    · cases he
    · simp [heq, entry, exit]
    · omega
  rintro s rfl
  cases last with
  | none => exact hbody.tidy.finished hlast
  | some x =>
    have hne : x ≠ exit := by
      obtain rfl | hlt := hbody.place x rfl
      · decide
      · omega
    exact hbody.tidy.finished_withEdge hlast (hbody.isOpen x rfl).toPassed hne

lemma finished_build (body : Option Block) (place : Option Location) :
    (build body place).1.Finished :=
  build_of_built body place fun _ _ hbody => ensures_finished hbody

/-- Short of the end, it makes no difference whether paths go on behind a return. -/
lemma Finished.leads_iff_reached (hg : g.Finished) (hb : b ≠ exit) :
    Leads (fun b => if b = exit then [] else g.successors b) entry b ↔ g.Reached b := by
  constructor
  · intro hpath
    induction hpath with
    | refl => exact .refl
    | @tail x y _ hstep ih =>
      by_cases hx : x = exit
      · simp [hx] at hstep
      · have hedge : (x, y) ∈ g.edges := by simpa [hx, successors] using hstep
        cases hleaves : g.leaves x with
        | true => exact absurd (hg.leaving _ hedge hleaves) hb
        | false => exact (ih hx).step hleaves hedge
  · apply Relation.ReflTransGen.mono
    intro x y hstep
    obtain ⟨-, hedge⟩ := mem_onward.1 hstep
    obtain ⟨-, -, hx⟩ := hg.source _ hedge
    simpa [hx, successors] using hedge

/-- Control falls out of the function from a block that it comes to and that has an edge to the
end. -/
lemma Finished.mem_fallingOff (hg : g.Finished) :
    b ∈ g.fallingOff ↔ g.Reached b ∧ exit ∈ g.onward b := by
  have hdegree : ∀ b : Nat, (if b = exit then [] else g.successors b).length ≤
      (g.successors b).length + (g.predecessors b).length := by
    intro b
    exact length_stop_le (by omega)
  have hsuccessor : exit ∈ g.successors b ↔ (b, exit) ∈ g.edges := by simp [successors]
  by_cases hedge : (b, exit) ∈ g.edges
  · obtain ⟨hpos, hle, hne⟩ := hg.source _ hedge
    have hid : b ∈ g.ids := by
      simp only [ids, List.mem_range'_1, size] at hle ⊢
      omega
    simp [fallingOff, mem_reach_iff hdegree, mem_onward, leaves, hid, hsuccessor, hedge, hne,
      hg.leads_iff_reached hne]
  · simp [fallingOff, mem_onward, hsuccessor, hedge]

/-! ## The way back -/

/-- Control goes on from `x` to `y` and enters no branch. -/
def Within (g : FlowGraph) (x y : Nat) : Prop :=
  y ∈ g.onward x ∧ (g.block y).branch = none

lemma mem_backward : x ∈ g.backward c ↔ (x, c) ∈ g.edges ∧ (g.block c).branch = none := by
  unfold backward predecessors
  cases (g.block c).branch <;> simp

lemma mem_branchesTo :
    x ∈ g.branchesTo b ↔ (g.block x).branch.isSome = true ∧ Leads g.backward b x := by
  have hdegree : ∀ b : Nat,
      (g.backward b).length ≤ (g.successors b).length + (g.predecessors b).length := by
    intro b
    exact length_stop_le (by omega)
  simp [branchesTo, mem_reach_iff hdegree, and_comm]

/-- On the way back from where control falls out of the function, no block leaves it. -/
lemma Finished.leads_backward_iff (hg : g.Finished) (hb : exit ∈ g.onward b) :
    Leads g.backward b x ↔ Relation.ReflTransGen g.Within x b := by
  constructor
  · intro hpath
    -- A block that leaves the function leads to its end, where the way back never comes.
    suffices h : x ≠ exit ∧ Relation.ReflTransGen g.Within x b from h.2
    induction hpath with
    | refl =>
      obtain ⟨-, -, hne⟩ := hg.source _ (mem_onward.1 hb).2
      exact ⟨hne, .refl⟩
    | @tail y x _ hstep ih =>
      obtain ⟨hedge, hbranch⟩ := mem_backward.1 hstep
      obtain ⟨hy, hpath⟩ := ih
      have hstays : g.leaves x = false := by
        by_contra hleaves
        exact hy (hg.leaving _ hedge (by simpa using hleaves))
      obtain ⟨-, -, hne⟩ := hg.source _ hedge
      exact ⟨hne, .head ⟨mem_onward.2 ⟨hstays, hedge⟩, hbranch⟩ hpath⟩
  · intro hpath
    rw [← Relation.reflTransGen_swap] at hpath
    refine Relation.ReflTransGen.mono (fun y x hstep => ?_) _ _ hpath
    exact mem_backward.2 ⟨(mem_onward.1 hstep.1).2, hstep.2⟩

/-! ## Branches to blame -/

/-- Control can come from the branch to the end of the function, with no return and no other
branch on the way. -/
def Blamed (g : FlowGraph) (b : Nat) : Prop :=
  (g.block b).branch.isSome = true ∧
    ∃ x, Relation.ReflTransGen g.Within b x ∧ exit ∈ g.onward x

lemma Blamed.leads (hb : g.Blamed b) :
    Relation.TransGen (fun x y => y ∈ g.onward x) b exit := by
  obtain ⟨-, x, hpath, hexit⟩ := hb
  exact .tail' (Relation.ReflTransGen.mono (fun _ _ hstep => hstep.1) _ _ hpath) hexit

lemma Finished.blamed_of_mem (hg : g.Finished) (hb : b ∈ g.missingReturns) : g.Blamed b := by
  obtain ⟨x, hx, hbranch⟩ := mem_branchesToAny.1 hb
  obtain ⟨-, hexit⟩ := hg.mem_fallingOff.1 hx
  obtain ⟨hbranch, hpath⟩ := mem_branchesTo.1 hbranch
  exact ⟨hbranch, x, (hg.leads_backward_iff hexit).1 hpath, hexit⟩

/-- If control can come to the end at all, then it falls there from the one block that every
branch to blame leads to. -/
lemma Finished.mem_of_blamed (hg : g.Finished) (hreached : g.Reached exit) (hb : g.Blamed b) :
    b ∈ g.missingReturns := by
  obtain ⟨hbranch, x, hpath, hexit⟩ := hb
  have hx : g.Reached x := by
    obtain ⟨y, hy, hstep⟩ := hreached.exists_step (by decide)
    exact hg.falling y x hstep hexit ▸ hy
  exact mem_branchesToAny.2 ⟨x, hg.mem_fallingOff.2 ⟨hx, hexit⟩,
    mem_branchesTo.2 ⟨hbranch, (hg.leads_backward_iff hexit).2 hpath⟩⟩

/-- The branches that a complaint about a missing return points at: from each of them control can
come to the end of the function without a return. They are listed once each and by number, in
whatever order the blocks are taken from which control falls out of the function. When control can
come to the end at all, no branch is missing from which it comes there without entering another. -/
theorem branches_to_blame (body : Option Block) (place : Option Location) :
    let g := (build body place).1
    (∀ b ∈ g.missingReturns, (g.block b).branch.isSome = true ∧
      Relation.TransGen (fun x y => y ∈ g.onward x) b exit) ∧
    g.missingReturns.Nodup ∧ g.missingReturns.Pairwise (· < ·) ∧
    (∀ order : List BlockId, order.Perm g.fallingOff →
      g.branchesToAny order = g.missingReturns) ∧
    (g.allPathsReturn = false → ∀ b, b ∈ g.missingReturns ↔ g.Blamed b) := by
  intro g
  have hg : g.Finished := finished_build body place
  have hsorted := g.pairwise_branchesToAny g.fallingOff
  refine ⟨fun b hb => ?_, hsorted.imp Nat.ne_of_lt, hsorted, fun order horder => ?_,
    fun hpaths b => ?_⟩
  · have hblamed := hg.blamed_of_mem hb
    exact ⟨hblamed.1, hblamed.leads⟩
  · exact branchesToAny_congr fun b => horder.mem_iff
  · exact ⟨hg.blamed_of_mem, hg.mem_of_blamed (allPathsReturn_eq_false.1 hpaths)⟩

/-- A loop that tries until it returns. The handler may break out of the loop; if it does not, the
loop goes on and may end when its condition fails. -/
def retryLoop : Block :=
  let again : Expr := .ident ⟨0, {}⟩ "again"
  ⟨[.whileLoop {} again
      ⟨[.tryStmt {} ⟨[.ret {} (some again)], {}⟩ none
          (some ⟨[.ifStmt {} again ⟨[.breakStmt {}], {}⟩ .empty], {}⟩) none], {}⟩], {}⟩

/-- The handler and the break in it are to blame, the part that returns is not. -/
theorem retry_loop_blamed :
    let g := (build (some retryLoop) none).1
    g.allPathsReturn = false ∧ g.missingReturns = [8, 9] ∧
    (g.block 8).branch = some .catchBranch ∧ (g.block 7).branch = some .tryBranch ∧
    Relation.TransGen (fun x y => y ∈ g.onward x) 8 exit ∧ ¬ g.Blamed 7 := by
  intro g
  obtain ⟨hleads, -, -, -, hexact⟩ := branches_to_blame (some retryLoop) none
  have hpaths : g.allPathsReturn = false := by decide +kernel
  have hfound : g.fallingOff.flatMap g.branchesTo = [9, 8] := by decide +kernel
  have hlist : g.missingReturns = [8, 9] := by
    simp only [missingReturns, branchesToAny, hfound]
    exact List.mergeSort_of_pairwise (by decide)
  refine ⟨hpaths, hlist, by decide +kernel, by decide +kernel, ?_, ?_⟩
  · exact (hleads 8 (by simp [g, hlist])).2
  · rw [← hexact hpaths 7]
    simp [g, hlist]

end TypedScript.FlowGraph
