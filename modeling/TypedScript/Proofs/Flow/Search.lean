import Mathlib.Logic.Relation
import Mathlib.Tactic.Common
import TypedScript.Flow.Graph

/-!
# The search through a flow graph finds what can be reached

The search works off a list of blocks and expands each block once. Every expansion uses
up the edges at the block, so a bound in the number of edges is enough for the search to
come to its end; then it has found exactly the blocks that can be reached.
-/
namespace TypedScript.FlowGraph

variable {g : FlowGraph} {next : BlockId → List BlockId} {work seen : List BlockId}

/-- Steps of `next` lead from `a` to `b`. -/
abbrev Leads (next : BlockId → List BlockId) (a b : BlockId) : Prop :=
  Relation.ReflTransGen (fun x y => y ∈ next x) a b

/-! ## The bound -/

/-- The ends of edges at blocks that were not seen yet. -/
def openEnds (g : FlowGraph) (seen : List BlockId) : Nat :=
  g.edges.countP (fun e => e.1 ∉ seen) + g.edges.countP (fun e => e.2 ∉ seen)

lemma openEnds_nil (g : FlowGraph) : g.openEnds [] = 2 * g.edges.length := by
  simp [openEnds]
  omega

/-- Seeing a block for the first time closes the ends of edges at it, on either side. -/
lemma countP_unseen {b : BlockId} (hb : b ∉ seen) (side : BlockId × BlockId → BlockId)
    (es : List (BlockId × BlockId)) :
    es.countP (fun e => side e ∉ b :: seen) + (es.filter fun e => side e == b).length =
      es.countP fun e => side e ∉ seen := by
  induction es with
  | nil => rfl
  | cons e es ih =>
    rw [List.countP_cons, List.countP_cons, List.filter_cons]
    by_cases hside : side e = b
    · simp [hside, hb] at ih ⊢
      omega
    · simp [hside] at ih ⊢
      omega

lemma openEnds_cons {b : BlockId} (hb : b ∉ seen) :
    g.openEnds (b :: seen) + ((g.successors b).length + (g.predecessors b).length) =
      g.openEnds seen := by
  have hsource := countP_unseen hb Prod.fst g.edges
  have htarget := countP_unseen hb Prod.snd g.edges
  simp only [openEnds, successors, predecessors, List.length_map]
  omega

/-! ## What the search finds -/

lemma mem_search_of_mem_seen {fuel : Nat} {b : BlockId} (hb : b ∈ seen) :
    b ∈ search next fuel work seen := by
  fun_induction search next fuel work seen with
  | case1 => exact hb
  | case2 => exact hb
  | case3 _ _ _ _ _ ih => exact ih hb
  | case4 _ _ _ _ _ ih => exact ih (List.mem_cons_of_mem _ hb)

/-- Whatever is found can be reached. -/
lemma leads_of_mem_search {fuel : Nat} {b : BlockId} (h : b ∈ search next fuel work seen) :
    b ∈ seen ∨ ∃ a ∈ work, Leads next a b := by
  fun_induction search next fuel work seen with
  | case1 => exact .inl h
  | case2 => exact .inl h
  | case3 _ a work _ _ ih =>
    obtain hseen | ⟨c, hc, hcb⟩ := ih h
    · exact .inl hseen
    · exact .inr ⟨c, List.mem_cons_of_mem _ hc, hcb⟩
  | case4 _ a work _ _ ih =>
    obtain hseen | ⟨c, hc, hcb⟩ := ih h
    · obtain rfl | hseen := List.mem_cons.1 hseen
      · exact .inr ⟨b, List.mem_cons_self, .refl⟩
      · exact .inl hseen
    · obtain hc | hc := List.mem_append.1 hc
      · exact .inr ⟨a, List.mem_cons_self, .head hc hcb⟩
      · exact .inr ⟨c, List.mem_cons_of_mem _ hc, hcb⟩

/-- A search that has enough steps finds all of its work, and with a block all that comes
next, if that held of the blocks seen before. -/
lemma search_closed {fuel : Nat}
    (hdegree : ∀ b, (next b).length ≤ (g.successors b).length + (g.predecessors b).length)
    (hfuel : work.length + g.openEnds seen ≤ fuel)
    (hseen : ∀ a ∈ seen, ∀ c ∈ next a, c ∈ seen ∨ c ∈ work) :
    (∀ a ∈ work, a ∈ search next fuel work seen) ∧
      ∀ a ∈ search next fuel work seen, ∀ c ∈ next a, c ∈ search next fuel work seen := by
  fun_induction search next fuel work seen with
  | case1 work seen =>
    obtain rfl : work = [] := List.eq_nil_of_length_eq_zero (by omega)
    exact ⟨fun _ h => absurd h List.not_mem_nil, fun a ha c hc => by simpa using hseen a ha c hc⟩
  | case2 fuel seen =>
    exact ⟨fun _ h => absurd h List.not_mem_nil, fun a ha c hc => by simpa using hseen a ha c hc⟩
  | case3 fuel b work seen hb ih =>
    have hb : b ∈ seen := by simpa using hb
    obtain ⟨hwork, hclosed⟩ := ih (by simp only [List.length_cons] at hfuel; omega) (by
      intro a ha c hc
      obtain h | h := hseen a ha c hc
      · exact .inl h
      · obtain rfl | h := List.mem_cons.1 h
        · exact .inl hb
        · exact .inr h)
    refine ⟨fun a ha => ?_, hclosed⟩
    obtain rfl | ha := List.mem_cons.1 ha
    · exact mem_search_of_mem_seen hb
    · exact hwork a ha
  | case4 fuel b work seen hb ih =>
    have hb : b ∉ seen := by simpa using hb
    have hends := g.openEnds_cons hb
    have hnext := hdegree b
    obtain ⟨hwork, hclosed⟩ := ih
      (by simp only [List.length_cons, List.length_append] at hfuel ⊢; omega) (by
      intro a ha c hc
      obtain rfl | ha := List.mem_cons.1 ha
      · exact .inr (List.mem_append_left _ hc)
      · obtain h | h := hseen a ha c hc
        · exact .inl (List.mem_cons_of_mem _ h)
        · obtain rfl | h := List.mem_cons.1 h
          · exact .inl List.mem_cons_self
          · exact .inr (List.mem_append_right _ h))
    refine ⟨fun a ha => ?_, hclosed⟩
    obtain rfl | ha := List.mem_cons.1 ha
    · exact mem_search_of_mem_seen List.mem_cons_self
    · exact hwork a (List.mem_append_right _ ha)

/-- A search that stops at some blocks has no more to look at than one that goes on. -/
lemma length_stop_le {p : Prop} [Decidable p] {bs : List BlockId} {n : Nat} (hbs : bs.length ≤ n) :
    (if p then [] else bs).length ≤ n := by
  split
  · exact Nat.zero_le n
  · exact hbs

/-- The search along edges, forwards or backwards, finds what can be reached. -/
theorem mem_reach_iff
    (hdegree : ∀ b, (next b).length ≤ (g.successors b).length + (g.predecessors b).length)
    {start : List BlockId} {b : BlockId} :
    b ∈ g.reach next start ↔ ∃ a ∈ start, Leads next a b := by
  have hfuel : start.length + g.openEnds [] ≤ 2 * g.edges.length + start.length + 1 := by
    rw [openEnds_nil]
    omega
  obtain ⟨hstart, hclosed⟩ := search_closed hdegree hfuel (by simp)
  constructor
  · intro h
    exact (leads_of_mem_search h).resolve_left List.not_mem_nil
  · rintro ⟨a, ha, hab⟩
    induction hab with
    | refl => exact hstart a ha
    | tail _ hstep ih => exact hclosed _ ih _ hstep

end TypedScript.FlowGraph
