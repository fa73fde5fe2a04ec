import TypedScript.Checking.Functions
import TypedScript.Proofs.Flow.DeadCode
import TypedScript.Proofs.Keeping.Steps

/-!
# Unreachable code is found exactly

While a graph is built, statements are reported where the block that control would go on in is
missing. It is missing exactly if the statements before cannot end normally: the block where the
parts of a statement join is given up if no edge leads to it, and an edge leads to it exactly if
control falls out of a part or a part breaks to it. So it is enough to follow which waiting blocks
edges lead to, and the reports of a body without finally blocks are those of its dead code.
-/
namespace TypedScript

namespace FlowGraph

variable {g h : FlowGraph} {m x c : Nat} {t : Option JumpTargets}

/-- Some edge leads to the block. -/
def Entered (g : FlowGraph) (m : Nat) : Prop := ∃ e ∈ g.edges, e.2 = m

lemma isEntered_iff : g.isEntered m = true ↔ g.Entered m := by
  simp [isEntered, Entered]

lemma entered_withEdge : (g.withEdge x c).Entered m ↔ g.Entered m ∨ c = m := by
  simp [Entered, withEdge, or_and_right, exists_or]

/-- Edges lead to blocks that were made. -/
structure Sound (g : FlowGraph) : Prop where
  exit_le : exit ≤ g.size
  target_le : ∀ e ∈ g.edges, e.2 ≤ g.size

lemma Sound.not_entered (hg : g.Sound) (hm : g.size < m) : ¬ g.Entered m := by
  rintro ⟨e, he, rfl⟩
  exact absurd (hg.target_le e he) (Nat.not_le_of_lt hm)

lemma Sound.grow (hg : g.Sound) (hedges : h.edges = g.edges) (hsize : g.size ≤ h.size) :
    h.Sound where
  exit_le := Nat.le_trans hg.exit_le hsize
  target_le e he := Nat.le_trans (hg.target_le e (hedges ▸ he)) hsize

lemma Sound.withEdge (hg : g.Sound) (hc : c ≤ g.size) : (g.withEdge x c).Sound where
  exit_le := hg.exit_le
  target_le e he := by
    obtain he | rfl := mem_edges_withEdge.1 he
    · exact hg.target_le e he
    · exact hc

/-- The block is where a continue goes to. -/
def IsContinued (t : Option JumpTargets) (x : Nat) : Prop := ∃ j, t = some j ∧ j.onContinue = some x

/-- The targets of jumps were made. -/
def Holds (g : FlowGraph) (t : Option JumpTargets) : Prop :=
  ∀ x, IsBroken t x ∨ IsContinued t x → x ≤ g.size

/-- A block where the parts of some statement may join. -/
structure Waits (g : FlowGraph) (t : Option JumpTargets) (m : Nat) : Prop where
  exit_lt : exit < m
  le : m ≤ g.size
  not_isContinued : ¬ IsContinued t m

end FlowGraph

open FlowGraph

variable {t u : Option JumpTargets} {r s s' : FlowBuilder} {p q : Prop} {m x c : Nat}
  {found others : List DeadCode} {last other : Option Nat} {ends ends' : Ending → Prop}
  {α β : Type}

/-! ## What is found -/

/-- From `s` to `s'` some steps were built whose jumps go to `t`; they break if `p`. Edges lead to
a waiting block as before or by breaks, and `found` was reported. -/
structure Found (t : Option JumpTargets) (s s' : FlowBuilder) (p : Prop)
    (found : List DeadCode) : Prop where
  sound : s'.graph.Sound
  size_le : s.graph.size ≤ s'.graph.size
  entered : ∀ m, s.graph.Waits t m →
    (s'.graph.Entered m ↔ s.graph.Entered m ∨ p ∧ IsBroken t m)
  unreachable : s'.unreachable = s.unreachable ++ found

namespace Found

lemma refl {t : Option JumpTargets} (hs : s.graph.Sound) : Found t s s False [] where
  sound := hs
  size_le := Nat.le_refl _
  entered m _ := by simp
  unreachable := (List.append_nil _).symm

lemma congr (h : Found t r s p found) (hpq : p ↔ q) (hfound : found = others := by simp) :
    Found t r s q others := hfound ▸ propext hpq ▸ h

lemma waits (h : Found t r s p found) (hm : r.graph.Waits t m) : s.graph.Waits t m :=
  { hm with le := Nat.le_trans hm.le h.size_le }

lemma holds (h : Found t r s p found) (ht : r.graph.Holds u) : s.graph.Holds u :=
  fun x hx => Nat.le_trans (ht x hx) h.size_le

lemma trans (h : Found t r s p found) (h' : Found t s s' q others) :
    Found t r s' (p ∨ q) (found ++ others) where
  sound := h'.sound
  size_le := Nat.le_trans h.size_le h'.size_le
  entered m hm := by rw [h'.entered m (h.waits hm), h.entered m hm, or_and_right, or_assoc]
  unreachable := by rw [h'.unreachable, h.unreachable, List.append_assoc]

/-- Steps whose jumps go to blocks that were made since. -/
lemma inner (h : Found t r s p found) (h' : Found u s s' q others)
    (hu : ∀ x, IsBroken u x ∨ IsContinued u x → r.graph.size < x) :
    Found t r s' p (found ++ others) where
  sound := h'.sound
  size_le := Nat.le_trans h.size_le h'.size_le
  entered m hm := by
    have hold : ¬ (IsBroken u m ∨ IsContinued u m) :=
      fun hx => absurd hm.le (Nat.not_le_of_lt (hu m hx))
    have hwaits : s.graph.Waits u m :=
      ⟨hm.exit_lt, (h.waits hm).le, fun hx => hold (.inr hx)⟩
    rw [h'.entered m hwaits, h.entered m hm]
    exact or_iff_left fun hx => hold (.inl hx.2)
  unreachable := by rw [h'.unreachable, h.unreachable, List.append_assoc]

/-- New blocks, or changes in a block. -/
lemma grow {g : FlowGraph} (h : Found t r s p found) (hedges : g.edges = s.graph.edges)
    (hsize : s.graph.size ≤ g.size) : Found t r { s with graph := g } p found where
  sound := h.sound.grow hedges hsize
  size_le := Nat.le_trans h.size_le hsize
  entered m hm := by
    rw [← h.entered m hm, Entered, Entered, hedges]
  unreachable := h.unreachable

/-- An edge to a block where nothing waits. -/
lemma withEdge (h : Found t r s p found) (hc : c ≤ s.graph.size) (hnot : ¬ r.graph.Waits t c) :
    Found t r { s with graph := s.graph.withEdge x c } p found where
  sound := h.sound.withEdge hc
  size_le := h.size_le
  entered m hm := by
    rw [entered_withEdge, h.entered m hm]
    refine or_iff_left ?_
    rintro rfl
    exact hnot hm
  unreachable := h.unreachable

lemma report (h : Found t r s p found) (codes : List DeadCode) :
    Found t r { s with unreachable := s.unreachable ++ codes } p (found ++ codes) where
  sound := h.sound
  size_le := h.size_le
  entered := h.entered
  unreachable := by rw [h.unreachable, List.append_assoc]

lemma breakOut {j : JumpTargets} (h : Found (some j) r s p found)
    (hle : j.onBreak ≤ s.graph.size) :
    Found (some j) r { s with graph := s.graph.withEdge x j.onBreak } True found where
  sound := h.sound.withEdge hle
  size_le := h.size_le
  entered m hm := by
    have hbroken : IsBroken (some j) m ↔ j.onBreak = m := by simp [IsBroken, eq_comm]
    rw [entered_withEdge, h.entered m hm, hbroken]
    tauto
  unreachable := h.unreachable

end Found

/-! ## Steps of the builder -/

namespace Build

/-- From the builder `s` the steps come to a result and a builder that are related by `Q`. -/
def Gives (steps : Build α) (s : FlowBuilder) (Q : α → FlowBuilder → Prop) : Prop :=
  Q (steps.run s).1 (steps.run s).2

namespace Gives

variable {Q : α → FlowBuilder → Prop} {R : β → FlowBuilder → Prop}

lemma pure {a : α} (ha : Q a s) : Gives (Pure.pure a) s Q := ha

lemma bind {steps : Build α} {rest : α → Build β} (hsteps : steps.Gives s Q)
    (hrest : ∀ a s', Q a s' → (rest a).Gives s' R) : (steps >>= rest).Gives s R :=
  hrest _ _ hsteps

lemma newBlock {blk : FlowBlock} {rest : BlockId → Build β}
    (hrest : (rest (s.graph.size + 1)).Gives { s with graph := s.graph.withBlock blk } R) :
    (newBlock blk >>= rest).Gives s R := by
  have hsize : (s.graph.blocks.push blk).size = s.graph.size + 1 := Array.size_push blk
  show (rest (s.graph.blocks.push blk).size).Gives { s with graph := s.graph.withBlock blk } R
  rwa [hsize]

lemma mono {P : α → FlowBuilder → Prop} {steps : Build α} (hsteps : steps.Gives s P)
    (himp : ∀ a s', P a s' → Q a s') : steps.Gives s Q :=
  himp _ _ hsteps

lemma addEdge {rest : Unit → Build β}
    (hrest : (rest ()).Gives { s with graph := s.graph.withEdge x c } R) :
    (addEdge x c >>= rest).Gives s R := hrest

lemma isReachable {b : Nat} {rest : Bool → Build β}
    (hrest : (rest (s.graph.block b).isReachable).Gives s R) :
    (isReachable b >>= rest).Gives s R := hrest

end Gives

end Build

namespace Found

variable {b : Nat} {R : β → FlowBuilder → Prop}

lemma change {f : FlowBlock → FlowBlock} {rest : Unit → Build β} (h : Found t r s p found)
    (hrest : ∀ s', Found t r s' p found → (rest ()).Gives s' R) :
    (Build.change b f >>= rest).Gives s R :=
  hrest { s with graph := s.graph.change b f } (h.grow rfl (by simp))

/-- An edge to the end of the function, to a new block or back to a loop. -/
lemma addEdge {rest : Unit → Build β} (h : Found t r s p found) (hc : c ≤ s.graph.size)
    (hnot : ¬ r.graph.Waits t c) (hrest : ∀ s', Found t r s' p found → (rest ()).Gives s' R) :
    (Build.addEdge x c >>= rest).Gives s R :=
  .addEdge (hrest _ (h.withEdge hc hnot))

end Found

/-- The steps can end like `ends` and report what is `found`, whatever was built before. -/
def Reports (t : Option JumpTargets) (steps : Build.Steps) (ends : Ending → Prop)
    (found : List DeadCode) : Prop :=
  ∀ s b, s.graph.Sound → s.graph.Holds t → (steps b).Gives s fun last s' =>
    Found t s s' (ends .broken) found ∧ (last.isSome = true ↔ ends .normal)

lemma Reports.congr {steps : Build.Steps} (h : Reports t steps ends found)
    (hends : ∀ e, ends e ↔ ends' e) (hfound : found = others) : Reports t steps ends' others := by
  obtain rfl : ends = ends' := funext fun e => propext (hends e)
  exact hfound ▸ h

/-! ### Simple statements -/

lemma reports_nothing : Reports t (fun b => return some b) (· = .normal) [] :=
  fun _ _ hs _ => .pure ⟨(Found.refl hs).congr (by simp), by simp⟩

lemma reports_append (n : Node) :
    Reports t (fun b => do Build.append b n; return some b) (· = .normal) [] :=
  fun _ _ hs _ => (Found.refl hs).change fun _ h => .pure ⟨h.congr (by simp), by simp⟩

lemma reports_leave (n : Node) (terminator : Terminator) :
    Reports t (fun b => Build.leave b n terminator) (fun _ => False) [] := by
  intro s b hs _
  have hexit : ¬ s.graph.Waits t exit := fun hx => Nat.lt_irrefl _ hx.exit_lt
  exact (Found.refl hs).change fun s' h => h.addEdge h.sound.exit_le hexit fun _ h =>
    .pure ⟨h, by simp⟩

lemma reports_continue {j : JumpTargets} (hc : j.onContinue = some c) (n : Node)
    (terminator : Terminator) :
    Reports (some j) (fun b => Build.jump b n terminator c) (fun _ => False) [] := by
  intro s b hs ht
  have hcontinued : IsContinued (some j) c := ⟨j, rfl, hc⟩
  exact (Found.refl hs).change fun s' h =>
    h.addEdge (Nat.le_trans (ht c (.inr hcontinued)) h.size_le)
      (fun hx => hx.not_isContinued hcontinued) fun _ h => .pure ⟨h, by simp⟩

lemma reports_break {j : JumpTargets} (n : Node) (terminator : Terminator) :
    Reports (some j) (fun b => Build.jump b n terminator j.onBreak) (· = .broken) [] := by
  intro s b hs ht
  have hle := ht j.onBreak (.inl ⟨j, rfl, rfl⟩)
  refine (Found.refl (t := some j) hs).change fun s' h => ?_
  exact .addEdge (.pure ⟨(h.breakOut (Nat.le_trans hle h.size_le)).congr (by simp), by simp⟩)

/-! ### Where branches join -/

/-- A statement that is built since `r`; its parts join at the new block `m`, which edges lead to
if `q`. -/
structure Waiting (t : Option JumpTargets) (r s : FlowBuilder) (p : Prop)
    (found : List DeadCode) (m : Nat) (q : Prop) : Prop extends Found t r s p found where
  exit_lt : exit < m
  isNew : r.graph.size < m
  le : m ≤ s.graph.size
  holds : r.graph.Holds t
  entered_iff : s.graph.Entered m ↔ q

/-- A new block with an edge to it. -/
lemma Found.sprout {blk : FlowBlock} {rest : Nat → Build α} {Q : α → FlowBuilder → Prop}
    (h : Found t r s p found) (hrest : ∀ s', Found t r s' p found →
      s'.graph.size = s.graph.size + 1 → (rest (s.graph.size + 1)).Gives s' Q) :
    (Build.newBlock blk >>= fun y => Build.addEdge x y >>= fun _ => rest y).Gives s Q := by
  have hgrown := h.grow (g := s.graph.withBlock blk) rfl (by simp)
  have hnew : ¬ r.graph.Waits t (s.graph.size + 1) :=
    fun hx => absurd hx.le (Nat.not_le_of_lt (Nat.lt_succ_of_le h.size_le))
  exact .newBlock (hrest _ (hgrown.withEdge (by simp) hnew) (size_withBlock blk))

/-- A branch of a statement starts in a block of its own. -/
lemma Reports.inBranch {stmt : Node} {kind : BranchKind} {part : Build.Branch}
    (hpart : Reports t part.steps ends found) :
    Reports t (fun b => Build.inBranch b stmt kind part) ends found := by
  intro s b hs ht
  have hbranch : (Build.branch b part.place kind stmt).Gives s fun _ s' => Found t s s' False [] :=
    .isReachable ((Found.refl hs).sprout fun _ h _ => .pure h)
  refine hbranch.bind fun start s' h => (hpart s' start h.sound (h.holds ht)).mono
    fun last s'' h' => ?_
  exact ⟨(h.trans h'.1).congr (by simp), h'.2⟩

/-- The block where branches join is made before or after they are. -/
lemma Found.waiting (h : Found t r s p found) (hr : r.graph.Sound) (ht : r.graph.Holds t)
    {blk : FlowBlock} {rest : Nat → Build α} {Q : α → FlowBuilder → Prop}
    (hrest : ∀ s' m, Waiting t r s' p found m False → s.graph.size < m → (rest m).Gives s' Q) :
    (Build.newBlock blk >>= rest).Gives s Q := by
  refine .newBlock (hrest _ _ ?_ (Nat.lt_succ_self _))
  have hnew : r.graph.size < s.graph.size + 1 := Nat.lt_succ_of_le h.size_le
  exact
    { toFound := h.grow rfl (by simp)
      exit_lt := Nat.lt_of_le_of_lt hr.exit_le hnew
      isNew := hnew
      le := by simp
      holds := ht
      entered_iff := iff_of_false (h.sound.not_entered (Nat.lt_succ_self _)) id }

namespace Waiting

variable {Q : α → FlowBuilder → Prop}

lemma congr (h : Waiting t r s p found m q) {q' : Prop} (hq : q ↔ q') :
    Waiting t r s p found m q' := propext hq ▸ h

lemma not_target (h : Waiting t r s p found m q) : ¬ (IsBroken t m ∨ IsContinued t m) :=
  fun hx => absurd (h.holds m hx) (Nat.not_le_of_lt h.isNew)

/-- A part whose jumps go where those of the statement go. -/
lemma outer (h : Waiting t r s p found m q) {p' : Prop} (h' : Found t s s' p' others) :
    Waiting t r s' (p ∨ p') (found ++ others) m q where
  toFound := h.toFound.trans h'
  exit_lt := h.exit_lt
  isNew := h.isNew
  le := Nat.le_trans h.le h'.size_le
  holds := h.holds
  entered_iff := by
    rw [h'.entered m ⟨h.exit_lt, h.le, fun hx => h.not_target (.inr hx)⟩, h.entered_iff]
    exact or_iff_left fun hx => h.not_target (.inl hx.2)

/-- A part whose breaks go to where the parts join. -/
lemma inner (h : Waiting t r s p found m q) {p' : Prop} {onContinue : Option Nat}
    (h' : Found (some ⟨m, onContinue⟩) s s' p' others)
    (hheader : ∀ c, onContinue = some c → r.graph.size < c ∧ c ≠ m) :
    Waiting t r s' p (found ++ others) m (q ∨ p') where
  toFound := by
    refine h.toFound.inner h' ?_
    rintro x (⟨j, hj, rfl⟩ | ⟨j, hj, hx⟩)
    · exact Option.some.inj hj ▸ h.isNew
    · obtain rfl := Option.some.inj hj
      exact (hheader x hx).1
  exit_lt := h.exit_lt
  isNew := h.isNew
  le := Nat.le_trans h.le h'.size_le
  holds := h.holds
  entered_iff := by
    have hnot : ¬ IsContinued (some ⟨m, onContinue⟩) m := by
      rintro ⟨j, hj, hx⟩
      obtain rfl := Option.some.inj hj
      exact (hheader m hx).2 rfl
    rw [h'.entered m ⟨h.exit_lt, h.le, hnot⟩, h.entered_iff]
    simp [IsBroken]

/-- An edge to a new block. -/
lemma withEdge (h : Waiting t r s p found m q) (hnew : r.graph.size < c)
    (hc : c ≤ s.graph.size) :
    Waiting t r { s with graph := s.graph.withEdge x c } p found m (q ∨ c = m) where
  toFound := h.toFound.withEdge hc fun hx => absurd hx.le (Nat.not_le_of_lt hnew)
  exit_lt := h.exit_lt
  isNew := h.isNew
  le := h.le
  holds := h.holds
  entered_iff := by rw [entered_withEdge, h.entered_iff]

lemma skip {rest : Unit → Build α} (h : Waiting t r s p found m q)
    (hrest : ∀ s', Waiting t r s' p found m True → (rest ()).Gives s' Q) :
    (Build.addEdge x m >>= rest).Gives s Q :=
  .addEdge (hrest _ ((h.withEdge h.isNew h.le).congr (by simp)))

lemma join {rest : Unit → Build α} (h : Waiting t r s p found m q)
    (hrest : ∀ s', Waiting t r s' p found m (q ∨ last.isSome = true) → (rest ()).Gives s' Q) :
    (Build.join last m >>= rest).Gives s Q := by
  cases last with
  | none => exact hrest s (h.congr (by simp))
  | some x => exact h.skip fun s' h => hrest s' (h.congr (by simp))

/-- All parts have joined. -/
lemma gives_entered (h : Waiting t r s p found m q) :
    (Build.entered m).Gives s fun last s' =>
      Found t r s' p found ∧ (last.isSome = true ↔ q) := by
  have hresult : (Build.entered m).run s =
      (if s.graph.isEntered m = true then some m else none,
        { s with graph := s.graph.change m fun blk =>
          { blk with isReachable := s.graph.isEntered m } }) := rfl
  rw [Build.Gives, hresult]
  refine ⟨h.toFound.grow rfl (by simp), ?_⟩
  rw [← h.entered_iff, ← isEntered_iff]
  cases s.graph.isEntered m <;> simp

end Waiting

/-! ## Statements with parts -/

section Parts

variable {stmt : Node} {l place place' : Location} {yes no tried : Build.Steps}

lemma reports_if (hyes : Reports t yes ends found) :
    Reports t (Build.ifStmt stmt l ⟨place, yes⟩ none) (fun e => ends e ∨ e = .normal) found := by
  intro s b hs ht
  refine (Found.refl (t := t) hs).change fun s₁ h₁ => ?_
  refine (hyes.inBranch s₁ b h₁.sound (h₁.holds ht)).bind fun last s₂ h₂ => ?_
  refine (h₁.trans h₂.1).waiting hs ht fun _ _ h₃ _ => h₃.join fun _ h₄ => h₄.skip fun _ h₅ => ?_
  exact .pure ⟨h₅.toFound.congr (by simp), by simp⟩

lemma reports_ifElse (hyes : Reports t yes ends found) (hno : Reports t no ends' others) :
    Reports t (Build.ifStmt stmt l ⟨place, yes⟩ (some ⟨place', no⟩)) (fun e => ends e ∨ ends' e)
      (found ++ others) := by
  intro s b hs ht
  refine (Found.refl (t := t) hs).change fun s₁ h₁ => ?_
  refine (hyes.inBranch s₁ b h₁.sound (h₁.holds ht)).bind fun last s₂ h₂ => ?_
  have hboth := h₁.trans h₂.1
  refine (hno.inBranch s₂ b hboth.sound (hboth.holds ht)).bind fun other s₃ h₃ => ?_
  refine (hboth.trans h₃.1).waiting hs ht fun _ _ h₄ _ => h₄.join fun _ h₅ => h₅.join fun _ h₆ => ?_
  refine h₆.gives_entered.mono fun _ _ h₇ => ⟨h₇.1.congr (by simp), ?_⟩
  rw [h₇.2, h₂.2, h₃.2, false_or]

/-- An optional part, with how it can end and what it reports. -/
inductive ReportsPart (t : Option JumpTargets) :
    Option Build.Branch → Option (Ending → Prop) → List DeadCode → Prop
  | none : ReportsPart t none none []
  | some {part : Build.Branch} {ends : Ending → Prop} {found : List DeadCode} :
      Reports t part.steps ends found → ReportsPart t (some part) (some ends) found

/-- A try statement without a finally block. -/
lemma reports_try {handler : Option Build.Branch} {caught : Option (Ending → Prop)}
    (htried : Reports t tried ends found) (hcaught : ReportsPart t handler caught others) :
    Reports t (Build.tryStmt stmt l ⟨place, tried⟩ handler none)
      (fun e => ends e ∨ ∃ f ∈ caught, f e) (found ++ others) := by
  intro s b hs ht
  refine Build.Gives.bind (Q := fun last s' => Found t s s' (ends .broken ∨ ∃ f ∈ caught, f .broken)
    (found ++ others) ∧ (last.isSome = true ↔ ends .normal ∨ ∃ f ∈ caught, f .normal)) ?_
    fun _ _ h => .pure h
  refine (Found.refl (t := t) hs).change fun s₁ h₁ => h₁.waiting hs ht fun s₂ m h₂ _ => ?_
  refine (htried.inBranch s₂ b h₂.sound (h₂.toFound.holds ht)).bind fun last s₃ h₃ => ?_
  refine (h₂.outer h₃.1).join fun s₄ h₄ => ?_
  cases hcaught with
  | none =>
    refine h₄.gives_entered.mono fun _ _ h₅ => ⟨h₅.1.congr (by simp), ?_⟩
    simp [h₅.2, h₃.2]
  | some hcaught =>
    refine (hcaught.inBranch s₄ b h₄.sound (h₄.toFound.holds ht)).bind fun other s₅ h₅ => ?_
    refine (h₄.outer h₅.1).join fun s₆ h₆ => ?_
    refine h₆.gives_entered.mono fun _ _ h₇ => ⟨h₇.1.congr (by simp), ?_⟩
    simp [h₇.2, h₃.2, h₅.2]

/-! ### Switches -/

/-- Each clause of a switch is a branch, and its breaks go to where the branches join. -/
lemma gives_clauses {b : Nat} {cs : List (JumpTargets → Build.Branch)}
    {es : List ((Ending → Prop) × List DeadCode)}
    (hcs : List.Forall₂ (fun c e => ∀ j : JumpTargets, j.onContinue = none →
      Reports (some j) (c j).steps e.1 e.2) cs es) :
    ∀ {s q found}, Waiting t r s p found m q → (Build.clauses stmt m cs b).Gives s fun _ s' =>
      Waiting t r s' p (found ++ es.flatMap Prod.snd) m
        (q ∨ ∃ e ∈ es, e.1 .broken ∨ e.1 .normal) := by
  induction hcs with
  | nil =>
    intro s q found h
    exact .pure (by simpa using h)
  | @cons c e cs es hc _ ih =>
    intro s q found h
    have hholds : s.graph.Holds (some ⟨m, none⟩) := by
      rintro x (⟨j, hj, rfl⟩ | ⟨j, hj, hx⟩)
      · exact Option.some.inj hj ▸ h.le
      · cases hj
        cases hx
    refine ((hc ⟨m, none⟩ rfl).inBranch s b h.sound hholds).bind fun last s' h' => ?_
    refine (h.inner h'.1 nofun).join fun s'' h'' => (ih h'').mono fun _ _ hdone => ?_
    rw [List.append_assoc] at hdone
    refine hdone.congr ?_
    simp [h'.2, or_assoc]

lemma reports_switch {cs : List (JumpTargets → Build.Branch)}
    {es : List ((Ending → Prop) × List DeadCode)} {hasDefault : Bool}
    (hcs : List.Forall₂ (fun c e => ∀ j : JumpTargets, j.onContinue = none →
      Reports (some j) (c j).steps e.1 e.2) cs es) :
    Reports t (Build.switch stmt l hasDefault cs)
      (fun e => e = .normal ∧ (hasDefault = false ∨ ∃ f ∈ es, f.1 .broken ∨ f.1 .normal))
      (es.flatMap Prod.snd) := by
  intro s b hs ht
  refine (Found.refl (t := t) hs).change fun s₁ h₁ => h₁.waiting hs ht fun s₂ m h₂ _ => ?_
  refine (gives_clauses hcs h₂).bind fun _ s₃ h₃ => ?_
  cases hasDefault with
  | false =>
    exact h₃.skip fun s₄ h₄ => h₄.gives_entered.mono fun _ _ h₅ =>
      ⟨h₅.1.congr (by simp), h₅.2.trans (by simp)⟩
  | true => exact h₃.gives_entered.mono fun _ _ h₄ => ⟨h₄.1.congr (by simp), h₄.2.trans (by simp)⟩

/-! ### Loops -/

/-- Behind the body of a loop control comes to the header again. -/
lemma Waiting.gives_body {header : Nat} {body : Build.Steps} (start : Nat)
    (h : Waiting t r s p found m q) (hnew : r.graph.size < header) (hle : header ≤ s.graph.size)
    (hne : header ≠ m) (hbody : Reports (some ⟨m, some header⟩) body ends others) :
    Build.Gives (do Build.join (← body start) header; Build.entered m) s fun last s' =>
      Found t r s' p (found ++ others) ∧ (last.isSome = true ↔ q ∨ ends .broken) := by
  have hholds : s.graph.Holds (some ⟨m, some header⟩) := by
    rintro x (⟨j, hj, rfl⟩ | ⟨j, hj, hx⟩)
    · exact Option.some.inj hj ▸ h.le
    · cases hj
      cases hx
      exact hle
  refine (hbody s start h.sound hholds).bind fun last s' h' => ?_
  have hdone := h.inner h'.1 fun c hc => Option.some.inj hc ▸ ⟨hnew, hne⟩
  cases last with
  | none => exact hdone.gives_entered
  | some x =>
    have hback := hdone.withEdge (x := x) hnew (Nat.le_trans hle h'.1.size_le)
    exact (hback.congr (or_iff_left hne)).gives_entered

lemma reports_loop {infinite : Bool} {body : JumpTargets → Build.Steps}
    (hbody : ∀ j : JumpTargets, j.onContinue.isSome = true → Reports (some j) (body j) ends found) :
    Reports t (Build.loop l place infinite body)
      (fun e => e = .normal ∧ (infinite = false ∨ ends .broken)) found := by
  intro s b hs ht
  refine .isReachable ((Found.refl (t := t) hs).sprout fun s₁ h₁ hsize₁ => ?_)
  refine h₁.sprout fun s₂ h₂ hsize₂ => h₂.waiting hs ht fun s₃ m h₃ hm => ?_
  have hnew : s.graph.size < s.graph.size + 1 := Nat.lt_succ_self _
  have hle : s.graph.size + 1 < m := by omega
  have hdone := fun (s₄ : FlowBuilder) (q : Prop) (h₄ : Waiting t s s₄ False [] m q) =>
    h₄.gives_body (s₁.graph.size + 1) hnew
      (Nat.le_trans (Nat.le_of_lt hle) h₄.le) (Nat.ne_of_lt hle) (hbody ⟨m, some _⟩ rfl)
  cases infinite with
  | true => exact (hdone s₃ False h₃).mono fun _ _ h => ⟨h.1.congr (by simp), h.2.trans (by simp)⟩
  | false =>
    exact h₃.skip fun s₄ h₄ => (hdone s₄ True h₄).mono fun _ _ h =>
      ⟨h.1.congr (by simp), h.2.trans (by simp)⟩

end Parts

/-! ## Rows of statements -/

section Rows

variable {n : Node} {ns : List Node} {first rest : Build.Steps}

lemma reports_declaration (hn : n.isDeclaration = true) (hrest : Reports t rest ends found) :
    Reports t (Build.andThen n ns first rest) ends found := by
  intro s b hs ht
  unfold Build.andThen
  rw [if_pos hn]
  refine (Found.refl (t := t) hs).change fun s₁ h₁ => ?_
  exact (hrest s₁ b h₁.sound (h₁.holds ht)).mono fun _ _ h₂ =>
    ⟨(h₁.trans h₂.1).congr (by simp), h₂.2⟩

/-- Behind a statement that control never passes the rest is reported. -/
lemma reports_andThen {os : Completions} (hn : n.isDeclaration = false)
    (hfirst : Reports t first os.Ends found) (hrest : Reports t rest ends others) :
    Reports t (Build.andThen n ns first rest)
      (fun e => os.Ends .normal ∧ ends e ∨ e = .broken ∧ os.Ends .broken)
      (found ++ if os .normal then others else (deadCode? ns).toList) := by
  intro s b hs ht
  unfold Build.andThen
  rw [if_neg (by simp [hn])]
  refine (hfirst s b hs ht).bind fun last s' h => ?_
  cases last with
  | some x =>
    have hnormal : os.Ends .normal := h.2.1 rfl
    refine (hrest s' x h.1.sound (h.1.holds ht)).mono fun _ _ h' => ⟨?_, ?_⟩
    · refine (h.1.trans h'.1).congr ?_ (congrArg _ (if_pos hnormal).symm)
      simp [hnormal, or_comm]
    · simp [h'.2, hnormal]
  | none =>
    have hnormal : ¬ os.Ends .normal := fun hnormal => nomatch h.2.2 hnormal
    have hreport : (Build.reportUnreachable ns).Gives s' fun _ s'' => s'' =
        { s' with unreachable := s'.unreachable ++ (deadCode? ns).toList } := by
      unfold Build.reportUnreachable
      cases deadCode? ns with
      | none => exact .pure (by simp)
      | some code => rfl
    refine hreport.bind ?_
    rintro _ _ rfl
    refine .pure ⟨(h.1.report _).congr (by simp [hnormal]) (congrArg _ (if_neg hnormal).symm), ?_⟩
    simp [hnormal]

end Rows

/-! ## Bodies without finally blocks -/

namespace Flow

open Completions

variable {n : Node} {l : Location}

lemma reports_straight (hn : n.isStraight = true) :
    Reports t (Build.node t n) (n.completions behind (JumpTargets.kind? t)).Ends [] := by
  have hends : ∀ e, e = .normal ↔ (n.completions behind (JumpTargets.kind? t)).Ends e := by
    intro e
    rw [← ends_normal]
    cases n <;> first | rfl | simp [Node.isStraight] at hn
  cases n with
  | empty => exact reports_nothing.congr hends rfl
  | varDecl | exprStmt | function | classDecl | interfaceDecl | enumDecl | aliasDecl | field
  | method | expr | typeNode => exact (reports_append _).congr hends rfl
  | _ => cases hn

lemma reports_breakStmt : Reports t (Build.node t (.breakStmt l))
    ((Node.breakStmt l).completions behind (JumpTargets.kind? t)).Ends [] := by
  obtain _ | ⟨after, _ | header⟩ := t
  · exact reports_nothing.congr (fun _ => ends_normal.symm) rfl
  · exact (reports_break (.breakStmt l) .break).congr (fun _ => ends_broken.symm) rfl
  · exact (reports_break (.breakStmt l) .break).congr (fun _ => ends_broken.symm) rfl

lemma reports_continueStmt : Reports t (Build.node t (.continueStmt l))
    ((Node.continueStmt l).completions behind (JumpTargets.kind? t)).Ends [] := by
  obtain _ | ⟨after, _ | header⟩ := t
  · exact reports_nothing.congr (fun _ => ends_normal.symm) rfl
  · exact reports_nothing.congr (fun _ => ends_normal.symm) rfl
  · exact (reports_continue rfl (.continueStmt l) .continue).congr
      (fun _ => false_iff_ends .continued (by decide) (by decide)) rfl

lemma reports_ifStmt {c : Expr} {b : Block} {body : Completions}
    (hbody : Reports t (Build.block t b) body.Ends found)
    (hn : Reports t (Build.node t n) (n.completions behind (JumpTargets.kind? t)).Ends
      ((n.deadRuns (JumpTargets.kind? t)).map Prod.snd)) :
    Reports t (Build.node t (.ifStmt l c b n))
      (Completions.Ends fun o => body o || n.completions behind (JumpTargets.kind? t) o)
      (found ++ (n.deadRuns (JumpTargets.kind? t)).map Prod.snd) := by
  cases hempty : n.isEmpty with
  | true =>
    obtain rfl : n = .empty := by cases n <;> first | rfl | cases hempty
    exact (reports_if hbody).congr (by simp [← ends_normal, Ends, Node.completions])
      (List.append_nil _).symm
  | false =>
    have hsteps : Build.node t (.ifStmt l c b n) = Build.ifStmt (.ifStmt l c b n) l
        ⟨b.location, Build.block t b⟩ (some ⟨n.location, Build.node t n⟩) := by
      simp [Build.node, hempty]
    rw [hsteps]
    exact (reports_ifElse hbody hn).congr (by simp [Ends]) rfl

lemma reports_row {ns : List Node} {others : Completions} {i : Nat}
    (hn : Reports t (Build.node t n) (n.completions behind (JumpTargets.kind? t)).Ends
      ((n.deadRuns (JumpTargets.kind? t)).map Prod.snd))
    (hns : Reports t (Build.nodes t ns) others.Ends
      ((Node.rowDeadRuns (JumpTargets.kind? t) (i + 1) ns).map Prod.snd)) :
    Reports t (Build.nodes t (n :: ns))
      ((n.completions behind (JumpTargets.kind? t)).andThen others).Ends
      ((Node.rowDeadRuns (JumpTargets.kind? t) i (n :: ns)).map Prod.snd) := by
  cases hdecl : n.isDeclaration with
  | true =>
    have hnormal : n.completions behind (JumpTargets.kind? t) = (· == .normal) := by
      cases n <;> first | rfl | cases hdecl
    have hruns : n.deadRuns (JumpTargets.kind? t) = [] := by
      cases n <;> first | rfl | cases hdecl
    exact (reports_declaration hdecl hns).congr (by simp [hnormal])
      (by simp [Node.rowDeadRuns, hnormal, hruns, DeadRuns.under])
  | false =>
    refine (reports_andThen hdecl hn hns).congr (fun _ => ends_andThen.symm) ?_
    rw [Node.rowDeadRuns, List.map_append, DeadRuns.codes_under, apply_ite (List.map Prod.snd)]
    simp [Function.comp_def]

mutual

/-- Building a statement reports the dead code in it. -/
theorem reports_node : (n : Node) → (t : Option JumpTargets) → n.isFinallyFree = true →
    Reports t (Build.node t n) (n.completions behind (JumpTargets.kind? t)).Ends
      ((n.deadRuns (JumpTargets.kind? t)).map Prod.snd)
  | .ret l x, _, _ => (reports_leave (.ret l x) .ret).congr
      (fun _ => false_iff_ends .returned (by decide) (by decide)) rfl
  | .throwStmt l x, _, _ => (reports_leave (.throwStmt l x) .throw).congr
      (fun _ => false_iff_ends .thrown (by decide) (by decide)) rfl
  | .breakStmt _, _, _ => reports_breakStmt
  | .continueStmt _, _, _ => reports_continueStmt
  | .block b, t, hfree => reports_body b t hfree
  | .ifStmt l c b n, t, hfree => by
    obtain ⟨hbody, hn⟩ := Bool.and_eq_true_iff.1 hfree
    exact (reports_ifStmt (reports_body b t hbody) (reports_node n t hn)).congr (fun _ => .rfl)
      (by simp [Node.deadRuns])
  | .whileLoop l c b, t, hfree => (reports_loop (reports_loopBody b hfree)).congr
      (by simp [Node.completions]) (by simp [Node.deadRuns])
  | .forLoop l _ c _ b, t, hfree => (reports_loop (reports_loopBody b hfree)).congr
      (by simp [Node.completions]) (by simp [Node.deadRuns])
  | .forOf l _ _ b, t, hfree => (reports_loop (reports_loopBody b hfree)).congr
      (by simp [Node.completions]) (by simp [Node.deadRuns])
  | .switch l x cs, t, hfree => (reports_switch (reports_clauses cs hfree)).congr (by
      simp [Node.completions, SwitchClause.ends_completions, and_or_left, exists_or])
      (by simp [Node.deadRuns, SwitchClause.codes_deadRuns, List.flatMap_map])
  | .tryStmt l b p handler final, t, hfree => by
    simp only [Node.isFinallyFree, Bool.and_eq_true, Option.isNone_iff_eq_none] at hfree
    obtain ⟨⟨hbody, hhandler⟩, rfl⟩ := hfree
    exact (reports_try (reports_body b t hbody) (reports_part handler t hhandler)).congr
      (fun _ => ends_attempt.symm) (by simp [Node.deadRuns])
  | .empty, _, _ | .varDecl .., _, _ | .exprStmt .., _, _ | .function .., _, _
  | .classDecl .., _, _ | .interfaceDecl .., _, _ | .enumDecl .., _, _ | .aliasDecl .., _, _
  | .field .., _, _ | .method .., _, _ | .expr .., _, _ | .typeNode .., _, _ =>
    reports_straight rfl
termination_by structural n => n

theorem reports_body : (b : Block) → (t : Option JumpTargets) → b.isFinallyFree = true →
    Reports t (Build.block t b) (b.completions behind (JumpTargets.kind? t)).Ends
      ((b.deadRuns (JumpTargets.kind? t)).map Prod.snd)
  | ⟨ns, _⟩, t, hfree => reports_nodes ns t 0 hfree
termination_by structural b => b

theorem reports_loopBody : (b : Block) → b.isFinallyFree = true → (j : JumpTargets) →
    j.onContinue.isSome = true → Reports (some j) (Build.block (some j) b)
      (b.completions behind (some .loop)).Ends ((b.deadRuns (some .loop)).map Prod.snd)
  | ⟨ns, _⟩, hfree, ⟨after, some header⟩, _ => reports_nodes ns (some ⟨after, some header⟩) 0 hfree
termination_by structural b => b

theorem reports_part : (b : Option Block) → (t : Option JumpTargets) →
    Block.isFinallyFree? b = true → ReportsPart t (Build.block? t b)
      ((Block.completions? behind (JumpTargets.kind? t) b).map Ends)
      ((Block.deadRuns? (JumpTargets.kind? t) b).map Prod.snd)
  | none, _, _ => .none
  | some b, t, hfree => .some (reports_body b t hfree)
termination_by structural b => b

theorem reports_nodes : (ns : List Node) → (t : Option JumpTargets) → (i : Nat) →
    Node.areFinallyFree ns = true →
    Reports t (Build.nodes t ns) (Node.rowCompletions behind (JumpTargets.kind? t) ns).Ends
      ((Node.rowDeadRuns (JumpTargets.kind? t) i ns).map Prod.snd)
  | [], _, _, _ => reports_nothing.congr (fun _ => ends_normal.symm) rfl
  | n :: ns, t, i, hfree =>
    have hparts := Bool.and_eq_true_iff.1 hfree
    reports_row (reports_node n t hparts.1) (reports_nodes ns t (i + 1) hparts.2)
termination_by structural ns => ns

theorem reports_clauses : (cs : List SwitchClause) → SwitchClause.areFinallyFree cs = true →
    List.Forall₂ (fun c e => ∀ j : JumpTargets, j.onContinue = none →
      Reports (some j) (c j).steps e.1 e.2) (Build.clauseBranches cs)
      (cs.map fun c => ((c.body.completions behind (some .switch)).Ends,
        (c.body.deadRuns (some .switch)).map Prod.snd))
  | [], _ => .nil
  | ⟨_, b⟩ :: cs, hfree => .cons (fun j hj => by
      obtain ⟨after, c⟩ := j
      cases hj
      exact reports_body b (some ⟨after, none⟩) (Bool.and_eq_true_iff.1 hfree).1)
      (reports_clauses cs (Bool.and_eq_true_iff.1 hfree).2)
termination_by structural cs => cs

end

end Flow

/-! ## The warnings -/

namespace FlowGraph

/-- What is found of a body is its dead code. -/
lemma unreachable_build {body : Block} (hfree : body.isFinallyFree = true)
    (place : Option Location) :
    (build (some body) place).2 = (body.deadRuns none).map Prod.snd := by
  have hstart (first last : FlowBlock) :
      ((({} : FlowGraph).withBlock first).withBlock last).Sound := ⟨Nat.le_refl _, nofun⟩
  have hholds (g : FlowGraph) : g.Holds none := by
    rintro x (⟨j, hj, -⟩ | ⟨j, hj, -⟩) <;> cases hj
  have hbuild : Build.Gives (do
      let first ← Build.newBlock { isReachable := true, location := place }
      let last ← Build.newBlock {}
      Build.join (← Build.block none body first) last) {} fun _ s =>
        s.unreachable = (body.deadRuns none).map Prod.snd := by
    refine .newBlock (.newBlock ?_)
    refine (Flow.reports_body body none hfree _ _ (hstart _ _) (hholds _)).bind fun last s h => ?_
    cases last with
    | none => exact h.1.unreachable
    | some x => exact h.1.unreachable
  exact hbuild

end FlowGraph

namespace Diagnostic

lemma unreachableCode_eq (file : String) (place : Location) :
    unreachableCode file place =
      { (warning "unreachable code").withCode Code.unreachableCode with
        file
        labels := [⟨true, some place, "this code will never execute"⟩]
        help := "remove this code or restructure control flow" } := rfl

lemma inFile_unreachableCode (file : String) (place : Location) :
    (unreachableCode file place).inFile file = unreachableCode file place := by
  rw [unreachableCode_eq, inFile]
  split <;> rfl

lemma code_inFile (d : Diagnostic) (file : String) : (d.inFile file).code = d.code := by
  unfold inFile
  split <;> rfl

end Diagnostic

namespace Rule

open FlowGraph

lemma reportUnreachable_cons (code : DeadCode) (codes : List DeadCode) (s : Session) :
    reportUnreachable (code :: codes) s =
      if code.last.isEmpty then (.error (.misuse .absentNode), s)
      else reportUnreachable codes
        ((s.trace .orange ("    unreachable code in " ++ s.options.file)).report
          (.unreachableCode s.options.file code.place)) := by
  cases hlast : code.last.isEmpty with
  | false => simp only [reportUnreachable, hlast]; rfl
  | true => simp only [reportUnreachable, hlast]; rfl

lemma run_reportUnreachable {codes : List DeadCode}
    (hcodes : ∀ code ∈ codes, code.last.isEmpty = false) (s : Session) :
    ∃ u, reportUnreachable codes s = (.ok (), u) ∧ u.options = s.options ∧
      u.reports.toList = s.reports.toList ++
        codes.map fun code => .unreachableCode s.options.file code.place := by
  induction codes generalizing s with
  | nil => exact ⟨s, rfl, rfl, by simp⟩
  | cons code codes ih =>
    obtain ⟨hcode, hcodes⟩ := List.forall_mem_cons.1 hcodes
    obtain ⟨u, hrun, hoptions, hreports⟩ := ih hcodes
      ((s.trace .orange ("    unreachable code in " ++ s.options.file)).report
        (.unreachableCode s.options.file code.place))
    rw [reportUnreachable_cons, hcode, if_neg Bool.false_ne_true]
    refine ⟨u, hrun, hoptions, ?_⟩
    rw [hreports]
    simp [Session.report, Session.trace, Diagnostic.inFile_unreachableCode]

/-- Dead code whose end is absent has no place. -/
lemma run_reportUnreachable_absent {codes : List DeadCode}
    (hcodes : ∃ code ∈ codes, code.last.isEmpty = true) (s : Session) :
    ∃ u, reportUnreachable codes s = (.error (.misuse .absentNode), u) := by
  induction codes generalizing s with
  | nil => simp at hcodes
  | cons code codes ih =>
    rw [reportUnreachable_cons]
    split
    case isTrue => exact ⟨s, rfl⟩
    case isFalse hcode =>
      refine ih ?_ _
      simpa [hcode] using hcodes

/-- Checking the flow of a body warns of what never runs, and complains about nothing else than
a missing return. -/
lemma run_checkFlow (f : FunctionSpec) (declared : Hint) {body : Block}
    (hcodes : ∀ code ∈ (build (some body) (some f.place)).2, code.last.isEmpty = false)
    (s : Session) :
    ∃ u missing, checkFlow f declared body s = (.ok (), u) ∧
      u.reports.toList = s.reports.toList ++
        ((build (some body) (some f.place)).2.map fun code =>
          .unreachableCode s.options.file code.place) ++ missing ∧
      ∀ d ∈ missing, d.code = Code.missingReturn := by
  obtain ⟨u, hrun, -, hreports⟩ := run_reportUnreachable hcodes s
  cases hmissing : (build (some body) (some f.place)).1.missingReturn? u.options.file f.name
      (some f.place) declared with
  | none =>
    refine ⟨u, [], ?_, by rw [hreports, List.append_nil], nofun⟩
    simp only [checkFlow, Check.run_bind, hrun, Check.file, Check.run_get, Check.run_pure, hmissing]
  | some d =>
    refine ⟨u.report d, [d.inFile u.options.file], ?_, ?_, ?_⟩
    · simp only [checkFlow, Check.run_bind, hrun, Check.file, Check.run_get, Check.run_pure,
        hmissing, Check.report, Check.run_modify]
    · simp [Session.report, hreports]
    · intro d' hd'
      rw [List.mem_singleton.1 hd', Diagnostic.code_inFile]
      exact code_of_missingReturn? hmissing

end Rule

namespace Flow

/-- For each block of a body that control can enter and that has stranded statements there is one
warning, and no other: it goes from the first to the last of them. If no statement is absent, the
warnings are given in full. -/
theorem unreachable_code_exact (body : Block) (hfree : body.isFinallyFree = true) :
    (∀ p k k' inner inner', body.Enters none p k inner → body.Enters none p k' inner' →
      k = k' ∧ inner = inner') ∧
    ∃ runs : DeadRuns, runs.Distinct ∧
      (∀ p code, (p, code) ∈ runs ↔
        ∃ k inner, body.Enters none p k inner ∧ inner.StrandedOver k code) ∧
      (∀ start, (FlowGraph.build (some body) start).2 = runs.map Prod.snd) ∧
      ((∀ p k inner, body.Enters none p k inner → .empty ∉ inner.nodes) →
        ∀ (f : FunctionSpec) (declared : Hint) (s : Session), ∃ u warnings missing,
          Rule.checkFlow f declared body s = (.ok (), u) ∧
          u.reports.toList = s.reports.toList ++ warnings ++ missing ∧
          warnings = runs.map (fun run => .unreachableCode s.options.file run.2.place) ∧
          warnings.map (fun d => (d.code, d.location?)) =
            runs.map (fun run => ("W0001", some run.2.place)) ∧
          ∀ d ∈ missing, d.code = Code.missingReturn) ∧
      ((∃ run ∈ runs, run.2.last = .empty) →
        ∀ (f : FunctionSpec) (declared : Hint) (s : Session), ∃ u,
          Rule.checkFlow f declared body s = (.error (.misuse .absentNode), u)) := by
  refine ⟨fun _ _ _ _ _ h h' => h.unique h', body.deadRuns none, distinct_body body none,
    mem_deadRuns_body body none hfree, unreachable_build hfree, fun hpresent f declared s => ?_,
    fun habsent f declared s => ?_⟩
  · have hcodes : ∀ code ∈ (FlowGraph.build (some body) (some f.place)).2,
        code.last.isEmpty = false := by
      intro code hcode
      rw [unreachable_build hfree] at hcode
      obtain ⟨⟨p, _⟩, hrun, rfl⟩ := List.mem_map.1 hcode
      obtain ⟨k, inner, henters, hdead⟩ := (mem_deadRuns_body body none hfree p _).1 hrun
      exact hdead.isEmpty_last (hpresent p k inner henters)
    obtain ⟨u, missing, hrun, hreports, hmissing⟩ := Rule.run_checkFlow f declared hcodes s
    refine ⟨u, _, missing, hrun, ?_, rfl, ?_, hmissing⟩
    · rw [hreports, unreachable_build hfree, List.map_map]
      rfl
    · rw [List.map_map]
      rfl
  · obtain ⟨run, hrun, hlast⟩ := habsent
    have hcode : run.2 ∈ (FlowGraph.build (some body) (some f.place)).2 := by
      rw [unreachable_build hfree]
      exact List.mem_map_of_mem hrun
    obtain ⟨u, hu⟩ := Rule.run_reportUnreachable_absent ⟨_, hcode, hlast ▸ rfl⟩ s
    exact ⟨u, by simp only [Rule.checkFlow, Check.run_bind, hu]⟩

/-- The place of a statement that takes a line. -/
def lineAt (line : Int) : Location := ⟨some ⟨line, 1⟩, some ⟨line, 9⟩, some "m.te"⟩

/-- A loop without an end around a switch that each clause leaves. A clause goes on behind its
return, the loop behind its switch with a declaration in between, and the body behind its loop. -/
def deadEnds : Block :=
  let yes : Expr := .literal ⟨0, lineAt 1⟩ .bool "true"
  let note (line : Int) : Node := .exprStmt (lineAt line) yes
  ⟨[.whileLoop (lineAt 1) yes
      ⟨[.switch (lineAt 2) yes
          [⟨[yes], ⟨[.ret (lineAt 4) none, note 5], lineAt 3⟩⟩,
            ⟨[], ⟨[.throwStmt (lineAt 6) yes], lineAt 6⟩⟩],
        note 7, .enumDecl ⟨⟨"Kind", lineAt 8⟩, [], lineAt 8⟩, note 9], lineAt 1⟩,
    note 10], lineAt 1⟩

/-- Three blocks have dead code, and the one in the loop goes on past the declaration. -/
theorem dead_ends_found : deadEnds.isFinallyFree = true ∧
    (FlowGraph.build (some deadEnds) none).2.map DeadCode.place =
      [lineAt 5, (lineAt 7).upTo (lineAt 9), lineAt 10] ∧
    ∃ p k inner code, deadEnds.Enters none p k inner ∧ inner.StrandedOver k code ∧
      code.place = (lineAt 7).upTo (lineAt 9) := by
  obtain ⟨-, runs, -, hmem, hbuild, -⟩ := unreachable_code_exact deadEnds rfl
  have hfound : (FlowGraph.build (some deadEnds) none).2.map DeadCode.place =
      [lineAt 5, (lineAt 7).upTo (lineAt 9), lineAt 10] := rfl
  have hrun : (lineAt 7).upTo (lineAt 9) ∈ (runs.map Prod.snd).map DeadCode.place := by
    rw [← hbuild none, hfound]
    exact .tail _ (.head _)
  obtain ⟨_, hcode, hplace⟩ := List.mem_map.1 hrun
  obtain ⟨⟨p, code⟩, hrun, rfl⟩ := List.mem_map.1 hcode
  obtain ⟨k, inner, henters, hdead⟩ := (hmem p code).1 hrun
  exact ⟨rfl, hfound, p, k, inner, code, henters, hdead, hplace⟩

end Flow

end TypedScript
