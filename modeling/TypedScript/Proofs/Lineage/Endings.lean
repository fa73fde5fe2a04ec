import TypedScript.Proofs.Discipline
import TypedScript.Proofs.Lineage.Layers

/-!
# Walks up a lineage end

The sessions that the two passes come to are those reached from the start by declaring
symbols, filling in classes, and entering and leaving. In all of them the declared classes
lie in layers. So every walk up a lineage ends, unless two classes of one name are in force
that extend classes of different names. A class inside a scope can hide an ancestor of its
own superclass in this way, and then a walk goes round for ever.
-/
namespace TypedScript

namespace Session

variable {s t u : Session} {enter : Session → Session × Undo}

/-- Steps of a check lead from one session to another at the same place. -/
inductive Leads : Session → Session → Prop
  /-- Everything but the scopes may change. -/
  | stay {s t : Session} : t.scopes = s.scopes → Leads s t
  | trans {s t u : Session} : Leads s t → Leads t u → Leads s u
  /-- A symbol is declared, for a class whose superclass is in force. -/
  | define {s : Session} {name : String} {kind : SymbolKind} {type : Option Ty} {isConst : Bool}
      {origin : Origin} {x : Symbol} {scopes : Scopes} :
      s.scopes.Declarable name kind type →
      s.scopes.define name kind type isConst origin = .ok (x, scopes) →
      Leads s { s with scopes }
  /-- A symbol gets another type, for a class one of the same name and superclass. -/
  | update {s : Session} {x : Symbol} {name : String} {t : Ty} {scopes : Scopes} :
      s.scopes.Has x → x.heritage? = t.heritage? →
      s.scopes.updateSymbol x.id name t = .ok scopes → Leads s { s with scopes }
  | retype {s : Session} {x : Symbol} {t : Ty} :
      s.scopes.Has x → x.heritage? = t.heritage? →
      Leads s { s with scopes := s.scopes.retypeSymbol x.id t }
  /-- Something is entered and left again. -/
  | inside {enter : Session → Session × Undo} {s t u : Session} :
      Entry enter → Leads (enter s).1 t → (enter s).2.run t = .ok u → Leads s u

/-- The sessions that an analysis comes to, also while something is entered. -/
inductive Reached : Session → Prop
  | start (options : Options) : Reached { options }
  | leads {s t : Session} : Reached s → Leads s t → Reached t
  | entered {enter : Session → Session × Undo} {s : Session} :
      Reached s → Entry enter → Reached (enter s).1

/-! ## Scopes while something is entered -/

/-- Entering shows in the outline where it is a scope that is entered, or where all scopes
are set aside. -/
lemma outline_entered (he : Entry enter) (s : Session) :
    (enter s).1.scopes.outline = s.scopes.outline ∨
    (enter s).1.scopes.outline = s.scopes.outline.enter ∨
    (enter s).1.scopes.outline = s.scopes.outline.within [] := by
  cases he with
  | scope => exact .inr (.inl s.scopes.outline_enter)
  | detach => exact .inr (.inr rfl)
  | narrowings n => exact .inl rfl
  | function f => exact .inl rfl
  | cls name => exact .inl rfl
  | breakable b => exact .inl rfl

lemma slot_entered (he : Entry enter) (s : Session) (i : Option ScopeId) :
    (enter s).1.scopes.slot i = s.scopes.slot i := by
  cases he with
  | scope => exact s.scopes.slot_enter i
  | detach => cases i <;> rfl
  | narrowings n => rfl
  | function f => rfl
  | cls name => rfl
  | breakable b => rfl

lemma orderly_entered (he : Entry enter) (hs : s.scopes.outline.Orderly) :
    (enter s).1.scopes.outline.Orderly := by
  obtain h | h | h := outline_entered he s <;> rw [h]
  · exact hs
  · exact hs.enter
  · exact hs.within_nil

lemma layered_entered (he : Entry enter) (hs : s.scopes.outline.Orderly)
    (hlayers : Layered s.scopes.outline.chain) : Layered (enter s).1.scopes.outline.chain := by
  obtain h | h | h := outline_entered he s <;> rw [h]
  · exact hlayers
  · rw [Outline.chain_enter hs]
    exact ⟨fun _ hx => absurd hx List.not_mem_nil, hlayers⟩
  · have hchain : s.scopes.outline.chain = (s.scopes.outline.locals.map some).map
        s.scopes.outline.headings ++ [s.scopes.outline.headings none] := List.map_append
    rw [hchain] at hlayers
    exact hlayers.outermost

/-- What was entered is left with the outline that it has by then. -/
lemma grows_of_inside (he : Entry enter) (hs : s.scopes.outline.Orderly)
    (h : (enter s).1.scopes.outline.Grows t.scopes.outline) (hu : (enter s).2.run t = .ok u) :
    s.scopes.outline.Grows u.scopes.outline := by
  cases he with
  | scope =>
    have hgrows : s.scopes.outline.enter.Grows t.scopes.outline := s.scopes.outline_enter ▸ h
    have hlocals : t.scopes.locals = s.scopes.entered.size :: s.scopes.locals := h.locals
    have hleft : u.scopes = t.scopes.reattach s.scopes.locals (t.scopes.depth - 1) := by
      simp only [Session.enterScope, Undo.run, exitScope, Scopes.exit, hlocals, Except.map,
        Except.ok.injEq] at hu
      exact hu ▸ rfl
    rw [hleft]
    exact Outline.grows_of_enter hs hgrows
  | detach =>
    cases hu
    exact Outline.grows_of_detach hs h
  | narrowings n =>
    have hleft : u.scopes = t.scopes := by
      simp only [pushNarrowings, Undo.run] at hu
      cases hpop : t.narrowing.popAt (s.narrowing.push s.binder n).depth with
      | error e =>
        rw [hpop] at hu
        cases hu
      | ok stack =>
        rw [hpop] at hu
        cases hu
        rfl
    exact hleft ▸ h
  | function f =>
    cases hu
    exact h
  | cls name =>
    cases hu
    exact h
  | breakable b =>
    have hleft : u.scopes = t.scopes := by
      simp only [enterBreakable, Undo.run, leaveBreakable] at hu
      split at hu
      · simp at hu
      · cases hu
        rfl
    exact hleft ▸ h

/-! ## What the steps do to the outline -/

lemma grows_define {s : Scopes} {name : String} {kind : SymbolKind} {type : Option Ty}
    {isConst : Bool} {origin : Origin} {x : Symbol} {scopes : Scopes} (hs : s.outline.Orderly)
    (hd : s.Declarable name kind type)
    (h : s.define name kind type isConst origin = .ok (x, scopes)) :
    s.outline.Grows scopes.outline := by
  rw [Scopes.outline_define hs h]
  obtain ⟨rfl, hfree, -⟩ := Scopes.define_eq_ok h
  refine Outline.grows_declare hs rfl (fun y hy => ?_) fun hkind b hb => ?_
  · obtain ⟨z, hz, rfl⟩ := List.mem_map.1 hy
    exact hfree z hz
  · obtain ⟨c, ht, rfl⟩ := Symbol.heritage?_eq_some.1 hb
    obtain ⟨hname, hparent⟩ := hd hkind c ht
    refine ⟨hname, fun p hp => ?_⟩
    obtain ⟨y, hy, hykind, hytype⟩ := hparent p hp
    exact ⟨y.heading, Scopes.heading_mem_chain hy, hykind, by
      simp [Symbol.heading, Symbol.heritage?, hytype, Ty.heritage?]⟩

/-- Steps of a check let the outline grow. -/
lemma Leads.grows (h : s.Leads t) (hs : s.scopes.outline.Orderly) :
    s.scopes.outline.Grows t.scopes.outline := by
  induction h with
  | stay h => exact h.symm ▸ .refl hs
  | trans _ _ ih ih' =>
    have hfirst := ih hs
    exact hfirst.trans (ih' hfirst.orderly)
  | define hd h => exact grows_define hs hd h
  | update hx hh h => exact (Scopes.outline_updateSymbol hs hx hh h).symm ▸ .refl hs
  | retype hx hh => exact (Scopes.outline_retypeSymbol hs hx hh).symm ▸ .refl hs
  | inside he _ hu ih => exact grows_of_inside he hs (ih (orderly_entered he hs)) hu

lemma orderly_start : ({} : Scopes).outline.Orderly := by
  have hempty : ∀ i, ({} : Scopes).outline.headings i = [] := by
    rintro (_ | i) <;> rfl
  refine ⟨List.pairwise_singleton _ _, fun i _ => hempty _, ?_, ?_, ?_⟩ <;> simp [hempty]

/-- In every session that an analysis comes to, the classes in force lie in layers. -/
lemma Reached.layered (h : s.Reached) :
    s.scopes.outline.Orderly ∧ Layered s.scopes.outline.chain := by
  induction h with
  | start options => exact ⟨orderly_start, fun _ hx => absurd hx List.not_mem_nil, trivial⟩
  | leads _ h ih =>
    have hgrows := h.grows ih.1
    exact ⟨hgrows.orderly, hgrows.layered ih.2⟩
  | entered _ he ih => exact ⟨orderly_entered he ih.1, layered_entered he ih.1 ih.2⟩

/-! ## Every check comes to such sessions only -/

/-- Checks of orderly sessions lead to sessions at the same place by steps like these. -/
def Leads.contract : Contract where
  Holds s := s.scopes.outline.Orderly
  Rel s t := s.Kept t ∧ s.Leads t
  Knows s id h := ∃ x, s.scopes.Has x ∧ x.id = id ∧ x.heritage? = h

lemma knows_of_mem {x : Heading} {i : Option ScopeId} (hx : x ∈ s.scopes.outline.headings i) :
    Leads.contract.Knows s x.id x.heritage? := by
  obtain ⟨y, hy, rfl⟩ := List.mem_map.1 hx
  exact ⟨y, ⟨i, hy⟩, rfl, rfl⟩

/-- A symbol stays where it is, with its heading. -/
lemma Leads.knows (h : s.Leads t) (hs : s.scopes.outline.Orderly) {id : SymbolId}
    {b : Option Heritage} : Leads.contract.Knows s id b → Leads.contract.Knows t id b := by
  rintro ⟨x, ⟨i, hx⟩, rfl, rfl⟩
  exact knows_of_mem ((h.grows hs).kept i (Scopes.mem_headings hx))

lemma Leads.symbolLaws : SymbolLaws Leads.contract where
  refl _ := ⟨.refl _, .stay rfl⟩
  trans h k := ⟨h.1.trans k.1, h.2.trans k.2⟩
  canonical _ := False.elim
  report d _ := ⟨Kept.symbolLaws.report d trivial, .stay rfl⟩
  trace style line _ := ⟨Kept.symbolLaws.trace style line trivial, .stay rfl⟩
  record id t _ ht := ⟨Kept.symbolLaws.record id t trivial ht, .stay rfl⟩
  define _ hd ht h := ⟨Kept.symbolLaws.define trivial hd ht h, .define hd h⟩
  update := by
    rintro s _ name t scopes _ ⟨x, hx, rfl, hh⟩ ht h
    exact ⟨Kept.symbolLaws.update trivial trivial ht h, .update hx hh h⟩
  retypeSymbol := by
    rintro s _ t _ ⟨x, hx, rfl, hh⟩ ht
    exact ⟨Kept.symbolLaws.retypeSymbol trivial trivial ht, .retype hx hh⟩
  forget name t _ _ _ := ⟨.forget name t, .stay rfl⟩
  addReturn t _ ht := ⟨Kept.symbolLaws.addReturn t trivial ht, .stay rfl⟩
  markChecked id _ := ⟨Kept.symbolLaws.markChecked id trivial, .stay rfl⟩
  inference {s t id} _ hfree h := by
    have hbegun : s.Leads (s.beginInference id) := .stay rfl
    have hended : t.Leads (t.endInference id) := .stay rfl
    exact ⟨Kept.symbolLaws.inference trivial hfree h.1, hbegun.trans (h.2.trans hended)⟩
  leave he _ h := by
    obtain ⟨u, hu, hkept⟩ := Kept.leave he.entry h.1
    exact ⟨u, hu, hkept, .inside he.entry h.2 hu⟩
  after hs h := (h.2.grows hs).orderly
  entered he := orderly_entered he.entry
  begun _ hs := hs
  learn _ hx := ⟨_, hx, rfl, rfl⟩
  learnDefined {s name kind type isConst origin x scopes} hs h := by
    have hmem : x.heading ∈ scopes.outline.headings s.scopes.outline.current :=
      Scopes.outline_define hs h ▸ (Outline.mem_declare _ _ _ _).2 (.inr ⟨rfl, rfl⟩)
    have hheritage : x.heritage? = type.bind Ty.heritage? := by
      rw [(Scopes.define_eq_ok h).1]
      rfl
    have hknows := knows_of_mem (s := { s with scopes }) hmem
    exact hheritage ▸ hknows
  knowsAfter hs h := h.2.knows hs
  knowsEntered he _ := by
    rintro ⟨x, ⟨i, hx⟩, hid, hh⟩
    exact ⟨x, ⟨i, (slot_entered he.entry _ i).symm ▸ hx⟩, hid, hh⟩
  knowsBegun _ _ h := h

lemma Leads.stepLaws : StepLaws Leads.contract := Leads.symbolLaws.stepLaws

end Session

/-- A session that an analysis comes to is followed by such a session. -/
def Check.Stays {α : Type} (c : Check α) : Prop := c.Preserves Session.Reached

namespace Session

lemma Leads.sustains : Leads.contract.Sustains Reached where
  holds hs := hs.layered.1
  after hs h := hs.leads h.2
  phase _ hs := hs.leads (.stay rfl)

end Session

lemma Check.Yields.stays {α : Type} {P : α → Prop} {c : Check α}
    (h : c.Yields Session.Leads.contract P) : c.Stays :=
  Session.Leads.sustains.preserves h

/-- The two passes come to such sessions only. -/
lemma Analysis.passes_stays (nodes : List Node) : (passes nodes).Stays :=
  Session.Leads.sustains.passes Session.Leads.stepLaws nodes

namespace Scopes

/-- The walk from a class ends, and with it each of the searches up its lineage. -/
structure WalksEnd (s : Scopes) (c : Class) : Prop where
  ends : s.Ends c
  member : ∀ name, s.findMember c name ≠ .endless
  method : ∀ name, s.isMethod c name ≠ .endless
  constructor : s.constructor c ≠ .endless
  offered : s.offered c ≠ .endless

lemma walksEnd {s : Scopes} (h : ∀ c, s.Ends c) (c : Class) : s.WalksEnd c where
  ends := h c
  member _ := (h c).nearest_ne _
  method _ := (h c).nearest_ne _
  constructor := by
    unfold constructor
    split
    case h_1 => simp
    -- The walk starts at a superclass as the class holds it, which need not be on the walk from
    -- what the class is by now.
    case h_2 p _ _ => exact (h p).nearest_ne _
    case h_3 => simp
  offered := by
    unfold offered
    rw [hasEnd_iff.2 (h c)]
    simp

end Scopes

namespace Session

/-- From a reached session the whole analysis, and with it declarations, statements,
expressions, bodies and declarations on demand, come to reached sessions. In a reached session
every walk up a lineage ends, if classes in force that share a name extend classes that share
a name. -/
theorem lineage_walks_end (s : Session) (hs : s.Reached) :
    ((∀ nodes, (Analysis.passes nodes s).2.Reached) ∧
      (∀ n, (Declare.node n s).2.Reached) ∧
      ∀ limit, (∀ n, (Walk.node (Walk.demand limit) n s).2.Reached) ∧
        (∀ e h, (Walk.expr (Walk.demand limit) e h s).2.Reached) ∧
        (∀ f b, (Rule.functionBody f (Walk.body (Walk.demand limit) b) s).2.Reached) ∧
        (∀ x, ((Walk.demand limit).function x s).2.Reached) ∧
        (∀ owner name, ((Walk.demand limit).method owner name s).2.Reached)) ∧
    (s.scopes.ParentsAgree → ∀ c, s.scopes.WalksEnd c) := by
  have laws := Leads.stepLaws
  refine ⟨⟨fun nodes => Analysis.passes_stays nodes s hs,
    fun n => (laws.declareNode n).stays s hs, fun limit => ?_⟩,
    fun hagree => Scopes.walksEnd (hs.layered.2.ends hagree)⟩
  have hd := laws.demand limit
  exact ⟨fun n => (laws.walkNode hd n).stays s hs, fun e h => (laws.walkExpr hd e h).stays s hs,
    fun f b => (laws.functionBody f (laws.walkBody hd b)).stays s hs,
    fun x => (hd.function x).stays s hs, fun owner name => (hd.method owner name).stays s hs⟩

/-- A class without members. -/
def bareClass (id : NodeId) (name : String) (parent : Option String) : Node :=
  .classDecl ⟨id, ⟨name, {}⟩, [], parent.map fun p => ⟨p, {}⟩, [], [], none, false, {}⟩

/-- The session after registering declarations, then more in a scope. -/
def nesting (outer inner : List Node) : Session :=
  (Declare.all inner (Declare.all outer {}).2.enterScope.1).2

lemma reached_nesting (outer inner : List Node) : (nesting outer inner).Reached := by
  have hall (ns : List Node) : (Declare.all ns).Stays := (Leads.stepLaws.declareAll ns).stays
  exact hall inner _ (.entered (hall outer _ (.start {})) .scope)

/-- A class hides an ancestor of another one and, like it, extends nothing. -/
def hidingAncestor : Session :=
  nesting [bareClass 1 "A" none, bareClass 2 "B" (some "A")]
    [bareClass 3 "A" none, bareClass 4 "C" (some "B")]

/-- A hidden ancestor alone does not keep a walk from ending. -/
theorem lineage_past_hidden_ancestor_ends :
    hidingAncestor.Reached ∧ hidingAncestor.scopes.ParentsAgree ∧
    ∃ c, hidingAncestor.scopes.classNamed? "C" = some c ∧ hidingAncestor.scopes.WalksEnd c := by
  have hreached : hidingAncestor.Reached := reached_nesting _ _
  have hagree : hidingAncestor.scopes.ParentsAgree := by decide +kernel
  have hdeclared : (hidingAncestor.scopes.classNamed? "C").isSome = true := by decide +kernel
  obtain ⟨c, hc⟩ := Option.isSome_iff_exists.1 hdeclared
  exact ⟨hreached, hagree, c, hc, (lineage_walks_end _ hreached).2 hagree c⟩

/-- A class hides an ancestor of its own superclass. -/
def hidingOwnAncestor : Session :=
  nesting [bareClass 1 "A" none] [bareClass 2 "B" (some "A"), bareClass 3 "A" (some "B")]

/-- A program that makes an instance of such a class. -/
def instanceOfHiding : List Node :=
  [bareClass 1 "A" none,
    .block ⟨[bareClass 2 "B" (some "A"), bareClass 3 "A" (some "B"),
      .exprStmt {} (.construct ⟨4, {}⟩ ⟨"A", {}⟩ [] [])], {}⟩]

/-- A class that hides an ancestor of its own superclass can be declared, and the walk from
it goes round for ever. So does the search for its constructor, and the analysis of a
program that makes an instance of it does not end. -/
theorem lineage_round_hidden_ancestor_endless :
    hidingOwnAncestor.Reached ∧
    (∃ c, hidingOwnAncestor.scopes.classNamed? "A" = some c ∧ ¬ hidingOwnAncestor.scopes.Ends c) ∧
    (Analysis.run (some ⟨"m.te", instanceOfHiding⟩) {}).map (fun _ => ()) = .error .endless := by
  have hround : (hidingOwnAncestor.scopes.classNamed? "A").any
      (fun c => !hidingOwnAncestor.scopes.hasEnd c) = true := by decide +kernel
  obtain ⟨c, hc, hend⟩ := (Option.any_eq_true _ _).1 hround
  have hendless : ¬ hidingOwnAncestor.scopes.Ends c := by
    intro h
    simp [Scopes.hasEnd_iff.2 h] at hend
  exact ⟨reached_nesting _ _, ⟨c, hc, hendless⟩, by decide +kernel⟩

end Session

end TypedScript
