import TypedScript.Proofs.Discipline
import TypedScript.Proofs.Relating.Still

/-!
# Checks within checks

The run of a check is made of the runs of its parts. `Check.Within` tells in which session a part
is run: after the checks before it, and inside of what was entered around it. What lasts through
checks and through entering something holds there as well.

What a part notes and reports is still there when the whole run is over.
-/
namespace TypedScript

namespace Session

variable {s t u : Session}

/-! ## What a run adds to -/

/-- No error is taken back, and no type that was noted. -/
structure Grows (s t : Session) : Prop where
  errors : s.errorCount ≤ t.errorCount
  types : ∀ f ∈ s.types, f ∈ t.types

namespace Grows

lemma refl (s : Session) : s.Grows s := ⟨Nat.le_refl _, fun _ hf => hf⟩

lemma trans (h : s.Grows t) (k : t.Grows u) : s.Grows u :=
  ⟨Nat.le_trans h.errors k.errors, fun f hf => k.types f (h.types f hf)⟩

lemma of_eq (hreports : t.reports = s.reports) (htypes : t.types = s.types) : s.Grows t :=
  ⟨Nat.le_of_eq (by rw [errorCount, errorCount, hreports]), fun _ hf => htypes ▸ hf⟩

lemma of_still {fits : Fragment → Prop} (h : s.Still fits t) : s.Grows t :=
  ⟨h.errors, fun _ hf => h.types ▸ hf⟩

lemma report (s : Session) (d : Diagnostic) : s.Grows (s.report d) :=
  .of_still (s.still_report d : s.Still (fun _ => True) _)

lemma record (s : Session) (id : NodeId) (t : Ty) : s.Grows (s.record id t) :=
  ⟨Nat.le_refl _, fun _ hf => List.mem_cons_of_mem _ hf⟩

lemma entered {enter : Session → Session × Undo} (he : Entry enter) (s : Session) :
    s.Grows (enter s).1 :=
  .of_still (still_entered he s : s.Still (fun _ => True) _)

lemma left {enter : Session → Session × Undo} (he : Entry enter)
    (hu : (enter s).2.run t = .ok u) : t.Grows u :=
  .of_still (still_left he hu : t.Still (fun _ => True) u)

/-- The place is kept besides, so that what is entered can be left. -/
def contract : Contract where
  Holds _ := True
  Rel s t := s.Kept t ∧ s.Grows t
  Knows _ _ _ := True

lemma symbolLaws : SymbolLaws contract where
  refl _ := ⟨.refl _, .refl _⟩
  trans h k := ⟨h.1.trans k.1, h.2.trans k.2⟩
  canonical _ := False.elim
  report d hs := ⟨Kept.symbolLaws.report d hs, .report _ d⟩
  trace style line hs := ⟨Kept.symbolLaws.trace style line hs, .of_eq rfl rfl⟩
  record id t hs ht := ⟨Kept.symbolLaws.record id t hs ht, .record _ id t⟩
  define hs hd ht h := ⟨Kept.symbolLaws.define hs hd ht h, .of_eq rfl rfl⟩
  update hs hknows ht h := ⟨Kept.symbolLaws.update hs hknows ht h, .of_eq rfl rfl⟩
  retypeSymbol hs hknows ht := ⟨Kept.symbolLaws.retypeSymbol hs hknows ht, .of_eq rfl rfl⟩
  forget name t _ _ _ := ⟨.forget name t, .of_eq rfl rfl⟩
  addReturn t hs ht := ⟨Kept.symbolLaws.addReturn t hs ht, .of_eq rfl rfl⟩
  markChecked id hs := ⟨Kept.symbolLaws.markChecked id hs, .of_eq rfl rfl⟩
  inference hs hfree h := ⟨Kept.symbolLaws.inference hs hfree h.1, h.2.errors, h.2.types⟩
  leave he _ h := by
    obtain ⟨u, hu, hkept⟩ := Kept.leave he.entry h.1
    exact ⟨u, hu, hkept, (Grows.entered he.entry _).trans (h.2.trans (.left he.entry hu))⟩
  after _ _ := trivial
  entered _ _ := trivial
  begun _ _ := trivial
  learn _ _ := trivial
  learnDefined _ _ := trivial
  knowsAfter _ _ _ := trivial
  knowsEntered _ _ _ := trivial
  knowsBegun _ _ _ := trivial

lemma stepLaws : StepLaws contract := symbolLaws.stepLaws

end Grows

/-! ## Where checks lead to -/

/-- Checks lead from `s` to `t`, so the two are related by whatever all steps of a check keep. -/
def RunsTo (s t : Session) : Prop :=
  ∀ R : Contract, StepLaws R → ¬ R.typed → R.Holds s → R.Rel s t

namespace RunsTo

lemma refl (s : Session) : s.RunsTo s := fun _ laws _ hs => laws.refl hs

lemma of_keeps {α : Type} {c : Check α} (hc : ∀ R : Contract, StepLaws R → c.Keeps R)
    (s : Session) : s.RunsTo (c s).2 :=
  fun R laws _ hs => (hc R laws s hs).1

lemma of_run {α : Type} {c : Check α} {r : Except Fault α}
    (hc : ∀ R : Contract, StepLaws R → c.Keeps R) (hrun : c s = (r, t)) : s.RunsTo t := by
  have hsteps := of_keeps hc s
  rwa [hrun] at hsteps

lemma trace (style : Style) (line : String) (s : Session) : s.RunsTo (s.trace style line) :=
  .of_run (fun _ laws => laws.traceLine style line) rfl

lemma node (limit : Nat) (n : Node) (s : Session) :
    s.RunsTo (Walk.node (Walk.demand limit) n s).2 :=
  .of_keeps (fun _ laws => laws.walkNode (laws.demand limit) n) s

lemma expr (limit : Nat) (e : Expr) (h : Hint) (s : Session) :
    s.RunsTo (Walk.expr (Walk.demand limit) e h s).2 :=
  fun _ laws hR hs =>
    (laws.walkExpr (laws.demand limit) e h (fun htyped => absurd htyped hR) s hs).1

end RunsTo

end Session

namespace Check

variable {α β γ : Type} {may : Narrowings → Prop} {c : Check α} {d : Check β}
variable {s t u : Session}

lemma grows_during {enter : Session → Session × Undo} (he : Session.Entry enter) (c : Check α)
    (s : Session) : (c (enter s).1).2.Grows (during enter c s).2 := by
  cases hu : (enter s).2.run (c (enter s).1).2 with
  | ok u =>
    rw [run_during hu]
    exact .left he hu
  | error m =>
    rw [run_during_misuse hu]
    exact .refl _

lemma grows_reporting (c : Check Unit) (s : Session) : (c s).2.Grows (reporting c s).2 := by
  rw [reporting]
  rcases c s with ⟨(d | e | m) | a, t⟩
  · exact .report t d
  · exact .report t _
  · exact .refl _
  · exact .refl _

lemma grows_bind {f : α → Check γ} (hf : ∀ a, (f a).Keeps Session.Grows.contract) (s : Session) :
    (c s).2.Grows ((c >>= f) s).2 := by
  rw [run_bind]
  rcases c s with ⟨e | a, t⟩
  · exact .refl _
  · exact (hf a t trivial).1.2

/-- In the run of a check from `s` the check `d` is run from `t`. Narrowings are pushed around it
only if they may be. What comes after the part, or catches its faults, takes nothing back. -/
inductive Within (may : Narrowings → Prop) {β : Type} (d : Check β) (t : Session) :
    {α : Type} → Check α → Session → Prop
  | here : Within may d t d t
  | first {α γ : Type} {c : Check α} {f : α → Check γ} {s : Session} :
      Within may d t c s → (c s).2.Grows ((c >>= f) s).2 → Within may d t (c >>= f) s
  | next {α γ : Type} {c : Check α} {f : α → Check γ} {a : α} {s u : Session} :
      c s = (.ok a, u) → s.RunsTo u → Within may d t (f a) u → Within may d t (c >>= f) s
  | inside {α : Type} {c : Check α} {enter : Session → Session × Undo} {s : Session} :
      Session.Entry enter → (enter s).1.narrowing.pushed = s.narrowing.pushed →
      Within may d t c (enter s).1 → Within may d t (during enter c) s
  | narrowed {α : Type} {c : Check α} {s : Session} (n : Narrowings) : may n →
      Within may d t c (s.pushNarrowings n).1 →
      Within may d t (during (fun s => s.pushNarrowings n) c) s
  | reported {c : Check Unit} {s : Session} : Within may d t c s → Within may d t (reporting c) s
  | once {c : Check Unit} {id : NodeId} {s : Session} :
      (s.isChecked id || s.isInferring id) = false → Within may d t c (s.beginInference id) →
      Within may d t (Rule.once id c) s
  | marked {α : Type} {c : Check α} {s : Session} (id : NodeId) : Within may d t c s →
      Within may d t (andThen c fun s => s.markChecked id) s
  | caught {α : Type} {c : Check α} {handle : Fault → Check α} {s : Session} :
      Within may d t c s → (c s).2.Grows (tryCatch c handle s).2 →
      Within may d t (tryCatch c handle) s

namespace Within

lemma trans (h : d.Within may t c s) {e : Check γ} (k : c.Within may s e u) :
    d.Within may t e u := by
  induction k with
  | here => exact h
  | first _ hrest ih => exact .first ih hrest
  | next hrun hsteps _ ih => exact .next hrun hsteps ih
  | inside he hpushed _ ih => exact .inside he hpushed ih
  | narrowed n hn _ ih => exact .narrowed n hn ih
  | reported _ ih => exact .reported ih
  | once hidle _ ih => exact .once hidle ih
  | marked id _ ih => exact .marked id ih
  | caught _ hrest ih => exact .caught ih hrest

/-- What the part added is there in the end. -/
lemma grows (h : d.Within may t c s) : (d t).2.Grows (c s).2 := by
  induction h with
  | here => exact .refl _
  | first _ hrest ih => exact ih.trans hrest
  | next hrun _ _ ih => rwa [run_bind, hrun]
  | inside he _ _ ih => exact ih.trans (grows_during he _ _)
  | narrowed n _ _ ih => exact ih.trans (grows_during (.narrowings n) _ _)
  | reported _ ih => exact ih.trans (grows_reporting _ _)
  | once hidle _ ih =>
    rw [Rule.run_once, if_neg (by simp [hidle])]
    exact ih.trans (.of_eq rfl rfl)
  | marked id _ ih => exact ih.trans (.of_eq rfl rfl)
  | caught _ hrest ih => exact ih.trans hrest

/-- A check that is followed by others. -/
lemma followed {f : α → Check γ} (h : d.Within may t c s)
    (hf : ∀ a, (f a).Keeps Session.Grows.contract) : d.Within may t (c >>= f) s :=
  .first h (grows_bind hf s)

lemma mapped {g : α → γ} (h : d.Within may t c s) : d.Within may t (g <$> c) s :=
  h.followed fun _ => Session.Grows.stepLaws.pure _

end Within

end Check

namespace Walk

open Check

variable {may : Narrowings → Prop} {limit : Nat} {n : Node} {after : List Node}
variable {s t u : Session}

/-- A statement is checked after those before it. -/
lemma within_nodes (before : List Node) (hrun : nodes (demand limit) before s = (.ok (), t)) :
    (node (demand limit) n).Within may t (nodes (demand limit) (before ++ n :: after)) s := by
  induction before generalizing s with
  | nil =>
    cases hrun
    have laws := Session.Grows.stepLaws
    exact .followed (.reported .here) fun _ => laws.walkNodes (laws.demand limit) after
  | cons m before ih =>
    obtain ⟨_, u, hfirst, hrest⟩ := exists_of_run_bind hrun
    have hsteps : s.RunsTo u :=
      .of_run (fun _ laws => laws.reporting (laws.walkNode (laws.demand limit) m)) hfirst
    exact .next hfirst hsteps (ih hrest)

/-- The statements of a block are checked after its declarations are registered. -/
lemma within_block {place : Location} (before : List Node)
    (hregistered : Declare.all (before ++ n :: after) s = (.ok (), u))
    (hrun : nodes (demand limit) before u = (.ok (), t)) :
    (node (demand limit) n).Within may t
      (block (demand limit) ⟨before ++ n :: after, place⟩) s := by
  have hsteps : s.RunsTo u :=
    .of_run (fun _ laws => laws.declareAll (before ++ n :: after)) hregistered
  exact .next hregistered hsteps (within_nodes before hrun)

/-! ## Classes -/

variable {symbol : Symbol} {c : Class} {m : Member} {f : FieldDecl} {rest : List FieldDecl}

lemma fields_append (d : Demand) (before rest : List FieldDecl) :
    Rule.fields symbol (fields d (before ++ rest)) =
      Rule.fields symbol (fields d before) >>= fun _ => Rule.fields symbol (fields d rest) := by
  induction before with
  | nil => rfl
  | cons f before ih =>
    obtain ⟨name, type, value, visibility, isStatic, isReadonly, location⟩ := f
    simp only [List.cons_append, fields, Rule.fields, ih, bind_assoc]

/-- A class that its name means here is checked from its fields on. -/
lemma within_cls {k : ClassCheck} (hk : k.Keeps Session.Grows.contract)
    (hlookup : s.scopes.lookup? k.decl.name.name = some symbol)
    (htype : symbol.type = some (.cls c))
    (hid : (symbol.origin.class?.any fun d => d.id == k.decl.id) = true)
    (hparams : Rule.defineTypeParams c.typeParams
      ((s.trace .cyan ("  checking class " ++ c.name)).enterClass c.name).1.enterScope.1 =
        (.ok (), u)) :
    (Rule.fields symbol k.fields).Within may u (Rule.cls k) s := by
  have laws := Session.Grows.stepLaws
  have hfound : lookup? k.decl.name.name s = (.ok (some symbol), s) := hlookup ▸ rfl
  refine .next hfound (.refl s) ?_
  dsimp only
  rw [htype]
  dsimp only
  rw [if_pos hid]
  have hsteps := Session.RunsTo.of_run (fun _ laws => laws.defineTypeParams c.typeParams) hparams
  refine .next rfl (.trace .cyan _ s) (.inside (.cls _) rfl (.inside .scope rfl
    (.next hparams hsteps (.followed .here fun _ => ?_))))
  have hmethods := laws.methods c.name _ hk.methods
  split
  · rename_i m body hm
    have hctor := laws.reporting (laws.constructor c.name m (hk.ctor (m, body) hm))
    exact laws.bind hctor fun _ _ => hmethods
  · exact hmethods

/-- The field of a class is checked after those before it. -/
lemma within_fields (before : List FieldDecl) (hx : s.scopes.Has symbol)
    (hrun : Rule.fields symbol (fields (demand limit) before) s = (.ok (), t)) :
    (Rule.field symbol f (part? (demand limit) f.value)).Within may t
      (Rule.fields symbol (fields (demand limit) (before ++ f :: rest))) s := by
  have hkeeps (R : Contract) (laws : StepLaws R) (hR : ¬ R.typed) (fs : List FieldDecl) :=
    laws.fields (x := symbol) (fun htyped => absurd htyped hR) _
      (laws.walkFields (laws.demand limit) fs)
  have hsteps : s.RunsTo (Rule.fields symbol (fields (demand limit) before) s).2 :=
    fun R laws hR hs => (hkeeps R laws hR before s ⟨hs, laws.learn hs hx⟩).1
  rw [hrun] at hsteps
  rw [fields_append]
  refine .next hrun hsteps ?_
  obtain ⟨name, type, value, visibility, isStatic, isReadonly, location⟩ := f
  refine .followed (.reported .here) fun _ u _ => ?_
  exact hkeeps _ Session.Grows.stepLaws id rest u ⟨trivial, trivial⟩

lemma within_field {value : Part} (hcurrent : currentType? symbol s = (.ok (some (.cls c)), s))
    (hm : c.property? f.name.name = some m) :
    (Rule.fieldValue symbol c m f value).Within may s (Rule.field symbol f (some value)) s := by
  refine .next hcurrent (.refl s) ?_
  simp only [Option.bind_some, Ty.class?, hm]
  exact .here

end Walk

/-- The second pass checks the nodes of a program. -/
lemma Analysis.within_check {may : Narrowings → Prop} (nodes : List Node) (s : Session) :
    (Walk.nodes (Walk.demandFor nodes) nodes).Within may
      (s.trace .blue ("checking " ++ s.options.file)) (check nodes) s := by
  have laws := Session.Grows.stepLaws
  refine .next rfl (.refl s) (.next rfl (.trace .blue _ s) (.first .here ?_))
  rw [Check.run_bind]
  generalize Walk.nodes (Walk.demandFor nodes) nodes (s.trace .blue _) = run
  rcases run with ⟨e | a, t⟩
  · exact .refl _
  · have hsustains : Session.Grows.contract.Sustains t.Grows :=
      ⟨fun _ => trivial, fun hu h => hu.trans h.2, fun _ hu => hu.trans (.of_eq rfl rfl)⟩
    exact hsustains.advance laws.toBasicLaws .typeChecked t (.refl t)

end TypedScript
