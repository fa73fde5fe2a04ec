import TypedScript.Proofs.Keeping.Tree
import TypedScript.Proofs.Stacks

/-!
# Checks come back to where they started

Checking enters and leaves scopes, narrowings, functions, classes and loops, and it goes
elsewhere to check a declaration on demand. However a check ends, the session is then at
the place in the program where it was before, and nothing was left that was not entered.
-/
namespace TypedScript

namespace Scopes

variable {s scopes : Scopes} {name : String} {t : Ty}

/-- The same local scopes are in force, at the same depth. -/
structure InForce (s scopes : Scopes) : Prop where
  locals : scopes.locals = s.locals
  depth : scopes.depth = s.depth

lemma inForce_define {kind : SymbolKind} {type : Option Ty} {isConst : Bool} {origin : Origin}
    {x : Symbol} (h : s.define name kind type isConst origin = .ok (x, scopes)) :
    s.InForce scopes := by
  unfold define at h
  split at h
  · simp at h
  · simp only [Except.ok.injEq, Prod.mk.injEq] at h
    obtain ⟨-, rfl⟩ := h
    split <;> exact ⟨rfl, rfl⟩

lemma inForce_update (h : s.update name t = .ok scopes) : s.InForce scopes := by
  unfold update at h
  split at h
  · cases h
    exact ⟨rfl, rfl⟩
  · split at h
    · cases h
      exact ⟨rfl, rfl⟩
    · simp at h

lemma inForce_updateSymbol {id : SymbolId} (h : s.updateSymbol id name t = .ok scopes) :
    s.InForce scopes := by
  unfold updateSymbol at h
  split at h
  · split at h
    · exact inForce_update h
    · simp at h
  · exact inForce_update h

end Scopes

/-- The function with more returns noted. -/
def FunctionContext.noting (f : FunctionContext) (more : List Ty) : FunctionContext :=
  { f with returns := f.returns ++ more }

namespace Session

/-- The session `t` is at the place of `s`, and every stack that was set aside at `s` can
still be taken up. -/
structure Kept (s t : Session) : Prop where
  scopes : s.scopes.InForce t.scopes
  frames : s.narrowing.stack.Kept t.narrowing.stack
  function : ∃ more, t.function = s.function.map fun f => f.noting more
  className : t.className = s.className
  breakables : s.breakables.Kept t.breakables
  inferring : t.inferring = s.inferring

namespace Kept

variable {s t u : Session}

/-- What a step does to the parts of a session that say nothing of the place. -/
lemma of_eq (hs : s.scopes.InForce t.scopes) (hn : t.narrowing.stack = s.narrowing.stack)
    (hf : t.function = s.function) (hc : t.className = s.className)
    (hb : t.breakables = s.breakables) (hi : t.inferring = s.inferring) : s.Kept t where
  scopes := hs
  frames := hn ▸ .refl _
  function := ⟨[], by simp [hf, FunctionContext.noting]⟩
  className := hc
  breakables := hb ▸ .refl _
  inferring := hi

lemma refl (s : Session) : s.Kept s := .of_eq ⟨rfl, rfl⟩ rfl rfl rfl rfl rfl

lemma trans (h : s.Kept t) (k : t.Kept u) : s.Kept u where
  scopes := ⟨k.scopes.locals.trans h.scopes.locals, k.scopes.depth.trans h.scopes.depth⟩
  frames := h.frames.trans k.frames
  function := by
    obtain ⟨first, hfirst⟩ := h.function
    obtain ⟨second, hsecond⟩ := k.function
    refine ⟨first ++ second, ?_⟩
    rw [hsecond, hfirst, Option.map_map]
    congr 1
    funext f
    simp [FunctionContext.noting]
  className := k.className.trans h.className
  breakables := h.breakables.trans k.breakables
  inferring := k.inferring.trans h.inferring

lemma forget (name : String) (t : Ty) : s.Kept (s.forget name t) :=
  .of_eq ⟨rfl, rfl⟩ rfl rfl rfl rfl rfl

/-! ## Leaving what was entered -/

lemma leave_scope (h : s.enterScope.1.Kept t) : ∃ u, s.enterScope.2.run t = .ok u ∧ s.Kept u := by
  have hl : t.scopes.locals = s.scopes.entered.size :: s.scopes.locals := h.scopes.locals
  have hd : t.scopes.depth = s.scopes.depth + 1 := h.scopes.depth
  refine ⟨{ t with scopes := t.scopes.reattach s.scopes.locals s.scopes.depth }, ?_, ?_⟩
  · simp only [Session.enterScope, Undo.run, Session.exitScope, Scopes.exit, hl, hd]
    rfl
  · exact ⟨⟨rfl, rfl⟩, h.frames, h.function, h.className, h.breakables, h.inferring⟩

lemma leave_narrowings {n : Narrowings} (h : (s.pushNarrowings n).1.Kept t) :
    ∃ u, (s.pushNarrowings n).2.run t = .ok u ∧ s.Kept u := by
  obtain ⟨stack, hpop, hkept⟩ := h.frames.pop_push
  have hdepth : t.narrowing.depth = (s.narrowing.push s.binder n).depth := h.frames.height_eq
  refine ⟨{ t with narrowing := { t.narrowing with stack } }, ?_, ?_⟩
  · simp only [Session.pushNarrowings, Undo.run, NarrowingStack.popAt, hdepth, if_true,
      NarrowingStack.pop, hpop]
    rfl
  · exact ⟨h.scopes, hkept, h.function, h.className, h.breakables, h.inferring⟩

lemma leave_function {f : FunctionContext} (h : (s.enterFunction f).1.Kept t) :
    ∃ u, (s.enterFunction f).2.run t = .ok u ∧ s.Kept u :=
  ⟨_, rfl, h.scopes, h.frames, (Kept.refl s).function, h.className, h.breakables.backTo_fresh,
    h.inferring⟩

lemma leave_class {name : String} (h : (s.enterClass name).1.Kept t) :
    ∃ u, (s.enterClass name).2.run t = .ok u ∧ s.Kept u :=
  ⟨_, rfl, h.scopes, h.frames, h.function, rfl, h.breakables, h.inferring⟩

lemma leave_breakable {b : Breakable} (h : (s.enterBreakable b).1.Kept t) :
    ∃ u, (s.enterBreakable b).2.run t = .ok u ∧ s.Kept u := by
  obtain ⟨breakables, hpop, hkept⟩ := h.breakables.pop_push
  refine ⟨{ t with breakables }, ?_, ?_⟩
  · simp only [Session.enterBreakable, Undo.run, Session.leaveBreakable, hpop]
  · exact ⟨h.scopes, h.frames, h.function, h.className, hkept, h.inferring⟩

lemma leave_detached (h : s.detach.1.Kept t) : ∃ u, s.detach.2.run t = .ok u ∧ s.Kept u :=
  ⟨_, rfl, ⟨rfl, rfl⟩, h.frames.backTo_fresh, (Kept.refl s).function, rfl,
    h.breakables.backTo_fresh, h.inferring⟩

lemma endInference {id : NodeId} (hid : s.isInferring id = false)
    (h : (s.beginInference id).Kept t) : s.Kept (t.endInference id) := by
  refine ⟨h.scopes, h.frames, h.function, h.className, h.breakables, ?_⟩
  have hmem : id ∉ s.inferring := by simpa [isInferring] using hid
  have hinf : t.inferring = id :: s.inferring := h.inferring
  simp only [Session.endInference, hinf, List.filter_cons, bne_self_eq_false]
  refine List.filter_eq_self.2 fun i hi => ?_
  have hne : i ≠ id := fun e => hmem (e ▸ hi)
  simpa using hne

lemma leave {enter : Session → Session × Undo} (he : Entry enter) (h : (enter s).1.Kept t) :
    ∃ u, (enter s).2.run t = .ok u ∧ s.Kept u := by
  cases he with
  | scope => exact leave_scope h
  | narrowings n => exact leave_narrowings h
  | function f => exact leave_function h
  | cls name => exact leave_class h
  | breakable b => exact leave_breakable h
  | detach => exact leave_detached h

/-- Nothing is asked of the session, and nothing need be known of symbols. -/
def contract : Contract where
  Holds _ := True
  Rel := Kept
  Knows _ _ _ := True

/-- Every step of a check stays at its place. -/
lemma symbolLaws : SymbolLaws contract where
  refl _ := Kept.refl _
  trans := Kept.trans
  canonical _ := False.elim
  report _ _ := .of_eq ⟨rfl, rfl⟩ rfl rfl rfl rfl rfl
  trace _ _ _ := .of_eq ⟨rfl, rfl⟩ rfl rfl rfl rfl rfl
  record _ _ _ _ := .of_eq ⟨rfl, rfl⟩ rfl rfl rfl rfl rfl
  define _ _ _ h := .of_eq (Scopes.inForce_define h) rfl rfl rfl rfl rfl
  update _ _ _ h := .of_eq (Scopes.inForce_updateSymbol h) rfl rfl rfl rfl rfl
  retypeSymbol _ _ _ := .of_eq ⟨rfl, rfl⟩ rfl rfl rfl rfl rfl
  forget name t _ _ _ := .forget name t
  addReturn t _ _ := ⟨⟨rfl, rfl⟩, .refl _, ⟨[t], rfl⟩, rfl, .refl _, rfl⟩
  markChecked _ _ := .of_eq ⟨rfl, rfl⟩ rfl rfl rfl rfl rfl
  inference _ := endInference
  leave he _ := leave he.entry
  after _ _ := trivial
  entered _ _ := trivial
  begun _ _ := trivial
  learn _ _ := trivial
  learnDefined _ _ := trivial
  knowsAfter _ _ _ := trivial
  knowsEntered _ _ _ := trivial
  knowsBegun _ _ _ := trivial

lemma stepLaws : StepLaws contract := symbolLaws.stepLaws

end Kept

/-- The session `t` is where `s` is: in the same scopes, under the same narrowings, in the
same function, class, loops and switches, and inferring the same declarations. The
function may have noted more returns. -/
structure SamePlace (s t : Session) : Prop where
  locals : t.scopes.locals = s.scopes.locals
  depth : t.scopes.depth = s.scopes.depth
  frames : t.narrowing.stack.toList = s.narrowing.stack.toList
  frameDepth : t.narrowing.depth = s.narrowing.depth
  function : ∃ more, t.function = s.function.map fun f => f.noting more
  className : t.className = s.className
  breakables : t.breakables.toList = s.breakables.toList
  inferring : t.inferring = s.inferring

lemma Kept.samePlace {s t : Session} (h : s.Kept t) : s.SamePlace t where
  locals := h.scopes.locals
  depth := h.scopes.depth
  frames := h.frames.toList_eq
  frameDepth := h.frames.height_eq
  function := h.function
  className := h.className
  breakables := h.breakables.toList_eq
  inferring := h.inferring

end Session

namespace Check

variable {α : Type}

/-- Every run of the check comes back to the place where it started, with a result or
with a fault. A search without end and dead code that ends in an absent statement are the
only misuses that can come out: no pop is unbalanced or made on an empty stack, and the
global scope is not left. -/
def ComesBack (c : Check α) : Prop :=
  ∀ s, s.SamePlace (c s).2 ∧
    ∀ m, (c s).1 = .error (.misuse m) → m = .endless ∨ m = .absentNode

lemma Yields.comesBack {P : α → Prop} {c : Check α} (h : c.Yields Session.Kept.contract P) :
    c.ComesBack := by
  intro s
  obtain ⟨hkept, horderly, -⟩ := h s trivial
  exact ⟨hkept.samePlace, fun m hm => horderly _ hm⟩

end Check

/-- Statements, expressions, bodies, and functions and methods on demand are checked
without losing the place, in every session and however deep checks on demand are
nested. -/
theorem checks_come_back (limit : Nat) :
    (∀ n, (Walk.node (Walk.demand limit) n).ComesBack) ∧
    (∀ e h, (Walk.expr (Walk.demand limit) e h).ComesBack) ∧
    (∀ f b, (Rule.functionBody f (Walk.body (Walk.demand limit) b)).ComesBack) ∧
    (∀ x, ((Walk.demand limit).function x).ComesBack) ∧
    (∀ owner name, ((Walk.demand limit).method owner name).ComesBack) := by
  have laws := Session.Kept.stepLaws
  have hd := laws.demand limit
  refine ⟨fun n => ?_, fun e h => ?_, fun f b => ?_, fun x => ?_, fun owner name => ?_⟩
  · exact (laws.walkNode hd n).comesBack
  · exact (laws.walkExpr hd e h).comesBack
  · exact (laws.functionBody f (laws.walkBody hd b)).comesBack
  · exact (hd.function x).comesBack
  · exact (hd.method owner name).comesBack

end TypedScript
