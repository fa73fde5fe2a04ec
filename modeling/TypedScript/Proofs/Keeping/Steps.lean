import Mathlib.Tactic.Common
import TypedScript.Checking.Check
import TypedScript.Checking.Declare
import TypedScript.Proofs.Canonical.Sessions
import TypedScript.Proofs.Lineage.Outline

/-!
# What checks keep

A check leads from one session to another. To show that a relation holds between the
two, whatever is checked, it is enough to look at the few steps that change a session.
`BasicLaws` lists what each of these steps has to do for the relation, and the lemmas
here carry it through the ways in which checks are put together.

A contract may also ask that all types be canonical. Then the steps are taken with
canonical types only, and what a check finds is shown to be canonical as well.

The type of a symbol is changed long after the symbol was looked up. What was known of
the symbol then is still known, and a contract says what that is.

A check also may fail to leave what it entered, which is a misuse. The laws exclude
that, so the only misuse left is a search that does not end.
-/
namespace TypedScript

/-- The fault is no misuse, save for a search that does not end and dead code that ends in an
absent statement. -/
def Fault.IsOrderly : Fault → Prop
  | .misuse m => m = .endless ∨ m = .absentNode
  | _ => True

lemma eq_ok_of_toOption {ε α : Type} {r : Except ε α} {a : α} (h : r.toOption = some a) :
    r = .ok a := by
  cases r with
  | error e => cases h
  | ok b => exact congrArg Except.ok (Option.some.inj h)

/-- What is to be shown of checks. -/
structure Contract where
  /-- What holds of the session before. -/
  Holds : Session → Prop
  /-- How the session before and the session after are related. -/
  Rel : Session → Session → Prop
  /-- It is known that the symbol of this number has this heritage. -/
  Knows : Session → SymbolId → Option Heritage → Prop
  /-- Types are to be canonical. -/
  typed : Prop := False

/-- On the way to this session the name was the target of an assignment, which had this type. -/
def Contract.Aimed (R : Contract) (s : Session) (name : String) (t : Ty) : Prop :=
  ∃ (before : Session) (x : Symbol) (id : NodeId), R.Holds before ∧
    before.scopes.lookup? name = some x ∧ t = before.deref (x.type.getD .unknown) ∧
    R.Rel (before.record id t) s

/-- The contract for sessions that know this of a symbol. -/
def Contract.given (R : Contract) (id : SymbolId) (h : Option Heritage) : Contract :=
  { R with Holds := fun s => R.Holds s ∧ R.Knows s id h }

namespace Check

variable {α β : Type}

@[simp] lemma run_pure (a : α) (s : Session) : (pure a : Check α) s = (.ok a, s) := rfl

@[simp] lemma run_get (s : Session) : (get : Check Session) s = (.ok s, s) := rfl

@[simp] lemma run_modify (f : Session → Session) (s : Session) :
    (modify f : Check PUnit) s = (.ok ⟨⟩, f s) := rfl

lemma run_bind (c : Check α) (f : α → Check β) (s : Session) :
    (c >>= f) s = match c s with
      | (.ok a, t) => f a t
      | (.error e, t) => (.error e, t) := by
  simp only [bind, ExceptT.bind, ExceptT.mk, StateT.bind]
  rcases c s with ⟨_ | _, _⟩ <;> rfl

lemma exists_of_run_bind {c : Check α} {f : α → Check β} {s u : Session} {b : β}
    (h : (c >>= f) s = (.ok b, u)) : ∃ a t, c s = (.ok a, t) ∧ f a t = (.ok b, u) := by
  rw [run_bind] at h
  rcases hrun : c s with ⟨e | a, t⟩
  · rw [hrun] at h
    cases h
  · rw [hrun] at h
    exact ⟨a, t, rfl, h⟩

lemma run_tryCatch (c : Check α) (handle : Fault → Check α) (s : Session) :
    tryCatch c handle s = match c s with
      | (.ok a, t) => (.ok a, t)
      | (.error e, t) => handle e t := by
  unfold tryCatch
  simp only [instMonadExceptOfMonadExceptOf, tryCatchThe, MonadExceptOf.tryCatch,
    ExceptT.tryCatch, ExceptT.mk, bind, StateT.bind]
  rcases c s with ⟨_ | _, _⟩ <;> rfl

lemma run_define (name : String) (kind : SymbolKind) (type : Ty) (isConst : Bool)
    (origin : Origin) (s : Session) :
    define name kind type isConst origin s =
      match s.scopes.define name kind (some type) isConst origin with
      | .ok (x, scopes) => (.ok x, { s with scopes })
      | .error e => (.error (.symbol e), s) := by
  rw [define, run_bind, run_get]
  dsimp only
  cases s.scopes.define name kind (some type) isConst origin <;> rfl

lemma run_declare (name : Ident) (kind : SymbolKind) (type : Ty) (isConst : Bool)
    (origin : Origin) (s : Session) :
    declare name kind type isConst origin s =
      match s.scopes.current.named? name.name with
      | some earlier => (.error (.diagnostic (.redeclared s.options.file (some name.location)
          earlier.origin.location? name.name)), s)
      | none => define name.name kind type isConst origin s := by
  rw [declare, run_bind, run_get]
  dsimp only
  cases s.scopes.current.named? name.name <;> rfl

/-- A symbol is declared by defining it. -/
lemma define_of_run_declare {name : Ident} {kind : SymbolKind} {type : Ty} {isConst : Bool}
    {origin : Origin} {x : Symbol} {s t : Session}
    (h : declare name kind type isConst origin s = (.ok x, t)) :
    ∃ scopes, s.scopes.define name.name kind (some type) isConst origin = .ok (x, scopes) ∧
      t = { s with scopes } := by
  rw [run_declare, run_define] at h
  cases hnamed : s.scopes.current.named? name.name with
  | some earlier =>
    rw [hnamed] at h
    cases h
  | none =>
    rw [hnamed] at h
    cases hdefine : s.scopes.define name.name kind (some type) isConst origin with
    | error e =>
      rw [hdefine] at h
      cases h
    | ok r =>
      rw [hdefine] at h
      cases h
      exact ⟨_, rfl, rfl⟩

lemma run_retype (x : Symbol) (t : Ty) (s : Session) :
    retype x t s =
      match s.scopes.updateSymbol x.id x.name t with
      | .ok scopes => (.ok (), { s with scopes })
      | .error e => (.error (.symbol e), s) := by
  rw [retype, run_bind, run_get]
  dsimp only
  cases s.scopes.updateSymbol x.id x.name t <;> rfl

lemma run_during {enter : Session → Session × Undo} {c : Check α} {s u : Session}
    (h : (enter s).2.run (c (enter s).1).2 = .ok u) :
    during enter c s = ((c (enter s).1).1, u) := by
  cases hbody : c (enter s).1 with
  | mk result t =>
    rw [hbody] at h
    simp only [during, hbody, h]

/-- The run from `s` relates it to the session after and misuses nothing. Where types
matter, what it finds has the property. -/
def YieldsAt (R : Contract) (s : Session) (P : α → Prop) (c : Check α) : Prop :=
  R.Holds s → R.Rel s (c s).2 ∧ (∀ e, (c s).1 = .error e → e.IsOrderly) ∧
    (R.typed → ∀ a, (c s).1 = .ok a → P a)

/-- Every run keeps the contract, and what it finds has the property. -/
def Yields (R : Contract) (P : α → Prop) (c : Check α) : Prop := ∀ s, c.YieldsAt R s P

/-- The run from `s` keeps the contract, whatever it finds. -/
abbrev KeepsAt (R : Contract) (s : Session) (c : Check α) : Prop := c.YieldsAt R s fun _ => True

/-- Every run keeps the contract, whatever it finds. -/
abbrev Keeps (R : Contract) (c : Check α) : Prop := c.Yields R fun _ => True

lemma YieldsAt.rel {R : Contract} {s t : Session} {P : α → Prop} {c : Check α}
    {r : Except Fault α} (hc : c.YieldsAt R s P) (hs : R.Holds s) (hrun : c s = (r, t)) :
    R.Rel s t := by
  have hrel := (hc hs).1
  rwa [hrun] at hrel

/-- A check that begins by reading the session works on what it read. -/
lemma YieldsAt.read {R : Contract} {s : Session} {P : α → Prop} {f : Session → Check α}
    (h : (f s).YieldsAt R s P) : (get >>= f).YieldsAt R s P := h

lemma YieldsAt.lookup {R : Contract} {s : Session} {P : α → Prop} {name : String}
    {next : Option Symbol → Check α} (h : (next (s.scopes.lookup? name)).YieldsAt R s P) :
    (lookup? name >>= next).YieldsAt R s P := h

namespace Yields

variable {R : Contract} {P Q : α → Prop}

lemma mono {c : Check α} (hc : c.Yields R P) (h : ∀ a, P a → Q a) : c.Yields R Q := by
  intro s hs
  obtain ⟨hr, hm, ha⟩ := hc s hs
  exact ⟨hr, hm, fun htyped a hrun => h a (ha htyped a hrun)⟩

lemma given {c : Check α} (hc : c.Yields R P) (id : SymbolId) (h : Option Heritage) :
    c.Yields (R.given id h) P :=
  fun s hs => hc s hs.1

lemma ite {p : Prop} [Decidable p] {c d : Check α} (hc : c.Yields R P) (hd : d.Yields R P) :
    (if p then c else d).Yields R P := by
  split
  · exact hc
  · exact hd

end Yields

lemma Keeps.modify {R : Contract} {g : Session → Session} (h : ∀ s, R.Holds s → R.Rel s (g s)) :
    (modify g : Check PUnit).Keeps R :=
  fun s hs => ⟨h s hs, fun _ h => by simp at h, fun _ _ _ => trivial⟩

/-- The result of the run from `s`, if it has one, and the session after have the property. -/
def GivesAt (s : Session) (c : Check α) (P : α → Session → Prop) : Prop :=
  ∀ a t, c s = (.ok a, t) → P a t

lemma GivesAt.failAt {s : Session} {P : α → Session → Prop} (d : String → Diagnostic) :
    (file >>= fun f => fail (d f) : Check α).GivesAt s P := by
  rintro a t ⟨⟩

/-- Every result of the check has the property. -/
def Gives (c : Check α) (P : α → Prop) : Prop := ∀ s, c.GivesAt s fun a _ => P a

namespace Gives

variable {c d : Check α} {f : α → Check β} {P : α → Prop} {Q : β → Prop}

lemma pure {a : α} (h : P a) : (Pure.pure a : Check α).Gives P := by
  rintro s b t ⟨⟩
  exact h

/-- The result of a bind is one of what follows. -/
lemma bind (hf : ∀ a, (f a).Gives Q) : (c >>= f).Gives Q := by
  intro s b t h
  rw [run_bind] at h
  rcases hrun : c s with ⟨e | a, u⟩ <;> rw [hrun] at h
  · cases h
  · exact hf a u b t h

lemma bindIte {p : Prop} [Decidable p] (hf : ∀ a, (f a).Gives Q) :
    (if p then c >>= f else d >>= f).Gives Q := by
  split
  · exact .bind hf
  · exact .bind hf

lemma onlyIf {p : Prop} [Decidable p] {next : Unit → Check β} {c : Check Unit}
    (hn : ∀ a, (next a).Gives Q) : (if p then c >>= next else next ()).Gives Q := by
  split
  · exact .bind hn
  · exact hn ()

end Gives

end Check

/-- The ways in which a check enters something that it leaves again. -/
inductive Session.Entry : (Session → Session × Undo) → Prop
  | scope : Entry Session.enterScope
  | narrowings (n : Narrowings) : Entry fun s => s.pushNarrowings n
  | function (f : FunctionContext) : Entry fun s => s.enterFunction f
  | cls (name : String) : Entry fun s => s.enterClass name
  | breakable (b : Breakable) : Entry fun s => s.enterBreakable b
  | detach : Entry Session.detach

/-- The ways in which a check enters something, with canonical types where they matter. -/
inductive Contract.Opens (R : Contract) : (Session → Session × Undo) → Prop
  | scope : Opens R Session.enterScope
  | narrowings (n : Narrowings) :
    (R.typed → Subst.Canonical n) → Opens R fun s => s.pushNarrowings n
  | function (f : FunctionContext) : (R.typed → f.Canonical) → Opens R fun s => s.enterFunction f
  | cls (name : String) : Opens R fun s => s.enterClass name
  | breakable (b : Breakable) : Opens R fun s => s.enterBreakable b
  | detach : Opens R Session.detach

lemma Contract.Opens.entry {R : Contract} {enter : Session → Session × Undo}
    (h : R.Opens enter) : Session.Entry enter := by
  cases h with
  | scope => exact .scope
  | narrowings n _ => exact .narrowings n
  | function f _ => exact .function f
  | cls name => exact .cls name
  | breakable b => exact .breakable b
  | detach => exact .detach

/-- Where types do not matter, nothing is asked of what is entered. -/
lemma Session.Entry.opens {R : Contract} (hR : ¬ R.typed) {enter : Session → Session × Undo}
    (h : Session.Entry enter) : R.Opens enter := by
  cases h with
  | scope => exact .scope
  | narrowings n => exact .narrowings n fun htyped => absurd htyped hR
  | function f => exact .function f fun htyped => absurd htyped hR
  | cls name => exact .cls name
  | breakable b => exact .breakable b
  | detach => exact .detach

lemma Contract.Opens.ofGiven {R : Contract} {id : SymbolId} {h : Option Heritage}
    {enter : Session → Session × Undo} (he : (R.given id h).Opens enter) : R.Opens enter := by
  cases he with
  | scope => exact .scope
  | narrowings n hn => exact .narrowings n hn
  | function f hf => exact .function f hf
  | cls name => exact .cls name
  | breakable b => exact .breakable b
  | detach => exact .detach

lemma Contract.Aimed.ofGiven {R : Contract} {id : SymbolId} {h : Option Heritage} {s : Session}
    {name : String} {t : Ty} : (R.given id h).Aimed s name t → R.Aimed s name t := by
  rintro ⟨before, x, i, hbefore, haimed⟩
  exact ⟨before, x, i, hbefore.1, haimed⟩

/-- What the steps of a check do for a contract, but for noting what a function returns. -/
structure BasicLaws (R : Contract) : Prop where
  refl {s : Session} : R.Holds s → R.Rel s s
  trans {s t u : Session} : R.Rel s t → R.Rel t u → R.Rel s u
  /-- Where types are to be canonical, those in the session are. -/
  canonical {s : Session} : R.Holds s → R.typed → s.Canonical
  report {s : Session} (d : Diagnostic) : R.Holds s → R.Rel s (s.report d)
  trace {s : Session} (style : Style) (line : String) : R.Holds s → R.Rel s (s.trace style line)
  record {s : Session} (id : NodeId) (t : Ty) : R.Holds s → (R.typed → t.Canonical) →
    R.Rel s (s.record id t)
  define {s : Session} {name : String} {kind : SymbolKind} {type : Option Ty} {isConst : Bool}
    {origin : Origin} {x : Symbol} {scopes : Scopes} : R.Holds s →
    s.scopes.Declarable name kind type → (R.typed → Hint.Canonical type) →
    s.scopes.define name kind type isConst origin = .ok (x, scopes) → R.Rel s { s with scopes }
  forget {s : Session} (name : String) (t : Ty) : R.Holds s → (R.typed → t.Canonical) →
    R.Aimed s name t → R.Rel s (s.forget name t)
  markChecked {s : Session} (id : NodeId) : R.Holds s → R.Rel s (s.markChecked id)
  /-- A declaration is inferred only when it is not being inferred already. -/
  inference {s t : Session} {id : NodeId} : R.Holds s → s.isInferring id = false →
    R.Rel (s.beginInference id) t → R.Rel s (t.endInference id)
  leave {enter : Session → Session × Undo} {s t : Session} : R.Opens enter → R.Holds s →
    R.Rel (enter s).1 t → ∃ u, (enter s).2.run t = .ok u ∧ R.Rel s u
  /-- What holds lasts, and so does what is known of a symbol. -/
  after {s t : Session} : R.Holds s → R.Rel s t → R.Holds t
  entered {enter : Session → Session × Undo} {s : Session} : R.Opens enter → R.Holds s →
    R.Holds (enter s).1
  begun {s : Session} (id : NodeId) : R.Holds s → R.Holds (s.beginInference id)
  learn {s : Session} {x : Symbol} : R.Holds s → s.scopes.Has x → R.Knows s x.id x.heritage?
  learnDefined {s : Session} {name : String} {kind : SymbolKind} {type : Option Ty}
    {isConst : Bool} {origin : Origin} {x : Symbol} {scopes : Scopes} : R.Holds s →
    s.scopes.define name kind type isConst origin = .ok (x, scopes) →
    R.Knows { s with scopes } x.id (type.bind Ty.heritage?)
  knowsAfter {s t : Session} {id : SymbolId} {h : Option Heritage} : R.Holds s → R.Rel s t →
    R.Knows s id h → R.Knows t id h
  knowsEntered {enter : Session → Session × Undo} {s : Session} {id : SymbolId}
    {h : Option Heritage} : R.Opens enter → R.Holds s → R.Knows s id h →
    R.Knows (enter s).1 id h
  knowsBegun {s : Session} {id : SymbolId} {h : Option Heritage} (i : NodeId) : R.Holds s →
    R.Knows s id h → R.Knows (s.beginInference i) id h

namespace BasicLaws

variable {R : Contract} (laws : BasicLaws R)
variable {α β : Type} {c : Check α} {f : α → Check β} {P : α → Prop} {Q : β → Prop}
include laws

/-- What is known of a symbol may be assumed throughout. -/
lemma given (id : SymbolId) (h : Option Heritage) : BasicLaws (R.given id h) where
  refl hs := laws.refl hs.1
  trans := laws.trans
  canonical hs := laws.canonical hs.1
  report d hs := laws.report d hs.1
  trace style line hs := laws.trace style line hs.1
  record id t hs := laws.record id t hs.1
  define hs := laws.define hs.1
  forget name t hs ht haimed := laws.forget name t hs.1 ht haimed.ofGiven
  markChecked id hs := laws.markChecked id hs.1
  inference hs := laws.inference hs.1
  leave he hs := laws.leave he.ofGiven hs.1
  after hs hr := ⟨laws.after hs.1 hr, laws.knowsAfter hs.1 hr hs.2⟩
  entered he hs := ⟨laws.entered he.ofGiven hs.1, laws.knowsEntered he.ofGiven hs.1 hs.2⟩
  begun i hs := ⟨laws.begun i hs.1, laws.knowsBegun i hs.1 hs.2⟩
  learn hs := laws.learn hs.1
  learnDefined hs := laws.learnDefined hs.1
  knowsAfter hs := laws.knowsAfter hs.1
  knowsEntered he hs := laws.knowsEntered he.ofGiven hs.1
  knowsBegun i hs := laws.knowsBegun i hs.1

/-- A symbol at hand is known from here on. -/
lemma knowing {s : Session} {x : Symbol} (hx : s.scopes.Has x)
    (hc : c.Yields (R.given x.id x.heritage?) P) : c.YieldsAt R s P :=
  fun hs => hc s ⟨hs, laws.learn hs hx⟩

/-! ## Ways of putting checks together -/

/-- To give a result is to have found it. -/
lemma give {a : α} (ha : R.typed → P a) : (Pure.pure a : Check α).Yields R P := by
  refine fun _ hs => ⟨laws.refl hs, fun _ h => by simp at h, fun htyped b hb => ?_⟩
  cases hb
  exact ha htyped

lemma pure (a : α) : (Pure.pure a : Check α).Keeps R := laws.give fun _ => trivial

lemma get : (MonadState.get : Check Session).Keeps R :=
  fun _ hs => ⟨laws.refl hs, fun _ h => by simp at h, fun _ _ _ => trivial⟩

lemma throw {e : Fault} (he : e.IsOrderly) : (MonadExcept.throw e : Check α).Yields R P := by
  refine fun _ hs => ⟨laws.refl hs, fun e' h => ?_, fun _ a h => ?_⟩
  · cases h
    exact he
  · cases h

lemma fail (d : Diagnostic) : (Check.fail d : Check α).Yields R P := laws.throw trivial

lemma endless : (MonadExcept.throw (.misuse .endless) : Check α).Yields R P :=
  laws.throw (.inl rfl)

lemma ofSearch {r : Search α} (hr : R.typed → ∀ a, r = .found a → P a) :
    (Check.ofSearch r).Yields R fun a? => ∀ a, a? = some a → P a := by
  cases r with
  | found a => exact laws.give fun htyped b hb => hr htyped b (Option.some.inj hb ▸ rfl)
  | absent => exact laws.give fun _ b hb => by cases hb
  | endless => exact laws.endless

/-- What follows a run needs to keep the contract only after the results it has. -/
lemma bindOk {s : Session} (hc : c.YieldsAt R s P)
    (hf : ∀ a t, c s = (.ok a, t) → (R.typed → P a) → (f a).YieldsAt R t Q) :
    (c >>= f).YieldsAt R s Q := by
  intro hs
  obtain ⟨hr, hm, ha⟩ := hc hs
  rw [Check.run_bind]
  rcases hrun : c s with ⟨e | a, t⟩
  · rw [hrun] at hr hm
    refine ⟨hr, fun _ h => ?_, fun _ b h => ?_⟩
    · cases h
      exact hm e rfl
    · cases h
  · rw [hrun] at hr ha
    obtain ⟨hr', hm', hb⟩ := hf a t hrun (fun htyped => ha htyped a rfl) (laws.after hs hr)
    exact ⟨laws.trans hr hr', hm', hb⟩

/-- What follows a run may rely on how the session came about. -/
lemma bindRel {s : Session} (hs : R.Holds s) (hc : c.YieldsAt R s P)
    (hf : ∀ a t, c s = (.ok a, t) → R.Holds t → R.Rel s t → (R.typed → P a) →
      (f a).YieldsAt R t Q) : (c >>= f).YieldsAt R s Q :=
  laws.bindOk hc fun a t hrun => hf a t hrun (laws.after hs (hc.rel hs hrun)) (hc.rel hs hrun)

lemma bindAt {s : Session} (hc : c.YieldsAt R s P)
    (hf : ∀ a, (R.typed → P a) → (f a).Yields R Q) : (c >>= f).YieldsAt R s Q :=
  laws.bindOk hc fun a t _ ha => hf a ha t

/-- What follows may rely on what was found. -/
lemma bind (hc : c.Yields R P) (hf : ∀ a, (R.typed → P a) → (f a).Yields R Q) :
    (c >>= f).Yields R Q :=
  fun s => laws.bindAt (hc s) hf

lemma bindGives {G : α → Prop} (hc : c.Yields R P) (hG : c.Gives G)
    (hf : ∀ a, (R.typed → P a) → G a → (f a).Yields R Q) : (c >>= f).Yields R Q :=
  fun s => laws.bindOk (hc s) fun a t hrun ha => hf a ha (hG s a t hrun) t

/-- To read the session and go on by what was read. -/
lemma reading {f : Session → Check β} (hf : ∀ s, (R.typed → s.Canonical) → (f s).Yields R Q) :
    (MonadState.get >>= f).Yields R Q :=
  fun s hs => hf s (laws.canonical hs) s hs

lemma map {g : α → β} (hc : c.Yields R P) (hg : ∀ a, P a → Q (g a) := by exact fun _ _ => trivial) :
    (g <$> c).Yields R Q :=
  laws.bind hc fun a ha => laws.give fun htyped => hg a (ha htyped)

/-- A value that is found in one of two ways, and what is done with it. -/
lemma bindIte {p : Prop} [Decidable p] {d : Check α} (hc : c.Yields R P) (hd : d.Yields R P)
    (hf : ∀ a, (R.typed → P a) → (f a).Yields R Q) : (if p then c >>= f else d >>= f).Yields R Q :=
  .ite (laws.bind hc hf) (laws.bind hd hf)

lemma mapM {g : α → Check β} (as : List α) (hg : ∀ a ∈ as, (g a).Yields R Q) :
    (as.mapM g).Yields R fun bs => ∀ b ∈ bs, Q b := by
  induction as with
  | nil => exact laws.give fun _ => List.forall_mem_nil _
  | cons a as ih =>
    have ⟨ha, has⟩ := List.forall_mem_cons.1 hg
    rw [List.mapM_cons]
    exact laws.bind ha fun _ hb => laws.bind (ih has) fun _ hbs => laws.give fun htyped =>
      List.forall_mem_cons.2 ⟨hb htyped, hbs htyped⟩

/-- A step that is taken on a condition, and what follows it either way. -/
lemma onlyIf {p : Prop} [Decidable p] {c : Check Unit} {next : Unit → Check β} (hc : c.Keeps R)
    (hn : ∀ a, (next a).Yields R Q) : (if p then c >>= next else next ()).Yields R Q :=
  .ite (laws.bind hc fun a _ => hn a) (hn ())

lemma tryCatch {handle : Fault → Check α} (hc : c.Yields R P)
    (hh : ∀ e, e.IsOrderly → (handle e).Yields R P) :
    (MonadExcept.tryCatch c handle).Yields R P := by
  intro s hs
  obtain ⟨hr, hm, ha⟩ := hc s hs
  rw [Check.run_tryCatch]
  rcases hrun : c s with ⟨e | a, t⟩
  · rw [hrun] at hr hm
    obtain ⟨hr', hm', ha'⟩ := hh e (hm e rfl) t (laws.after hs hr)
    exact ⟨laws.trans hr hr', hm', ha'⟩
  · rw [hrun] at hr ha
    exact ⟨hr, fun _ h => by simp at h, ha⟩

/-- What is entered is left, after a fault too, and leaving it never fails. -/
lemma duringAt {enter : Session → Session × Undo} {s : Session} (he : R.Opens enter)
    (hc : c.YieldsAt R (enter s).1 P) : (Check.during enter c).YieldsAt R s P := by
  intro hs
  obtain ⟨hr, hm, ha⟩ := hc (laws.entered he hs)
  obtain ⟨u, hu, hru⟩ := laws.leave he hs hr
  rw [Check.run_during hu]
  exact ⟨hru, hm, ha⟩

lemma during {enter : Session → Session × Undo} (he : R.Opens enter) (hc : c.Yields R P) :
    (Check.during enter c).Yields R P :=
  fun _ => laws.duringAt he (hc _)

lemma andThen {last : Session → Session} (hc : c.Yields R P)
    (hl : ∀ s, R.Holds s → R.Rel s (last s)) : (Check.andThen c last).Yields R P := by
  intro s hs
  obtain ⟨hr, hm, ha⟩ := hc s hs
  exact ⟨laws.trans hr (hl _ (laws.after hs hr)), hm, ha⟩

lemma reporting {c : Check Unit} (hc : c.Keeps R) : (Check.reporting c).Keeps R := by
  intro s hs
  obtain ⟨hr, hm, -⟩ := hc s hs
  rw [Check.reporting]
  rcases hrun : c s with ⟨(d | e | m) | a, t⟩ <;> rw [hrun] at hr hm
  · exact ⟨laws.trans hr (laws.report d (laws.after hs hr)), fun _ h => by simp at h,
      fun _ _ _ => trivial⟩
  · exact ⟨laws.trans hr (laws.report _ (laws.after hs hr)), fun _ h => by simp at h,
      fun _ _ _ => trivial⟩
  · refine ⟨hr, fun _ h => ?_, fun _ _ _ => trivial⟩
    cases h
    exact hm _ rfl
  · exact ⟨hr, fun _ h => by simp at h, fun _ _ _ => trivial⟩

/-! ## Steps that only read the session -/

lemma file : Check.file.Keeps R := laws.bind laws.get fun _ _ => laws.pure _

lemma unionWidth : Check.unionWidth.Keeps R := laws.bind laws.get fun _ _ => laws.pure _

lemma lookup? (name : String) :
    (Check.lookup? name).Yields R fun x? => ∀ x, x? = some x → x.Canonical :=
  laws.reading fun _ hs => laws.give fun htyped _ hx _ => (hs htyped).scopes.lookup? hx

lemma classNamed? (name : String) :
    (Check.classNamed? name).Yields R fun c? => ∀ c, c? = some c → (Ty.cls c).Canonical :=
  laws.reading fun _ hs => laws.give fun htyped _ => (hs htyped).scopes.classNamed?

lemma derefCanonical {t : Ty} (ht : R.typed → t.Canonical) :
    (Check.deref t).Yields R Ty.Canonical :=
  laws.reading fun _ hs => laws.give fun htyped => (hs htyped).deref (ht htyped)

lemma deref (t : Ty) : (Check.deref t).Keeps R := laws.bind laws.get fun _ _ => laws.pure _

lemma currentType? {x : Symbol} (hx : R.typed → x.Canonical) :
    (Check.currentType? x).Yields R Hint.Canonical := by
  refine laws.reading fun s hs => laws.give fun htyped => ?_
  split
  · rename_i y hy
    exact (hs htyped).scopes y (Scopes.has_of_symbol? hy).1
  · exact hx htyped

/-- To fail with a diagnostic that names the file. -/
lemma failAt (d : String → Diagnostic) :
    (Check.file >>= fun f => Check.fail (d f) : Check α).Yields R P :=
  laws.bind laws.file fun _ _ => laws.fail _

lemma refuse (code : String) (place : Location) (label message help : String) :
    (Check.refuse code place label message help : Check α).Yields R P :=
  laws.failAt _

lemma typeMismatch (place : Location) (message : String) :
    (Check.typeMismatch place message : Check α).Yields R P :=
  laws.refuse _ _ _ _ _

lemma invalidOperation (place : Location) (message : String) :
    (Check.invalidOperation place message : Check α).Yields R P :=
  laws.refuse _ _ _ _ _

lemma misplaced (code : String) (place : Location) (message help : String) :
    (Check.misplaced code place message help : Check α).Yields R P :=
  laws.refuse _ _ _ _ _

lemma settle (place : Location) (label : String) {verdict : Typing.Verdict}
    (hv : R.typed → verdict.Canonical) :
    (Check.settle place label verdict).Yields R Ty.Canonical := by
  unfold Check.settle
  split
  · exact laws.give fun htyped => hv htyped _ rfl
  · exact laws.failAt _

lemma assignable (place : Location) (value target : Ty) (label : String) :
    (Check.assignable place value target label).Keeps R := by
  unfold Check.assignable
  refine .ite (laws.pure _)
    (laws.bind (laws.deref _) fun _ _ => laws.bind (laws.deref _) fun _ _ => ?_)
  split
  · exact laws.pure _
  · exact laws.failAt _

lemma meaning (a : Annotation) : (Check.meaning a).Yields R Ty.Canonical := by
  refine laws.reading fun s hs => ?_
  split
  · rename_i t ht
    exact laws.give fun htyped =>
      (hs htyped).deref (Scopes.canonical_resolve (hs htyped).scopes _ a t ht)
  · exact laws.refuse _ _ _ _ _

lemma meanings (as : List Annotation) :
    (Check.meanings as).Yields R fun ts => ∀ t ∈ ts, t.Canonical := by
  induction as with
  | nil => exact laws.give fun _ => List.forall_mem_nil _
  | cons a as ih =>
    exact laws.bind (laws.meaning a) fun _ ht => laws.bind ih fun _ hts =>
      laws.give fun htyped => List.forall_mem_cons.2 ⟨ht htyped, hts htyped⟩

/-- A refusal on a condition, and what follows where there is none. -/
lemma orFail {p : Prop} [Decidable p] {d : String → Diagnostic} {next : Unit → Check α}
    (hn : ∀ a, (next a).Yields R P) :
    (if p then Check.file >>= fun f => Check.fail (d f) >>= next else next ()).Yields R P :=
  .ite (laws.bind laws.file fun _ _ => laws.bind (laws.fail (P := fun _ => True) _)
    fun a _ => hn a) (hn ())

/-! ## Steps that change the session -/

lemma reportOne (d : Diagnostic) : (Check.report d).Keeps R := .modify fun _ => laws.report d

lemma traceLine (style : Style) (line : String) : (Check.trace style line).Keeps R :=
  .modify fun _ => laws.trace style line

lemma recordType (id : NodeId) {t : Ty} (ht : R.typed → t.Canonical) :
    (Check.record id t).Keeps R :=
  .modify fun _ hs => laws.record id t hs ht

lemma defineAt {s : Session} {name : String} {kind : SymbolKind} {type : Ty}
    (hd : s.scopes.Declarable name kind (some type)) (isConst : Bool) (origin : Origin)
    (ht : R.typed → type.Canonical) :
    (Check.define name kind type isConst origin).KeepsAt R s := by
  intro hs
  rw [Check.run_define]
  split
  · rename_i x scopes h
    have hr := laws.define hs hd (fun htyped => Hint.canonical_some.2 (ht htyped)) h
    exact ⟨hr, fun _ h => by simp at h, fun _ _ _ => trivial⟩
  · refine ⟨laws.refl hs, fun _ h => ?_, fun _ _ _ => trivial⟩
    cases h
    trivial

lemma defineSymbol (name : String) (kind : SymbolKind) {type : Ty} (isConst : Bool)
    (origin : Origin) (ht : R.typed → type.Canonical) (hk : kind ≠ .cls := by decide) :
    (Check.define name kind type isConst origin).Keeps R :=
  fun _ => laws.defineAt (.of_ne hk) isConst origin ht

lemma declareAt {s : Session} {name : Ident} {kind : SymbolKind} {type : Ty}
    (hd : s.scopes.Declarable name.name kind (some type)) (isConst : Bool) (origin : Origin)
    (ht : R.typed → type.Canonical) :
    (Check.declare name kind type isConst origin).KeepsAt R s := by
  rw [Check.KeepsAt, Check.YieldsAt, Check.run_declare]
  split
  · exact laws.fail _ s
  · exact laws.defineAt hd isConst origin ht

lemma declare (name : Ident) (kind : SymbolKind) {type : Ty} (isConst : Bool) (origin : Origin)
    (ht : R.typed → type.Canonical) (hk : kind ≠ .cls := by decide) :
    (Check.declare name kind type isConst origin).Keeps R :=
  fun _ => laws.declareAt (.of_ne hk) isConst origin ht

/-- A symbol that is looked up is known to what follows. -/
lemma lookup {name : String} {next : Option Symbol → Check α} (hnone : (next none).Yields R P)
    (hsome : ∀ x, (R.typed → x.Canonical) →
      (next (some x)).Yields (R.given x.id x.heritage?) P) :
    (Check.lookup? name >>= next).Yields R P := by
  intro s hs
  refine Check.YieldsAt.lookup ?_ hs
  cases hx : s.scopes.lookup? name with
  | none => exact hnone s
  | some x =>
    have hhas := Scopes.has_of_lookup? hx
    exact laws.knowing hhas (hsome x fun htyped => (laws.canonical hs htyped).scopes x hhas)

/-- A symbol that is declared is known to what follows. -/
lemma declaring {s : Session} {name : Ident} {kind : SymbolKind} {type : Ty} {isConst : Bool}
    {origin : Origin} {next : Symbol → Check α}
    (hd : s.scopes.Declarable name.name kind (some type))
    (ht : R.Holds s → R.typed → type.Canonical)
    (hnext : ∀ x, (next x).Yields (R.given x.id type.heritage?) P) :
    (Check.declare name kind type isConst origin >>= next).YieldsAt R s P := by
  intro hs
  refine laws.bindOk (laws.declareAt hd isConst origin (ht hs)) (fun x t hrun _ ht => ?_) hs
  obtain ⟨scopes, hdefine, rfl⟩ := Check.define_of_run_declare hrun
  exact hnext x _ ⟨ht, laws.learnDefined hs hdefine⟩

/-- A symbol gets another type, where the contract bears that. -/
lemma retype (x : Symbol) {t : Ty} {h : Option Heritage}
    (hupdate : ∀ {s : Session} {scopes : Scopes}, R.Holds s → R.Knows s x.id h →
      s.scopes.updateSymbol x.id x.name t = .ok scopes → R.Rel s { s with scopes }) :
    (Check.retype x t).Keeps (R.given x.id h) := by
  intro s hs
  rw [Check.run_retype]
  split
  · rename_i scopes hrun
    exact ⟨hupdate hs.1 hs.2 hrun, fun _ h => by simp at h, fun _ _ _ => trivial⟩
  · refine ⟨laws.refl hs.1, fun _ h => ?_, fun _ _ _ => trivial⟩
    cases h
    trivial

end BasicLaws

/-- What the steps of a check do for a contract, those included that note what a function
returns. -/
structure NotingLaws (R : Contract) : Prop extends BasicLaws R where
  addReturn {s : Session} (t : Ty) : R.Holds s → (R.typed → t.Canonical) →
    R.Rel s { s with function := s.function.map fun f => { f with returns := f.returns ++ [t] } }

/-! ## Steps that change the type of a symbol -/

/-- What a contract says of changing the type of a class: it has the heritage that is known
of the symbol. -/
structure ClassLaws (R : Contract) : Prop extends BasicLaws R where
  update {s : Session} {id : SymbolId} {name : String} {t : Ty} {h : Heritage} {scopes : Scopes} :
    R.Holds s → R.Knows s id (some h) → t.heritage? = some h → (R.typed → t.Canonical) →
    s.scopes.updateSymbol id name t = .ok scopes → R.Rel s { s with scopes }
  retypeSymbol {s : Session} {id : SymbolId} {t : Ty} {h : Heritage} : R.Holds s →
    R.Knows s id (some h) → t.heritage? = some h → (R.typed → t.Canonical) →
    R.Rel s { s with scopes := s.scopes.retypeSymbol id t }

/-- What a contract says of changing the type of any symbol. -/
structure SymbolLaws (R : Contract) : Prop extends NotingLaws R where
  update {s : Session} {id : SymbolId} {name : String} {t : Ty} {scopes : Scopes} : R.Holds s →
    R.Knows s id t.heritage? → (R.typed → t.Canonical) →
    s.scopes.updateSymbol id name t = .ok scopes → R.Rel s { s with scopes }
  retypeSymbol {s : Session} {id : SymbolId} {t : Ty} : R.Holds s → R.Knows s id t.heritage? →
    (R.typed → t.Canonical) → R.Rel s { s with scopes := s.scopes.retypeSymbol id t }

lemma SymbolLaws.classLaws {R : Contract} (laws : SymbolLaws R) : ClassLaws R where
  toBasicLaws := laws.toBasicLaws
  update hs hknows hheritage := laws.update hs (hheritage ▸ hknows)
  retypeSymbol hs hknows hheritage := laws.retypeSymbol hs (hheritage ▸ hknows)

/-- A class may get another type of the heritage that is known of it. -/
lemma ClassLaws.retypeClass {R : Contract} (laws : ClassLaws R) (x : Symbol) {t : Ty}
    {h : Heritage} (hheritage : t.heritage? = some h) (ht : R.typed → t.Canonical) :
    (Check.retype x t).Keeps (R.given x.id (some h)) :=
  laws.retype x fun hs hknows => laws.update hs hknows hheritage ht

end TypedScript
