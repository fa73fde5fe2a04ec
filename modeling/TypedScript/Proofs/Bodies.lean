import TypedScript.Proofs.Lineage.Endings

/-!
# Where bodies are checked

The body of a function or method is checked in its place, or earlier on demand, when its
result is needed. In its place it sees the scopes of its declaration. On demand a function or
method that is declared at module level is checked at module level, whatever the use. One that
is declared further in is checked in the scopes of the use, so that it sees what is declared
around the use as well.

That a body is checked in certain sessions only is said by way of other bodies: one that does
the same in those sessions cannot be told from it.
-/
namespace TypedScript

/-- The symbol is the one of its name in the global scope. -/
def Scopes.IsGlobal (s : Scopes) (x : Symbol) : Prop :=
  ∃ y, s.global.named? x.name = some y ∧ y.id = x.id

/-! ## Standing in a body -/

namespace Session

variable {s t u : Session} {locals : List ScopeId} {className : String}

/-- The sessions while what begins at `t` is checked. What is checked at module level in
between begins there. -/
inductive Inside (t : Session) : Session → Prop
  | here : Inside t t
  | leads {u v : Session} : Inside t u → u.Leads v → Inside t v
  | entered {enter : Session → Session × Undo} {u : Session} :
      Inside t u → Entry enter → enter ≠ Session.detach → Inside t (enter u).1

/-- The scopes in force at `t` are `locals` and, above them, scopes entered since `s`. -/
structure Above (s : Session) (locals : List ScopeId) (t : Session) : Prop where
  reached : t.Reached
  own : ∃ own, t.scopes.locals = own ++ locals ∧ ∀ i ∈ own, s.scopes.entered.size ≤ i
  since : s.scopes.entered.size ≤ t.scopes.entered.size

namespace Above

lemma here (hs : s.Reached) : Above s s.scopes.locals s :=
  ⟨hs, ⟨[], rfl, fun _ hi => absurd hi List.not_mem_nil⟩, Nat.le_refl _⟩

lemma leads (h : Above s locals t) (hu : t.Leads u) : Above s locals u := by
  have hgrows := hu.grows h.reached.layered.1
  have hlocals : u.scopes.locals = t.scopes.locals := hgrows.locals
  exact ⟨h.reached.leads hu, hlocals ▸ h.own, Nat.le_trans h.since hgrows.size⟩

lemma enterScope (h : Above s locals t) : Above s locals t.enterScope.1 := by
  obtain ⟨own, hown, hnew⟩ := h.own
  refine ⟨h.reached.entered .scope, ⟨t.scopes.entered.size :: own, ?_, ?_⟩, ?_⟩
  · exact congrArg (t.scopes.entered.size :: ·) hown
  · intro i hi
    obtain rfl | hi := List.mem_cons.1 hi
    · exact h.since
    · exact hnew i hi
  · exact Nat.le_trans h.since (by simp [Session.enterScope, Scopes.enter])

lemma entered {enter : Session → Session × Undo} (h : Above s locals t) (he : Entry enter)
    (hne : enter ≠ Session.detach) : Above s locals (enter t).1 := by
  cases he with
  | scope => exact h.enterScope
  | detach => exact absurd rfl hne
  | narrowings n => exact ⟨h.reached.entered (.narrowings n), h.own, h.since⟩
  | function f => exact ⟨h.reached.entered (.function f), h.own, h.since⟩
  | cls name => exact ⟨h.reached.entered (.cls name), h.own, h.since⟩
  | breakable b => exact ⟨h.reached.entered (.breakable b), h.own, h.since⟩

lemma detach (h : Above s locals t) : Above s [] t.detach.1 :=
  ⟨h.reached.entered .detach, ⟨[], rfl, fun _ hi => absurd hi List.not_mem_nil⟩, h.since⟩

lemma inside (h : Above s locals t) (hu : t.Inside u) : Above s locals u := by
  induction hu with
  | here => exact h
  | leads _ hv ih => exact ih.leads hv
  | entered _ he hne ih => exact ih.entered he hne

/-- A name means a symbol of the global scope, of one of `locals` or of a new scope. -/
lemma of_lookup? (h : Above s locals t) {name : String} {x : Symbol}
    (hx : t.scopes.lookup? name = some x) : x ∈ t.scopes.global ∨
      ∃ i, x ∈ t.scopes.scope i ∧ (i ∈ locals ∨ s.scopes.entered.size ≤ i) := by
  obtain ⟨own, hown, hnew⟩ := h.own
  obtain ⟨scope, hscope, hx⟩ := List.mem_flatten.1 (Scopes.lookup?_mem hx).1
  obtain hscope | hscope := List.mem_append.1 hscope
  · obtain ⟨i, hi, rfl⟩ := List.mem_map.1 hscope
    rw [hown] at hi
    exact .inr ⟨i, hx, (List.mem_append.1 hi).symm.imp id (hnew i)⟩
  · exact .inl (List.mem_singleton.1 hscope ▸ hx)

end Above

/-- At `t` begins a body in the class of this name whose names are those of the scopes
`locals`, of the global one, and of scopes entered since `s`. -/
def Begins (s : Session) (locals : List ScopeId) (className : String) (t : Session) : Prop :=
  t.className = className ∧ ∀ u, t.Inside u → ∀ name x, u.scopes.lookup? name = some x →
    x ∈ u.scopes.global ∨ ∃ i, x ∈ u.scopes.scope i ∧ (i ∈ locals ∨ s.scopes.entered.size ≤ i)

/-- The session stands above `locals`, in the class of this name. -/
structure At (s : Session) (locals : List ScopeId) (className : String) (t : Session) : Prop
    extends Above s locals t where
  className_eq : t.className = className

namespace At

lemma here (hs : s.Reached) : At s s.scopes.locals s.className s := ⟨.here hs, rfl⟩

lemma begins (h : At s locals className t) : Begins s locals className t :=
  ⟨h.className_eq, fun _ hu _ _ hx => (h.toAbove.inside hu).of_lookup? hx⟩

/-- A check leaves the session where it stands. -/
lemma run {α : Type} {P : α → Prop} {c : Check α} {a : α} (h : At s locals className t)
    (hc : c.Yields Leads.contract P) (hrun : c t = (.ok a, u)) : At s locals className u := by
  obtain ⟨hkept, hleads⟩ := (hc t h.reached.layered.1).1
  rw [hrun] at hkept hleads
  exact ⟨h.toAbove.leads hleads, hkept.className.trans h.className_eq⟩

/-- Also a check that goes by what is known of a symbol. -/
lemma runGiven {α : Type} {P : α → Prop} {c : Check α} {a : α} {id : SymbolId}
    {b : Option Heritage} (h : At s locals className t)
    (hc : c.Yields (Leads.contract.given id b) P)
    (hknows : Leads.contract.Knows t id b) (hrun : c t = (.ok a, u)) :
    At s locals className u := by
  obtain ⟨hkept, hleads⟩ := (hc t ⟨h.reached.layered.1, hknows⟩).1
  rw [hrun] at hkept hleads
  exact ⟨h.toAbove.leads hleads, hkept.className.trans h.className_eq⟩

lemma enterScope (h : At s locals className t) : At s locals className t.enterScope.1 :=
  ⟨h.toAbove.enterScope, h.className_eq⟩

lemma enterFunction (h : At s locals className t) (f : FunctionContext) :
    At s locals className (t.enterFunction f).1 :=
  ⟨⟨h.reached.entered (.function f), h.own, h.since⟩, h.className_eq⟩

lemma enterClass (h : At s locals className t) (name : String) :
    At s locals name (t.enterClass name).1 :=
  ⟨⟨h.reached.entered (.cls name), h.own, h.since⟩, rfl⟩

lemma detach (h : At s locals className t) : At s [] "" t.detach.1 := ⟨h.toAbove.detach, rfl⟩

lemma beginInference (h : At s locals className t) (id : NodeId) :
    At s locals className (t.beginInference id) :=
  ⟨h.toAbove.leads (.stay rfl), h.className_eq⟩

end At

end Session

/-! ## Bodies that do the same -/

namespace BodyCheck

/-- The bodies are of the same text, and in sessions with the property their checks do the
same. -/
inductive SameIn (P : Session → Prop) : BodyCheck → BodyCheck → Prop
  | missing : SameIn P .missing .missing
  | block {b : Block} {c d : Check Unit} : (∀ t, P t → c t = d t) →
      SameIn P (.block b c) (.block b d)
  | expr {e : Expr} {c d : Hint → Check Ty} : (∀ t, P t → ∀ h, c h t = d h t) →
      SameIn P (.expr ⟨e, c⟩) (.expr ⟨e, d⟩)

lemma SameIn.mono {P Q : Session → Prop} {b b' : BodyCheck} (h : b.SameIn P b')
    (hQ : ∀ t, Q t → P t) : b.SameIn Q b' := by
  cases h with
  | missing => exact .missing
  | block h => exact .block fun t ht => h t (hQ t ht)
  | expr h => exact .expr fun t ht => h t (hQ t ht)

end BodyCheck

/-- The checks of the parts of a class differ in the bodies of its methods and constructor at
most, and those do the same in sessions with the property. -/
structure ClassCheck.SameIn (P : Session → Prop) (k k' : ClassCheck) : Prop where
  decl : k.decl = k'.decl
  fields : k.fields = k'.fields
  ctor : Option.Rel (fun m m' => m.1 = m'.1 ∧ m.2.SameIn P m'.2) k.ctor k'.ctor
  methods : List.Forall₂ (fun m m' => m.1 = m'.1 ∧ m.2.SameIn P m'.2) k.methods k'.methods

lemma ClassCheck.SameIn.mono {P Q : Session → Prop} {k k' : ClassCheck} (h : k.SameIn P k')
    (hQ : ∀ t, Q t → P t) : k.SameIn Q k' where
  decl := h.decl
  fields := h.fields
  ctor := by
    have hctor := h.ctor
    generalize k.ctor = m, k'.ctor = m' at hctor ⊢
    cases hctor with
    | none => exact .none
    | some hm => exact .some ⟨hm.1, hm.2.mono hQ⟩
  methods := h.methods.imp fun _ _ hm => ⟨hm.1, hm.2.mono hQ⟩

namespace Check

variable {α β : Type} {s : Session} {c d : Check α} {f g : α → Check β}

/-- The checks do the same in a session. -/
def AgreeAt (s : Session) (c d : Check α) : Prop := c s = d s

namespace AgreeAt

lemma refl (c : Check α) : c.AgreeAt s c := rfl

lemma bind (hc : AgreeAt s c d) (hf : ∀ a t, c s = (.ok a, t) → AgreeAt t (f a) (g a)) :
    AgreeAt s (c >>= f) (d >>= g) := by
  rw [AgreeAt, run_bind, run_bind, ← hc]
  rcases hrun : c s with ⟨e | a, t⟩
  · rfl
  · exact hf a t hrun

/-- After the same beginning. -/
lemma after (hf : ∀ a t, c s = (.ok a, t) → AgreeAt t (f a) (g a)) :
    AgreeAt s (c >>= f) (c >>= g) :=
  .bind rfl hf

lemma ite {p : Prop} [Decidable p] {c' d' : Check α} (h : AgreeAt s c d) (h' : AgreeAt s c' d') :
    AgreeAt s (if p then c else c') (if p then d else d') := by
  split
  · exact h
  · exact h'

lemma during {enter : Session → Session × Undo} (h : AgreeAt (enter s).1 c d) :
    AgreeAt s (Check.during enter c) (Check.during enter d) := by
  unfold AgreeAt at h ⊢
  simp only [Check.during, h]

lemma andThen {last : Session → Session} (h : AgreeAt s c d) :
    AgreeAt s (Check.andThen c last) (Check.andThen d last) := by
  unfold AgreeAt at h ⊢
  simp only [Check.andThen, h]

lemma reporting {c d : Check Unit} (h : AgreeAt s c d) :
    AgreeAt s (Check.reporting c) (Check.reporting d) := by
  unfold AgreeAt at h ⊢
  simp only [Check.reporting, h]

end AgreeAt

/-- Where the first check has a result the second one fails, and comes back. -/
def FailsAt (s : Session) (e : Fault) (c d : Check α) : Prop :=
  ∀ a, (c s).1 = .ok a → (d s).1 = .error e ∧ s.Kept (d s).2

namespace FailsAt

variable {e : Fault}

lemma after {P : α → Prop} (hc : c.Yields Session.Kept.contract P)
    (hf : ∀ a t, FailsAt t e (f a) (g a)) : FailsAt s e (c >>= f) (c >>= g) := by
  intro b hb
  obtain ⟨hkept, -⟩ := hc s trivial
  rw [run_bind] at hb ⊢
  rcases hrun : c s with ⟨e' | a, t⟩ <;> rw [hrun] at hb hkept
  · cases hb
  · obtain ⟨hfails, hafter⟩ := hf a t b hb
    exact ⟨hfails, Session.Kept.trans hkept hafter⟩

lemma ite {p : Prop} [Decidable p] {c' d' : Check α} (h : FailsAt s e c d)
    (h' : FailsAt s e c' d') : FailsAt s e (if p then c else c') (if p then d else d') := by
  split
  · exact h
  · exact h'

lemma during {enter : Session → Session × Undo} (he : Session.Entry enter)
    (h : FailsAt (enter s).1 e c d) :
    FailsAt s e (Check.during enter c) (Check.during enter d) := by
  intro a ha
  have hok : (c (enter s).1).1 = .ok a := by
    cases hundo : (enter s).2.run (c (enter s).1).2 with
    | ok v =>
      rw [run_during hundo] at ha
      exact ha
    | error m =>
      rcases hrun : c (enter s).1 with ⟨r, t⟩
      rw [hrun] at hundo
      simp [Check.during, hrun, hundo] at ha
  obtain ⟨hfails, hkept⟩ := h a hok
  obtain ⟨u, hu, hback⟩ := Session.Kept.leave he hkept
  rw [run_during hu]
  exact ⟨hfails, hback⟩

end FailsAt

end Check

/-! ## Rules that check a body -/

namespace Rule

open Check Session

variable {s t : Session} {locals : List ScopeId} {className : String} {body body' : BodyCheck}

lemma checkBody_agree {P : Session → Prop} (hb : body.SameIn P body') (ht : P t)
    (f : FunctionSpec) (declared : Hint) :
    AgreeAt t (checkBody f declared body) (checkBody f declared body') := by
  cases hb with
  | missing => exact .refl _
  | block h => exact .bind (h t ht) fun _ _ _ => .refl _
  | expr h =>
    refine .after fun u t' hrun => ?_
    cases hrun
    exact .bind (h t ht _) fun _ _ _ => .refl _

/-- A body is checked above the scopes in which the function is. -/
lemma functionBody_agree (hb : body.SameIn (At s locals className) body')
    (ht : At s locals className t) (f : FunctionSpec) :
    AgreeAt t (functionBody f body) (functionBody f body') := by
  have laws := Leads.stepLaws
  have hinner (declared : Hint) {u : Session} (hu : At s locals className u) :
      AgreeAt u
        (during (fun s => s.enterFunction
          { name := f.name, declared, isAsync := f.isAsync, isStatic := f.isStatic })
          (do checkBody f declared body; result f declared))
        (during (fun s => s.enterFunction
          { name := f.name, declared, isAsync := f.isAsync, isStatic := f.isStatic })
          (do checkBody f declared body'; result f declared)) :=
    .during (.bind (checkBody_agree hb (hu.enterFunction _) f declared) fun _ _ _ => .refl _)
  refine .during (.after fun _ t₁ h₁ => .after fun _ t₂ h₂ => ?_)
  have ht₁ := ht.enterScope.run (laws.defineTypeParams _) h₁
  have ht₂ := ht₁.run (laws.defineParams _ _) h₂
  refine .ite ?_ ?_
  · exact .after fun _ _ h => hinner _ (ht₂.run (laws.pure _) h)
  · exact .after fun _ _ h => hinner _ (ht₂.run (laws.map (Q := fun _ => True) (laws.deref _)) h)

lemma once_agree {id : NodeId} {c d : Check Unit} (h : AgreeAt (t.beginInference id) c d) :
    AgreeAt t (once id c) (once id d) := by
  refine .after fun u t' hrun => ?_
  cases hrun
  refine .ite (.refl _) (.after fun _ t' hrun => ?_)
  cases hrun
  exact .andThen h

lemma function_agree (hb : body.SameIn (At s locals className) body')
    (ht : At s locals className t) (f : Callable) :
    AgreeAt t (function f body) (function f body') := by
  have laws := Leads.stepLaws
  refine .after fun x? t₁ h₁ => ?_
  have ht₁ := ht.run (laws.lookup? _) h₁
  split
  · exact .refl _
  · split
    · refine .ite (once_agree (.after fun _ t₂ h₂ => .bind (.andThen ?_) fun _ _ _ => .refl _))
        (.refl _)
      exact functionBody_agree hb ((ht₁.beginInference _).run (laws.traceLine _ _) h₂) _
    · exact .refl _

lemma arrow_agree (hb : body.SameIn (At s locals className) body')
    (ht : At s locals className t) (place : Location) (params : List ParamDecl)
    (result : Annotation) (isAsync : Bool) (expected : Hint) :
    AgreeAt t (arrow place params result body isAsync expected)
      (arrow place params result body' isAsync expected) := by
  have laws := Leads.stepLaws
  refine .after fun ps t₁ h₁ => ?_
  have ht₁ := ht.run (laws.arrowParams _ _ _) h₁
  refine .ite (.after fun _ t₂ h₂ => ?_)
    (.after fun _ t₂ h₂ => .after fun _ t₃ h₃ => ?_)
  · refine .after fun _ t₃ h₃ => .bind (functionBody_agree hb ?_ _) fun _ _ _ => .refl _
    exact (ht₁.run (laws.pure _) h₂).run laws.get h₃
  · refine .after fun _ t₄ h₄ => .bind (functionBody_agree hb ?_ _) fun _ _ _ => .refl _
    exact ((ht₁.run (laws.meaning _) h₂).run (laws.pure _) h₃).run laws.get h₄

/-! ## Classes -/

lemma constructor_agree (hb : body.SameIn (At s locals className) body')
    (ht : At s locals className t) (owner : String) (m : Callable) :
    AgreeAt t (constructor owner m body) (constructor owner m body') := by
  refine .after fun c? t₁ h₁ => ?_
  have ht₁ := ht.run (Leads.stepLaws.classNamed? _) h₁
  split
  · exact .refl _
  · refine once_agree (.bind (.andThen ?_) fun _ _ _ => .refl _)
    exact functionBody_agree hb (ht₁.beginInference _) _

lemma method_agree (hb : body.SameIn (At s locals className) body')
    (ht : At s locals className t) (owner : String) (m : Callable) :
    AgreeAt t (method owner m body) (method owner m body') := by
  refine .after fun c? t₁ h₁ => ?_
  have ht₁ := ht.run (Leads.stepLaws.classNamed? _) h₁
  split
  · exact .refl _
  · split
    · refine once_agree (.bind (.andThen ?_) fun _ _ _ => .refl _)
      exact functionBody_agree hb (ht₁.beginInference _) _
    · exact .refl _

/-- What is checked inside a class stands in that class, and knows what was known before. -/
lemma inClass_agree {c : Class} {b b' : Check Unit} (ht : At s locals className t)
    (h : ∀ u, At s locals c.name u →
      (∀ id h, Leads.contract.Knows t id h → Leads.contract.Knows u id h) → AgreeAt u b b') :
    AgreeAt t (inClass c b) (inClass c b') := by
  have laws := Leads.stepLaws
  have hentered := (ht.enterClass c.name).enterScope
  refine .during (.during (.after fun _ u hrun => h u ?_ fun id h hknows => ?_))
  · exact hentered.run (laws.defineTypeParams _) hrun
  · have horderly := ht.reached.layered.1
    have hknows' := laws.knowsEntered .scope (laws.entered (.cls c.name) horderly)
      (laws.knowsEntered (.cls c.name) horderly hknows)
    have hleads := (laws.defineTypeParams c.typeParams _ hentered.reached.layered.1).1.2
    rw [hrun] at hleads
    exact hleads.knows hentered.reached.layered.1 hknows'

lemma methods_agree {ms ms' : List (Callable × BodyCheck)}
    (h : List.Forall₂ (fun m m' => m.1 = m'.1 ∧ m.2.SameIn (At s locals className) m'.2) ms ms')
    (hk : ∀ m ∈ ms, m.2.Keeps Leads.contract) (ht : At s locals className t) (owner : String) :
    AgreeAt t (methods owner ms) (methods owner ms') := by
  have laws := Leads.stepLaws
  induction h generalizing t with
  | nil => exact .refl _
  | @cons m m' ms ms' hm _ ih =>
    obtain ⟨f, body⟩ := m
    obtain ⟨f', body'⟩ := m'
    obtain ⟨rfl, hbody⟩ := hm
    refine .bind (.reporting (method_agree hbody ht owner f)) fun _ t₁ h₁ => ?_
    have hkeeps := laws.reporting (laws.method owner f (hk (f, body) (.head _)))
    exact ih (fun m hm => hk m (.tail _ hm)) (ht.run hkeeps h₁)

lemma cls_agree {k k' : ClassCheck} {x : Symbol} {c : Class} (hk : k.Keeps Leads.contract)
    (h : k.SameIn (At s locals c.name) k') (ht : At s locals className t)
    (hx : t.scopes.lookup? k.decl.name.name = some x) (hc : x.type = some (.cls c)) :
    AgreeAt t (cls k) (cls k') := by
  have laws := Leads.stepLaws
  obtain ⟨decl, fs, ctor, ms⟩ := k
  obtain ⟨decl', fs', ctor', ms'⟩ := k'
  obtain ⟨rfl, rfl, hctor, hmethods⟩ := h
  refine .after fun x? t₁ h₁ => ?_
  have hfound : x? = some x ∧ t₁ = t := by
    cases h₁
    exact ⟨hx, rfl⟩
  obtain ⟨rfl, rfl⟩ := hfound
  dsimp only
  split
  · rename_i d hd
    obtain rfl : c = d := by simpa [hc] using hd
    refine .ite (.after fun _ t₂ h₂ => ?_) (.refl _)
    have hknown : Leads.contract.Knows t₂ x.id x.heritage? := by
      cases h₂
      exact laws.learn ht.reached.layered.1 (Scopes.has_of_lookup? hx)
    refine inClass_agree (ht.run (laws.traceLine _ _) h₂) fun u hu hknows => ?_
    refine .after fun _ u₁ h₃ => ?_
    have hu₁ := hu.runGiven (laws.fields False.elim fs hk.fields) (hknows _ _ hknown) h₃
    cases hctor with
    | none => exact methods_agree hmethods hk.methods hu₁ _
    | @some m m' hm =>
      obtain ⟨f, body⟩ := m
      obtain ⟨f', body'⟩ := m'
      obtain ⟨rfl, hbody⟩ := hm
      refine .bind (.reporting (constructor_agree hbody hu₁ _ f)) fun _ u₂ h₄ => ?_
      have hkeeps := laws.reporting (laws.constructor c.name f (hk.ctor (f, body) rfl))
      exact methods_agree hmethods hk.methods (hu₁.run hkeeps h₄) _
  · exact .refl _

/-! ## Checks on demand -/

/-- At module level a symbol of the global scope is checked, elsewhere another one. -/
lemma atHome_agree {x : Symbol} {b b' : Check Unit}
    (hglobal : t.scopes.IsGlobal x → AgreeAt t.detach.1 b b')
    (hlocal : ¬ t.scopes.IsGlobal x → AgreeAt t b b') : AgreeAt t (atHome x b) (atHome x b') := by
  refine .after fun u t₁ h₁ => ?_
  cases h₁
  split
  · rename_i y hy
    by_cases hid : y.id = x.id
    · rw [if_pos hid, if_pos hid]
      exact .during (hglobal ⟨y, hy, hid⟩)
    · rw [if_neg hid, if_neg hid]
      refine hlocal ?_
      rintro ⟨z, hz, hzid⟩
      obtain rfl := Option.some.inj (hy.symm.trans hz)
      exact hid hzid
  · rename_i hnone
    refine hlocal ?_
    rintro ⟨z, hz, -⟩
    exact nomatch hnone.symm.trans hz

lemma functionOnDemand_agree {bodyOf bodyOf' : Callable → BodyCheck} {x : Symbol}
    (ht : At s locals className t)
    (hglobal : t.scopes.IsGlobal x → ∀ f, (bodyOf f).SameIn (At s [] "") (bodyOf' f))
    (hlocal : ¬ t.scopes.IsGlobal x →
      ∀ f, (bodyOf f).SameIn (At s locals className) (bodyOf' f)) :
    AgreeAt t (functionOnDemand bodyOf x) (functionOnDemand bodyOf' x) := by
  have laws := Leads.stepLaws
  unfold functionOnDemand
  split
  · exact .refl _
  · rename_i f _
    refine .after fun u t₁ h₁ => ?_
    cases h₁
    refine .ite (.refl _) (atHome_agree (fun hx => ?_) fun hx => ?_)
    · refine .after fun _ t₂ h₂ => .reporting (function_agree (hglobal hx f) ?_ f)
      exact ht.detach.run (laws.traceLine _ _) h₂
    · refine .after fun _ t₂ h₂ => .reporting (function_agree (hlocal hx f) ?_ f)
      exact ht.run (laws.traceLine _ _) h₂

lemma methodOnDemand_agree {bodyOf bodyOf' : Callable → BodyCheck} {owner : String} {x : Symbol}
    {c : Class} (ht : At s locals className t) (hx : t.scopes.lookup? owner = some x)
    (hc : x.type = some (.cls c))
    (hglobal : t.scopes.IsGlobal x → ∀ f, (bodyOf f).SameIn (At s [] c.name) (bodyOf' f))
    (hlocal : ¬ t.scopes.IsGlobal x →
      ∀ f, (bodyOf f).SameIn (At s locals c.name) (bodyOf' f)) (name : String) :
    AgreeAt t (methodOnDemand bodyOf owner name) (methodOnDemand bodyOf' owner name) := by
  have laws := Leads.stepLaws
  refine .after fun x? t₁ h₁ => ?_
  have hfound : x? = some x ∧ t₁ = t := by
    cases h₁
    exact ⟨hx, rfl⟩
  obtain ⟨rfl, rfl⟩ := hfound
  dsimp only
  split
  · exact .refl _
  · rename_i m _
    refine .after fun u t₂ h₂ => ?_
    cases h₂
    rw [hc]
    refine .ite (.refl _) (atHome_agree (fun h => ?_) fun h => ?_)
    · refine .after fun _ t₃ h₃ => .reporting ?_
      exact inClass_agree (ht.detach.run (laws.traceLine _ _) h₃) fun u hu _ =>
        method_agree (hglobal h m) hu owner m
    · refine .after fun _ t₃ h₃ => .reporting ?_
      exact inClass_agree (ht.run (laws.traceLine _ _) h₃) fun u hu _ =>
        method_agree (hlocal h m) hu owner m

/-- A body is checked, if its parameters can be declared. -/
lemma functionBody_fails (f : FunctionSpec) (b : Block) (d : Diagnostic) :
    FailsAt s (.diagnostic d) (functionBody f .missing) (functionBody f (.block b (fail d))) := by
  have laws := Kept.stepLaws
  have hinner (declared : Hint) (t : Session) :
      FailsAt t (.diagnostic d)
        (during (fun s => s.enterFunction
          { name := f.name, declared, isAsync := f.isAsync, isStatic := f.isStatic })
          (do checkBody f declared .missing; result f declared))
        (during (fun s => s.enterFunction
          { name := f.name, declared, isAsync := f.isAsync, isStatic := f.isStatic })
          (do checkBody f declared (.block b (fail d)); result f declared)) :=
    .during (.function _) fun _ _ => ⟨rfl, .refl _⟩
  refine .during .scope (.after (laws.defineTypeParams _) fun _ t₁ =>
    .after (laws.defineParams _ _) fun _ t₂ => .ite ?_ ?_)
  · exact .after (laws.pure _) fun declared t => hinner declared t
  · exact .after (laws.map (Q := fun _ => True) (laws.deref _)) fun declared t => hinner declared t

end Rule

namespace Session

/-- Bodies in their place are checked above the scopes of the declaration, and in its class:
two bodies that do the same there cannot be told apart. -/
structure ChecksInPlace (s : Session) : Prop where
  function : ∀ f b b', b.SameIn (s.Begins s.scopes.locals s.className) b' →
    Check.AgreeAt s (Rule.function f b) (Rule.function f b')
  arrow : ∀ place params result isAsync expected b b',
    b.SameIn (s.Begins s.scopes.locals s.className) b' →
    Check.AgreeAt s (Rule.arrow place params result b isAsync expected)
      (Rule.arrow place params result b' isAsync expected)
  /-- The bodies of a class are checked in that class. -/
  cls : ∀ limit decl k' x c, s.scopes.lookup? decl.name.name = some x → x.type = some (.cls c) →
    (Walk.cls (Walk.demand limit) decl).SameIn (s.Begins s.scopes.locals c.name) k' →
    Check.AgreeAt s (Rule.cls (Walk.cls (Walk.demand limit) decl)) (Rule.cls k')
  /-- And they are checked, if the parameters can be declared: a body that fails is noticed. -/
  noticed : ∀ f b d t, (Rule.functionBody f .missing s).1 = .ok t →
    (Rule.functionBody f (.block b (Check.fail d)) s).1 = .error (.diagnostic d)

/-- Bodies on demand are checked at module level where they are declared at module level, and
otherwise in the scopes of the use. Methods are checked in their class either way. -/
structure ChecksOnDemand (s : Session) : Prop where
  globalFunction : ∀ x bodyOf bodyOf', s.scopes.IsGlobal x →
    (∀ f, (bodyOf f).SameIn (s.Begins [] "") (bodyOf' f)) →
    Check.AgreeAt s (Rule.functionOnDemand bodyOf x) (Rule.functionOnDemand bodyOf' x)
  localFunction : ∀ x bodyOf bodyOf', ¬ s.scopes.IsGlobal x →
    (∀ f, (bodyOf f).SameIn (s.Begins s.scopes.locals s.className) (bodyOf' f)) →
    Check.AgreeAt s (Rule.functionOnDemand bodyOf x) (Rule.functionOnDemand bodyOf' x)
  globalMethod : ∀ owner name x c bodyOf bodyOf', s.scopes.lookup? owner = some x →
    x.type = some (.cls c) → s.scopes.IsGlobal x →
    (∀ f, (bodyOf f).SameIn (s.Begins [] c.name) (bodyOf' f)) →
    Check.AgreeAt s (Rule.methodOnDemand bodyOf owner name) (Rule.methodOnDemand bodyOf' owner name)
  localMethod : ∀ owner name x c bodyOf bodyOf', s.scopes.lookup? owner = some x →
    x.type = some (.cls c) → ¬ s.scopes.IsGlobal x →
    (∀ f, (bodyOf f).SameIn (s.Begins s.scopes.locals c.name) (bodyOf' f)) →
    Check.AgreeAt s (Rule.methodOnDemand bodyOf owner name) (Rule.methodOnDemand bodyOf' owner name)

lemma Reached.checksInPlace {s : Session} (hs : s.Reached) : s.ChecksInPlace := by
  have laws := Leads.stepLaws
  have here := At.here hs
  refine ⟨fun f b b' h => ?_, fun place params result isAsync expected b b' h => ?_,
    fun limit decl k' x c hx hc h => ?_, fun f b d t ht => ?_⟩
  · exact Rule.function_agree (h.mono fun _ => At.begins) here f
  · exact Rule.arrow_agree (h.mono fun _ => At.begins) here _ _ _ _ _
  · have hk := laws.walkClass (laws.demand limit) decl
    have hdecl : (Walk.cls (Walk.demand limit) decl).decl = decl := by cases decl; rfl
    exact Rule.cls_agree hk (h.mono fun _ => At.begins) here (hdecl.symm ▸ hx) hc
  · exact (Rule.functionBody_fails f b d t ht).1

lemma Reached.checksOnDemand {s : Session} (hs : s.Reached) : s.ChecksOnDemand := by
  have here := At.here hs
  refine ⟨fun x bodyOf bodyOf' hx h => ?_, fun x bodyOf bodyOf' hx h => ?_,
    fun owner name x c bodyOf bodyOf' hlookup hc hx h => ?_,
    fun owner name x c bodyOf bodyOf' hlookup hc hx h => ?_⟩
  · exact Rule.functionOnDemand_agree here (fun _ f => (h f).mono fun _ => At.begins)
      fun hn => absurd hx hn
  · exact Rule.functionOnDemand_agree here (fun hn => absurd hn hx)
      fun _ f => (h f).mono fun _ => At.begins
  · exact Rule.methodOnDemand_agree here hlookup hc (fun _ f => (h f).mono fun _ => At.begins)
      (fun hn => absurd hx hn) name
  · exact Rule.methodOnDemand_agree here hlookup hc (fun hn => absurd hn hx)
      (fun _ f => (h f).mono fun _ => At.begins) name

/-- In every session that an analysis comes to, bodies in their place and bodies at module level
are checked where they stand, whatever the use. A body that is declared further in and checked
on demand sees the scopes of the use. -/
theorem bodies_checked_in_context (s : Session) (hs : s.Reached) :
    s.ChecksInPlace ∧ s.ChecksOnDemand :=
  ⟨hs.checksInPlace, hs.checksOnDemand⟩

/-- A function without parameters. -/
def plainFunction (id : NodeId) (name : String) (body : List Node) : Node :=
  .function ⟨id, ⟨name, {}⟩, [], [], .omitted, .block ⟨body, {}⟩, false, .pub, false, {}⟩

/-- A function `g` that returns `x`. -/
def returnsX : Node := plainFunction 1 "g" [.ret {} (some (.ident ⟨2, {}⟩ "x"))]

def declaresX : Node := .varDecl {} ⟨"x", {}⟩ .omitted (some (.literal ⟨3, {}⟩ .int "1")) false

def callsG : Node := .exprStmt {} (.call ⟨4, {}⟩ (.ident ⟨5, {}⟩ "g") [] [])

/-- The session in a scope with `x`, where `g` is declared at module level. -/
def besideX : Session :=
  (Walk.node (Walk.demand 1) declaresX (Declare.all [returnsX] {}).2.enterScope.1).2

/-- Where `x` and `g` are both in sight, `g` is checked on demand without `x` if it is declared
at module level. -/
theorem module_function_checked_apart_from_use :
    besideX.Reached ∧ (besideX.scopes.lookup? "x").isSome = true ∧
    ∃ g, besideX.scopes.lookup? "g" = some g ∧ besideX.scopes.IsGlobal g ∧
      ∀ bodyOf bodyOf', (∀ f, (bodyOf f).SameIn (besideX.Begins [] "") (bodyOf' f)) →
        Check.AgreeAt besideX (Rule.functionOnDemand bodyOf g)
          (Rule.functionOnDemand bodyOf' g) := by
  have laws := Leads.stepLaws
  have hreached : besideX.Reached :=
    (laws.walkNode (laws.demand 1) declaresX).stays _
      (.entered ((laws.declareAll [returnsX]).stays _ (.start {})) .scope)
  have hglobal : (besideX.scopes.lookup? "g").any (fun g =>
      (besideX.scopes.global.named? g.name).any fun y => y.id = g.id) = true := by decide +kernel
  obtain ⟨g, hg, hnamed⟩ := (Option.any_eq_true _ _).1 hglobal
  obtain ⟨y, hy, hid⟩ := (Option.any_eq_true _ _).1 hnamed
  have hisGlobal : besideX.scopes.IsGlobal g := ⟨y, hy, of_decide_eq_true hid⟩
  exact ⟨hreached, by decide +kernel, g, hg, hisGlobal, fun bodyOf bodyOf' =>
    (bodies_checked_in_context besideX hreached).2.globalFunction g bodyOf bodyOf' hisGlobal⟩

/-- The number of errors in a program. -/
def errorsIn (nodes : List Node) : Except Misuse Nat :=
  (Analysis.run (some ⟨"m.te", nodes⟩) {}).map Session.errorCount

/-- A function inside another one is checked in the scopes of the use: a name that is not
declared around it passes if it is called where there is such a name, and is an error without
the call. At module level it is an error either way. -/
theorem nested_function_sees_scopes_of_use :
    errorsIn [plainFunction 6 "outer" [.block ⟨[declaresX, callsG], {}⟩, returnsX]] = .ok 0 ∧
    errorsIn [plainFunction 6 "outer" [.block ⟨[declaresX], {}⟩, returnsX]] = .ok 1 ∧
    errorsIn [returnsX, plainFunction 6 "outer" [.block ⟨[declaresX, callsG], {}⟩]] = .ok 1 := by
  refine ⟨?_, ?_, ?_⟩ <;> decide +kernel

end Session

end TypedScript
