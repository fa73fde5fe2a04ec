import TypedScript.Proofs.Discipline

/-!
# What a body returns

While a body is checked, the types of its return statements are noted with the function
around it. Whatever an expression, a function or a class inside the body returns is noted
elsewhere and forgotten, so the types that are noted are those of the statements of the body
itself, in the order of the text.

A statement that is refused notes nothing. If nothing is reported, every return statement is
noted.
-/
namespace TypedScript

/-! ## The return statements of a body -/

mutual

/-- The values of the return statements in a statement, in order. Functions and classes inside it
return for themselves. -/
def Node.returned : Node → List (Option Expr)
  | .ret _ value => [value]
  | .block b => b.returned
  | .ifStmt _ _ b n => b.returned ++ n.returned
  | .whileLoop _ _ b => b.returned
  | .forLoop _ init _ _ b => init.returned ++ b.returned
  | .forOf _ _ _ b => b.returned
  | .switch _ _ cs => SwitchClause.returned cs
  | .tryStmt _ b _ handler final =>
    b.returned ++ (Block.returned? handler ++ Block.returned? final)
  | _ => []
termination_by structural n => n

def Block.returned : Block → List (Option Expr)
  | ⟨ns, _⟩ => Node.rowReturned ns
termination_by structural b => b

def Block.returned? : Option Block → List (Option Expr)
  | none => []
  | some b => b.returned
termination_by structural b => b

def SwitchClause.returned : List SwitchClause → List (Option Expr)
  | [] => []
  | ⟨_, b⟩ :: cs => b.returned ++ SwitchClause.returned cs
termination_by structural cs => cs

def Node.rowReturned : List Node → List (Option Expr)
  | [] => []
  | n :: ns => n.returned ++ Node.rowReturned ns
termination_by structural ns => ns

end

/-- The values that a body returns. -/
def FunctionBody.returned : FunctionBody → List (Option Expr)
  | .missing => []
  | .block b => b.returned
  | .expr x => [some x]

/-- A return statement that was checked: its value, the type that was noted for it, and the
session in which it was checked. -/
structure Return where
  value : Option Expr
  type : Ty
  before : Session

/-- The type that was noted is the one that was found for the value, of which nothing was
expected. -/
inductive Return.Checked (d : Demand) : Return → Prop
  | nothing (s : Session) : Checked d ⟨none, .void, s⟩
  | value {e : Expr} {t : Ty} {s u : Session} :
    Walk.expr d e none s = (.ok t, u) → Checked d ⟨some e, t, s⟩

/-! ## Checks that note nothing -/

namespace Session

variable {enter : Session → Session × Undo} {s t u : Session}

/-- The session is inside a function whose result is inferred, or inside none. -/
def Infers (s : Session) : Prop := ∀ f, s.function = some f → f.declared = none

lemma Infers.noting {types : List Ty} (hs : s.Infers)
    (h : t.function = s.function.map fun f => f.noting types) : t.Infers := by
  intro f hf
  rw [h] at hf
  obtain ⟨g, hg, rfl⟩ := Option.map_eq_some_iff.1 hf
  exact hs g hg

/-- The ways of entering something in which the function stays the same. -/
inductive Inward : (Session → Session × Undo) → Prop
  | scope : Inward Session.enterScope
  | narrowings (n : Narrowings) : Inward fun s => s.pushNarrowings n
  | cls (name : String) : Inward fun s => s.enterClass name
  | breakable (b : Breakable) : Inward fun s => s.enterBreakable b

namespace Inward

lemma entry (he : Inward enter) : Entry enter := by
  cases he with
  | scope => exact .scope
  | narrowings n => exact .narrowings n
  | cls name => exact .cls name
  | breakable b => exact .breakable b

lemma function_entered (he : Inward enter) (s : Session) :
    (enter s).1.function = s.function ∧ (enter s).1.reports = s.reports := by
  cases he <;> exact ⟨rfl, rfl⟩

lemma function_left (he : Inward enter) (hu : (enter s).2.run t = .ok u) :
    u.function = t.function ∧ u.reports = t.reports := by
  cases he with
  | scope =>
    simp only [enterScope, Undo.run, exitScope, Scopes.exit] at hu
    split at hu
    · cases hu
    · cases hu
      exact ⟨rfl, rfl⟩
  | narrowings n =>
    simp only [pushNarrowings, Undo.run, NarrowingStack.popAt, NarrowingStack.pop] at hu
    split at hu
    · split at hu
      · cases hu
      · cases hu
        exact ⟨rfl, rfl⟩
    · cases hu
  | cls name =>
    cases hu
    exact ⟨rfl, rfl⟩
  | breakable b =>
    simp only [enterBreakable, Undo.run, leaveBreakable] at hu
    split at hu
    · cases hu
    · cases hu
      exact ⟨rfl, rfl⟩

end Inward

/-- What was entered is left, and the function is the one that it was. -/
lemma function_left (he : Entry enter) (h : t.function = (enter s).1.function)
    (hu : (enter s).2.run t = .ok u) : u.function = s.function := by
  have hnested (he : Inward enter) : u.function = s.function :=
    (he.function_left hu).1.trans (h.trans (he.function_entered s).1)
  cases he with
  | scope => exact hnested .scope
  | narrowings n => exact hnested (.narrowings n)
  | cls name => exact hnested (.cls name)
  | breakable b => exact hnested (.breakable b)
  | function f =>
    cases hu
    rfl
  | detach =>
    cases hu
    rfl

/-- Checks come back to where they started, and note nothing for the function there. -/
def steady : Contract where
  Holds _ := True
  Rel s t := s.Kept t ∧ t.function = s.function
  Knows _ _ _ := True

lemma classLaws_steady : ClassLaws steady where
  refl _ := ⟨.refl _, rfl⟩
  trans h k := ⟨h.1.trans k.1, k.2.trans h.2⟩
  canonical _ := False.elim
  report d hs := ⟨Kept.symbolLaws.report d hs, rfl⟩
  trace style line hs := ⟨Kept.symbolLaws.trace style line hs, rfl⟩
  record id t hs ht := ⟨Kept.symbolLaws.record id t hs ht, rfl⟩
  define hs hd ht h := ⟨Kept.symbolLaws.define hs hd ht h, rfl⟩
  update hs _ _ ht h := ⟨Kept.symbolLaws.update hs trivial ht h, rfl⟩
  retypeSymbol hs _ _ ht := ⟨Kept.symbolLaws.retypeSymbol hs trivial ht, rfl⟩
  forget name t _ _ _ := ⟨.forget name t, rfl⟩
  markChecked id hs := ⟨Kept.symbolLaws.markChecked id hs, rfl⟩
  inference hs hid h := ⟨Kept.symbolLaws.inference hs hid h.1, h.2⟩
  leave he _ h := by
    obtain ⟨u, hu, hkept⟩ := Kept.leave he.entry h.1
    exact ⟨u, hu, hkept, function_left he.entry h.2 hu⟩
  after _ _ := trivial
  entered _ _ := trivial
  begun _ _ := trivial
  learn _ _ := trivial
  learnDefined _ _ := trivial
  knowsAfter _ _ _ := trivial
  knowsEntered _ _ _ := trivial
  knowsBegun _ _ _ := trivial

end Session

open Session

variable {α β : Type} {d : Demand}

lemma Check.Yields.kept {P : α → Prop} {c : Check α} (hc : c.Yields steady P) :
    c.Yields Kept.contract P := by
  intro s _
  obtain ⟨hrel, horderly, -⟩ := hc s trivial
  exact ⟨hrel.1, horderly, False.elim⟩

/-- Inside a function of its own a check may note what it likes. -/
lemma Check.Yields.inFunction {P : α → Prop} {c : Check α} (hc : c.Yields Kept.contract P)
    (f : FunctionContext) : (Check.during (fun s => s.enterFunction f) c).Yields steady P := by
  intro s _
  obtain ⟨hkept, horderly, -⟩ := hc (s.enterFunction f).1 trivial
  obtain ⟨u, hu, hu'⟩ := Kept.leave (.function f) hkept
  rw [Check.run_during hu]
  refine ⟨⟨hu', ?_⟩, horderly, False.elim⟩
  cases hu
  rfl

/-- No expression, function or class notes anything for the function around it. -/
lemma Session.partLaws_steady : PartLaws steady := by
  refine classLaws_steady.partLaws (fun f _ hb => ?_) (.inr fun d b hd => ?_)
  · exact classLaws_steady.functionRule f hb fun _ x _ _ _ => .inr fun _ ht =>
      classLaws_steady.retype x fun hs _ h => ⟨Kept.symbolLaws.update hs trivial ht h, rfl⟩
  · have hdemand : d.Keeps Kept.contract :=
      ⟨fun x => (hd.function x).kept, fun owner name => (hd.method owner name).kept⟩
    refine classLaws_steady.bodyInside fun f declared _ => ?_
    exact (Kept.stepLaws.bind (Kept.stepLaws.walkChecked hdemand f declared b) fun _ _ =>
      Kept.stepLaws.result f False.elim).inFunction _

/-! ## Checks that note returns -/

/-- What the steps of a check do for a contract that says nothing of canonical types, and under
which no report is lost. -/
structure ReportLaws (R : Contract) : Prop extends StepLaws R where
  untyped : ¬ R.typed
  reports {s t : Session} : R.Rel s t → s.reports.size ≤ t.reports.size

variable {R : Contract} {values others : List (Option Expr)}

/-- What came out of a run from `s`, which noted these returns: values among those given, in order.
They are all of the values if the run has a result and reported nothing. -/
structure Session.Noted (R : Contract) (d : Demand) (values : List (Option Expr)) (s : Session)
    (out : Except Fault α × Session) (rs : List Return) : Prop where
  function : out.2.function = s.function.map fun f => f.noting (rs.map Return.type)
  inOrder : (rs.map Return.value).Sublist values
  checked : ∀ r ∈ rs, r.Checked d ∧ R.Holds r.before
  all : ∀ a, out.1 = .ok a → out.2.reports.size = s.reports.size → rs.map Return.value = values

/-- The check notes returns of these values wherever the result is inferred. -/
structure Check.Notes (R : Contract) (d : Demand) (values : List (Option Expr)) (c : Check α) :
    Prop where
  keeps : c.Keeps R
  noted : ∀ s, R.Holds s → s.Infers → ∃ rs, s.Noted R d values (c s) rs

namespace Session.Noted

variable {s t u : Session} {a : α} {e : Fault} {rs : List Return}

/-- Nothing was noted, as there was nothing to note or the run failed. -/
lemma nothing {out : Except Fault α × Session} (h : out.2.function = s.function)
    (hall : ∀ a, out.1 = .ok a → values = []) : s.Noted R d values out [] where
  function := by simp [h, FunctionContext.noting]
  inOrder := List.nil_sublist _
  checked := List.forall_mem_nil _
  all a ha _ := (hall a ha).symm

/-- What follows a fault is not noted. -/
lemma fault (h : s.Noted R d values ((.error e, t) : Except Fault α × Session) rs) :
    s.Noted R d (values ++ others) ((.error e, t) : Except Fault β × Session) rs where
  function := h.function
  inOrder := h.inOrder.trans (List.sublist_append_left _ _)
  checked := h.checked
  all a ha := by cases ha

/-- What follows a result is noted after it. -/
lemma append {out : Except Fault β × Session} {rs' : List Return}
    (h : s.Noted R d values (.ok a, t) rs) (k : t.Noted R d others out rs')
    (hst : s.reports.size ≤ t.reports.size) (htu : t.reports.size ≤ out.2.reports.size) :
    s.Noted R d (values ++ others) out (rs ++ rs') where
  function := by
    rw [k.function, h.function, Option.map_map]
    congr 1
    funext f
    simp [FunctionContext.noting]
  inOrder := by
    rw [List.map_append]
    exact h.inOrder.append k.inOrder
  checked := List.forall_mem_append.2 ⟨h.checked, k.checked⟩
  all b hb hsize := by
    rw [List.map_append, h.all a rfl (by dsimp only; omega), k.all b hb (by omega)]

end Session.Noted

/-- The check of a part keeps the contract and notes nothing. -/
structure Part.Calm (R : Contract) (x : Part) : Prop where
  keeps : x.Keeps R
  steady : x.Keeps steady

namespace Check.Notes

variable {c : Check α} {f : α → Check β} {P Q : α → Prop}

/-- A check that notes nothing. -/
lemma nothing (hc : c.Yields R P) (hsteady : c.Yields steady Q) : Notes R d [] c where
  keeps := hc.mono fun _ _ => trivial
  noted s _ _ := ⟨[], .nothing (hsteady s trivial).1.2 fun _ _ => rfl⟩

variable (laws : ReportLaws R)
include laws

lemma bind (hc : Notes R d values c) (hf : ∀ a, Notes R d others (f a)) :
    Notes R d (values ++ others) (c >>= f) where
  keeps := laws.bind hc.keeps fun a _ => (hf a).keeps
  noted s hs hinfers := by
    obtain ⟨rs, hrs⟩ := hc.noted s hs hinfers
    have hrel := (hc.keeps s hs).1
    rw [run_bind]
    rcases hrun : c s with ⟨e | a, t⟩ <;> rw [hrun] at hrs hrel
    · exact ⟨rs, hrs.fault⟩
    · have ht := laws.after hs hrel
      obtain ⟨rs', hrs'⟩ := (hf a).noted t ht (hinfers.noting hrs.function)
      exact ⟨rs ++ rs', hrs.append hrs' (laws.reports hrel) (laws.reports ((hf a).keeps t ht).1)⟩

/-- After a check that notes nothing. -/
lemma after (hc : c.Yields R P) (hsteady : c.Yields steady Q)
    (hf : ∀ a, Notes R d values (f a)) : Notes R d values (c >>= f) :=
  .bind laws (.nothing hc hsteady) hf

lemma during {enter : Session → Session × Undo} (he : Session.Inward enter)
    (hc : Notes R d values c) : Notes R d values (Check.during enter c) where
  keeps := laws.during (he.entry.opens laws.untyped) hc.keeps
  noted s hs hinfers := by
    have hopens : R.Opens enter := he.entry.opens laws.untyped
    obtain ⟨hfunction, hreports⟩ := he.function_entered s
    have hinside : (enter s).1.Infers := fun f hf => hinfers f (hfunction.symm.trans hf)
    obtain ⟨rs, hrs⟩ := hc.noted _ (laws.entered hopens hs) hinside
    obtain ⟨u, hu, -⟩ := laws.leave hopens hs (hc.keeps _ (laws.entered hopens hs)).1
    obtain ⟨hleft, hsame⟩ := he.function_left hu
    rw [run_during hu]
    refine ⟨rs, ?_, hrs.inOrder, hrs.checked, fun a ha hsize => hrs.all a ha ?_⟩
    · rw [hleft, hrs.function, hfunction]
    · rw [← hsame, hreports]
      exact hsize

lemma reporting {c : Check Unit} (hc : Notes R d values c) :
    Notes R d values (Check.reporting c) where
  keeps := laws.reporting hc.keeps
  noted s hs hinfers := by
    obtain ⟨rs, hrs⟩ := hc.noted s hs hinfers
    have hgrown := laws.reports (hc.keeps s hs).1
    refine ⟨rs, ?_⟩
    unfold Check.reporting
    rcases hrun : c s with ⟨(d | e | m) | a, t⟩ <;> rw [hrun] at hrs hgrown
    case error.misuse => exact ⟨hrs.function, hrs.inOrder, hrs.checked, fun _ h => by cases h⟩
    case ok => exact hrs
    all_goals
      -- the fault is reported, so there is one report more
      refine ⟨hrs.function, hrs.inOrder, hrs.checked, fun _ _ hsize => ?_⟩
      simp only [Session.report, Array.size_push] at hsize
      dsimp only at hgrown
      omega

/-- Before a check that notes nothing. -/
lemma before (hc : Notes R d values c) (hf : ∀ a, Notes R d [] (f a)) :
    Notes R d values (c >>= f) := by
  have hboth := bind laws hc hf
  rwa [List.append_nil] at hboth

/-- What is refused notes nothing. -/
lemma invalidOperation (place : Location) (message : String) :
    Notes R d values (Check.invalidOperation place message : Check α) where
  keeps := laws.invalidOperation place message
  noted _ _ _ := ⟨[], .nothing rfl fun _ h => by cases h⟩

/-! ### The rules of statements -/

section Rules

variable {cond x : Part} {b init : Check Unit}

/-- The type of a value is noted as the value is checked. -/
lemma value {e : Expr} (he : Part.Calm R ⟨e, Walk.expr d e⟩) :
    Notes R d [some e] (Walk.expr d e none >>= Rule.addReturn) where
  keeps := laws.bind he.keeps.unhinted fun _ _ =>
    laws.noteReturn fun htyped => absurd htyped laws.untyped
  noted s hs _ := by
    have hsteady : (Walk.expr d e none s).2.function = s.function :=
      (he.steady none False.elim s trivial).1.2
    rw [run_bind]
    rcases hrun : Walk.expr d e none s with ⟨fault | t, u⟩ <;> rw [hrun] at hsteady
    · exact ⟨[], .nothing hsteady fun _ h => by cases h⟩
    · have hsame : u.function = s.function := hsteady
      refine ⟨[⟨some e, t, s⟩], ?_, List.Sublist.refl _, ?_, fun _ _ _ => rfl⟩
      · simp [Rule.addReturn, FunctionContext.noting, hsame]
      · exact List.forall_mem_singleton.2 ⟨.value hrun, hs⟩

lemma ret (place : Location) (value : Option Expr)
    (hv : ∀ e, value = some e → Part.Calm R ⟨e, Walk.expr d e⟩) :
    Notes R d [value] (Rule.ret place (Walk.part? d value)) where
  keeps := laws.ret place _ fun p hp => by
    cases value with
    | none => cases hp
    | some e => exact Option.some.inj hp ▸ (hv e rfl).keeps
  noted s hs hinfers := by
    unfold Rule.ret
    rw [run_bind, run_get]
    dsimp only
    cases hf : s.function with
    | none => exact ⟨[], .nothing rfl fun _ h => by cases h⟩
    | some f =>
      have htarget : f.target = none := by simp [FunctionContext.target, hinfers f hf]
      cases value with
      | none =>
        refine ⟨[⟨none, .void, s⟩], ?_, List.Sublist.refl _, ?_, fun _ _ _ => rfl⟩
        · simp [Walk.part?, htarget, Rule.addReturn, FunctionContext.noting]
        · exact List.forall_mem_singleton.2 ⟨.nothing s, hs⟩
      | some e =>
        simp only [Walk.part?, htarget]
        exact (Notes.value laws (hv e rfl)).noted s hs hinfers

lemma exprBody {e : Expr} (he : Part.Calm R ⟨e, Walk.expr d e⟩) :
    Notes R d [some e] (Rule.exprBody ⟨e, Walk.expr d e⟩) where
  keeps := laws.exprBody he.keeps
  noted s hs hinfers := by
    have htarget : s.function.bind FunctionContext.target = none := by
      refine Option.bind_eq_none_iff.2 fun f hf => ?_
      simp [FunctionContext.target, hinfers f hf]
    unfold Rule.exprBody
    rw [run_bind, run_get]
    simp only [htarget]
    exact (Notes.value laws he).noted s hs hinfers

lemma inScope (n : Narrowings) (hb : Notes R d values b) :
    Notes R d values (Rule.inScope n b) :=
  .during laws (.narrowings n) (.during laws .scope hb)

/-- What follows `else` notes returns of these values. -/
inductive Else (R : Contract) (d : Demand) : List (Option Expr) → Rule.ElseCheck → Prop
  | none : Else R d [] .none
  | block {values : List (Option Expr)} {c : Check Unit} :
    Notes R d values c → Else R d values (.block c)
  | node {values : List (Option Expr)} {c : Check Unit} :
    Notes R d values c → Else R d values (.node c)

lemma condition (hcond : cond.Calm R) {f : Outcomes → Check β}
    (hf : ∀ o, Notes R d values (f o)) : Notes R d values (Rule.condition cond >>= f) :=
  .after laws (laws.condition hcond.keeps) (partLaws_steady.condition hcond.steady) hf

lemma ifStmt {o : Rule.ElseCheck} (hcond : cond.Calm R) (hb : Notes R d values b)
    (ho : Else R d others o) : Notes R d (values ++ others) (Rule.ifStmt cond b o) := by
  refine .condition laws hcond fun outcomes =>
    .bind laws (.inScope laws outcomes.holds hb) fun _ => ?_
  cases ho with
  | none => exact .nothing (laws.pure ()) (partLaws_steady.pure ())
  | block hc => exact .inScope laws outcomes.fails hc
  | node hc => exact .during laws (.narrowings outcomes.fails) hc

lemma loopBody (n : Narrowings) (hb : Notes R d values b) :
    Notes R d values (Rule.loopBody n b) :=
  .during laws (.breakable .loop) (.inScope laws n hb)

lemma whileLoop (hcond : cond.Calm R) (hb : Notes R d values b) :
    Notes R d values (Rule.whileLoop cond b) :=
  .condition laws hcond fun outcomes => .loopBody laws outcomes.holds hb

lemma forLoop {cond post : Option Part} (hinit : Notes R d values init)
    (hcond : ∀ c, cond = some c → c.Calm R) (hpost : ∀ x, post = some x → x.Calm R)
    (hb : Notes R d others b) : Notes R d (values ++ others) (Rule.forLoop init cond post b) := by
  refine .during laws .scope (.bind laws hinit fun _ => ?_)
  cases cond
  case' none => refine .after laws (laws.pure []) (partLaws_steady.pure []) fun n => ?_
  case' some c =>
    refine .after (P := fun _ => True) (Q := fun _ => True) laws
      (laws.map (laws.condition (hcond c rfl).keeps))
      (partLaws_steady.map (partLaws_steady.condition (hcond c rfl).steady)) fun n => ?_
  all_goals
    refine .during laws (.breakable .loop) (.before laws (.inScope laws n hb) fun _ => ?_)
    cases post with
    | none => exact .nothing (laws.pure ()) (partLaws_steady.pure ())
    | some x =>
      exact .nothing (P := fun _ => True) (Q := fun _ => True)
        (laws.map (hpost x rfl).keeps.unhinted)
        (partLaws_steady.map (hpost x rfl).steady.unhinted)

/-- A name is declared for what follows. -/
lemma declare (name : Ident) (t : Ty) {f : Symbol → Check β}
    (hf : ∀ x, Notes R d values (f x)) :
    Notes R d values (Check.declare name .var t false (.place name.location) >>= f) :=
  .after laws (laws.declare _ _ _ _ fun htyped => absurd htyped laws.untyped)
    (partLaws_steady.declare _ _ _ _ False.elim) hf

lemma forOf (var : Ident) (hx : x.Calm R) (hb : Notes R d values b) :
    Notes R d values (Rule.forOf var x b) := by
  refine .after laws hx.keeps.unhinted hx.steady.unhinted fun t => ?_
  cases Typing.iteration? t with
  | none => exact .invalidOperation laws _ _
  | some element =>
    exact .during laws .scope (.declare laws var element fun _ => .loopBody laws [] hb)

/-- Clauses of a switch whose bodies note returns of these values. -/
inductive Clauses (R : Contract) (d : Demand) : List (Option Expr) → List ClauseCheck → Prop
  | nil : Clauses R d [] []
  | cons {c : ClauseCheck} {cs : List ClauseCheck} {values others : List (Option Expr)} :
    (∀ x ∈ c.values, x.Calm R) → Notes R d values c.body → Clauses R d others cs →
    Clauses R d (values ++ others) (c :: cs)

lemma clauses (t : Ty) {cs : List ClauseCheck} (hcs : Clauses R d values cs) :
    Notes R d values (Rule.clauses t cs) := by
  induction hcs with
  | nil => exact .nothing (laws.pure ()) (partLaws_steady.pure ())
  | cons hvalues hbody _ ih =>
    refine .after laws (laws.caseValues (fun htyped => absurd htyped laws.untyped) _
      fun x hx => (hvalues x hx).keeps)
      (partLaws_steady.caseValues False.elim _ fun x hx => (hvalues x hx).steady) fun _ => ?_
    exact .bind laws (.inScope laws [] hbody) fun _ => ih

lemma switch {cs : List ClauseCheck} (hx : x.Calm R) (hcs : Clauses R d values cs) :
    Notes R d values (Rule.switch x cs) :=
  .after laws hx.keeps.unhinted hx.steady.unhinted fun t =>
    .during laws (.breakable .switch) (.clauses laws t hcs)

lemma handler (param : Option Ident) (hb : Notes R d values b) :
    Notes R d values (Rule.handler param b) := by
  refine .during laws .scope ?_
  cases param with
  | none => exact .inScope laws [] hb
  | some p => exact .declare laws p (.prim .error) fun _ => .inScope laws [] hb

/-- A block that may be missing notes returns of these values. -/
inductive Optional (R : Contract) (d : Demand) : List (Option Expr) → Option (Check Unit) → Prop
  | none : Optional R d [] none
  | some {values : List (Option Expr)} {c : Check Unit} :
    Notes R d values c → Optional R d values (some c)

lemma tryStmt (param : Option Ident) {caught final : Option (Check Unit)}
    {handled finished : List (Option Expr)} (hb : Notes R d values b)
    (hcaught : Optional R d handled caught) (hfinal : Optional R d finished final) :
    Notes R d (values ++ (handled ++ finished)) (Rule.tryStmt b param caught final) := by
  refine .bind laws (.inScope laws [] hb) fun _ => ?_
  cases hcaught
  case' none => rw [List.nil_append]
  case' some hc => refine .bind laws (.handler laws param hc) fun _ => ?_
  all_goals
    cases hfinal with
    | none => exact .nothing (laws.pure ()) (partLaws_steady.pure ())
    | some hc => exact .inScope laws [] hc

end Rules

end Check.Notes

/-! ## The statements of a body -/

/-- Checks on demand keep the contract and note nothing. -/
structure Demand.Calm (R : Contract) (d : Demand) : Prop where
  keeps : d.Keeps R
  steady : d.Keeps steady

lemma ReportLaws.demand_calm (laws : ReportLaws R) (limit : Nat) : (Walk.demand limit).Calm R :=
  ⟨laws.demand limit, partLaws_steady.demand limit⟩

namespace Demand.Calm

variable (laws : ReportLaws R) (hd : d.Calm R)
include laws hd

lemma part (e : Expr) : Part.Calm R ⟨e, Walk.expr d e⟩ :=
  ⟨laws.walkPart hd.keeps e, partLaws_steady.walkPart hd.steady e⟩

lemma part? (x : Option Expr) (p : Part) (hp : Walk.part? d x = some p) : p.Calm R :=
  ⟨laws.walkPart? hd.keeps x p hp, partLaws_steady.walkPart? hd.steady x p hp⟩

lemma parts (xs : List Expr) (p : Part) (hp : p ∈ Walk.parts d xs) : p.Calm R :=
  ⟨laws.walkParts hd.keeps xs p hp, partLaws_steady.walkParts hd.steady xs p hp⟩

end Demand.Calm

namespace Walk

open Check

mutual

/-- The check of a statement notes the values of its return statements. -/
theorem notes_node (laws : ReportLaws R) (hd : d.Calm R) :
    (n : Node) → Notes R d n.returned (Walk.node d n)
  | .ret place value => .ret laws place value fun e _ => hd.part laws e
  | .block b => .during laws .scope (notes_block laws hd b)
  | .ifStmt _ c b .empty => .ifStmt laws (hd.part laws c) (notes_block laws hd b) .none
  | .ifStmt _ c b (.block n) =>
    .ifStmt laws (hd.part laws c) (notes_block laws hd b) (.block (notes_block laws hd n))
  | .ifStmt _ c b (.varDecl ..) | .ifStmt _ c b (.exprStmt ..) | .ifStmt _ c b (.ret ..)
  | .ifStmt _ c b (.ifStmt ..) | .ifStmt _ c b (.whileLoop ..) | .ifStmt _ c b (.forLoop ..)
  | .ifStmt _ c b (.forOf ..) | .ifStmt _ c b (.switch ..) | .ifStmt _ c b (.breakStmt ..)
  | .ifStmt _ c b (.continueStmt ..) | .ifStmt _ c b (.throwStmt ..)
  | .ifStmt _ c b (.tryStmt ..) | .ifStmt _ c b (.function ..) | .ifStmt _ c b (.classDecl ..)
  | .ifStmt _ c b (.interfaceDecl ..) | .ifStmt _ c b (.enumDecl ..)
  | .ifStmt _ c b (.aliasDecl ..) | .ifStmt _ c b (.field ..) | .ifStmt _ c b (.method ..)
  | .ifStmt _ c b (.expr ..) | .ifStmt _ c b (.typeNode ..) =>
    .ifStmt laws (hd.part laws c) (notes_block laws hd b) (.node (notes_node laws hd _))
  | .whileLoop _ c b => .whileLoop laws (hd.part laws c) (notes_block laws hd b)
  | .forLoop _ init c post b =>
    .forLoop laws (notes_node laws hd init) (hd.part? laws c) (hd.part? laws post)
      (notes_block laws hd b)
  | .forOf _ var x b => .forOf laws var (hd.part laws x) (notes_block laws hd b)
  | .switch _ x cs => .switch laws (hd.part laws x) (notes_clauses laws hd cs)
  | .tryStmt _ b param handler final =>
    .tryStmt laws param (notes_block laws hd b) (notes_block? laws hd handler)
      (notes_block? laws hd final)
  | .empty | .interfaceDecl _ | .enumDecl _ | .aliasDecl _ =>
    .nothing (laws.pure ()) (partLaws_steady.pure ())
  | .varDecl place name type value isConst =>
    .nothing (laws.walkNode hd.keeps (.varDecl place name type value isConst))
      (partLaws_steady.varDecl _ _ _ _ _ (partLaws_steady.walkPart? hd.steady value))
  | .exprStmt place x =>
    .nothing (Q := fun _ => True) (laws.walkNode hd.keeps (.exprStmt place x))
      (partLaws_steady.map (partLaws_steady.walkExpr hd.steady x none))
  | .throwStmt place x =>
    .nothing (Q := fun _ => True) (laws.walkNode hd.keeps (.throwStmt place x))
      (partLaws_steady.map (partLaws_steady.walkExpr hd.steady x none))
  | .breakStmt place =>
    .nothing (laws.breakStmt place) (partLaws_steady.breakStmt place)
  | .continueStmt place =>
    .nothing (laws.continueStmt place) (partLaws_steady.continueStmt place)
  | .function f => .nothing (laws.function f (laws.walkCallable hd.keeps f))
    (partLaws_steady.function f (partLaws_steady.walkCallable hd.steady f))
  | .classDecl c => .nothing (laws.cls (laws.walkClass hd.keeps c))
    (partLaws_steady.cls (partLaws_steady.walkClass hd.steady c))
  | .field _ | .method _ | .expr _ | .typeNode _ => .invalidOperation laws _ _
termination_by structural n => n

theorem notes_block (laws : ReportLaws R) (hd : d.Calm R) :
    (b : Block) → Notes R d b.returned (Walk.block d b)
  | ⟨ns, _⟩ => .after laws (laws.declareAll ns) (partLaws_steady.declareAll ns) fun _ =>
    notes_nodes laws hd ns
termination_by structural b => b

theorem notes_block? (laws : ReportLaws R) (hd : d.Calm R) :
    (b : Option Block) → Notes.Optional R d (Block.returned? b) (Walk.block? d b)
  | none => .none
  | some b => .some (notes_block laws hd b)
termination_by structural b => b

theorem notes_clauses (laws : ReportLaws R) (hd : d.Calm R) :
    (cs : List SwitchClause) → Notes.Clauses R d (SwitchClause.returned cs) (Walk.clauses d cs)
  | [] => .nil
  | ⟨values, b⟩ :: cs =>
    .cons (hd.parts laws values) (notes_block laws hd b) (notes_clauses laws hd cs)
termination_by structural cs => cs

theorem notes_nodes (laws : ReportLaws R) (hd : d.Calm R) :
    (ns : List Node) → Notes R d (Node.rowReturned ns) (Walk.nodes d ns)
  | [] => .nothing (laws.pure ()) (partLaws_steady.pure ())
  | n :: ns => .bind laws (.reporting laws (notes_node laws hd n)) fun _ => notes_nodes laws hd ns
termination_by structural ns => ns

end

/-- The check of a body notes the values that the body returns. -/
theorem notes_body (laws : ReportLaws R) (hd : d.Calm R) (f : FunctionSpec) (declared : Hint)
    (b : FunctionBody) : Notes R d b.returned (Rule.checkBody f declared (Walk.body d b)) := by
  cases b with
  | missing => exact .nothing (laws.pure ()) (partLaws_steady.pure ())
  | block b =>
    exact .before laws (notes_block laws hd b) fun _ =>
      .nothing (laws.checkFlow f declared b) (partLaws_steady.checkFlow f declared b)
  | expr x => exact .exprBody laws (hd.part laws x)

end Walk

end TypedScript
