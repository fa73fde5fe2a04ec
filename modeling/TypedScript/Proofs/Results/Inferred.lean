import TypedScript.Proofs.LexicalScoping
import TypedScript.Proofs.Once
import TypedScript.Proofs.References.Forward
import TypedScript.Proofs.Results.Pending
import TypedScript.Proofs.Results.Unknowns

/-!
# Results of functions that call themselves

A function without an annotated result gets the common type of what it returns. A return that
calls the function itself counts with the unknown type, for at that point nothing is known of the
result. So the result mentions the unknown wherever the common type of the returns does, which
depends on the order and the number of them. What else is returned fits the result in any case.
-/
namespace TypedScript

/-! ## The symbol of a function -/

namespace Scopes

/-- Names mean what they meant, with the new type. -/
lemma lookup?_retypeSymbol (s : Scopes) (id : SymbolId) (t : Ty) (name : String) :
    (s.retypeSymbol id t).lookup? name = (s.lookup? name).map (Symbol.retyped id t) := by
  have hlocals : (s.retypeSymbol id t).locals = s.locals := rfl
  rw [lookup?_eq_slots, lookup?_eq_slots, List.map_findSome?, hlocals]
  congr 1
  funext i
  rw [slot_retyped, Scope.named?_map (Symbol.name_retyped id t)]
  rfl

end Scopes

namespace Session

variable {s t u : Session}

/-- To enter something declares nothing. -/
lemma distinct_entered {enter : Session → Session × Undo} (he : Entry enter)
    (hs : s.scopes.Distinct) : (enter s).1.scopes.Distinct := by
  refine hs.of_slots (funext (slot_entered he s)) ?_
  cases he <;> rfl

/-- No step gives one number to two symbols. -/
lemma Leads.distinct (h : s.Leads t) (horderly : s.scopes.outline.Orderly)
    (hs : s.scopes.Distinct) : t.scopes.Distinct := by
  induction h with
  | stay hscopes => exact hscopes ▸ hs
  | trans h _ ih ih' => exact ih' (h.grows horderly).orderly (ih horderly hs)
  | define _ hdefine =>
    obtain ⟨rfl, hfree, rfl⟩ := Scopes.define_eq_ok hdefine
    exact hs.declare rfl hfree (Scopes.slot_modifySlot (Scopes.hasSlot_current horderly) _) rfl
  | update _ _ hupdate =>
    obtain ⟨-, rfl⟩ := Scopes.updateSymbol_eq_ok hs (fun _ => horderly.local_lt) hupdate
    exact hs.retypeSymbol _ _
  | retype _ _ => exact hs.retypeSymbol _ _
  | inside he _ hu ih =>
    have hinside := ih (orderly_entered he horderly) (distinct_entered he hs)
    obtain ⟨locals, _, _, _, _, _, rfl⟩ := exists_of_undo hu
    refine hinside.of_slots (funext fun j => ?_) rfl
    cases j <;> rfl

lemma Reached.distinct (h : s.Reached) : s.scopes.Distinct := by
  induction h with
  | start options => exact .empty
  | leads hs h ih => exact h.distinct hs.layered.1 ih
  | entered _ he ih => exact distinct_entered he ih

end Session

/-! ## The run of a rule, taken apart -/

/-- What is entered for a body whose result is inferred. -/
def FunctionSpec.context (f : FunctionSpec) : FunctionContext :=
  { name := f.name, isAsync := f.isAsync, isStatic := f.isStatic }

/-- An asynchronous function gives its result later. -/
def FunctionSpec.gives (f : FunctionSpec) (t : Ty) : Ty := if f.isAsync then t.asFuture else t

/-- A declared function that is checked against this signature. -/
def Callable.spec (f : Callable) (sig : Signature) : FunctionSpec :=
  ⟨f.name.name, f.name.location, sig, f.params, f.isAsync, false, f.result.isOmitted⟩

/-- The function was declared without a result, as this symbol, and was not checked so far. -/
structure Session.Awaits (s : Session) (f : Callable) (x : Symbol) (sig : Signature) : Prop where
  lookup : s.scopes.lookup? f.name.name = some x
  origin : (x.origin.function?.any fun g => g.id == f.id) = true
  type : x.type = some (.function sig)
  result : sig.result = .unknown
  omitted : f.result.isOmitted = true
  unchecked : s.isChecked f.id = false
  idle : s.isInferring f.id = false

lemma Session.reports_of_undo {undo : Undo} {s t : Session} (h : undo.run s = .ok t) :
    t.reports = s.reports := by
  obtain ⟨_, _, _, _, _, _, rfl⟩ := exists_of_undo h
  rfl

namespace Check

variable {α : Type} {c : Check α} {s u : Session} {a : α}

lemma exists_of_run_during {enter : Session → Session × Undo}
    (h : during enter c s = (.ok a, u)) :
    ∃ t, c (enter s).1 = (.ok a, t) ∧ (enter s).2.run t = .ok u := by
  rcases hrun : c (enter s).1 with ⟨r, t⟩
  cases hu : (enter s).2.run t with
  | ok v =>
    rw [run_during (by rw [hrun, hu]), hrun] at h
    cases h
    exact ⟨t, rfl, hu⟩
  | error m =>
    rw [run_during_misuse (by rw [hrun, hu])] at h
    cases h

lemma exists_of_run_andThen {last : Session → Session} (h : andThen c last s = (.ok a, u)) :
    ∃ t, c s = (.ok a, t) ∧ u = last t := by
  rcases hrun : c s with ⟨r, t⟩
  rw [andThen, hrun] at h
  cases h
  exact ⟨t, rfl, rfl⟩

lemma exists_of_run_retype {x : Symbol} {t : Ty} (h : retype x t s = (.ok (), u)) :
    ∃ scopes, s.scopes.updateSymbol x.id x.name t = .ok scopes ∧ u = { s with scopes } := by
  rw [run_retype] at h
  cases hupdate : s.scopes.updateSymbol x.id x.name t with
  | ok scopes =>
    rw [hupdate] at h
    cases h
    exact ⟨scopes, rfl, rfl⟩
  | error e =>
    rw [hupdate] at h
    cases h

end Check

namespace Rule

variable {R : Contract} {f : FunctionSpec} {body : BodyCheck} {s t u v : Session} {type : Ty}

/-- The names of a function are defined before its body is checked. -/
def defineNames (f : FunctionSpec) : Check Unit := do
  defineTypeParams f.signature.typeParams
  defineParams f.params f.signature.params

/-- A body whose result is inferred is checked inside its own function, and the result is that of
the returns noted there. -/
lemma exists_of_functionBody (hf : f.isInferred = true)
    (hrun : functionBody f body s = (.ok type, u)) :
    ∃ v w, defineNames f s.enterScope.1 = (.ok (), v) ∧
      checkBody f none body (v.enterFunction f.context).1 = (.ok (), w) ∧
      u.reports = w.reports ∧ type = f.gives
        ((w.function.map fun c => c.inferredResult w.options.unionWidth).getD .void) := by
  obtain ⟨r, hrun, hleave⟩ := Check.exists_of_run_during hrun
  obtain ⟨_, q, htypeParams, hrun⟩ := Check.exists_of_run_bind hrun
  obtain ⟨_, v, hparams, hrun⟩ := Check.exists_of_run_bind hrun
  rw [if_pos hf] at hrun
  obtain ⟨_, _, hdeclared, hrun⟩ := Check.exists_of_run_bind hrun
  cases hdeclared
  obtain ⟨w', hrun, hleave'⟩ := Check.exists_of_run_during hrun
  obtain ⟨_, w, hcheck, hresult⟩ := Check.exists_of_run_bind hrun
  cases hresult
  refine ⟨v, w, ?_, hcheck, ?_, rfl⟩
  · rw [defineNames, Check.run_bind, htypeParams]
    exact hparams
  · rw [Session.reports_of_undo hleave, Session.reports_of_undo hleave']
    rfl

/-- Inside its own function a body is checked under the same contract. -/
lemma holds_inside (laws : BasicLaws R) (hs : R.Holds s)
    (hsig : R.typed → (Ty.function f.signature).Canonical)
    (hnames : defineNames f s.enterScope.1 = (.ok (), v)) :
    R.Rel s.enterScope.1 v ∧ R.Holds (v.enterFunction f.context).1 := by
  have hparts := fun htyped => Ty.canonical_function.1 (hsig htyped)
  have hkeeps : (defineNames f).Keeps R := laws.bind (laws.defineTypeParams _) fun _ _ =>
    laws.defineParams _ _ fun htyped => (hparts htyped).1
  have hentered := laws.entered .scope hs
  have hrel := (hkeeps _).rel hentered hnames
  refine ⟨hrel, laws.entered (.function _ fun _ => ⟨?_, List.forall_mem_nil _⟩)
    (laws.after hentered hrel)⟩
  exact Hint.canonical_none

/-- A declaration that was not checked so far and is not being inferred. -/
lemma exists_of_run_once {id : NodeId} {c : Check Unit} (hunchecked : s.isChecked id = false)
    (hidle : s.isInferring id = false) (h : once id c s = (.ok (), t)) :
    ∃ u, c (s.beginInference id) = (.ok (), u) ∧ t = u.endInference id := by
  rw [run_once, if_neg (by simp [hunchecked, hidle])] at h
  obtain ⟨hok, rfl⟩ := Prod.mk.inj h
  exact ⟨_, Prod.ext hok rfl, rfl⟩

/-- The rule of a function that was not checked so far checks the body and changes the type of the
symbol. -/
lemma exists_of_function {f : Callable} {x : Symbol} {sig : Signature} (hs : s.Awaits f x sig)
    (hrun : function f body s = (.ok (), t)) :
    ∃ type u scopes, functionBody (f.spec sig) body
        ((s.beginInference f.id).trace .cyan ("  checking fn " ++ f.name.name)) = (.ok type, u) ∧
      u.scopes.updateSymbol x.id f.name.name (.function (sig.withResult type)) = .ok scopes ∧
      t.scopes = scopes ∧ t.reports = u.reports := by
  obtain ⟨_, _, hlookup, hrun⟩ := Check.exists_of_run_bind hrun
  cases hlookup
  simp only [hs.lookup, hs.type, hs.origin, if_true] at hrun
  obtain ⟨v, honce, ht⟩ := exists_of_run_once hs.unchecked hs.idle hrun
  obtain ⟨_, _, htrace, honce⟩ := Check.exists_of_run_bind honce
  cases htrace
  obtain ⟨type, w, hbody, hretype⟩ := Check.exists_of_run_bind honce
  obtain ⟨u, hbody, hw⟩ := Check.exists_of_run_andThen hbody
  rw [if_pos hs.omitted] at hretype
  obtain ⟨scopes, hupdate, hv⟩ := Check.exists_of_run_retype hretype
  rw [hw, (Scopes.lookup?_mem hs.lookup).2] at hupdate
  refine ⟨type, u, scopes, hbody, hupdate, ?_, ?_⟩ <;> rw [ht, hv]
  · rfl
  · rw [hw]
    rfl

end Rule

/-! ## What was returned -/

namespace Return

/-- The types that count. A return without a value counts only where nothing else is returned. -/
def types (returns : List Return) : List Ty :=
  (returns.map Return.type).filter fun t => !t.isVoid

/-- The type that a function gets for its returns. -/
def result (returns : List Return) (width : Int) : Ty :=
  if types returns = [] then .void else Ty.common (types returns) width

lemma inferredResult_eq {f : FunctionContext} {returns : List Return}
    (h : f.returns = returns.map Return.type) (width : Int) :
    f.inferredResult width = result returns width := by
  rw [FunctionContext.inferredResult, h, result, types]
  split
  case h_1 hnone => rw [if_pos hnone]
  case h_2 hsome => rw [if_neg hsome]

/-- Everything that counts fits the result. -/
lemma assignableTo_result {returns : List Return} {t : Ty}
    (hcanonical : ∀ t ∈ types returns, t.Canonical) (ht : t ∈ types returns) (width : Int) :
    t.assignableTo (result returns width) = true := by
  have hsome := List.ne_nil_of_mem ht
  rw [result, if_neg hsome]
  exact (Ty.isJoin_common hsome width).assignableTo hcanonical ht

/-- Asynchronous or not, a function mentions the unknown in its result if the common type of what
it returns does. -/
lemma mentionsUnknown_result_iff {returns : List Return} {f : FunctionSpec}
    (hcanonical : ∀ t ∈ types returns, t.Canonical)
    (hknown : ∀ t ∈ types returns, t = .unknown ∨ ¬ t.MentionsUnknown) (width : Int) :
    (f.gives (result returns width)).MentionsUnknown ↔
      .unknown ∈ types returns ∧ ((types returns).head? = some .unknown ∨
        ¬ Ty.FirstTakesAll (types returns) ∧ ¬ Ty.TooWide (types returns) width) := by
  have hgives (t : Ty) : (f.gives t).MentionsUnknown ↔ t.MentionsUnknown := by
    rw [FunctionSpec.gives]
    split
    · exact Ty.mentionsUnknown_asFuture
    · rfl
  rw [hgives, result]
  split
  case isTrue hnone => simp [hnone]
  case isFalse hsome => exact Ty.mentionsUnknown_common_iff hcanonical hsome hknown width

end Return

namespace Session

variable {s t : Session} {f : Callable} {x : Symbol} {sig : Signature}

/-- When the inference of a function begins, its symbol is as it was declared. -/
lemma Awaits.holds (hs : s.Awaits f x sig) (hreached : s.Reached) (style : Style) (line : String) :
    (Pending.contract s.options x.id f.id sig).Holds
      ((s.beginInference f.id).trace style line) := by
  obtain ⟨i, hx⟩ := Scopes.has_of_lookup? hs.lookup
  refine ⟨hreached.layered.1, rfl, ?_, hreached.distinct.numbered i x hx, ?_⟩
  · simp [Session.trace, isInferring, beginInference]
  · rintro y ⟨j, hy⟩ hid
    obtain ⟨-, rfl⟩ := hreached.distinct.unique j i y hy x hx hid
    exact ⟨hs.type, hs.origin⟩

/-- Types are still canonical when a body was checked, those of its returns among them. -/
lemma Canonical.after_body {g : FunctionSpec} {b : FunctionBody} {limit : Nat} {v w : Session}
    (hs : s.Canonical) (hsig : (Ty.function g.signature).Canonical)
    (hnames : Rule.defineNames g s.enterScope.1 = (.ok (), v))
    (hbody : Rule.checkBody g none (Walk.body (Walk.demand limit) b)
      (v.enterFunction g.context).1 = (.ok (), w)) : w.Canonical := by
  have laws := Canonical.stepLaws
  have hinside := (Rule.holds_inside laws.toBasicLaws hs (fun _ => hsig) hnames).2
  exact laws.after hinside ((laws.walkChecked (laws.demand limit) g none b _).rel hinside hbody)

/-- The body notes returns, and the function gets the result of them. -/
lemma Awaits.exists_returns (hs : s.Awaits f x sig) (hreached : s.Reached)
    (hcanonical : s.Canonical) {limit : Nat} {style : Style} {line : String} {type : Ty}
    {u : Session} (hrun : Rule.functionBody (f.spec sig) (Walk.callable (Walk.demand limit) f)
      ((s.beginInference f.id).trace style line) = (.ok type, u)) :
    ∃ returns, type = (f.spec sig).gives (Return.result returns s.options.unionWidth) ∧
      (∀ t ∈ Return.types returns, t.Canonical) ∧
      (returns.map Return.value).Sublist f.body.returned ∧
      (u.reports.size = s.reports.size → returns.map Return.value = f.body.returned) ∧
      ∀ r ∈ returns, r.Checked (Walk.demand limit) ∧
        (Pending.contract s.options x.id f.id sig).Holds r.before := by
  have laws : ReportLaws (Pending.contract s.options x.id f.id sig) := Pending.reportLaws
  have hbegun := hs.holds hreached style line
  have hcallable : Walk.callable (Walk.demand limit) f = Walk.body (Walk.demand limit) f.body := by
    cases f
    rfl
  rw [hcallable] at hrun
  obtain ⟨v, w, hnames, hbody, hreports, rfl⟩ := Rule.exists_of_functionBody hs.omitted hrun
  obtain ⟨hnamed, hinside⟩ := Rule.holds_inside laws.toBasicLaws hbegun False.elim hnames
  have hnotes := Walk.notes_body laws (laws.demand_calm limit) (f.spec sig) none f.body
  obtain ⟨returns, hnoted⟩ := hnotes.noted _ hinside fun _ h => by cases h; rfl
  have hrel := (hnotes.keeps _).rel hinside hbody
  have hpending := (laws.after hinside hrel).2
  rw [hbody] at hnoted
  have hfunction : w.function = some ((f.spec sig).context.noting (returns.map Return.type)) :=
    hnoted.function
  have hwidth : w.options.unionWidth = s.options.unionWidth := by rw [hpending.options]
  -- the same run once more, now for the types that are noted
  have hend : w.Canonical := by
    have hsig : (Ty.function sig).Canonical :=
      hcanonical.scopes x (Scopes.has_of_lookup? hs.lookup) _ hs.type
    have hbegun := Canonical.stepLaws.begun f.id hcanonical
    have hstart := Canonical.stepLaws.after hbegun (Canonical.stepLaws.trace style line hbegun)
    exact Canonical.after_body hstart hsig hnames hbody
  have hreturns : ((f.spec sig).context.noting (returns.map Return.type)).returns =
      returns.map Return.type := List.nil_append _
  refine ⟨returns, ?_, fun t ht => ?_, hnoted.inOrder, fun hsize => hnoted.all () rfl ?_,
    hnoted.checked⟩
  · rw [hfunction, hwidth]
    exact congrArg _ (Return.inferredResult_eq hreturns _)
  · refine (hend.function _ hfunction).returns t ?_
    rw [hreturns]
    exact List.mem_of_mem_filter ht
  · have hbefore := laws.reports hnamed
    have hafter := laws.reports hrel
    change s.reports.size ≤ v.reports.size at hbefore
    change v.reports.size ≤ w.reports.size at hafter
    change w.reports.size = v.reports.size
    rw [hreports] at hsize
    omega

/-- The symbol has the new type afterwards, under the name of the function. -/
lemma Reached.patched (hs : s.Reached) {limit : Nat} {style : Style} {line : String}
    {type other : Ty} {u : Session} {scopes : Scopes}
    (hrun : Rule.functionBody (f.spec sig) (Walk.callable (Walk.demand limit) f)
      ((s.beginInference f.id).trace style line) = (.ok type, u))
    (hupdate : u.scopes.updateSymbol x.id f.name.name other = .ok scopes) :
    ∃ y, scopes.lookup? f.name.name = some y ∧ y.id = x.id ∧ y.type = some other := by
  have laws := Leads.stepLaws
  have hbody : (Rule.functionBody (f.spec sig) (Walk.callable (Walk.demand limit) f)).Stays :=
    (laws.functionBody _ (laws.walkCallable (laws.demand limit) f) False.elim).stays
  have hend : u.Reached := by
    have hbegun : ((s.beginInference f.id).trace style line).Reached := hs.leads (.stay rfl)
    have hu := hbody _ hbegun
    rwa [hrun] at hu
  obtain ⟨⟨y, hy, hid⟩, rfl⟩ := Scopes.updateSymbol_eq_ok hend.distinct
    (fun _ => hend.layered.1.local_lt) hupdate
  refine ⟨y.retyped x.id other, ?_, ?_, ?_⟩
  · rw [Scopes.lookup?_retypeSymbol, hy, Option.map_some]
  · rw [Symbol.id_retyped, hid]
  · rw [Symbol.retyped, if_pos hid]

/-- A function that was declared without a result gets the common type of its returns, which are
those of its body if nothing is reported. They are checked while the symbol is as it was declared,
so one that calls the function itself counts with the unknown type. Everything that counts fits the
result. If each of the types is unknown or mentions nothing unknown, the result mentions the unknown
exactly if the unknown comes first, or if it is there at all and is neither taken by the first type
nor lost for there are too many types. -/
theorem recursive_result_exact {limit : Nat} (hreached : s.Reached) (hcanonical : s.Canonical)
    (hs : s.Awaits f x sig)
    (hrun : Rule.function f (Walk.callable (Walk.demand limit) f) s = (.ok (), t)) :
    ∃ returns : List Return,
      (returns.map Return.value).Sublist f.body.returned ∧
      (t.reports.size = s.reports.size → returns.map Return.value = f.body.returned) ∧
      (∀ r ∈ returns, r.Checked (Walk.demand limit) ∧
        r.before.Pending s.options x.id f.id sig ∧
        ∀ e, r.value = some e → e.Calls x.id r.before → r.type = .unknown) ∧
      (∃ y, t.scopes.lookup? f.name.name = some y ∧ y.id = x.id ∧
        y.type = some (.function (sig.withResult
          ((f.spec sig).gives (Return.result returns s.options.unionWidth))))) ∧
      (∀ v ∈ Return.types returns,
        v.assignableTo (Return.result returns s.options.unionWidth) = true) ∧
      ((∀ v ∈ Return.types returns, v = .unknown ∨ ¬ v.MentionsUnknown) →
        (((f.spec sig).gives (Return.result returns s.options.unionWidth)).MentionsUnknown ↔
          .unknown ∈ Return.types returns ∧ ((Return.types returns).head? = some .unknown ∨
            ¬ Ty.FirstTakesAll (Return.types returns) ∧
            ¬ Ty.TooWide (Return.types returns) s.options.unionWidth))) := by
  obtain ⟨type, u, scopes, hbody, hupdate, rfl, hreports⟩ := Rule.exists_of_function hs hrun
  obtain ⟨returns, rfl, htypes, hinOrder, hall, hchecked⟩ :=
    hs.exists_returns hreached hcanonical hbody
  refine ⟨returns, hinOrder, fun hsize => hall (hreports ▸ hsize), fun r hr => ?_,
    hreached.patched hbody hupdate, fun v hv => Return.assignableTo_result htypes hv _,
    fun hknown => Return.mentionsUnknown_result_iff htypes hknown _⟩
  obtain ⟨hr, hbefore⟩ := hchecked r hr
  refine ⟨hr, hbefore.2, fun e he hcalls => ?_⟩
  cases hr with
  | nothing => cases he
  | value hexpr =>
    cases he
    exact Pending.call_unknown (Pending.reportLaws.demand limit) hbefore hs.result hcalls hexpr

end Session

/-- The function `fn f(b: bool) { if (b) { return 1; } return f(b); }`. -/
def selfCalling : Callable :=
  ⟨1, ⟨"f", {}⟩, [], [⟨⟨"b", {}⟩, .named {} "bool" [], false, {}⟩], .omitted,
    .block ⟨[.ifStmt {} (.ident ⟨2, {}⟩ "b")
        ⟨[.ret {} (some (.literal ⟨3, {}⟩ .int "1"))], {}⟩ .empty,
      .ret {} (some (.call ⟨4, {}⟩ (.ident ⟨5, {}⟩ "f") [] [.ident ⟨6, {}⟩ "b"]))], {}⟩,
    false, .pub, false, {}⟩

namespace Session

/-- The function is declared at module level. -/
def selfCallingDeclared : Session := (Declare.all [.function selfCalling] {}).2

/-- Both returns of the function are noted, and the function gets the common type of them. -/
theorem self_call_joined :
    selfCallingDeclared.Reached ∧ selfCallingDeclared.Canonical ∧
      ∃ x sig t, selfCallingDeclared.Awaits selfCalling x sig ∧
        Rule.function selfCalling (Walk.callable (Walk.demand 1) selfCalling)
          selfCallingDeclared = (.ok (), t) ∧
        ∃ returns : List Return, returns.map Return.value = selfCalling.body.returned ∧
          (∃ y, t.scopes.lookup? "f" = some y ∧ y.type = some (.function (sig.withResult
            (Return.result returns selfCallingDeclared.options.unionWidth)))) ∧
          ∀ v ∈ Return.types returns, v.assignableTo
            (Return.result returns selfCallingDeclared.options.unionWidth) = true := by
  have hreached : selfCallingDeclared.Reached :=
    (Leads.stepLaws.declareAll _).stays _ (.start {})
  have hcanonical : selfCallingDeclared.Canonical :=
    Canonical.sustains.preserves (Canonical.stepLaws.declareAll _) _ (Canonical.start trivial)
  have hs : selfCallingDeclared.Awaits selfCalling
      ⟨0, "f", .function, some (.function ⟨[⟨"b", .bool⟩], .unknown, false, []⟩), false,
        .function selfCalling⟩ ⟨[⟨"b", .bool⟩], .unknown, false, []⟩ :=
    ⟨by rfl, by decide, rfl, rfl, rfl, by decide +kernel, by decide +kernel⟩
  have hfacts : (Rule.function selfCalling (Walk.callable (Walk.demand 1) selfCalling)
      selfCallingDeclared).1.toBool = true ∧ (Rule.function selfCalling
        (Walk.callable (Walk.demand 1) selfCalling) selfCallingDeclared).2.reports.size =
      selfCallingDeclared.reports.size := by decide +kernel
  rcases hrun : Rule.function selfCalling (Walk.callable (Walk.demand 1) selfCalling)
    selfCallingDeclared with ⟨e | _, t⟩ <;> rw [hrun] at hfacts
  · cases hfacts.1
  · obtain ⟨returns, -, hall, -, ⟨y, hy, -, htype⟩, hfits, -⟩ :=
      recursive_result_exact hreached hcanonical hs hrun
    exact ⟨hreached, hcanonical, _, _, t, hs, rfl, returns, hall hfacts.2, ⟨y, hy, htype⟩, hfits⟩

end Session

/-- The first return has the type of an integer. The other one calls the function, and its unknown
type is in the result. -/
theorem self_call_unknown_in_result :
    (Analysis.run (some ⟨"m.te", [.function selfCalling]⟩) {}).map (fun s => (s.errorCount,
      (s.recorded? 3).map Ty.text, (s.recorded? 4).map Ty.text,
      (s.scopes.lookup? "f").bind fun x => x.type.map Ty.text)) =
      .ok (0, some "Int", some "Unknown", some "fn(Bool) -> Int | Unknown") := by
  decide +kernel

end TypedScript
