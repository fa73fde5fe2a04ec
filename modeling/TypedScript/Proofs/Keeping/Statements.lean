import TypedScript.Checking.Classes
import TypedScript.Checking.Statements
import TypedScript.Proofs.Keeping.Expressions

/-!
# What the rules of bodies and statements keep

The rule of a statement keeps a contract when the checks of its parts do. A body is
checked in a scope and a function of its own; what it returns is noted there and gives
the result.
-/
namespace TypedScript

/-- The check of a body, inside the function that it is the body of, keeps a contract. -/
def BodyCheck.Keeps (R : Contract) (body : BodyCheck) : Prop :=
  ∀ f : FunctionSpec, (R.typed → (Ty.function f.signature).Canonical) →
    (Rule.functionBody f body).Yields R Ty.Canonical

lemma BodyCheck.Keeps.given {R : Contract} {body : BodyCheck} (hb : body.Keeps R)
    (id : SymbolId) (h : Option Heritage) : body.Keeps (R.given id h) :=
  fun f hsig => (hb f hsig).given id h

/-- Where types do not matter, nothing is asked of the signature. -/
lemma BasicLaws.functionBody {R : Contract} (_ : BasicLaws R) (f : FunctionSpec)
    {body : BodyCheck} (hb : body.Keeps R)
    (hsig : R.typed → (Ty.function f.signature).Canonical := by exact False.elim) :
    (Rule.functionBody f body).Yields R Ty.Canonical :=
  hb f hsig

/-- The checks of the parts of a clause keep a contract. -/
structure ClauseCheck.Keeps (R : Contract) (c : ClauseCheck) : Prop where
  values : ∀ x ∈ c.values, x.Keeps R
  body : c.body.Keeps R

/-- The check of what follows `else` keeps a contract. -/
def Rule.ElseCheck.Keeps (R : Contract) : Rule.ElseCheck → Prop
  | .none => True
  | .block check => check.Keeps R
  | .node check => check.Keeps R

lemma Rule.run_once (id : NodeId) (body : Check Unit) (s : Session) :
    once id body s = if s.isChecked id || s.isInferring id then (.ok (), s)
      else ((body (s.beginInference id)).1, (body (s.beginInference id)).2.endInference id) := by
  rw [once, Check.run_bind, Check.run_get]
  dsimp only
  split <;> rfl

namespace BasicLaws

variable {R : Contract} (laws : BasicLaws R)
include laws

/-! ## Functions -/

lemma defineTypeParams (ps : List TypeParam) : (Rule.defineTypeParams ps).Keeps R := by
  induction ps with
  | nil => exact laws.pure _
  | cons p ps ih =>
    exact laws.bind (laws.defineSymbol _ _ _ _ fun _ => Ty.canonical_param _) fun _ _ => ih

lemma defineParams (ps : List ParamDecl) (qs : List Param)
    (hq : R.typed → ∀ q ∈ qs, q.type.Canonical := by exact False.elim) :
    (Rule.defineParams ps qs).Keeps R := by
  induction ps generalizing qs with
  | nil => exact laws.pure _
  | cons p ps ih =>
    cases qs with
    | nil => exact laws.pure _
    | cons q qs =>
      have hq := fun htyped => List.forall_mem_cons.1 (hq htyped)
      exact laws.bind (laws.derefCanonical fun htyped => (hq htyped).1) fun _ ht =>
        laws.bind (laws.declare _ _ _ _ ht) fun _ _ => ih _ fun htyped => (hq htyped).2

lemma reportUnreachable (codes : List DeadCode) : (Rule.reportUnreachable codes).Keeps R := by
  induction codes with
  | nil => exact laws.pure _
  | cons code codes ih =>
    exact laws.onlyIf (laws.throw (.inr rfl)) fun _ => laws.bind laws.file fun _ _ =>
      laws.bind (laws.traceLine _ _) fun _ _ => laws.bind laws.file fun _ _ =>
      laws.bind (laws.reportOne _) fun _ _ => ih

lemma checkFlow (f : FunctionSpec) (declared : Hint) (b : Block) :
    (Rule.checkFlow f declared b).Keeps R := by
  refine laws.bind (laws.reportUnreachable _) fun _ _ => laws.bind laws.file fun _ _ => ?_
  split
  · exact laws.reportOne _
  · exact laws.pure _

lemma result (f : FunctionSpec) {declared : Hint} (hd : R.typed → declared.Canonical) :
    (Rule.result f declared).Yields R Ty.Canonical := by
  unfold Rule.result
  split
  · exact laws.give fun htyped => hd htyped _ rfl
  · refine laws.bind laws.unionWidth fun width _ => laws.reading fun s hs =>
      laws.bind (laws.traceLine _ _) fun _ _ => laws.give fun htyped => ?_
    have hfound : ((s.function.map fun c : FunctionContext =>
        c.inferredResult width).getD Ty.void).Canonical := by
      cases hf : s.function with
      | none => exact Ty.canonical_prim _
      | some f => exact ((hs htyped).function f hf).inferredResult width
    split
    · exact hfound.asFuture
    · exact hfound

/-- A body is checked in a scope of its own, inside its own function. -/
lemma bodyInside {body : BodyCheck}
    (hb : ∀ (f : FunctionSpec) (declared : Hint), (R.typed → declared.Canonical) →
      (Check.during (fun s => s.enterFunction
          { name := f.name, declared, isAsync := f.isAsync, isStatic := f.isStatic })
        (Rule.checkBody f declared body >>= fun _ => Rule.result f declared)).Yields R
          Ty.Canonical) : body.Keeps R := by
  intro f hsig
  have hparts := fun htyped => Ty.canonical_function.1 (hsig htyped)
  exact laws.during .scope <| laws.bind (laws.defineTypeParams _) fun _ _ =>
    laws.bind (laws.defineParams _ _ fun htyped => (hparts htyped).1) fun _ _ =>
      laws.bindIte (laws.give fun _ => Hint.canonical_none)
        (laws.map (laws.derefCanonical fun htyped => (hparts htyped).2.1)
          fun _ ht => Hint.canonical_some.2 ht) fun declared hd => hb f declared hd

lemma body {body : BodyCheck} (hb : ∀ f declared, (Rule.checkBody f declared body).Keeps R) :
    body.Keeps R :=
  laws.bodyInside fun f declared hd =>
    laws.during (.function _ fun htyped => ⟨hd htyped, List.forall_mem_nil _⟩) <|
      laws.bind (hb f declared) fun _ _ => laws.result f hd

/-- A declaration that is not being inferred is inferred and then is not any more. -/
lemma onceAt {s : Session} (id : NodeId) {body : Check Unit}
    (hb : body.KeepsAt R (s.beginInference id)) : (Rule.once id body).KeepsAt R s := by
  refine .read ?_
  split
  · exact laws.pure _ s
  · rename_i h
    intro hs
    have hfree : s.isInferring id = false := by simp_all
    obtain ⟨hr, hm, ha⟩ := hb (laws.begun id hs)
    exact ⟨laws.inference hs hfree hr, hm, ha⟩

/-- A declaration that is being inferred is left alone. -/
lemma onceBusy {s : Session} {id : NodeId} (hbusy : s.isInferring id = true) (body : Check Unit) :
    (Rule.once id body).KeepsAt R s := by
  refine .read ?_
  rw [if_pos (by simp [hbusy])]
  exact laws.pure _ s

lemma once (id : NodeId) {body : Check Unit} (hb : body.Keeps R) : (Rule.once id body).Keeps R :=
  fun _ => laws.onceAt id (hb _)

lemma atHome (x : Symbol) {body : Check Unit} (hb : body.Keeps R) :
    (Rule.atHome x body).Keeps R := by
  refine laws.reading fun _ _ => ?_
  split
  · exact .ite (laws.during .detach hb) hb
  · exact hb

lemma arrowParam {hint : Option Param}
    (hh : R.typed → ∀ q, hint = some q → q.type.Canonical) (p : ParamDecl) :
    (Rule.arrowParam hint p).Yields R Ty.Canonical := by
  unfold Rule.arrowParam
  split
  · split
    · exact laws.give fun htyped => hh htyped _ rfl
    · refine laws.give fun _ => ?_
      split <;> simp
  · refine laws.reading fun _ hs => ?_
    split
    · rename_i t ht
      exact laws.give fun htyped => Scopes.canonical_resolveParam (hs htyped).scopes _ p t ht
    · exact laws.refuse _ _ _ _ _

lemma arrowParams (place : Location) (hints : List Param) (ps : List ParamDecl)
    (hh : R.typed → ∀ q ∈ hints, q.type.Canonical := by exact False.elim) :
    (Rule.arrowParams place hints ps).Yields R fun r => ∀ p ∈ r.1, p.type.Canonical := by
  induction ps generalizing hints with
  | nil => exact laws.give fun _ => List.forall_mem_nil _
  | cons p ps ih =>
    exact laws.bind (laws.arrowParam (fun htyped q hq => hh htyped q (List.mem_of_head? hq)) p)
      fun _ ht => laws.onlyIf (laws.invalidOperation _ _) fun _ =>
        laws.bind (ih _ fun htyped q hq => hh htyped q (List.mem_of_mem_tail hq)) fun _ hrest =>
          laws.give fun htyped => List.forall_mem_cons.2 ⟨ht htyped, hrest htyped⟩

lemma arrow (place : Location) (params : List ParamDecl) (result : Annotation)
    {body : BodyCheck} (hb : body.Keeps R) (isAsync : Bool) {expected : Hint}
    (he : R.typed → expected.Canonical) :
    (Rule.arrow place params result body isAsync expected).Yields R Ty.Canonical := by
  have hhints : R.typed → ∀ q ∈ (expected.function?.map Signature.params).getD [],
      q.type.Canonical := by
    intro htyped
    cases hsig : expected.function? with
    | none => exact List.forall_mem_nil _
    | some sig => exact (Ty.canonical_function.1 ((he htyped).function? hsig)).1
  refine laws.bind (laws.arrowParams _ _ _ hhints) fun r hr => ?_
  have hsig {declared : Ty} (hd : R.typed → declared.Canonical) :
      R.typed → (Ty.function ⟨r.1, declared, r.2, []⟩).Canonical := fun htyped =>
    Ty.canonical_function.2 ⟨hr htyped, hd htyped, List.forall_mem_nil _⟩
  -- the body is checked under the signature, which then gets the result of the body
  have hbody {declared : Ty} (hd : R.typed → declared.Canonical) (isStatic : Bool) :
      (Rule.functionBody ⟨"<arrow>", place, ⟨r.1, declared, r.2, []⟩, params, isAsync, isStatic,
        result.isOmitted⟩ body >>= fun t => Pure.pure
          (Ty.function (Signature.withResult ⟨r.1, declared, r.2, []⟩ t))).Yields R
        Ty.Canonical :=
    laws.bind (laws.functionBody _ hb (hsig hd)) fun _ ht => laws.give fun htyped =>
      Signature.canonical_withResult (hsig hd htyped) (ht htyped)
  refine .ite (laws.bind (laws.give fun _ => Ty.canonical_prim _) fun _ hd =>
      laws.reading fun _ _ => hbody hd _)
    (laws.bind (laws.meaning _) fun t ht => laws.bind (laws.give fun htyped => ?_) fun _ hd =>
      laws.reading fun _ _ => hbody hd _)
  split
  · exact (ht htyped).asFuture
  · exact ht htyped

lemma inClass (c : Class) {body : Check Unit} (hb : body.Keeps R) :
    (Rule.inClass c body).Keeps R :=
  laws.during (.cls _) <| laws.during .scope <| laws.bind (laws.defineTypeParams _) fun _ _ => hb

lemma constructor (className : String) (m : Callable) {body : BodyCheck} (hb : body.Keeps R) :
    (Rule.constructor className m body).Keeps R := by
  refine laws.bind (laws.classNamed? _) fun c? hc => ?_
  split
  · exact laws.pure _
  · rename_i sig hsig
    have hsig : R.typed → (Ty.function sig).Canonical := by
      intro htyped
      obtain ⟨c, rfl, hctor⟩ := Option.bind_eq_some_iff.1 hsig
      exact (Ty.canonical_cls.1 (hc htyped c rfl)).2.2.2.1 sig hctor
    exact laws.once _ (laws.bind (laws.andThen (laws.functionBody _ hb hsig) fun _ =>
      laws.markChecked _) fun _ _ => laws.pure _)

/-! ## Statements -/

lemma inScope {n : Narrowings} (hn : R.typed → Subst.Canonical n) {body : Check Unit}
    (hb : body.Keeps R) : (Rule.inScope n body).Keeps R :=
  laws.narrowed hn (laws.during .scope hb)

/-- A block in which nothing new is known of any name. -/
lemma inPlainScope {body : Check Unit} (hb : body.Keeps R) : (Rule.inScope [] body).Keeps R :=
  laws.inScope (fun _ => .nil) hb

lemma varType (place : Location) (name : Ident) (type : Annotation) (value : Option Part)
    (hv : ∀ v, value = some v → v.Keeps R) :
    (Rule.varType place name type value).Yields R Ty.Canonical := by
  refine laws.bindIte (laws.give fun _ => Hint.canonical_none)
    (laws.map (laws.meaning _) fun _ ht => Hint.canonical_some.2 ht) fun declared hd => ?_
  split
  · refine laws.bind (hv _ rfl _ hd) fun t ht => laws.onlyIf (laws.typeMismatch _ _) fun _ => ?_
    split
    · exact laws.bind (laws.assignable _ _ _ _) fun _ _ => laws.give fun htyped => hd htyped _ rfl
    · exact laws.give ht
  · dsimp only
    split
    · exact laws.give fun _ => Ty.canonical_prim _
    · split
      · exact laws.failAt _
      · exact laws.give fun htyped => hd htyped _ rfl

lemma varDecl (place : Location) (name : Ident) (type : Annotation) (value : Option Part)
    (isConst : Bool) (hv : ∀ v, value = some v → v.Keeps R) :
    (Rule.varDecl place name type value isConst).Keeps R :=
  laws.bind (laws.varType _ _ _ _ hv) fun _ ht =>
    laws.bind (laws.declare _ _ _ _ ht (by cases isConst <;> decide)) fun _ _ => laws.traceLine _ _

lemma fitReturn (f : FunctionContext) (place : Location) (value target : Ty) :
    (Rule.fitReturn f place value target).Keeps R := by
  refine .ite (laws.refuse _ _ _ _ _) ?_
  split
  · exact laws.pure _
  · exact .ite (laws.failAt _) (laws.pure _)

lemma ifStmt {cond : Part} (hc : cond.Keeps R) {body : Check Unit} (hb : body.Keeps R)
    {otherwise : Rule.ElseCheck} (ho : otherwise.Keeps R) :
    (Rule.ifStmt cond body otherwise).Keeps R := by
  refine laws.bind (laws.condition hc) fun _ hout =>
    laws.bind (laws.inScope (fun htyped => (hout htyped).holds) hb) fun _ _ => ?_
  cases otherwise with
  | none => exact laws.pure _
  | block c => exact laws.inScope (fun htyped => (hout htyped).fails) ho
  | node c => exact laws.narrowed (fun htyped => (hout htyped).fails) ho

lemma loopBody {n : Narrowings} (hn : R.typed → Subst.Canonical n) {body : Check Unit}
    (hb : body.Keeps R) : (Rule.loopBody n body).Keeps R :=
  laws.during (.breakable _) (laws.inScope hn hb)

lemma whileLoop {cond : Part} (hc : cond.Keeps R) {body : Check Unit} (hb : body.Keeps R) :
    (Rule.whileLoop cond body).Keeps R :=
  laws.bind (laws.condition hc) fun _ hout => laws.loopBody (fun htyped => (hout htyped).holds) hb

lemma forLoop {init : Check Unit} (hi : init.Keeps R) (cond post : Option Part)
    (hc : ∀ c, cond = some c → c.Keeps R) (hp : ∀ x, post = some x → x.Keeps R)
    {body : Check Unit} (hb : body.Keeps R) : (Rule.forLoop init cond post body).Keeps R := by
  refine laws.during .scope <| laws.bind hi fun _ _ => ?_
  dsimp only
  split
  case' h_1 =>
    refine laws.bind (laws.map (laws.condition (hc _ rfl)) fun _ hout => hout.holds) fun n hn => ?_
  case' h_2 => refine laws.bind (laws.give fun _ => Subst.Canonical.nil) fun n hn => ?_
  all_goals
    refine laws.during (.breakable _) <| laws.bind (laws.inScope hn hb) fun _ _ => ?_
    split
    · exact laws.bind (hp _ rfl).unhinted fun _ _ => laws.pure _
    · exact laws.pure _

lemma forOf (var : Ident) {iterable : Part} (hx : iterable.Keeps R) {body : Check Unit}
    (hb : body.Keeps R) : (Rule.forOf var iterable body).Keeps R := by
  refine laws.bind hx.unhinted fun _ ht => ?_
  split
  · exact laws.invalidOperation _ _
  · rename_i element helement
    exact laws.during .scope <| laws.bind (laws.declare _ _ _ _ fun htyped =>
      Typing.canonical_iteration? (ht htyped) helement) fun _ _ => laws.loopBody (fun _ => .nil) hb

lemma caseValues {subject : Ty} (hs : R.typed → subject.Canonical) (xs : List Part)
    (hx : ∀ x ∈ xs, x.Keeps R) : (Rule.caseValues subject xs).Keeps R := by
  induction xs with
  | nil => exact laws.pure _
  | cons x xs ih =>
    have ⟨hx, hxs⟩ := List.forall_mem_cons.1 hx
    exact laws.bind (hx.hinted hs) fun _ _ => ih hxs

lemma clauses {subject : Ty} (hs : R.typed → subject.Canonical) (cs : List ClauseCheck)
    (hc : ∀ c ∈ cs, c.Keeps R) : (Rule.clauses subject cs).Keeps R := by
  induction cs with
  | nil => exact laws.pure _
  | cons c cs ih =>
    have ⟨hc, hcs⟩ := List.forall_mem_cons.1 hc
    exact laws.bind (laws.caseValues hs _ hc.values) fun _ _ =>
      laws.bind (laws.inPlainScope hc.body) fun _ _ => ih hcs

lemma switch {subject : Part} (hs : subject.Keeps R) (cs : List ClauseCheck)
    (hc : ∀ c ∈ cs, c.Keeps R) : (Rule.switch subject cs).Keeps R :=
  laws.bind hs.unhinted fun _ ht => laws.during (.breakable _) (laws.clauses ht cs hc)

lemma breakStmt (place : Location) : (Rule.breakStmt place).Keeps R :=
  laws.reading fun _ _ => .ite (laws.misplaced _ _ _ _) (laws.pure _)

lemma continueStmt (place : Location) : (Rule.continueStmt place).Keeps R := by
  refine laws.reading fun _ _ => ?_
  split
  · exact laws.misplaced _ _ _ _
  · exact laws.misplaced _ _ _ _
  · exact laws.pure _

lemma handler (param : Option Ident) {body : Check Unit} (hb : body.Keeps R) :
    (Rule.handler param body).Keeps R := by
  refine laws.during .scope ?_
  dsimp only
  split
  · exact laws.bind (laws.declare _ _ _ _ fun _ => Ty.canonical_prim _) fun _ _ =>
      laws.inPlainScope hb
  · exact laws.inPlainScope hb

lemma tryStmt {body : Check Unit} (hb : body.Keeps R) (param : Option Ident)
    (caught final : Option (Check Unit)) (hc : ∀ c, caught = some c → c.Keeps R)
    (hf : ∀ c, final = some c → c.Keeps R) : (Rule.tryStmt body param caught final).Keeps R := by
  refine laws.bind (laws.inPlainScope hb) fun _ _ => ?_
  dsimp only
  split
  case' h_1 => refine laws.bind (laws.handler _ (hc _ rfl)) fun _ _ => ?_
  all_goals
    split
    · exact laws.inPlainScope (hf _ rfl)
    · exact laws.pure _

end BasicLaws

namespace NotingLaws

variable {R : Contract} (laws : NotingLaws R)
include laws

/-! ## Returns -/

lemma noteReturn {t : Ty} (ht : R.typed → t.Canonical) : (Rule.addReturn t).Keeps R :=
  .modify fun _ hs => laws.addReturn t hs ht

lemma exprBody {x : Part} (hx : x.Keeps R) : (Rule.exprBody x).Keeps R := by
  refine laws.reading fun s hs => laws.bind (hx _ fun htyped t ht => ?_) fun t ht => ?_
  · obtain ⟨f, hf, ht⟩ := Option.bind_eq_some_iff.1 ht
    exact ((hs htyped).function f hf).target t ht
  · dsimp only
    split
    · exact laws.onlyIf (laws.assignable _ _ _ _) fun _ => laws.noteReturn ht
    · exact laws.noteReturn ht

lemma ret (place : Location) (value : Option Part) (hv : ∀ v, value = some v → v.Keeps R) :
    (Rule.ret place value).Keeps R := by
  refine laws.reading fun s hs => ?_
  have hvoid : (Rule.addReturn .void).Keeps R := laws.noteReturn fun _ => Ty.canonical_prim _
  split
  · exact laws.misplaced _ _ _ _
  · rename_i f hf
    have htarget : R.typed → f.target.Canonical := fun htyped =>
      ((hs htyped).function f hf).target
    split
    · dsimp only
      split
      · exact laws.onlyIf (laws.typeMismatch _ _) fun _ => hvoid
      · exact hvoid
    · refine laws.bind (hv _ rfl _ htarget) fun t ht => ?_
      dsimp only
      split
      · exact laws.bind (laws.fitReturn _ _ _ _) fun _ _ => laws.noteReturn ht
      · exact laws.noteReturn ht

end NotingLaws

end TypedScript
