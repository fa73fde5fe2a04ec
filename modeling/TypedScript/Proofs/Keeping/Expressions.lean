import TypedScript.Checking.Collections
import TypedScript.Checking.Names
import TypedScript.Proofs.Keeping.Steps

/-!
# What the rules of expressions keep

The rule of an expression keeps a contract when the checks of its parts do, and the
checks on demand. Where types are to be canonical, parts are checked under canonical hints
and give canonical types, and so does the rule.
-/
namespace TypedScript

/-- The check of the part keeps a contract under every hint that the contract admits. -/
def Part.Keeps (R : Contract) (p : Part) : Prop :=
  ∀ h : Hint, (R.typed → h.Canonical) → (p.check h).Yields R Ty.Canonical

/-- A part of which nothing is expected. -/
lemma Part.Keeps.unhinted {R : Contract} {p : Part} (hp : p.Keeps R) :
    (p.check none).Yields R Ty.Canonical :=
  hp none fun _ => Hint.canonical_none

lemma Part.Keeps.hinted {R : Contract} {p : Part} (hp : p.Keeps R) {t : Ty}
    (ht : R.typed → t.Canonical) : (p.check (some t)).Yields R Ty.Canonical :=
  hp (some t) fun htyped => Hint.canonical_some.2 (ht htyped)

/-- Checks on demand keep a contract. -/
structure Demand.Keeps (R : Contract) (d : Demand) : Prop where
  function : ∀ x, (d.function x).Keeps R
  method : ∀ owner name, (d.method owner name).Keeps R

/-- A name that is assigned to has the type that its symbol is declared with, and that is
noted. -/
lemma Name.of_run_target {m : Mark} {name : String} {t : Ty} {s u : Session}
    (h : Name.target m name s = (.ok t, u)) :
    ∃ x, s.scopes.lookup? name = some x ∧ t = s.deref (x.type.getD .unknown) ∧
      u = s.record m.id t := by
  have hlookup : Check.lookup? name s = (.ok (s.scopes.lookup? name), s) := rfl
  rw [Name.target, Check.run_bind, hlookup] at h
  dsimp only at h
  cases hx : s.scopes.lookup? name with
  | none =>
    rw [hx] at h
    cases h
  | some x =>
    rw [hx] at h
    dsimp only at h
    split at h
    · cases h
    · split at h
      · cases h
      · cases h
        exact ⟨x, rfl, rfl, rfl⟩

namespace BasicLaws

variable {R : Contract} (laws : BasicLaws R)
variable {d : Demand} (hd : d.Keeps R)
include laws

/-! ## Members -/

lemma findIn? {c : Class} (hc : R.typed → (Ty.cls c).Canonical) (name : String) :
    (Member.findIn? c name).Yields R fun m? => ∀ m, m? = some m → m.type.Canonical :=
  laws.reading fun _ hs => laws.ofSearch fun htyped _ =>
    (hs htyped).scopes.findMember (hc htyped)

lemma isMethodOf (c : Class) (m : Member) : (Member.isMethodOf c m).Keeps R :=
  .ite (laws.reading fun _ _ => laws.bind (laws.ofSearch (P := fun _ => True) fun _ _ _ => trivial)
    fun _ _ => laws.pure _) (laws.pure _)

lemma namesClass (receiver : Option String) : (Member.namesClass receiver).Keeps R := by
  unfold Member.namesClass
  split
  · exact laws.pure _
  · exact laws.reading fun _ _ => laws.pure _

include hd in
lemma settled {c : Class} (hc : R.typed → (Ty.cls c).Canonical) {m : Member}
    (hm : R.typed → m.type.Canonical) (name : String) :
    (Member.settled d c m name).Yields R fun m => m.type.Canonical := by
  unfold Member.settled
  split
  · refine .ite (laws.bind (hd.method _ _) fun _ _ => laws.bind (laws.findIn? hc _) fun m? hm? =>
      laws.give fun htyped => ?_) (laws.give hm)
    cases m? with
    | none => exact hm htyped
    | some n => exact hm? htyped n rfl
  · exact laws.give hm

include hd in
lemma ofClass (receiver : Option String) {c : Class} (hc : R.typed → (Ty.cls c).Canonical)
    (field : Ident) :
    (Member.ofClass d receiver c field).Yields R fun m => m.type.Canonical := by
  refine laws.bind (laws.findIn? hc _) fun m? hm? => ?_
  split
  · exact laws.failAt _
  · refine laws.reading fun _ _ => ?_
    split
    · exact laws.failAt _
    · exact laws.bind (laws.namesClass _) fun _ _ => .ite (laws.invalidOperation _ _)
        (laws.settled hd hc (fun htyped => hm? htyped _ rfl) _)

include hd in
lemma typeWithin (limit : Nat) (receiver : Option String) {t : Ty} (ht : R.typed → t.Canonical)
    (field : Ident) : (Member.typeWithin d limit receiver t field).Yields R Ty.Canonical := by
  induction limit generalizing receiver t with
  | zero => exact laws.endless
  | succ limit ih =>
    refine laws.bind (laws.derefCanonical ht) fun u hu => ?_
    have hbase := fun htyped => (hu htyped).applied.1
    have hargs := fun htyped => (hu htyped).applied.2
    dsimp only
    generalize u.applied.1 = base at *
    cases base with
    | cls c =>
      exact laws.bind (laws.ofClass hd _ hbase _) fun m hm =>
        laws.derefCanonical fun htyped => (hm htyped).substitute (hargs htyped)
    | interface shape =>
      dsimp only
      split
      · exact laws.failAt _
      · rename_i p hp
        have hp := fun htyped =>
          (Ty.canonical_interface.1 (hbase htyped)).2.1 p (Interface.mem_of_property? hp)
        refine laws.bind (laws.derefCanonical fun htyped => (hp htyped).substitute (hargs htyped))
          fun v hv => laws.give fun htyped => ?_
        split
        · exact (hv htyped).orNull
        · exact hv htyped
    | enum e =>
      dsimp only
      split
      · exact laws.give hbase
      · exact laws.failAt _
    | nullable inner => exact laws.refuse _ _ _ _ _
    | union ms =>
      refine laws.bind (laws.mapM ms fun m hm => ?_) fun _ hts =>
        laws.give fun htyped => Ty.canonical_unionOf (hts htyped)
      exact .ite (laws.refuse _ _ _ _ _)
        (ih _ fun htyped => (Ty.canonical_union.1 (hbase htyped)).2 m hm)
    | prim | list | map | function | future | ref | param | generic =>
      refine .ite (laws.give fun _ => Ty.canonical_prim _) (laws.reading fun _ hs => ?_)
      split
      · rename_i v hv
        exact laws.give fun htyped => (hs htyped).builtins.member? hv
      · exact laws.failAt _

include hd in
lemma memberType (receiver : Option String) {t : Ty} (ht : R.typed → t.Canonical)
    (field : Ident) : (Member.typeOf d receiver t field).Yields R Ty.Canonical :=
  laws.bind (laws.bind laws.get fun _ _ => laws.pure _) fun _ _ => laws.typeWithin hd _ _ ht _

include hd in
lemma optionalType (receiver : Option String) {t : Ty} (ht : R.typed → t.Canonical)
    (field : Ident) : (Member.optionalType d receiver t field).Yields R Ty.Canonical := by
  refine laws.bind (laws.derefCanonical ht) fun u hu => ?_
  have hnone : (Pure.pure Ty.any.orNull : Check Ty).Yields R Ty.Canonical :=
    laws.give fun _ => (Ty.canonical_prim _).orNull
  dsimp only
  split
  case h_3 => exact hnone
  all_goals
    refine laws.tryCatch (laws.map (laws.memberType hd _ (fun htyped => (hu htyped).stripNull) _)
      fun _ hv => hv.orNull) fun e he => ?_
    split
    · exact .ite hnone (laws.throw he)
    · exact laws.throw he

lemma isWritable (m : Member) : (Member.isWritable m).Keeps R := by
  refine .ite (laws.pure _) (laws.reading fun _ _ => ?_)
  split
  · exact laws.pure _
  · exact laws.pure _

include hd in
lemma targetType (receiver : Option String) {t : Ty} (ht : R.typed → t.Canonical)
    (field : Ident) : (Member.targetType d receiver t field).Yields R Ty.Canonical := by
  refine laws.bind (laws.derefCanonical ht) fun u hu => ?_
  have hbase := fun htyped => (hu htyped).applied.1
  have hargs := fun htyped => (hu htyped).applied.2
  dsimp only
  split
  · rename_i c hc
    exact laws.bind (laws.ofClass hd _ (fun htyped => hc ▸ hbase htyped) _) fun m hm =>
      laws.bind (laws.isMethodOf _ _) fun _ _ =>
        .ite (laws.refuse _ _ _ _ _) (laws.bind (laws.isWritable _) fun _ _ =>
          .ite (laws.refuse _ _ _ _ _)
            (laws.derefCanonical fun htyped => (hm htyped).substitute (hargs htyped)))
  · exact laws.memberType hd _ ht _

/-! ## Calls -/

lemma checkCount (place : Location) (sig : Signature) (found : Nat) :
    (Call.checkCount place sig found).Keeps R :=
  .ite (.ite (laws.failAt _) (laws.pure _)) (.ite (laws.failAt _) (laws.pure _))

lemma explicitBindings (place : Location) (sig : Signature) {explicit : List Ty}
    (he : R.typed → ∀ t ∈ explicit, t.Canonical) :
    (Call.explicitBindings place sig explicit).Yields R fun s? =>
      ∀ s, s? = some s → s.Canonical := by
  refine .ite (laws.give fun _ s hs => by cases hs) (.ite (laws.invalidOperation _ _) ?_)
  split
  · rename_i s hs
    refine laws.give fun htyped s' hs' => ?_
    cases hs'
    unfold Typing.explicitArguments TypeParam.explicitArguments? at hs
    split at hs
    · rename_i hzip
      cases hs
      split at hzip <;> cases hzip
      exact .zip _ (he htyped)
    · cases hs
  · exact laws.failAt _

variable {sig : Signature} (hsig : R.typed → (Ty.function sig).Canonical)

include hsig in
lemma parameterAt (i : Nat) (a : Argument) :
    (Call.parameterAt sig i a).Yields R Ty.Canonical := by
  have hparam {p? : Option Param} (hp : ∀ p, p? = some p → p ∈ sig.params) :
      R.typed → ((p?.map Param.type).getD .any).Canonical := by
    intro htyped
    cases p? with
    | none => exact Ty.canonical_prim _
    | some p => exact (Ty.canonical_function.1 (hsig htyped)).1 p (hp p rfl)
  have hlast := hparam fun p hp => List.mem_of_getLast? hp
  unfold Call.parameterAt
  generalize (sig.params.getLast?.map Param.type).getD .any = last at *
  refine .ite (.ite (laws.give hlast) ?_) (.ite (laws.misplaced _ _ _ _)
    (laws.give (hparam fun p hp => List.mem_of_getElem? hp)))
  cases last with
  | list t => exact laws.give fun htyped => Ty.canonical_list.1 (hlast htyped)
  | _ => exact laws.give fun _ => Ty.canonical_prim _


include hsig in
lemma passAll {s : Subst} (hs : R.typed → s.Canonical) (i : Nat) (args : List Argument)
    (ha : ∀ a ∈ args, a.toPart.Keeps R) :
    (Call.passAll sig s i args).Yields R fun passed => ∀ p ∈ passed, p.type.Canonical := by
  induction args generalizing i with
  | nil => exact laws.give fun _ => List.forall_mem_nil _
  | cons a args ih =>
    have ⟨ha, has⟩ := List.forall_mem_cons.1 ha
    refine laws.bind (laws.parameterAt hsig i a) fun _ hp =>
      laws.bind (laws.derefCanonical hp) fun p hp => laws.bind (ha _ fun htyped => ?_) fun t ht =>
        laws.onlyIf (laws.recordType _ ht) fun _ => laws.bind (ih (i + 1) has) fun _ hrest =>
          laws.give fun htyped => List.forall_mem_cons.2 ⟨ht htyped, hrest htyped⟩
    split
    · exact Hint.canonical_none
    · exact Hint.canonical_some.2 ((hp htyped).substitute (hs htyped))

include hsig in
lemma bindings (place : Location) {explicit : Option Subst}
    (he : R.typed → ∀ s, explicit = some s → s.Canonical) {passed : List Call.Passed}
    (hp : R.typed → ∀ p ∈ passed, p.type.Canonical) :
    (Call.bindings place sig explicit passed).Yields R Subst.Canonical := by
  have hexplicit {other : Subst} (ho : R.typed → other.Canonical) :
      R.typed → (explicit.getD other).Canonical := by
    intro htyped
    cases explicit with
    | none => exact ho htyped
    | some s => exact he htyped s rfl
  refine .ite (laws.give (hexplicit fun _ => .nil)) ?_
  dsimp only
  split
  · refine laws.give (hexplicit fun htyped => TypeParam.canonical_inferArguments ?_ ?_)
    · exact (Ty.canonical_function.1 (hsig htyped)).2.2
    · exact List.forall_mem_map.2 fun p hpassed => hp htyped p hpassed
  · exact laws.failAt _

lemma fitAll (s : Subst) (i : Nat) (passed : List Call.Passed) :
    (Call.fitAll s i passed).Keeps R := by
  induction passed generalizing i with
  | nil => exact laws.pure _
  | cons p passed ih => exact laws.bind (laws.assignable _ _ _ _) fun _ _ => ih _

include hsig in
lemma apply (place : Location) {explicit : List Ty}
    (he : R.typed → ∀ t ∈ explicit, t.Canonical) (args : List Argument)
    (ha : ∀ a ∈ args, a.toPart.Keeps R) :
    (Call.apply place sig explicit args).Yields R fun r => r.1.Canonical ∧ r.2.Canonical := by
  refine laws.bind (laws.checkCount _ _ _) fun _ _ =>
    laws.bind (laws.explicitBindings _ _ he) fun explicit? hexplicit =>
      laws.bind (laws.passAll hsig (fun htyped => ?_) _ _ ha) fun _ hpassed =>
        laws.bind (laws.bindings hsig _ hexplicit hpassed) fun s hs =>
          laws.bind (laws.fitAll _ _ _) fun _ _ => ?_
  · cases explicit? with
    | none => exact .nil
    | some s => exact hexplicit htyped s rfl
  · have hresult := fun htyped => (Ty.canonical_function.1 (hsig htyped)).2.1
    exact laws.bind (laws.derefCanonical fun htyped => (hresult htyped).substitute (hs htyped))
      fun _ ht => laws.give fun htyped => ⟨ht htyped, hs htyped⟩

lemma checkAll (args : List Argument) (ha : ∀ a ∈ args, a.toPart.Keeps R) :
    (Call.checkAll args).Keeps R := by
  induction args with
  | nil => exact laws.pure _
  | cons a args ih =>
    have ⟨ha, has⟩ := List.forall_mem_cons.1 ha
    exact laws.bind ha.unhinted fun _ _ => ih has

lemma callValue (place : Location) {callee : Ty} (hc : R.typed → callee.Canonical)
    {explicit : List Ty} (he : R.typed → ∀ t ∈ explicit, t.Canonical) (args : List Argument)
    (ha : ∀ a ∈ args, a.toPart.Keeps R) :
    (Call.value place callee explicit args).Yields R Ty.Canonical := by
  refine .ite (laws.bind (laws.checkAll _ ha) fun _ _ => laws.give fun _ => Ty.canonical_prim _) ?_
  cases callee with
  | function sig =>
    exact laws.bind (laws.apply hc _ he _ ha) fun _ hr => laws.give fun htyped => (hr htyped).1
  | _ => exact laws.failAt _

lemma constructorOf {c : Class} (hc : R.typed → (Ty.cls c).Canonical) :
    (Call.constructorOf c).Yields R fun sig => (Ty.function sig).Canonical := by
  refine laws.reading fun _ hs => laws.bind (laws.ofSearch fun htyped _ =>
    (hs htyped).scopes.constructor (hc htyped)) fun sig? hsig => laws.give fun htyped => ?_
  cases sig? with
  | none => simp [Call.defaultConstructor, TypeParam.bounds]
  | some sig => exact hsig htyped sig rfl

lemma construct (place : Location) (name : Ident) (typeArgs : List Annotation)
    (args : List Argument) {expected : Hint} (he : R.typed → expected.Canonical)
    (ha : ∀ a ∈ args, a.toPart.Keeps R) :
    (Call.construct place name typeArgs args expected).Yields R Ty.Canonical := by
  refine laws.bind (laws.lookup? _) fun _ _ => laws.orFail fun _ =>
    laws.bind (laws.classNamed? _) fun c? hc? => ?_
  split
  · exact laws.failAt _
  · rename_i c
    have hc : R.typed → (Ty.cls c).Canonical := fun htyped => hc? htyped c rfl
    have hbounds := fun htyped => (Ty.canonical_cls.1 (hc htyped)).2.2.2.2
    refine laws.onlyIf (laws.invalidOperation _ _) fun _ =>
      laws.bind (laws.constructorOf hc) fun sig hsig => laws.bind (laws.meanings _) fun ts hts => ?_
    have hsig : R.typed →
        (Ty.function { sig with typeParams := c.typeParams }).Canonical := by
      intro htyped
      obtain ⟨hparams, hresult, -⟩ := Ty.canonical_function.1 (hsig htyped)
      exact Ty.canonical_function.2 ⟨hparams, hresult, hbounds htyped⟩
    refine laws.bind (laws.apply hsig _ (fun htyped => ?_) _ ha) fun r hr =>
      .ite (laws.give hc) (laws.give fun htyped => Ty.canonical_generic.2 ⟨hc htyped, ?_⟩)
    · split
      · unfold Call.expectedArguments
        split
        · rename_i base as heq
          split
          · have hunwrap := (he htyped).unwrap
            rw [heq] at hunwrap
            exact (Ty.canonical_generic.1 hunwrap).2
          · exact List.forall_mem_nil _
        · exact List.forall_mem_nil _
      · exact hts htyped
    · refine List.forall_mem_map.2 fun p _ => ?_
      cases hget : r.2.get? p.name with
      | none => exact Ty.canonical_prim _
      | some t => exact (hr htyped).2.get? hget

lemma superclass (place : Location) :
    (Call.superclass place).Yields R fun c => (Ty.cls c).Canonical := by
  refine laws.reading fun s hs => laws.onlyIf (laws.misplaced _ _ _ _) fun _ =>
    laws.onlyIf (laws.misplaced _ _ _ _) fun _ => ?_
  split
  · exact laws.misplaced _ _ _ _
  · rename_i p hp
    obtain ⟨c, hc, hparent⟩ := Option.bind_eq_some_iff.1 hp
    exact laws.give fun htyped => (hs htyped).scopes.refresh
      ((Ty.canonical_cls.1 ((hs htyped).scopes.classNamed? hc)).1 p hparent)

lemma superConstructor (place : Location) (callee : Mark) (args : List Argument)
    (ha : ∀ a ∈ args, a.toPart.Keeps R) :
    (Call.superConstructor place callee args).Yields R Ty.Canonical :=
  laws.reading fun _ _ => laws.onlyIf (laws.misplaced _ _ _ _) fun _ =>
    laws.bind (laws.superclass _) fun _ hc => laws.bind (laws.recordType _ hc) fun _ _ =>
      laws.bind (laws.constructorOf hc) fun _ hsig =>
        laws.bind (laws.apply hsig _ (fun _ => List.forall_mem_nil _) _ ha) fun _ _ =>
          laws.give fun _ => Ty.canonical_prim _

/-! ## Names -/

include hd in
lemma nameValue (place : Location) (name : String) :
    (Name.value d place name).Yields R Ty.Canonical := by
  refine laws.reading fun s hs => ?_
  split
  · rename_i t ht
    exact laws.give fun htyped => (hs htyped).narrowed? ht
  · refine laws.bind (laws.lookup? _) fun x? hx => ?_
    split
    · exact laws.failAt _
    · rename_i x
      have htype {t? : Option Ty} (ht : R.typed → Hint.Canonical t?) :
          R.typed → (t?.getD .unknown).Canonical := by
        intro htyped
        cases t? with
        | none => exact Ty.canonical_prim _
        | some t => exact Hint.canonical_some.1 (ht htyped)
      have hx : R.typed → x.Canonical := fun htyped => hx htyped x rfl
      dsimp only
      split
      · exact laws.give (htype hx)
      · exact laws.give (htype hx)
      · exact laws.onlyIf (hd.function _) fun _ => .ite (laws.invalidOperation _ _)
          (laws.bind (laws.currentType? hx) fun _ ht => laws.derefCanonical (htype ht))

lemma nameTarget (m : Mark) (name : String) : (Name.target m name).Yields R Ty.Canonical := by
  refine laws.bind (laws.lookup? _) fun x? hx => ?_
  split
  · exact laws.failAt _
  · rename_i x
    have ht : R.typed → (x.type.getD .unknown).Canonical := by
      intro htyped
      have hx := hx htyped x rfl
      cases htype : x.type with
      | none => exact Ty.canonical_prim _
      | some t => exact hx t htype
    exact .ite (laws.refuse _ _ _ _ _) (.ite (laws.refuse _ _ _ _ _)
      (laws.bind (laws.derefCanonical ht) fun _ hu =>
        laws.bind (laws.recordType _ hu) fun _ _ => laws.give hu))

lemma this (place : Location) : (Name.this place).Yields R Ty.Canonical := by
  refine laws.reading fun _ hs => .ite (laws.misplaced _ _ _ _)
    (.ite (laws.misplaced _ _ _ _) ?_)
  split
  · rename_i c hc
    exact laws.give fun htyped => (hs htyped).scopes.classNamed? hc
  · exact laws.misplaced _ _ _ _

lemma demandClass (name : Ident) : (Name.demandClass name).Keeps R := by
  refine laws.bind (laws.lookup? _) fun x? _ => ?_
  split
  · exact laws.failAt _
  · exact .ite (laws.failAt _) (laws.pure _)

/-! ## Operators and conditions -/

lemma recorded (m : Mark) {c : Check Ty} (hc : c.Yields R Ty.Canonical) :
    (Rule.recorded m c).Yields R Ty.Canonical :=
  laws.bind hc fun _ ht => laws.bind (laws.recordType _ ht) fun _ _ => laws.give ht

lemma each (ps : List Part) (hp : ∀ p ∈ ps, p.Keeps R) : (Rule.each ps).Keeps R := by
  induction ps with
  | nil => exact laws.pure _
  | cons p ps ih =>
    have ⟨hp, hps⟩ := List.forall_mem_cons.1 hp
    exact laws.bind hp.unhinted fun _ _ => ih hps

lemma template (ps : List Part) (hp : ∀ p ∈ ps, p.Keeps R) :
    (Rule.template ps).Yields R Ty.Canonical :=
  laws.bind (laws.each ps hp) fun _ _ => laws.give fun _ => Ty.canonical_prim _

variable {x y z : Part} (hx : x.Keeps R) (hy : y.Keeps R) (hz : z.Keeps R)

include hx hy in
lemma binary (place : Location) (op : Operator) :
    (Rule.binary place x op y).Yields R Ty.Canonical :=
  .ite (laws.bind hy.unhinted fun _ ht =>
      laws.bind (hx _ fun htyped => Hint.canonical_numeric (ht htyped)) fun _ _ =>
        laws.settle _ _ fun _ => Typing.canonical_binary _ _ _)
    (laws.bind hx.unhinted fun _ ht =>
      laws.bind (hy _ fun htyped => Hint.canonical_numeric (ht htyped)) fun _ _ =>
        laws.settle _ _ fun _ => Typing.canonical_binary _ _ _)

lemma outcomes (e : Expr) : (Rule.outcomes e).Yields R Outcomes.Canonical :=
  laws.reading fun _ hs => laws.give fun htyped => (hs htyped).outcomes e

lemma narrowed {α : Type} {P : α → Prop} {n : Narrowings} (hn : R.typed → Subst.Canonical n)
    {c : Check α} (hc : c.Yields R P) : (Rule.narrowed n c).Yields R P :=
  laws.during (.narrowings n hn) hc

include hx hy in
lemma logical (place : Location) (op : Operator) :
    (Rule.logical place x op y).Yields R Ty.Canonical := by
  have hbool : R.typed → Ty.bool.Canonical := fun _ => Ty.canonical_prim _
  refine laws.bind (hx.hinted hbool) fun _ _ => laws.bind (laws.outcomes _) fun o ho =>
    laws.bind (laws.narrowed (fun htyped => ?_) (hy.hinted hbool)) fun _ _ =>
      .ite (laws.give hbool) (laws.settle _ _ fun _ => Typing.canonical_binary _ _ _)
  split
  · exact (ho htyped).fails
  · exact (ho htyped).holds

include hx in
lemma unary (place : Location) (op : Operator) {expected : Hint}
    (he : R.typed → expected.Canonical) :
    (Rule.unary place op x expected).Yields R Ty.Canonical := by
  unfold Rule.unary
  split
  · exact laws.bind (laws.settle _ _ fun _ => Typing.canonical_literal _ _ _) fun _ ht =>
      laws.bind (laws.recordType _ ht) fun _ _ => laws.give ht
  · refine laws.bind (hx _ fun htyped => ?_) fun _ ht =>
      laws.settle _ _ fun htyped => Typing.canonical_unary _ (Typing.canonical_operand (ht htyped))
    have hnumeric : Hint.Canonical (expected.bind Hint.numeric) := by
      intro t ht
      obtain ⟨u, hu, ht⟩ := Option.bind_eq_some_iff.1 ht
      exact Hint.canonical_numeric (he htyped u hu) t ht
    unfold Rule.operandHint
    split
    · exact Hint.canonical_some.2 (Ty.canonical_prim _)
    · exact hnumeric
    · exact hnumeric
    · exact hnumeric
    · exact Hint.canonical_none

lemma step (place : Location) (op : Operator) {target : Check Ty}
    (ht : target.Yields R Ty.Canonical) : (Rule.step place op target).Yields R Ty.Canonical :=
  laws.bind ht fun _ ht => laws.settle _ _ fun htyped =>
    Typing.canonical_step _ (Typing.canonical_operand (ht htyped))

include hx in
/-- Where the target is a name, it is known when it is reset how it was found. -/
lemma assign (place : Location) (lhs : Expr) {target : Check Ty} (op : Operator)
    (htarget : target.Yields R Ty.Canonical)
    (hname : ∀ name, lhs.name? = some name → ∃ m, target = Name.target m name) :
    (Rule.assign place lhs target op x).Yields R Ty.Canonical := by
  intro s hs
  refine laws.bindRel hs (htarget s) (fun t s₁ hrun hs₁ _ ht => ?_) hs
  have hcompound (v : Ty) : R.typed →
      (Typing.compound op (Typing.operand t) (Typing.operand v)).Canonical :=
    fun htyped => Typing.canonical_compound _ (Typing.canonical_operand (ht htyped)) _
  have hforget (name : String) (hlhs : lhs.name? = some name) (s₂ : Session) (h₂ : R.Rel s₁ s₂) :
      (modify fun s => s.forget name t : Check Unit).KeepsAt R s₂ := by
    obtain ⟨m, rfl⟩ := hname name hlhs
    obtain ⟨y, hy, rfl, rfl⟩ := Name.of_run_target hrun
    refine fun hs₂ => ⟨?_, fun _ h => by simp at h, fun _ _ _ => trivial⟩
    exact laws.forget name _ hs₂ ht ⟨s, y, m.id, hs, hy, rfl, h₂⟩
  have hhint : R.typed → Hint.Canonical (Hint.numeric t) :=
    fun htyped => Hint.canonical_numeric (ht htyped)
  dsimp only
  split
  on_goal 1 =>
    refine laws.bindRel hs₁ (hx.hinted ht s₁) fun _ s₂ _ hs₂ h₂ _ =>
      laws.bindRel hs₂ (laws.assignable _ _ _ _ s₂) fun _ s₃ _ _ h₃ _ => ?_
  on_goal 2 =>
    refine laws.bindRel hs₁ (hx _ hhint s₁) fun v s₂ _ hs₂ h₂ _ =>
      laws.bindRel hs₂ (laws.settle _ _ (hcompound v) s₂) fun _ s₃ _ _ h₃ _ => ?_
  -- both ways of assigning end by forgetting what was known of the target
  all_goals
    split
    · rename_i name hlhs
      exact laws.bindAt (hforget name hlhs s₃ (laws.trans h₂ h₃)) fun _ _ => laws.give ht
    · exact laws.give ht s₃

include hx hy in
lemma index (place : Location) : (Rule.index place x y).Yields R Ty.Canonical := by
  refine laws.bind hx.unhinted fun object ho => laws.bind (hy.hinted fun htyped => ?_) fun _ _ =>
    laws.settle _ _ fun htyped => Typing.canonical_index (Typing.canonical_operand (ho htyped)) _
  cases object with
  | map key value => exact (Ty.canonical_map.1 (ho htyped)).1
  | _ => exact Ty.canonical_prim _

include hx hy in
lemma range (place : Location) : (Rule.range place x y).Yields R Ty.Canonical :=
  laws.bind (hx.hinted fun _ => Ty.canonical_prim _) fun _ _ =>
    laws.bind (hy.hinted fun _ => Ty.canonical_prim _) fun _ _ =>
      laws.settle _ _ fun _ => Typing.canonical_range _ _

include hx in
lemma await (place : Location) {expected : Hint} (he : R.typed → expected.Canonical) :
    (Rule.await place x expected).Yields R Ty.Canonical := by
  have hfuture : R.typed → Hint.Canonical (expected.map Ty.future) := by
    intro htyped t ht
    obtain ⟨u, hu, rfl⟩ := Option.map_eq_some_iff.1 ht
    exact Ty.canonical_future.2 (he htyped u hu)
  refine laws.reading fun _ _ => laws.onlyIf (laws.misplaced _ _ _ _) fun _ =>
    laws.bind (hx _ hfuture) fun t ht => .ite (laws.give fun _ => Ty.canonical_prim _) ?_
  cases t with
  | future inner => exact laws.give fun htyped => Ty.canonical_future.1 (ht htyped)
  | _ => exact laws.typeMismatch _ _

include hx in
lemma condition : (Rule.condition x).Yields R Outcomes.Canonical :=
  laws.bind (hx.hinted fun _ => Ty.canonical_prim _) fun _ _ =>
    .ite (laws.typeMismatch _ _) (laws.outcomes _)

lemma common {ts : List Ty} (hts : R.typed → ∀ t ∈ ts, t.Canonical) :
    (Rule.common ts).Yields R Ty.Canonical :=
  laws.bind laws.unionWidth fun width _ =>
    laws.give fun htyped => Ty.canonical_common (hts htyped) width

/-- The common type of two results. -/
lemma commonOfTwo {t u : Ty} (ht : R.typed → t.Canonical) (hu : R.typed → u.Canonical) :
    (Rule.common [t, u]).Yields R Ty.Canonical :=
  laws.common fun htyped => List.forall_mem_cons.2
    ⟨ht htyped, List.forall_mem_singleton.2 (hu htyped)⟩

include hx hy hz in
lemma conditional {expected : Hint} (he : R.typed → expected.Canonical) :
    (Rule.conditional x y z expected).Yields R Ty.Canonical :=
  laws.bind (laws.condition hx) fun _ ho =>
    laws.bind (laws.narrowed (fun htyped => (ho htyped).holds) (hy _ he)) fun _ ht =>
      laws.bind (laws.narrowed (fun htyped => (ho htyped).fails) (hz _ he)) fun _ hu =>
        laws.commonOfTwo ht hu

include hx hy in
lemma coalesce {expected : Hint} (he : R.typed → expected.Canonical) :
    (Rule.coalesce x y expected).Yields R Ty.Canonical := by
  refine laws.bind (hx _ he) fun t ht => ?_
  have hpresent : R.typed → t.stripNull.Canonical := fun htyped => (ht htyped).stripNull
  refine laws.bind (hy _ fun htyped u hu => ?_) fun _ hu => laws.commonOfTwo hpresent hu
  obtain hu | ⟨-, hu⟩ := Option.or_eq_some_iff.1 hu
  · exact he htyped u hu
  · exact Option.some.inj hu ▸ hpresent htyped

include hx in
lemma nonNull {expected : Hint} (he : R.typed → expected.Canonical) :
    (Rule.nonNull x expected).Yields R Ty.Canonical :=
  laws.bind (hx _ he) fun _ ht => laws.give fun htyped => (ht htyped).stripNull

end BasicLaws

/-- The checks of the parts of an arm keep a contract. -/
structure Arm.Keeps (R : Contract) (a : Arm) : Prop where
  pattern : ∀ p, a.pattern = some p → p.Keeps R
  body : a.body.Keeps R

/-- The check of the value of an entry keeps a contract. -/
def Entry.Keeps (R : Contract) : Entry → Prop
  | .property _ value => value.Keeps R
  | .spread x => x.Keeps R

/-- What an object literal has so far, in order and with canonical types. -/
structure Rule.Gathered.Canonical (g : Rule.Gathered) : Prop where
  ascends : ByName.Ascends Property.name g.properties
  types : ∀ p ∈ g.properties, p.type.Canonical

lemma Rule.Gathered.Canonical.add {g : Rule.Gathered} (hg : g.Canonical) {p : Property}
    (hp : p.type.Canonical) : (g.add p).Canonical := by
  refine ⟨ByName.ascends_insert p hg.ascends, fun q hq => ?_⟩
  obtain rfl | hq := ByName.mem_insert hq
  · exact hp
  · exact hg.types q hq

lemma Rule.Gathered.Canonical.addAll {g : Rule.Gathered} (hg : g.Canonical)
    {ps : List Property} (hps : ∀ p ∈ ps, p.type.Canonical) :
    (ps.foldl Rule.Gathered.add g).Canonical := by
  induction ps generalizing g with
  | nil => exact hg
  | cons p ps ih =>
    have ⟨hp, hps⟩ := List.forall_mem_cons.1 hps
    exact ih (hg.add hp) hps

namespace BasicLaws

variable {R : Contract} (laws : BasicLaws R)
variable {d : Demand} (hd : d.Keeps R) {x : Part} (hx : x.Keeps R)
variable {expected : Hint} (he : R.typed → expected.Canonical)
include laws

/-! ## Matches, calls and members -/

lemma pattern {subject : Ty} (hs : R.typed → subject.Canonical) (p? : Option Part)
    (hp : ∀ p, p? = some p → p.Keeps R) : (Rule.pattern subject p?).Keeps R := by
  cases p? with
  | none => exact laws.pure _
  | some p =>
    exact .ite (laws.bind ((hp p rfl).hinted hs) fun _ _ => laws.pure _) (laws.pure _)

include he in
lemma arms {subject : Ty} (hs : R.typed → subject.Canonical) (as : List Arm)
    (ha : ∀ a ∈ as, a.Keeps R) :
    (Rule.arms subject expected as).Yields R fun ts => ∀ t ∈ ts, t.Canonical := by
  induction as with
  | nil => exact laws.give fun _ => List.forall_mem_nil _
  | cons a as ih =>
    have ⟨ha, has⟩ := List.forall_mem_cons.1 ha
    have hrest (t : Ty) (ht : R.typed → t.Canonical) :
        (do return t :: (← Rule.arms subject expected as) : Check (List Ty)).Yields R
          fun ts => ∀ t ∈ ts, t.Canonical :=
      laws.bind (ih has) fun _ hts => laws.give fun htyped =>
        List.forall_mem_cons.2 ⟨ht htyped, hts htyped⟩
    refine laws.bind (laws.pattern hs _ ha.pattern) fun _ _ => ?_
    refine laws.bind (ha.body _ he) fun t ht => ?_
    dsimp only
    split
    · exact laws.onlyIf (laws.assignable _ _ _ _) fun _ => hrest t ht
    · exact hrest t ht

include hx he in
lemma matching (as : List Arm) (ha : ∀ a ∈ as, a.Keeps R) :
    (Rule.matching x as expected).Yields R Ty.Canonical := by
  refine laws.bind hx.unhinted fun _ ht => laws.bind (laws.arms he ht as ha) fun _ hts => ?_
  split
  · exact .ite (laws.common hts) (laws.give fun htyped => he htyped _ rfl)
  · exact laws.common hts

include hx in
lemma call (place : Location) (typeArgs : List Annotation) (args : List Argument)
    (ha : ∀ a ∈ args, a.toPart.Keeps R) :
    (Rule.call place x typeArgs args).Yields R Ty.Canonical := by
  unfold Rule.call
  split
  · exact laws.superConstructor _ _ _ ha
  · exact laws.bind hx.unhinted fun _ hf => laws.bind (laws.meanings _) fun _ hts =>
      laws.callValue _ hf hts _ ha

include hd hx in
lemma methodCall (place : Location) (method : Ident) (typeArgs : List Annotation)
    (args : List Argument) (ha : ∀ a ∈ args, a.toPart.Keeps R) :
    (Rule.methodCall d place x method typeArgs args).Yields R Ty.Canonical :=
  laws.bind hx.unhinted fun _ ht => laws.bind (laws.memberType hd _ ht _) fun _ hf =>
    laws.bind (laws.meanings _) fun _ hts => laws.callValue _ hf hts _ ha

include hd hx in
lemma select (field : Ident) : (Rule.select d x field).Yields R Ty.Canonical :=
  laws.bind hx.unhinted fun _ ht => laws.memberType hd _ ht _

include hd hx in
lemma optionalSelect (field : Ident) : (Rule.optionalSelect d x field).Yields R Ty.Canonical :=
  laws.bind hx.unhinted fun _ ht => laws.optionalType hd _ ht _

include hd hx in
lemma selectTarget (field : Ident) : (Rule.selectTarget d x field).Yields R Ty.Canonical :=
  laws.bind hx.unhinted fun _ ht => laws.targetType hd _ ht _

/-! ## List and object literals -/

lemma spreadElement (place : Location) {t : Ty} (ht : R.typed → t.Canonical) :
    (Rule.spreadElement place t).Yields R Ty.Canonical := by
  cases t with
  | list element => exact laws.give fun htyped => Ty.canonical_list.1 (ht htyped)
  | _ => exact .ite (laws.give fun _ => Ty.canonical_prim _) (laws.misplaced _ _ _ _)

lemma elements {hint : Hint} (hh : R.typed → hint.Canonical) (args : List Argument)
    (ha : ∀ a ∈ args, a.toPart.Keeps R) :
    (Rule.elements hint args).Yields R fun found => ∀ f ∈ found, f.2.Canonical := by
  induction args with
  | nil => exact laws.give fun _ => List.forall_mem_nil _
  | cons a args ih =>
    have ⟨ha, has⟩ := List.forall_mem_cons.1 ha
    have hrest (t : Ty) (ht : R.typed → t.Canonical) :
        (do return (a, t) :: (← Rule.elements hint args) : Check (List (Argument × Ty))).Yields R
          fun found => ∀ f ∈ found, f.2.Canonical :=
      laws.bind (ih has) fun _ hfound => laws.give fun htyped =>
        List.forall_mem_cons.2 ⟨ht htyped, hfound htyped⟩
    have hlist : R.typed → Hint.Canonical (hint.map Ty.list) := by
      intro htyped t ht
      obtain ⟨u, hu, rfl⟩ := Option.map_eq_some_iff.1 ht
      exact Ty.canonical_list.2 (hh htyped u hu)
    exact .ite (laws.bind (ha _ hlist) fun _ ht => laws.bind (laws.recordType _ ht) fun _ _ =>
        laws.bind (laws.spreadElement _ ht) hrest)
      (laws.bind (ha _ hh) hrest)

lemma fitElements (want : Ty) (found : List (Argument × Ty)) :
    (Rule.fitElements want found).Keeps R := by
  induction found with
  | nil => exact laws.pure _
  | cons a found ih => exact laws.bind (laws.assignable _ _ _ _) fun _ _ => ih

include he in
lemma list (args : List Argument) (ha : ∀ a ∈ args, a.toPart.Keeps R) :
    (Rule.list args expected).Yields R Ty.Canonical := by
  have hhint : R.typed → expected.element?.Canonical := fun htyped => (he htyped).element?
  refine laws.bind (laws.elements hhint args ha) fun found hfound => ?_
  have hcommon : (do return .list (← Rule.common (found.map Prod.snd)) : Check Ty).Yields R
      Ty.Canonical :=
    laws.bind (laws.common fun htyped => List.forall_mem_map.2 fun f hf => hfound htyped f hf)
      fun _ ht => laws.give fun htyped => Ty.canonical_list.2 (ht htyped)
  split
  · rename_i want hwant
    have hwant : R.typed → (Ty.list want).Canonical := fun htyped =>
      Ty.canonical_list.2 (hhint htyped want hwant)
    exact .ite (laws.bind (laws.fitElements _ _) fun _ _ => laws.give hwant)
      (.ite (laws.give hwant) hcommon)
  · exact .ite (laws.give fun _ => by simp) hcommon

lemma spreadShape? {t : Ty} (ht : R.typed → t.Canonical) :
    (Rule.spreadShape? t).Yields R fun ps? => ∀ ps, ps? = some ps →
      ∀ p ∈ ps, p.type.Canonical := by
  cases t with
  | interface shape =>
    refine laws.give fun htyped ps hps => ?_
    cases hps
    exact (Ty.canonical_interface.1 (ht htyped)).2.1
  | cls c =>
    exact laws.reading fun _ hs => laws.ofSearch fun htyped _ =>
      (hs htyped).scopes.offered (ht htyped)
  | _ => exact laws.give fun _ ps hps => by cases hps

lemma gather {shape : Option Interface}
    (hshape : R.typed → ∀ i, shape = some i → (Ty.interface i).Canonical) {g : Rule.Gathered}
    (hg : R.typed → g.Canonical) (es : List Entry) (hes : ∀ e ∈ es, e.Keeps R) :
    (Rule.gather shape g es).Yields R Rule.Gathered.Canonical := by
  induction es generalizing g with
  | nil => exact laws.give hg
  | cons e es ih =>
    have ⟨he, hrest⟩ := List.forall_mem_cons.1 hes
    cases e with
    | property key value =>
      refine laws.bind (he _ fun htyped t ht => ?_) fun t ht => ih (fun htyped => ?_) hrest
      · obtain ⟨p, hp, rfl⟩ := Option.map_eq_some_iff.1 ht
        obtain ⟨i, hi, hp⟩ := Option.bind_eq_some_iff.1 hp
        exact (Ty.canonical_interface.1 (hshape htyped i hi)).2.1 p (Interface.mem_of_property? hp)
      · have hadd := (hg htyped).add (p := ⟨key.name, t, false⟩) (ht htyped)
        exact ⟨hadd.ascends, hadd.types⟩
    | spread x =>
      refine laws.bind (Part.Keeps.unhinted he) fun t ht => laws.bind (laws.derefCanonical ht)
        fun _ hu => laws.bind (laws.spreadShape? hu) fun shape? hps => ?_
      split
      · exact ih (fun htyped => (hg htyped).addAll (hps htyped _ rfl)) hrest
      · exact .ite (ih hg hrest) (laws.misplaced _ _ _ _)

lemma knownOnly (whole : Location) (shape : Interface) (g : Rule.Gathered) (ps : List Property) :
    (Rule.knownOnly whole shape g ps).Keeps R := by
  induction ps with
  | nil => exact laws.pure _
  | cons p ps ih => exact laws.onlyIf (laws.typeMismatch _ _) fun _ => ih

lemma fitShape (whole : Location) (shape : Interface) (g : Rule.Gathered) (ps : List Property) :
    (Rule.fitShape whole shape g ps).Keeps R := by
  induction ps with
  | nil => exact laws.pure _
  | cons p ps ih =>
    unfold Rule.fitShape
    dsimp only
    split
    · exact laws.bind (laws.assignable _ _ _ _) fun _ _ => ih
    · exact laws.onlyIf (laws.typeMismatch _ _) fun _ => ih

include he in
lemma object (place : Location) (es : List Entry) (hes : ∀ e ∈ es, e.Keeps R) :
    (Rule.object place es expected).Yields R Ty.Canonical := by
  have hshape : R.typed → ∀ i, expected.shape? = some i → (Ty.interface i).Canonical :=
    fun htyped _ => (he htyped).shape?
  have hempty : Rule.Gathered.Canonical {} := ⟨.nil, List.forall_mem_nil _⟩
  refine laws.bind (laws.gather hshape (fun _ => hempty) es hes) fun g hg => ?_
  split
  · exact laws.give fun htyped => Ty.canonical_interface.2
      ⟨(hg htyped).ascends.nodup, (hg htyped).types, List.forall_mem_nil _⟩
  · rename_i shape heq
    exact laws.bind (laws.knownOnly _ _ _ _) fun _ _ => laws.bind (laws.fitShape _ _ _ _)
      fun _ _ => laws.give fun htyped => hshape htyped shape heq

end BasicLaws

end TypedScript
