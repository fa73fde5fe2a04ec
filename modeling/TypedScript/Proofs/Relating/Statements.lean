import TypedScript.Proofs.Relating.Expressions

/-!
# Statements and declarations in a family

The rule of each form of statement keeps a family, given that the checks of its parts do.
The body of a declaration is checked once, in order or on demand. Nothing is noted where it
is declared: whether the body was checked there is not known.
-/
namespace TypedScript

namespace Family

variable (F : Family)

inductive Body : Set NodeId → BodyCheck → BodyCheck → Prop
  | missing : Body ∅ .missing .missing
  | block {I : Set NodeId} (b : Block) {c c' : Check Unit} : F.Rel .plain I c c' →
    Body I (.block b c) (.block b c')
  | expr {I : Set NodeId} {e : Expr} {c c' : Checker} : F.Checks I c c' →
    Body I (.expr ⟨e, c⟩) (.expr ⟨e, c'⟩)

inductive Check? : Set NodeId → Option (Check Unit) → Option (Check Unit) → Prop
  | none : Check? ∅ none none
  | some {I : Set NodeId} {c c' : Check Unit} : F.Rel .plain I c c' → Check? I (some c) (some c')

inductive Else : Set NodeId → Rule.ElseCheck → Rule.ElseCheck → Prop
  | none : Else ∅ .none .none
  | block {I : Set NodeId} {c c' : Check Unit} : F.Rel .plain I c c' → Else I (.block c) (.block c')
  | node {I : Set NodeId} {c c' : Check Unit} : F.Rel .plain I c c' → Else I (.node c) (.node c')

inductive Clauses : Set NodeId → List ClauseCheck → List ClauseCheck → Prop
  | nil : Clauses ∅ [] []
  | cons {I J K : Set NodeId} {vs vs' : List Part} {b b' : Check Unit}
    {cs cs' : List ClauseCheck} : F.Parts I vs vs' → F.Rel .plain J b b' → Clauses K cs cs' →
    Clauses (I ∪ (J ∪ K)) (⟨vs, b⟩ :: cs) (⟨vs', b'⟩ :: cs')

inductive Fields : List (FieldDecl × Option Part) → List (FieldDecl × Option Part) → Prop
  | nil : Fields [] []
  | cons {I : Set NodeId} {f : FieldDecl} {v v' : Option Part}
    {fs fs' : List (FieldDecl × Option Part)} : F.Part? I v v' → Fields fs fs' →
    Fields ((f, v) :: fs) ((f, v') :: fs')

inductive Methods : List (Callable × BodyCheck) → List (Callable × BodyCheck) → Prop
  | nil : Methods [] []
  | cons {m : Callable} {b b' : BodyCheck} {ms ms' : List (Callable × BodyCheck)} :
    F.Once m b b' → Methods ms ms' → Methods ((m, b) :: ms) ((m, b') :: ms')

inductive Constructor : Option (Callable × BodyCheck) → Option (Callable × BodyCheck) → Prop
  | none : Constructor none none
  | some {m : Callable} {b b' : BodyCheck} : F.Once m b b' → Constructor (some (m, b)) (some (m, b'))

/-- Two ways of checking a class that are related. -/
structure Classes (k k' : ClassCheck) : Prop where
  decl : k'.decl = k.decl
  fields : F.Fields k.fields k'.fields
  ctor : F.Constructor k.ctor k'.ctor
  methods : F.Methods k.methods k'.methods

end Family

/-- A body that is checked with nothing before it. -/
lemma Family.Once.alone {F : Family} {f : Callable} {body other : BodyCheck}
    (h : F.Once f body other) (spec : FunctionSpec) {rest : Ty → Check Unit}
    (hrest : ∀ t, (rest t).Still F.Fits) :
    F.Rel .plain ∅
      (Rule.once f.id
        (Check.andThen (Rule.functionBody spec body) (fun s => s.markChecked f.id) >>= rest))
      (Rule.once f.id
        (Check.andThen (Rule.functionBody spec other) (fun s => s.markChecked f.id) >>= rest)) := by
  simpa only [pure_bind] using h spec (pure ()) rest (.pure _) hrest

namespace Family.Laws

open Check (Still)

variable {F : Family} (laws : F.Laws)
variable {I J K L : Set NodeId} {x y : Expr} {c c' : Checker} {b b' : Check Unit}
include laws

/-! ## Bodies -/

lemma exprBody (hx : F.Checks I c c') :
    F.Rel .plain I (Rule.exprBody ⟨x, c⟩) (Rule.exprBody ⟨x, c'⟩) := by
  refine laws.read fun s => laws.last (hx _) fun t => ?_
  dsimp only
  split
  · exact .onlyIf (.assignable _ _ _ _) fun _ => .addReturn _
  · exact .addReturn _

lemma checkBody (f : FunctionSpec) (declared : Hint) {body body' : BodyCheck}
    (hb : F.Body I body body') :
    F.Rel .plain I (Rule.checkBody f declared body) (Rule.checkBody f declared body') := by
  cases hb with
  | missing => exact laws.still (.pure _)
  | block b hb => exact laws.last hb fun _ => .checkFlow _ _ _
  | expr hx => exact laws.exprBody hx

lemma functionBody (f : FunctionSpec) {body body' : BodyCheck} (hb : F.Body I body body') :
    F.Rel .plain I (Rule.functionBody f body) (Rule.functionBody f body') := by
  refine laws.during .scope (laws.first (.defineTypeParams _) fun _ =>
    laws.first (.defineParams _ _) fun _ => laws.bindIte (.pure _) (Still.deref _).map fun _ => ?_)
  exact laws.during (.function _) (laws.last (laws.checkBody f _ hb) fun _ => .result _ _)

lemma arrow (place : Location) (params : List ParamDecl) (result : Annotation) (isAsync : Bool)
    (expected : Hint) {body body' : BodyCheck} (hb : F.Body I body body') :
    F.Rel .plain I (Rule.arrow place params result body isAsync expected)
      (Rule.arrow place params result body' isAsync expected) := by
  refine laws.first (.arrowParams _ _ _) fun ps => ?_
  exact ite
    (laws.first (.pure _) fun _ => laws.read fun s =>
      laws.last (laws.functionBody _ hb) fun _ => .pure _)
    (laws.first (.meaning _) fun _ => laws.first (.pure _) fun _ => laws.read fun s =>
      laws.last (laws.functionBody _ hb) fun _ => .pure _)

/-! ## Statements -/

lemma inScope (n : Narrowings) (hb : F.Rel .plain I b b') :
    F.Rel .plain I (Rule.inScope n b) (Rule.inScope n b') :=
  laws.narrowed n (laws.during .scope hb)

lemma varType (place : Location) (name : Ident) (type : Annotation) {v v' : Option Part}
    (hv : F.Part? I v v') :
    F.Rel .plain I (Rule.varType place name type v) (Rule.varType place name type v') := by
  refine laws.bindIte (.pure _) (Still.meaning _).map fun declared => ?_
  cases hv with
  | none =>
    refine laws.still ?_
    dsimp only
    split
    · exact .pure _
    · split
      · exact .failAt fun _ => by simp
      · exact .pure _
  | some hx =>
    refine laws.last (hx _) fun t => .onlyIf (.typeMismatch _ _) fun _ => ?_
    split
    · exact (Still.assignable _ _ _ _).bind fun _ => .pure _
    · exact .pure _

lemma varDecl (place : Location) (name : Ident) (type : Annotation) (isConst : Bool)
    {v v' : Option Part} (hv : F.Part? I v v') :
    F.Rel .plain I (Rule.varDecl place name type v isConst)
      (Rule.varDecl place name type v' isConst) :=
  laws.last (laws.varType place name type hv) fun _ =>
    (Still.declareAt _ _ _ _ _).bind fun _ => .trace _ _

lemma ret (place : Location) {v v' : Option Part} (hv : F.Part? I v v') :
    F.Rel .plain I (Rule.ret place v) (Rule.ret place v') := by
  refine laws.read fun s => ?_
  split
  · exact laws.fails I (.misplaced _ _ _ _) fun _ _ _ h => by cases h
  · cases hv with
    | none =>
      refine laws.still ?_
      dsimp only
      split
      · exact .onlyIf (.typeMismatch _ _) fun _ => .addReturn _
      · exact .addReturn _
    | some hx =>
      refine laws.last (hx _) fun t => ?_
      dsimp only
      split
      · exact (Still.fitReturn _ _ _ _).bind fun _ => .addReturn _
      · exact .addReturn _

lemma ifStmt {e e' : Rule.ElseCheck} (hx : F.Checks I c c') (hb : F.Rel .plain J b b')
    (he : F.Else K e e') :
    F.Rel .plain (I ∪ (J ∪ K)) (Rule.ifStmt ⟨x, c⟩ b e) (Rule.ifStmt ⟨x, c'⟩ b' e') := by
  refine laws.bind (laws.condition hx) fun o => laws.bind (laws.inScope _ hb) fun _ => ?_
  cases he with
  | none => exact laws.still (.pure _)
  | block hc => exact laws.inScope _ hc
  | node hc => exact laws.narrowed _ hc

lemma loopBody (n : Narrowings) (hb : F.Rel .plain I b b') :
    F.Rel .plain I (Rule.loopBody n b) (Rule.loopBody n b') :=
  laws.during (.breakable _) (laws.inScope n hb)

lemma whileLoop (hx : F.Checks I c c') (hb : F.Rel .plain J b b') :
    F.Rel .plain (I ∪ J) (Rule.whileLoop ⟨x, c⟩ b) (Rule.whileLoop ⟨x, c'⟩ b') :=
  laws.bind (laws.condition hx) fun _ => laws.loopBody _ hb

lemma forLoop {init init' : Check Unit} {p p' q q' : Option Part} (hi : F.Rel .plain I init init')
    (hp : F.Part? J p p') (hb : F.Rel .plain K b b') (hq : F.Part? L q q') :
    F.Rel .plain (I ∪ (J ∪ (K ∪ L))) (Rule.forLoop init p q b)
      (Rule.forLoop init' p' q' b') := by
  refine laws.during .scope (laws.bind hi fun _ => ?_)
  cases hp with
  | none =>
    rw [Set.empty_union]
    refine laws.first (.pure _) fun n => laws.during (.breakable _)
      (laws.bind (laws.inScope n hb) fun _ => ?_)
    cases hq with
    | none => exact laws.still (.pure _)
    | some hy => exact laws.last (hy _) fun _ => .pure _
  | some hx =>
    refine laws.bind (laws.map (laws.condition hx)) fun n => laws.during (.breakable _)
      (laws.bind (laws.inScope n hb) fun _ => ?_)
    cases hq with
    | none => exact laws.still (.pure _)
    | some hy => exact laws.last (hy _) fun _ => .pure _

lemma forOf (var : Ident) (ho : F.Opens I c c') (hb : F.Rel .plain J b b') :
    F.Rel .plain (I ∪ J) (Rule.forOf var ⟨x, c⟩ b) (Rule.forOf var ⟨x, c'⟩ b') := by
  refine laws.opened (ho _) (fun t s a u _ h => ?_) fun t => ?_
  · cases hiteration : Typing.iteration? t with
    | some element => exact Session.opens_of_iteration hiteration
    | none =>
      simp only [hiteration] at h
      cases h
  · split
    · exact laws.fails J (.invalidOperation _ _) fun _ _ _ h => by cases h
    · exact laws.during .scope (laws.first (.declareAt _ _ _ _ _) fun _ => laws.loopBody _ hb)

lemma caseValues (subject : Ty) {ps ps' : List Part} (hp : F.Parts I ps ps') :
    F.Rel .plain I (Rule.caseValues subject ps) (Rule.caseValues subject ps') := by
  induction hp with
  | nil => exact laws.still (.pure _)
  | cons hc _ ih => exact laws.bind (hc _) fun _ => ih

lemma clauses (subject : Ty) {cs cs' : List ClauseCheck} (hc : F.Clauses I cs cs') :
    F.Rel .plain I (Rule.clauses subject cs) (Rule.clauses subject cs') := by
  induction hc with
  | nil => exact laws.still (.pure _)
  | cons hvs hb _ ih =>
    exact laws.bind (laws.caseValues subject hvs) fun _ => laws.bind (laws.inScope _ hb) fun _ => ih

lemma switch {cs cs' : List ClauseCheck} (hx : F.Checks I c c') (hc : F.Clauses J cs cs') :
    F.Rel .plain (I ∪ J) (Rule.switch ⟨x, c⟩ cs) (Rule.switch ⟨x, c'⟩ cs') :=
  laws.bind (hx _) fun t => laws.during (.breakable _) (laws.clauses t hc)

lemma handler (param : Option Ident) (hb : F.Rel .plain I b b') :
    F.Rel .plain I (Rule.handler param b) (Rule.handler param b') := by
  refine laws.during .scope ?_
  dsimp only
  split
  · exact laws.first (.declareAt _ _ _ _ _) fun _ => laws.inScope _ hb
  · exact laws.inScope _ hb

lemma tryStmt (param : Option Ident) {caught caught' final final' : Option (Check Unit)}
    (hb : F.Rel .plain I b b') (hc : F.Check? J caught caught') (hf : F.Check? K final final') :
    F.Rel .plain (I ∪ (J ∪ K)) (Rule.tryStmt b param caught final)
      (Rule.tryStmt b' param caught' final') := by
  refine laws.bind (laws.inScope _ hb) fun _ => ?_
  cases hc with
  | none =>
    rw [Set.empty_union]
    cases hf with
    | none => exact laws.still (.pure _)
    | some hf => exact laws.inScope _ hf
  | some hc =>
    refine laws.bind (laws.handler param hc) fun _ => ?_
    cases hf with
    | none => exact laws.still (.pure _)
    | some hf => exact laws.inScope _ hf

lemma unsupported (n : Node) : F.Rel .plain ∅ (Rule.unsupported n) (Rule.unsupported n) :=
  laws.still (.invalidOperation _ _)

/-! ## Declarations -/

lemma function (f : Callable) {body body' : BodyCheck} (hf : F.Once f body body') :
    F.Rel .plain ∅ (Rule.function f body) (Rule.function f body') := by
  refine laws.first (.lookup? _) fun x? => ?_
  split
  · exact laws.still (.pure _)
  · split
    · refine ite ?_ (laws.still (.pure _))
      exact hf _ _ _ (.trace _ _) fun _ => .ite (.retype _ _) (.pure _)
    · exact laws.still (.pure _)

lemma constructor (className : String) (m : Callable) {body body' : BodyCheck}
    (hm : F.Once m body body') :
    F.Rel .plain ∅ (Rule.constructor className m body) (Rule.constructor className m body') := by
  refine laws.first (.classNamed? _) fun c? => ?_
  split
  · exact laws.still (.pure _)
  · exact hm.alone _ fun _ => .pure _

lemma method (className : String) (m : Callable) {body body' : BodyCheck}
    (hm : F.Once m body body') :
    F.Rel .plain ∅ (Rule.method className m body) (Rule.method className m body') := by
  refine laws.first (.classNamed? _) fun c? => ?_
  split
  · exact laws.still (.pure _)
  · split
    · exact hm.alone _ fun _ => .ite (.patchMethod _ _ _ _) (.pure _)
    · exact laws.still (.pure _)

lemma inClass {m : Manner} (k : Class) (hb : F.Rel m I b b') :
    F.Rel m I (Rule.inClass k b) (Rule.inClass k b') :=
  laws.during (.cls _) (laws.during .scope (laws.first (.defineTypeParams _) fun _ => hb))

lemma fieldValue (symbol : Symbol) (k : Class) (m : Member) (f : FieldDecl)
    (hx : F.Checks I c c') :
    F.Rel .plain I (Rule.fieldValue symbol k m f ⟨x, c⟩)
      (Rule.fieldValue symbol k m f ⟨x, c'⟩) := by
  refine laws.bindIte (.pure _) (Still.deref _).map fun expected =>
    laws.during (.function _) (laws.last (hx _) fun t => ?_)
  split
  · exact .assignable _ _ _ _
  · exact (Still.retype _ _).bind fun _ => .trace _ _

lemma field (symbol : Symbol) (f : FieldDecl) {v v' : Option Part} (hv : F.Part? I v v') :
    F.Rel .plain ∅ (Rule.field symbol f v) (Rule.field symbol f v') := by
  refine laws.first (.currentType? _) fun t? => ?_
  cases hv with
  | none => exact laws.still (.pure _)
  | some hx =>
    generalize t?.bind Ty.class? = k?
    cases k? with
    | none => exact laws.still (.pure _)
    | some k =>
      dsimp only
      split
      · exact laws.mono (Set.empty_subset _) (laws.fieldValue symbol _ _ f hx)
      · exact laws.still (.pure _)

lemma fields (symbol : Symbol) {fs fs' : List (FieldDecl × Option Part)} (hf : F.Fields fs fs') :
    F.Rel .plain ∅ (Rule.fields symbol fs) (Rule.fields symbol fs') := by
  induction hf with
  | nil => exact laws.still (.pure _)
  | cons hv _ ih =>
    rw [← Set.union_empty ∅]
    exact laws.bind (laws.reporting (laws.field symbol _ hv)) fun _ => ih

lemma methods (className : String) {ms ms' : List (Callable × BodyCheck)}
    (hm : F.Methods ms ms') :
    F.Rel .plain ∅ (Rule.methods className ms) (Rule.methods className ms') := by
  induction hm with
  | nil => exact laws.still (.pure _)
  | cons hb _ ih =>
    rw [← Set.union_empty ∅]
    exact laws.bind (laws.reporting (laws.method className _ hb)) fun _ => ih

lemma cls {k k' : ClassCheck} (hk : F.Classes k k') :
    F.Rel .plain ∅ (Rule.cls k) (Rule.cls k') := by
  obtain ⟨decl, fs, ctor, ms⟩ := k
  obtain ⟨decl', fs', ctor', ms'⟩ := k'
  obtain ⟨hdecl, hfields, hctor, hmethods⟩ := hk
  obtain rfl : decl' = decl := hdecl
  refine laws.first (.lookup? _) fun x? => ?_
  split
  · exact laws.still (.pure _)
  · split
    · refine ite (laws.first (.trace _ _) fun _ => laws.inClass _ ?_) (laws.still (.pure _))
      rw [← Set.union_empty ∅]
      refine laws.bind (laws.fields _ hfields) fun _ => ?_
      dsimp only at hctor ⊢
      cases hctor with
      | none => exact laws.methods _ hmethods
      | some hm =>
        rw [← Set.union_empty ∅]
        exact laws.bind (laws.reporting (laws.constructor _ _ hm)) fun _ =>
          laws.methods _ hmethods
    · exact laws.still (.pure _)

lemma classExpr {k k' : ClassCheck} (hk : F.Classes k k')
    (hfits : ∀ g ∈ k.decl.fragments true, F.Fits g) :
    F.Rel .plain ∅ (Rule.classExpr k) (Rule.classExpr k') := by
  unfold Rule.classExpr
  rw [hk.decl]
  exact laws.first (.declareClass hfits) fun _ => laws.last (laws.cls hk) fun _ =>
    (Still.classNamed? _).bind fun _ => .pure _

/-! ## Checks on demand -/

lemma atHome {m : Manner} (symbol : Symbol) (hb : F.Rel m I b b') :
    F.Rel m I (Rule.atHome symbol b) (Rule.atHome symbol b') := by
  refine laws.read fun s => ?_
  split
  · exact ite (laws.during .detach hb) hb
  · exact hb

variable {bodyOf bodyOf' : Callable → BodyCheck}

/-- The body of a declaration all of whose fragments fit is checked once. -/
lemma functionOnDemand
    (hb : ∀ f : Callable, (∀ g ∈ f.fragments true, F.Fits g) → F.Once f (bodyOf f) (bodyOf' f))
    {symbol : Symbol} (hs : symbol.Fits F.Fits) :
    F.Rel .plain ∅ (Rule.functionOnDemand bodyOf symbol)
      (Rule.functionOnDemand bodyOf' symbol) := by
  unfold Rule.functionOnDemand
  split
  · exact laws.still (.pure _)
  · rename_i f hf
    refine laws.read fun s => ite (laws.still (.pure _)) (laws.atHome symbol ?_)
    exact laws.first (.trace _ _) fun _ =>
      laws.reporting (laws.function f (hb f (hs.function f hf)))

/-- A method that is checked on demand reports its faults, so what it does is mild. -/
lemma methodOnDemand
    (hb : ∀ f : Callable, (∀ g ∈ f.fragments true, F.Fits g) → F.Once f (bodyOf f) (bodyOf' f))
    (owner name : String) :
    F.Rel .mild ∅ (Rule.methodOnDemand bodyOf owner name)
      (Rule.methodOnDemand bodyOf' owner name) := by
  refine laws.lookup fun x? hx => ?_
  split
  · exact laws.still (.pure _)
  · rename_i symbol
    split
    · exact laws.still (.pure _)
    · rename_i m hm
      obtain ⟨decl, hdecl, hm⟩ := Option.bind_eq_some_iff.1 hm
      have hfits : ∀ g ∈ m.fragments true, F.Fits g := fun g hg =>
        (hx symbol rfl).cls decl hdecl g (decl.mem_fragments_of_method (List.mem_of_find?_eq_some hm) hg)
      refine laws.read fun s => ite (laws.still (.pure _)) (laws.atHome symbol ?_)
      split
      · exact laws.first (.trace _ _) fun _ =>
          laws.reporting (laws.inClass _ (laws.method owner m (hb m hfits)))
      · exact laws.still (.pure _)

end Family.Laws

end TypedScript
