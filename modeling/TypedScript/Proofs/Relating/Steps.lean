import TypedScript.Checking.Walk
import TypedScript.Proofs.Relating.Still

/-!
# The steps of the rules that look at no part

Rules do most of their work before and after the parts are checked: they look names up, fit
types, declare parameters and report what never runs. Registering declarations looks at no
part at all.
-/
namespace TypedScript

variable {fits : Fragment → Prop}

namespace Check.Still

/-! ## Members -/

lemma findIn? (c : Class) (name : String) : (Member.findIn? c name).Still fits :=
  .read fun _ => ofSearch _

lemma isMethodOf (c : Class) (m : Member) : (Member.isMethodOf c m).Still fits :=
  .ite (.read fun _ => (ofSearch _).bind fun _ => .pure _) (.pure _)

lemma namesClass (receiver : Option String) : (Member.namesClass receiver).Still fits := by
  unfold Member.namesClass
  split
  · exact .pure _
  · exact .read fun _ => .pure _

lemma refuseNull {α : Type} (field : Ident) (t : Ty) :
    (Member.refuseNull field t : Check α).Still fits :=
  refuse _ _ _ _ _

lemma notFound {α : Type} (field : Ident) (name : String) :
    (Member.notFound field name : Check α).Still fits :=
  .failAt fun _ => by simp

lemma isWritable (m : Member) : (Member.isWritable m).Still fits := by
  refine .ite (.pure _) (.read fun _ => ?_)
  split
  · exact .pure _
  · exact .pure _

lemma unionDepth : Member.unionDepth.Still fits := .read fun _ => .pure _

/-! ## Calls -/

lemma checkCount (place : Location) (sig : Signature) (found : Nat) :
    (Call.checkCount place sig found).Still fits :=
  .ite (.ite (.failAt fun _ => by simp) (.pure _)) (.ite (.failAt fun _ => by simp) (.pure _))

lemma explicitBindings (place : Location) (sig : Signature) (explicit : List Ty) :
    (Call.explicitBindings place sig explicit).Still fits := by
  refine .ite (.pure _) (.ite (invalidOperation _ _) ?_)
  split
  · exact .pure _
  · rename_i d hd
    exact .failAt fun _ => (d.severity_withPrimary _ _ _).trans
      (Typing.refuses_explicitArguments _ _ d hd)

lemma parameterAt (sig : Signature) (i : Nat) (a : Argument) :
    (Call.parameterAt sig i a).Still fits := by
  refine .ite (.ite (.pure _) ?_) (.ite (misplaced _ _ _ _) (.pure _))
  split
  · exact .pure _
  · exact .pure _

lemma bindings (place : Location) (sig : Signature) (explicit : Option Subst)
    (passed : List Call.Passed) : (Call.bindings place sig explicit passed).Still fits := by
  refine .ite (.pure _) ?_
  dsimp only
  split
  · exact .pure _
  · rename_i d hd
    exact .failAt fun _ => (d.severity_withPrimary _ _ _).trans (Typing.severity_constraints? hd)

lemma fitAll (s : Subst) (i : Nat) (passed : List Call.Passed) :
    (Call.fitAll s i passed).Still fits := by
  induction passed generalizing i with
  | nil => exact .pure _
  | cons p passed ih => exact (assignable _ _ _ _).bind fun _ => ih _

lemma constructorOf (c : Class) : (Call.constructorOf c).Still fits :=
  .read fun _ => (ofSearch _).bind fun _ => .pure _

lemma superclass (place : Location) : (Call.superclass place).Still fits := by
  refine .read fun s => .onlyIf (misplaced _ _ _ _) fun _ => .onlyIf (misplaced _ _ _ _) fun _ => ?_
  split
  · exact misplaced _ _ _ _
  · exact .pure _

/-! ## Names -/

lemma undefined {α : Type} (place : Location) (name : String) :
    (Name.undefined place name : Check α).Still fits :=
  .failAt fun _ => by simp

lemma this (place : Location) : (Name.this place).Still fits := by
  refine .read fun s => .ite (misplaced _ _ _ _) (.ite (misplaced _ _ _ _) ?_)
  split
  · exact .pure _
  · exact misplaced _ _ _ _

lemma demandClass (name : Ident) : (Name.demandClass name).Still fits := by
  refine (lookup? _).bind fun x? => ?_
  split
  · exact undefined _ _
  · exact .ite (.failAt fun _ => by simp) (.pure _)

/-! ## Types of expressions -/

lemma outcomes (e : Expr) : (Rule.outcomes e).Still fits := .read fun _ => .pure _

lemma common (ts : List Ty) : (Rule.common ts).Still fits := unionWidth.bind fun _ => .pure _

lemma spreadElement (place : Location) (t : Ty) : (Rule.spreadElement place t).Still fits := by
  unfold Rule.spreadElement
  split
  · exact .pure _
  · exact .ite (.pure _) (misplaced _ _ _ _)

lemma fitElements (want : Ty) (found : List (Argument × Ty)) :
    (Rule.fitElements want found).Still fits := by
  induction found with
  | nil => exact .pure _
  | cons a found ih => exact (assignable _ _ _ _).bind fun _ => ih

lemma spreadShape? (t : Ty) : (Rule.spreadShape? t).Still fits := by
  unfold Rule.spreadShape?
  split
  · exact .pure _
  · exact .read fun _ => ofSearch _
  · exact .pure _

lemma knownOnly (whole : Location) (shape : Interface) (g : Rule.Gathered) (ps : List Property) :
    (Rule.knownOnly whole shape g ps).Still fits := by
  induction ps with
  | nil => exact .pure _
  | cons p ps ih => exact .onlyIf (typeMismatch _ _) fun _ => ih

lemma fitShape (whole : Location) (shape : Interface) (g : Rule.Gathered) (ps : List Property) :
    (Rule.fitShape whole shape g ps).Still fits := by
  induction ps with
  | nil => exact .pure _
  | cons p ps ih =>
    unfold Rule.fitShape
    dsimp only
    split
    · exact (assignable _ _ _ _).bind fun _ => ih
    · exact .onlyIf (typeMismatch _ _) fun _ => ih

lemma forget (name : String) (t : Ty) :
    (modify fun s : Session => s.forget name t : Check PUnit).Still fits :=
  .change fun _ => ⟨id, rfl, rfl, rfl, rfl, Nat.le_refl _⟩

/-! ## Functions -/

lemma defineTypeParams (ps : List TypeParam) : (Rule.defineTypeParams ps).Still fits := by
  induction ps with
  | nil => exact .pure _
  | cons p ps ih =>
    exact (define _ _ _ _ fun _ => Symbol.fits_of_none rfl rfl).bind fun _ => ih

lemma defineParams (ps : List ParamDecl) (qs : List Param) :
    (Rule.defineParams ps qs).Still fits := by
  induction ps generalizing qs with
  | nil => exact .pure _
  | cons p ps ih =>
    cases qs with
    | nil => exact .pure _
    | cons q qs =>
      exact (deref _).bind fun _ => (declareAt _ _ _ _ _).bind fun _ => ih _

lemma addReturn (t : Ty) : (Rule.addReturn t).Still fits :=
  .change fun _ => ⟨id, rfl, rfl, rfl, rfl, Nat.le_refl _⟩

lemma reportUnreachable (codes : List DeadCode) :
    (Rule.reportUnreachable codes).Still fits := by
  induction codes with
  | nil => exact .pure _
  | cons code codes ih =>
    exact .onlyIf (.throw trivial) fun _ => file.bind fun _ => (trace _ _).bind fun _ =>
      file.bind fun _ => (report _).bind fun _ => ih

lemma checkFlow (f : FunctionSpec) (declared : Hint) (b : Block) :
    (Rule.checkFlow f declared b).Still fits := by
  refine (reportUnreachable _).bind fun _ => file.bind fun _ => ?_
  split
  · exact report _
  · exact .pure _

lemma result (f : FunctionSpec) (declared : Hint) : (Rule.result f declared).Still fits := by
  unfold Rule.result
  split
  · exact .pure _
  · exact unionWidth.bind fun _ => .read fun _ => (trace _ _).bind fun _ => .pure _

lemma arrowParam (hint : Option Param) (p : ParamDecl) :
    (Rule.arrowParam hint p).Still fits := by
  unfold Rule.arrowParam
  split
  · split
    · exact .pure _
    · exact .pure _
  · refine .read fun _ => ?_
    split
    · exact .pure _
    · exact refuse _ _ _ _ _

lemma arrowParams (place : Location) (hints : List Param) (ps : List ParamDecl) :
    (Rule.arrowParams place hints ps).Still fits := by
  induction ps generalizing hints with
  | nil => exact .pure _
  | cons p ps ih =>
    exact (arrowParam _ p).bind fun _ => .onlyIf (invalidOperation _ _) fun _ =>
      (ih _).bind fun _ => .pure _

lemma patchMethod (className : String) (m : Member) (sig : Signature) (t : Ty) :
    (Rule.patchMethod className m sig t).Still fits := by
  refine (lookup? _).bind fun x? => ?_
  split
  · exact .pure _
  · split
    · exact retype _ _
    · exact .pure _

/-! ## Statements -/

lemma fitReturn (f : FunctionContext) (place : Location) (value target : Ty) :
    (Rule.fitReturn f place value target).Still fits := by
  refine .ite (refuse _ _ _ _ _) ?_
  split
  · exact .pure _
  · rename_i d hd
    refine .ite (.failAt fun _ => ?_) (.pure _)
    rw [Diagnostic.severity_withPrimary, Diagnostic.severity_withCode]
    exact Typing.severity_assign? hd

lemma breakStmt (place : Location) : (Rule.breakStmt place).Still fits :=
  .read fun _ => .ite (misplaced _ _ _ _) (.pure _)

lemma continueStmt (place : Location) : (Rule.continueStmt place).Still fits := by
  refine .read fun _ => ?_
  split
  · exact misplaced _ _ _ _
  · exact misplaced _ _ _ _
  · exact .pure _

/-! ## Declarations -/

lemma resolve (place : Location) (a : Annotation) : (Declare.resolve place a).Still fits := by
  refine .read fun _ => ?_
  split
  · exact .pure _
  · exact refuse _ _ _ _ _

lemma typeParamNames (ps : List TypeParamDecl) : (Declare.typeParamNames ps).Still fits := by
  induction ps with
  | nil => exact .pure _
  | cons p ps ih =>
    refine fun s => .read ?_
    dsimp only
    split
    · rename_i x scopes h
      have hx : x.Fits fits := (Scopes.define_eq_ok h).1 ▸ Symbol.fits_of_none rfl rfl
      exact .bind ⟨⟨fun hs => hs.define hx h, rfl, rfl, rfl, rfl, Nat.le_refl _⟩,
        fun _ h => by cases h⟩ fun _ t _ => ih t
    · exact file.bind (fun _ => Still.bind (.throw (by simp [Fault.IsError])) fun _ => ih) s

lemma typeParamBounds (ps : List TypeParamDecl) : (Declare.typeParamBounds ps).Still fits := by
  induction ps with
  | nil => exact .pure _
  | cons p ps ih =>
    exact .bindIte (.pure _) (resolve _ _).map fun _ => ih.bind fun _ => .pure _

lemma typeParams (ps : List TypeParamDecl) : (Declare.typeParams ps).Still fits :=
  (typeParamNames ps).bind fun _ => typeParamBounds ps

lemma signature (tps : List TypeParamDecl) (params : List ParamDecl) (result : Annotation)
    (isAsync : Bool) (place : Location) :
    (Declare.signature tps params result isAsync place).Still fits := by
  refine .during .scope ((typeParams tps).bind fun _ => .read fun _ => ?_)
  split
  · exact refuse _ _ _ _ _
  · exact .ite (.pure _) (.ite (.pure _) (.pure _))

lemma declareFunction {f : Callable} (hf : ∀ g ∈ f.fragments true, fits g) :
    (Declare.function f).Still fits := by
  have hfits (id : SymbolId) (sig : Signature) : Symbol.Fits fits
      ⟨id, f.name.name, .function, some (.function sig), false, .function f⟩ := by
    refine ⟨fun f' h => ?_, fun c h => by cases h⟩
    obtain rfl : f = f' := Option.some.inj h
    exact hf
  exact (signature _ _ _ _ _).bind fun sig =>
    (declare _ _ _ _ fun id => hfits id sig).bind fun _ => trace _ _

lemma parent (d : ClassDecl) : (Declare.parent d).Still fits := by
  unfold Declare.parent
  split
  · exact .pure _
  · refine (lookup? _).bind fun x? => ?_
    split
    · exact .failAt fun _ => by simp
    · split
      · exact .pure _
      · exact .failAt fun _ => by simp

lemma declareFields (c : Class) (fs : List FieldDecl) : (Declare.fields c fs).Still fits := by
  induction fs generalizing c with
  | nil => exact .pure _
  | cons f fs ih =>
    exact .onlyIf (.failAt fun _ => by simp) fun _ => .bindIte (.pure _) (resolve _ _) fun _ => ih _

lemma declareMethods (c : Class) (ms : List Callable) : (Declare.methods c ms).Still fits := by
  induction ms generalizing c with
  | nil => exact .pure _
  | cons m ms ih =>
    exact .onlyIf (.failAt fun _ => by simp) fun _ => (signature _ _ _ _ _).bind fun _ => ih _

lemma setType (x : Symbol) (t : Ty) : (Declare.setType x t).Still fits :=
  .change fun _ => ⟨fun hs => hs.retypeSymbol _, rfl, rfl, rfl, rfl, Nat.le_refl _⟩

lemma classTypeParams (x : Symbol) (c : Class) (ps : List TypeParamDecl) :
    (Declare.classTypeParams x c ps).Still fits :=
  (typeParamNames ps).bind fun _ => (setType _ _).bind fun _ =>
    ((typeParamBounds ps).tryCatch fun _ he => (setType _ _).bind fun _ => .throw he).bind
      fun _ => (setType _ _).bind fun _ => .pure _

lemma declareClass {d : ClassDecl} (hd : ∀ g ∈ d.fragments true, fits g) :
    (Declare.cls d).Still fits := by
  have hfits (id : SymbolId) (c : Class) : Symbol.Fits fits
      ⟨id, d.name.name, .cls, some (.cls c), false, .cls d⟩ := by
    refine ⟨fun f h => (by cases h), fun c' h => ?_⟩
    obtain rfl : d = c' := Option.some.inj h
    exact hd
  refine (parent d).bind fun p => (declare _ _ _ _ fun id => hfits id _).bind fun x =>
    .during .scope ((classTypeParams _ _ _).bind fun _ => (declareFields _ _).bind fun _ =>
      (declareMethods _ _).bind fun _ => ?_)
  dsimp only
  split
  · exact Still.bind (.pure _) fun _ => (retype _ _).bind fun _ => trace _ _
  · exact (signature _ _ _ _ _).bind fun _ => Still.bind (.pure _) fun _ =>
      (retype _ _).bind fun _ => trace _ _

lemma inherited (bases : List Ident) : (Declare.inherited bases).Still fits := by
  induction bases with
  | nil => exact .pure _
  | cons base rest ih =>
    refine (lookup? _).bind fun x? => ?_
    split
    · exact .failAt fun _ => by simp
    · split
      · exact ih.bind fun _ => .pure _
      · exact refuse _ _ _ _ _

lemma declareProperties (ps : List PropertyDecl) : (Declare.properties ps).Still fits := by
  induction ps with
  | nil => exact .pure _
  | cons p ps ih => exact (resolve _ _).bind fun _ => ih.bind fun _ => .pure _

lemma declareInterface (d : InterfaceDecl) : (Declare.interface d).Still fits :=
  (Still.during .scope ((typeParams _).bind fun _ => (inherited _).bind fun _ =>
    (declareProperties _).bind fun _ => .pure _)).bind fun _ =>
      (declareAt _ _ _ _ _).bind fun _ => trace _ _

lemma enumMembers (next : Int) (done : List EnumMember) (ms : List EnumMemberDecl) :
    (Declare.enumMembers next done ms).Still fits := by
  induction ms generalizing next done with
  | nil => exact .pure _
  | cons m ms ih =>
    refine .onlyIf (.failAt fun _ => by simp) fun _ => ?_
    split
    · exact ih _ _
    · split
      · exact ih _ _
      · exact ih _ _
      · exact refuse _ _ _ _ _

lemma declareEnum (d : EnumDecl) : (Declare.enum d).Still fits :=
  (enumMembers _ _ _).bind fun _ => (declareAt _ _ _ _ _).bind fun _ => trace _ _

lemma declareAlias (d : AliasDecl) : (Declare.typeAlias d).Still fits :=
  (Still.during .scope ((typeParams _).bind fun _ => resolve _ _)).bind fun _ =>
    (declare _ _ _ _ fun _ => Symbol.fits_of_none rfl rfl).bind fun _ => trace _ _

lemma declareNode {n : Node} (hn : ∀ g ∈ n.fragments true, fits g) :
    (Declare.node n).Still fits := by
  cases n with
  | classDecl d => exact declareClass (by simpa [Node.fragments] using hn)
  | interfaceDecl d => exact declareInterface d
  | enumDecl d => exact declareEnum d
  | aliasDecl d => exact declareAlias d
  | function f => exact declareFunction (by simpa [Node.fragments] using hn)
  | _ => exact .pure _

lemma declareAll {ns : List Node} (hns : ∀ g ∈ Node.fragmentsIn true ns, fits g) :
    (Declare.all ns).Still fits := by
  induction ns with
  | nil => exact .pure _
  | cons n ns ih =>
    rw [Node.fragmentsIn] at hns
    obtain ⟨hn, hrest⟩ := List.forall_mem_append.1 hns
    exact (declareNode hn).reporting.bind fun _ => ih hrest

end Check.Still

end TypedScript
