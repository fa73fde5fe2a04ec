import TypedScript.Proofs.Keeping.Steps

/-!
# What registering declarations keeps

Every declaration is registered by reading annotations and defining names, in a scope of
its own where it has type parameters. Lists of parts go by induction on the list.
-/
namespace TypedScript

/-! ## What declaring a class leaves of it -/

namespace Declare

/-- Adding members leaves the heritage of a class alone. -/
lemma fields_gives (fs : List FieldDecl) (c : Class) :
    (fields c fs).Gives fun d => d.heritage = c.heritage := by
  induction fs generalizing c with
  | nil => exact .pure rfl
  | cons f fs ih =>
    rw [fields]
    refine .onlyIf fun _ => ?_
    exact .bindIte fun _ => ih _

lemma methods_gives (ms : List Callable) (c : Class) :
    (methods c ms).Gives fun d => d.heritage = c.heritage := by
  induction ms generalizing c with
  | nil => exact .pure rfl
  | cons m ms ih =>
    rw [methods]
    exact .onlyIf fun _ => .bind fun _ => ih _

lemma classTypeParams_gives (x : Symbol) (c : Class) (ps : List TypeParamDecl) :
    (classTypeParams x c ps).Gives fun d => d.heritage = c.heritage :=
  .bind fun _ => .bind fun _ => .bind fun _ => .bind fun _ => .pure rfl

/-- The superclass of a declaration is a class in force. -/
lemma parent_givesAt (d : ClassDecl) (s : Session) :
    (parent d).GivesAt s fun parent? t => t = s ∧ ∀ p, parent? = some p →
      ∃ y ∈ s.scopes.chain.flatten, y.kind = .cls ∧ y.type = some (.cls p) := by
  unfold parent
  split
  · rintro _ _ ⟨⟩
    exact ⟨rfl, nofun⟩
  · rename_i base _
    have hrun (next : Option Symbol → Check (Option Class)) {P : Option Class → Session → Prop}
        (h : (next (s.scopes.lookup? base.name)).GivesAt s P) :
        (Check.lookup? base.name >>= next).GivesAt s P := h
    refine hrun _ ?_
    split
    · exact .failAt _
    · rename_i y hlookup
      split
      · rename_i parent hkind htype
        rintro _ _ ⟨⟩
        refine ⟨rfl, ?_⟩
        rintro _ ⟨⟩
        exact ⟨y, (Scopes.lookup?_mem hlookup).1, hkind, htype⟩
      · exact .failAt _

end Declare

end TypedScript

namespace TypedScript

namespace BasicLaws

variable {R : Contract} (laws : BasicLaws R)
include laws

lemma resolve (place : Location) (a : Annotation) :
    (Declare.resolve place a).Yields R Ty.Canonical := by
  refine laws.reading fun s hs => ?_
  split
  · rename_i t ht
    exact laws.give fun htyped => Scopes.canonical_resolve (hs htyped).scopes _ a t ht
  · exact laws.refuse _ _ _ _ _

lemma typeParamNames (ps : List TypeParamDecl) : (Declare.typeParamNames ps).Keeps R := by
  induction ps with
  | nil => exact laws.pure _
  | cons p ps ih =>
    refine fun s => .read ?_
    dsimp only
    split
    · rename_i x scopes h
      refine laws.bindAt (P := fun _ => True)
        (fun hs => ⟨?_, fun _ h => by simp at h, fun _ _ _ => trivial⟩) fun _ _ => ih
      exact laws.define hs (.of_ne (by decide))
        (fun _ => Hint.canonical_some.2 (Ty.canonical_param _)) h
    · exact laws.bind laws.file
        (fun _ _ => laws.bind (laws.fail (P := fun _ => True) _) fun _ _ => ih) s

lemma typeParamBounds (ps : List TypeParamDecl) :
    (Declare.typeParamBounds ps).Yields R fun tps => ∀ b ∈ TypeParam.bounds tps, b.Canonical := by
  induction ps with
  | nil => exact laws.give fun _ => List.forall_mem_nil _
  | cons p ps ih =>
    exact laws.bindIte (laws.give fun _ => Hint.canonical_none)
      (laws.map (laws.resolve _ _) fun _ ht => Hint.canonical_some.2 ht) fun _ hb =>
        laws.bind ih fun _ htps => laws.give fun htyped =>
          TypeParam.forall_mem_bounds_cons.2 ⟨hb htyped, htps htyped⟩

lemma typeParams (ps : List TypeParamDecl) :
    (Declare.typeParams ps).Yields R fun tps => ∀ b ∈ TypeParam.bounds tps, b.Canonical :=
  laws.bind (laws.typeParamNames ps) fun _ _ => laws.typeParamBounds ps

lemma signature (tps : List TypeParamDecl) (params : List ParamDecl) (result : Annotation)
    (isAsync : Bool) (place : Location) :
    (Declare.signature tps params result isAsync place).Yields R
      fun sig => (Ty.function sig).Canonical := by
  refine laws.during .scope <|
    laws.bind (laws.typeParams tps) fun _ htps => laws.reading fun _ hs => ?_
  split
  · exact laws.refuse _ _ _ _ _
  · rename_i sig hsig
    have hsig : R.typed → (Ty.function sig).Canonical := fun htyped =>
      Scopes.canonical_resolveSignature (hs htyped).scopes _ (htps htyped) hsig
    have hresult {t : Ty} (ht : R.typed → t.Canonical) :
        (Pure.pure (sig.withResult t) : Check Signature).Yields R
          fun sig => (Ty.function sig).Canonical :=
      laws.give fun htyped => Signature.canonical_withResult (hsig htyped) (ht htyped)
    exact .ite (hresult fun _ => Ty.canonical_prim _) (.ite
      (hresult fun htyped => (Ty.canonical_function.1 (hsig htyped)).2.1.asFuture)
      (laws.give hsig))

lemma declareFunction (f : Callable) : (Declare.function f).Keeps R :=
  laws.bind (laws.signature _ _ _ _ _) fun _ hsig =>
    laws.bind (laws.declare _ _ _ _ hsig) fun _ _ => laws.traceLine _ _

lemma parent (d : ClassDecl) :
    (Declare.parent d).Yields R fun parent? => ∀ p, parent? = some p → (Ty.cls p).Canonical := by
  unfold Declare.parent
  split
  · exact laws.give fun _ p hp => by cases hp
  · refine laws.bind (laws.lookup? _) fun x? hx => ?_
    split
    · exact laws.failAt _
    · split
      · rename_i x _ _ parent _ htype
        refine laws.give fun htyped p hp => ?_
        cases hp
        exact hx htyped x rfl _ htype
      · exact laws.failAt _

lemma declareFields {c : Class} (hc : R.typed → (Ty.cls c).Canonical) (fs : List FieldDecl) :
    (Declare.fields c fs).Yields R fun d => (Ty.cls d).Canonical := by
  induction fs generalizing c with
  | nil => exact laws.give hc
  | cons f fs ih =>
    exact laws.onlyIf (laws.failAt _) fun _ =>
      laws.bindIte (laws.give fun _ => Ty.canonical_prim _) (laws.resolve _ _) fun _ ht =>
        ih fun htyped => Class.canonical_withProperty (hc htyped) (ht htyped)

lemma declareMethods {c : Class} (hc : R.typed → (Ty.cls c).Canonical) (ms : List Callable) :
    (Declare.methods c ms).Yields R fun d => (Ty.cls d).Canonical := by
  induction ms generalizing c with
  | nil => exact laws.give hc
  | cons m ms ih =>
    exact laws.onlyIf (laws.failAt _) fun _ => laws.bind (laws.signature _ _ _ _ _) fun _ hsig =>
      ih fun htyped => Class.canonical_withMethod (hc htyped) (hsig htyped)

lemma inherited (bases : List Ident) :
    (Declare.inherited bases).Yields R fun ps => ∀ p ∈ ps, p.type.Canonical := by
  induction bases with
  | nil => exact laws.give fun _ => List.forall_mem_nil _
  | cons base rest ih =>
    refine laws.bind (laws.lookup? _) fun x? hx => ?_
    split
    · exact laws.failAt _
    · split
      · rename_i x _ shape htype
        have hshape := fun htyped => Ty.canonical_interface.1 (hx htyped x rfl _ htype)
        exact laws.bind ih fun _ hrest => laws.give fun htyped =>
          List.forall_mem_append.2 ⟨(hshape htyped).2.1, hrest htyped⟩
      · exact laws.refuse _ _ _ _ _

lemma declareProperties (ps : List PropertyDecl) :
    (Declare.properties ps).Yields R fun ps => ∀ p ∈ ps, p.type.Canonical := by
  induction ps with
  | nil => exact laws.give fun _ => List.forall_mem_nil _
  | cons p ps ih =>
    exact laws.bind (laws.resolve _ _) fun _ ht => laws.bind ih fun _ hps =>
      laws.give fun htyped => List.forall_mem_cons.2 ⟨ht htyped, hps htyped⟩

lemma declareInterface (d : InterfaceDecl) : (Declare.interface d).Keeps R := by
  have hshape := laws.during .scope <| laws.bind (laws.typeParams d.typeParams) fun tps htps =>
    laws.bind (laws.inherited d.bases) fun base hbase =>
      laws.bind (laws.declareProperties d.properties) fun own hown =>
        laws.give (P := fun shape => (Ty.interface shape).Canonical)
          (a := ⟨d.name.name, ByName.ofList Property.name (base ++ own), tps⟩) fun htyped =>
          Ty.canonical_interface.2 ⟨(ByName.ascends_ofList _).nodup, fun p hp =>
            List.forall_mem_append.2 ⟨hbase htyped, hown htyped⟩ p (ByName.mem_of_mem_ofList hp),
            htps htyped⟩
  exact laws.bind hshape fun _ hs => laws.bind (laws.declare _ _ _ _ hs) fun _ _ =>
    laws.traceLine _ _

lemma enumMembers (next : Int) (done : List EnumMember) (ms : List EnumMemberDecl) :
    (Declare.enumMembers next done ms).Keeps R := by
  induction ms generalizing next done with
  | nil => exact laws.pure _
  | cons m ms ih =>
    refine laws.onlyIf (laws.failAt _) fun _ => ?_
    split
    · exact ih _ _
    · split
      · exact ih _ _
      · exact ih _ _
      · exact laws.refuse _ _ _ _ _

lemma declareEnum (d : EnumDecl) : (Declare.enum d).Keeps R :=
  laws.bind (laws.enumMembers _ _ _) fun _ _ =>
    laws.bind (laws.declare _ _ _ _ fun _ => Ty.canonical_enum _) fun _ _ => laws.traceLine _ _

lemma declareAlias (d : AliasDecl) : (Declare.typeAlias d).Keeps R :=
  laws.bind (laws.during .scope (laws.bind (laws.typeParams _) fun _ _ => laws.resolve _ _))
    fun _ ht => laws.bind (laws.declare _ _ _ _ ht) fun _ _ => laws.traceLine _ _

end BasicLaws

namespace ClassLaws

variable {R : Contract} (laws : ClassLaws R)
include laws

lemma setType (x : Symbol) {t : Ty} {h : Heritage} (hheritage : t.heritage? = some h)
    (ht : R.typed → t.Canonical) : (Declare.setType x t).Keeps (R.given x.id (some h)) :=
  .modify fun _ hs => laws.retypeSymbol hs.1 hs.2 hheritage ht

lemma classTypeParams (x : Symbol) {c : Class} {h : Heritage} (hheritage : c.heritage = h)
    (hc : R.typed → (Ty.cls c).Canonical) (ps : List TypeParamDecl) :
    (Declare.classTypeParams x c ps).Yields (R.given x.id (some h))
      fun d => (Ty.cls d).Canonical := by
  have known := laws.given x.id (some h)
  have htypeParams {tps : List TypeParam}
      (htps : R.typed → ∀ b ∈ TypeParam.bounds tps, b.Canonical) (htyped : R.typed) :
      (Ty.cls { c with typeParams := tps }).Canonical := by
    have ⟨hparent, hproperties, hmethods, hctor, _⟩ := Ty.canonical_cls.1 (hc htyped)
    exact Ty.canonical_cls.2 ⟨hparent, hproperties, hmethods, hctor, htps htyped⟩
  have hset (d : Class) (hd : d.heritage = c.heritage) (ht : R.typed → (Ty.cls d).Canonical) :
      (Declare.setType x (.cls d)).Keeps (R.given x.id (some h)) :=
    laws.setType x (congrArg some (hd.trans hheritage)) ht
  have hunbounded : R.typed →
      ∀ b ∈ TypeParam.bounds (ps.map fun p => ⟨p.name, none⟩), b.Canonical := by
    simp [TypeParam.bounds]
  have hbounds := known.tryCatch (known.typeParamBounds ps) fun e he =>
    known.bind (hset c rfl hc) fun _ _ => known.throw he
  exact known.bind (known.typeParamNames ps) fun _ _ =>
    known.bind (hset _ rfl (htypeParams hunbounded)) fun _ _ => known.bind hbounds fun _ htps =>
      known.bind (hset _ rfl (htypeParams htps)) fun _ _ => known.give (htypeParams htps)

lemma declareClass (d : ClassDecl) : (Declare.cls d).Keeps R := by
  refine fun s => laws.bindOk (laws.parent d s) fun parent? t hparent hcanonical => ?_
  obtain ⟨rfl, hforce⟩ := Declare.parent_givesAt d s _ _ hparent
  have hbare : R.typed →
      (Ty.cls { Class.empty d.name.name parent? with isAbstract := d.isAbstract }).Canonical := by
    intro htyped
    refine Ty.canonical_cls.2 ⟨hcanonical htyped, List.forall_mem_nil _, List.forall_mem_nil _,
      fun _ hsig => ?_, List.forall_mem_nil _⟩
    cases hsig
  refine laws.declaring (fun _ c hc => ?_) (fun _ => hbare) fun x => ?_
  · cases hc
    exact ⟨rfl, hforce⟩
  · have known := laws.given x.id (some ⟨d.name.name, parent?⟩)
    refine known.during .scope <|
      known.bindGives (laws.classTypeParams x (by rfl) hbare _)
        (Declare.classTypeParams_gives x _ _) fun c hc hheritage =>
      known.bindGives (known.declareFields hc _) (Declare.fields_gives _ _)
        fun c' hc' hheritage' =>
      known.bindGives (known.declareMethods hc' _) (Declare.methods_gives _ _)
        fun c'' hc'' hheritage'' => ?_
    have hall : c''.heritage = ⟨d.name.name, parent?⟩ :=
      hheritage''.trans (hheritage'.trans hheritage)
    have hlast {c : Class} (hc : R.typed → (Ty.cls c).Canonical)
        (hh : c.heritage = ⟨d.name.name, parent?⟩) (line : String) :=
      known.bind (laws.retypeClass x (t := .cls c) (congrArg some hh) hc) fun _ _ =>
        known.traceLine .purple line
    dsimp only
    split
    · exact known.bindGives (known.give hc'') (.pure hall) fun _ hc hh => hlast hc hh _
    · refine known.bind (known.signature _ _ _ _ _) fun sig hsig =>
        known.bindGives (known.give fun htyped => ?_) (.pure hall) fun _ hc hh => hlast hc hh _
      exact Class.canonical_withConstructor (hc'' htyped)
        (Signature.canonical_withResult (hsig htyped) (Ty.canonical_prim _))

end ClassLaws

end TypedScript
