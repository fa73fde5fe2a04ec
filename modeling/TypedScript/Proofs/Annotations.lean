import TypedScript.Proofs.Accepted

/-!
# Types noted for expressions

In a program without errors there is a type for every expression that is checked, save for
those that a rule passes over: parentheses around the target of an assignment, what is inside
the parentheses of a negated integer or of a called `super`, and a spread argument of a call.

A body is checked with its callable, and a field's initial value with its class, so for these
the types are there once they have been checked.
-/
namespace TypedScript

/-- The expressions in the bodies of the callables with this number. -/
def Node.owedIds (nodes : List Node) (id : NodeId) : Set NodeId :=
  { i | ∃ f, .callable f ∈ Node.fragmentsIn true nodes ∧ f.id = id ∧
    i ∈ Fragment.noted (f.body.fragments false) }

namespace Accepted

/-- Where callables have numbers of their own, all fragments fit. -/
lemma fits_owed {nodes : List Node} (hids : (Node.callableIds nodes).Nodup) :
    ∀ g ∈ Node.fragmentsIn true nodes, Fits ∅ (Node.owedIds nodes) g := by
  intro g hg
  rcases g with ⟨_ | _, e⟩ | e | f
  · exact Set.notMem_empty e.id
  · trivial
  · exact Set.notMem_empty e.id
  · rintro i ⟨f', hf', hid, hi⟩
    have hsame : f' = f := List.inj_on_of_nodup_map hids (Fragment.mem_callables.2 hf')
      (Fragment.mem_callables.2 hg) hid
    exact hsame ▸ hi

/-- What is found in the second pass is there in the end. -/
lemma grows_of_run {program : Program} {options : Options} {s : Session}
    (hrun : Analysis.run (some program) options = .ok s) (haccepted : s.errorCount = 0) :
    (Analysis.check program.nodes (Analysis.collect program.nodes
      { options := Analysis.optionsFor (some program) options }).2).2.Grows s := by
  have laws := Session.Grows.stepLaws
  obtain ⟨_, t, hcollect, hrest⟩ := Check.exists_of_run_bind (passes_of_run hrun haccepted)
  obtain ⟨_, u, hcheck, hlast⟩ := Check.exists_of_run_bind hrest
  have hword := (laws.bind laws.get fun v _ => laws.traceLine .blue
    (v.options.file ++ ": " ++ toString v.errorCount ++ " error(s)")) u
  rw [hcollect, hcheck]
  exact (hword.rel trivial hlast).2

/-- An expression that is checked without an error, in whatever session. -/
lemma noted_of_fieldValue {symbol : Symbol} {c : Class} {m : Member} {field : FieldDecl} {e : Expr}
    {limit : Nat} {u v : Session}
    (hrun : Rule.fieldValue symbol c m field ⟨e, Walk.expr (Walk.demand limit) e⟩ u = (.ok (), v))
    (haccepted : v.errorCount = 0) : Fragment.noted (e.fragments false .plain) ⊆ v.noted := by
  have hlaws := laws ∅ fun _ => ∅
  have hexpr := hlaws.walkExpr (hlaws.demand limit) e .plain fun g _ => fits_empty g
  have hfit : u.scopes.Fit (Fits ∅ fun _ => ∅) := fun _ _ =>
    ⟨fun _ _ g _ => fits_empty g, fun _ _ g _ => fits_empty g⟩
  have houtcome := hlaws.fieldValue (x := e) symbol c m field hexpr u hfit
  rw [hrun] at houtcome
  exact houtcome.noted haccepted () rfl

end Accepted

/-- In a program without errors there is a type for every expression of a statement, of the
body of a callable that was checked, and of an initial value that was checked, save for those
that a rule passes over. -/
theorem accepted_expressions_noted {program : Program} {options : Options} {s : Session}
    (hids : (Node.callableIds program.nodes).Nodup)
    (hrun : Analysis.run (some program) options = .ok s) (haccepted : s.errorCount = 0) :
    (∀ role e, .expr role e ∈ Node.fragmentsIn false program.nodes → (s.recorded? e.id).isSome) ∧
    (∀ f, .callable f ∈ Node.fragmentsIn true program.nodes → f.id ∈ s.checked →
      ∀ role e, .expr role e ∈ f.body.fragments false → (s.recorded? e.id).isSome) ∧
    (∀ symbol c m field value limit u v,
      Rule.fieldValue symbol c m field ⟨value, Walk.expr (Walk.demand limit) value⟩ u = (.ok (), v) →
      v.errorCount = 0 →
      ∀ role e, .expr role e ∈ value.fragments false .plain → (v.recorded? e.id).isSome) ∧
    (∀ symbol c m field value limit u v,
      (Rule.fieldValue symbol c m field ⟨value, Walk.expr (Walk.demand limit) value⟩).Within
        (fun _ => True) u (Analysis.check program.nodes) (Analysis.collect program.nodes
          { options := Analysis.optionsFor (some program) options }).2 →
      Rule.fieldValue symbol c m field ⟨value, Walk.expr (Walk.demand limit) value⟩ u = (.ok (), v) →
      ∀ role e, .expr role e ∈ value.fragments false .plain → (s.recorded? e.id).isSome) := by
  have houtcome := Accepted.passes ∅ (Node.owedIds program.nodes)
    (Analysis.optionsFor (some program) options) (Accepted.fits_owed hids)
  rw [Accepted.passes_of_run hrun haccepted] at houtcome
  refine ⟨fun role e he => ?_, fun f hf hid role e he => ?_,
    fun symbol c m field value limit u v hvalue hv role e he => ?_,
    fun symbol c m field value limit u v hwithin hvalue role e he => ?_⟩
  · exact s.recorded?_isSome (houtcome.noted haccepted () rfl ⟨role, e, he, rfl⟩)
  · obtain hstart | howed := (houtcome.clean haccepted trivial).checked f.id hid
    · cases hstart
    · exact s.recorded?_isSome (howed ⟨f, hf, rfl, role, e, he, rfl⟩)
  · exact v.recorded?_isSome (Accepted.noted_of_fieldValue hvalue hv ⟨role, e, he, rfl⟩)
  · have hgrows := hwithin.grows.trans (Accepted.grows_of_run hrun haccepted)
    rw [hvalue] at hgrows
    have hnoted := Accepted.noted_of_fieldValue hvalue (hgrows.accepted haccepted)
    exact s.recorded?_isSome (hgrows.noted (hnoted ⟨role, e, he, rfl⟩))

/-- The initial value `(3)`. -/
def initialValue : Expr := .paren ⟨10, {}⟩ (.literal ⟨11, {}⟩ .int "3")

/-- The field `n = (3)`. -/
def initializedField : FieldDecl :=
  ⟨⟨"n", {}⟩, .omitted, some initialValue, .pub, false, false, {}⟩

/-- The class `class A { n = (3); }`. -/
def initializedClass : ClassDecl :=
  ⟨9, ⟨"A", {}⟩, [], none, [initializedField], [], none, false, {}⟩

/-- The program `class A { n = (3); }  fn f() { return (1 + 2); }  -f();`. -/
def negatedCall : Program :=
  ⟨"m.te", [.classDecl initializedClass,
    .function ⟨1, ⟨"f", {}⟩, [], [], .omitted,
      .block ⟨[.ret {} (some (.paren ⟨2, {}⟩ (.binary ⟨3, {}⟩ (.literal ⟨4, {}⟩ .int "1") .plus
        (.literal ⟨5, {}⟩ .int "2"))))], {}⟩, false, .pub, false, {}⟩,
    .exprStmt {} (.unary ⟨6, {}⟩ .minus (.call ⟨7, {}⟩ (.ident ⟨8, {}⟩ "f") [] []))]⟩

/-- The session between the passes. -/
def collectedCall : Session :=
  (Analysis.collect negatedCall.nodes { options := Analysis.optionsFor (some negatedCall) {} }).2

/-- The session in which the fields of a class are checked at the beginning of the second pass. -/
def insideClass (c : Class) : Session :=
  (((collectedCall.trace .blue ("checking " ++ collectedCall.options.file)).trace .cyan
    ("  checking class " ++ c.name)).enterClass c.name).1.enterScope.1

/-- The check of the initial value of the field. -/
def initialValueCheck (symbol : Symbol) (c : Class) (m : Member) : Check Unit :=
  Rule.fieldValue symbol c m initializedField
    ⟨initialValue, Walk.expr (Walk.demand (Node.callablesIn negatedCall.nodes + 2)) initialValue⟩

/-- The initial value is checked in the second pass, and that gives a result. -/
lemma initial_value_checked : ∃ symbol c m u v,
    (initialValueCheck symbol c m).Within (fun _ => True) u (Analysis.check negatedCall.nodes)
      collectedCall ∧ initialValueCheck symbol c m u = (.ok (), v) := by
  have hfacts : ((collectedCall.scopes.lookup? "A").bind fun x =>
      (x.type.bind Ty.class?).bind fun c =>
      ((Check.currentType? x (insideClass c)).1.toOption.join.bind Ty.class?).bind fun c' =>
        (c'.property? "n").map fun m => (x.origin.class?.any fun d => d.id == 9,
          c.typeParams.isEmpty, (initialValueCheck x c' m (insideClass c)).1.toOption)) =
      some (true, true, some ()) := by decide +kernel
  obtain ⟨x, hx, hfacts⟩ := Option.bind_eq_some_iff.1 hfacts
  obtain ⟨c, hc, hfacts⟩ := Option.bind_eq_some_iff.1 hfacts
  obtain ⟨c', hc', hfacts⟩ := Option.bind_eq_some_iff.1 hfacts
  obtain ⟨m, hm, hfacts⟩ := Option.map_eq_some_iff.1 hfacts
  simp only [Prod.mk.injEq, List.isEmpty_iff] at hfacts
  obtain ⟨hid, hparams, hresult⟩ := hfacts
  have laws := Session.Grows.stepLaws
  have hcurrent : Check.currentType? x (insideClass c) = (.ok (some (.cls c')), insideClass c) :=
    Prod.ext (eq_ok_of_toOption (Option.join_eq_some_iff.1 (Ty.bind_class?_eq_some.1 hc'))) rfl
  have hhas : (insideClass c).scopes.Has x :=
    Scopes.has_of_lookup? ((collectedCall.scopes.lookup?_enter "A").trans hx)
  have hclass := laws.walkClass (laws.demand (Node.callablesIn negatedCall.nodes + 2))
    initializedClass
  have hfields : (Rule.fields x _).Within (fun _ => True) (insideClass c) _
      (collectedCall.trace .blue ("checking " ++ collectedCall.options.file)) :=
    Walk.within_cls hclass hx (Ty.bind_class?_eq_some.1 hc) hid (by rw [hparams]; rfl)
  have hnode : (Rule.cls _).Within (fun _ => True) _ (Analysis.check negatedCall.nodes) _ :=
    (Walk.within_nodes [] rfl).trans (Analysis.within_check negatedCall.nodes collectedCall)
  refine ⟨x, c', m, insideClass c, _, ?_, Prod.ext (eq_ok_of_toOption hresult) rfl⟩
  exact (Walk.within_field hcurrent hm).trans
    ((Walk.within_fields [] hhas rfl).trans (hfields.trans hnode))

/-- There are types for the operands in parentheses in a body and in an initial value, and for the
callee in a statement. -/
theorem operand_and_callee_noted :
    ∃ s, Analysis.run (some negatedCall) {} = .ok s ∧ s.errorCount = 0 ∧ 1 ∈ s.checked ∧
      (s.recorded? 4).isSome ∧ (s.recorded? 8).isSome ∧ (s.recorded? 11).isSome := by
  have hrun : (Analysis.run (some negatedCall) {}).map (fun s => (s.errorCount, s.checked)) =
      .ok (0, [1]) := by decide +kernel
  cases hs : Analysis.run (some negatedCall) {} with
  | error m =>
    rw [hs] at hrun
    cases hrun
  | ok s =>
    rw [hs] at hrun
    obtain ⟨hcount, hchecked⟩ := Prod.ext_iff.1 (Except.ok.inj hrun)
    have hmem : 1 ∈ s.checked := by
      rw [show s.checked = [1] from hchecked]
      exact List.mem_singleton_self 1
    obtain ⟨hstatements, hbodies, -, hvalues⟩ := accepted_expressions_noted (by decide) hs hcount
    obtain ⟨symbol, c, m, u, v, hwithin, hvalue⟩ := initial_value_checked
    refine ⟨s, rfl, hcount, hmem, ?_, ?_, ?_⟩
    · exact hbodies _ (.tail _ (.tail _ (.head _))) hmem .plain (.literal ⟨4, {}⟩ .int "1")
        (.tail _ (.tail _ (.head _)))
    · exact hstatements .opened (.ident ⟨8, {}⟩ "f") (.tail _ (.tail _ (.head _)))
    · exact hvalues symbol c m initializedField initialValue _ u v hwithin hvalue .plain
        (.literal ⟨11, {}⟩ .int "3") (.tail _ (.head _))

/-- The program `-(1);`. -/
def negatedInteger : Program :=
  ⟨"m.te", [.exprStmt {} (.unary ⟨1, {}⟩ .minus (.paren ⟨2, {}⟩ (.literal ⟨3, {}⟩ .int "1")))]⟩

/-- There is no type for the integer inside of the parentheses. -/
theorem negated_integer_not_noted :
    (Analysis.run (some negatedInteger) {}).map (fun s => (s.errorCount,
      (s.recorded? 1).isSome, (s.recorded? 2).isSome, (s.recorded? 3).isSome)) =
      .ok (0, true, true, false) := by
  decide +kernel

end TypedScript
