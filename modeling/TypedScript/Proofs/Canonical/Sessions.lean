import TypedScript.Checking.Check
import TypedScript.Checking.Functions
import TypedScript.Checking.Members
import TypedScript.Proofs.Canonical.Resolution

/-!
# Canonical sessions

A session is canonical when every type in it is: the types of symbols, those that names
are narrowed to, what the current function is to return and has returned, the types found
for expressions and the built-in members. What is read off such a session is canonical.

Lookups of members go up a lineage. Each class of it is the current value of a symbol or a
snapshot inside one before it.
-/
namespace TypedScript

/-! ## What a session holds -/

/-- Every refinement that was ever made is canonical. -/
def NarrowingStack.Canonical (s : NarrowingStack) : Prop :=
  ∀ i, ∀ r ∈ s.frame i, r.type.Canonical

/-- What is to be returned and what was returned are canonical. -/
structure FunctionContext.Canonical (f : FunctionContext) : Prop where
  declared : Hint.Canonical f.declared
  returns : ∀ t ∈ f.returns, t.Canonical

/-- Every built-in member has a canonical type. -/
def Builtins.Canonical : Builtins → Prop
  | .standard => True
  | .table entries => ∀ e ∈ entries, e.2.2.Canonical

structure Session.Canonical (s : Session) : Prop where
  scopes : s.scopes.Canonical
  narrowing : s.narrowing.Canonical
  function : ∀ f, s.function = some f → f.Canonical
  types : ∀ f ∈ s.types, f.type.Canonical
  builtins : s.options.builtins.Canonical

/-- The symbol, if it has a type, has a canonical one. -/
def Symbol.Canonical (x : Symbol) : Prop := ∀ t, x.type = some t → t.Canonical

lemma Builtins.Canonical.member? {b : Builtins} (hb : b.Canonical) {receiver t : Ty}
    {name : String} (h : b.member? receiver name = some t) : t.Canonical := by
  cases b with
  | standard =>
    simp only [Builtins.member?] at h
    repeat' split at h
    all_goals cases h
    all_goals exact Ty.canonical_prim _
  | table entries =>
    obtain ⟨e, he, rfl⟩ := Option.map_eq_some_iff.1 h
    exact hb e (List.mem_of_find?_eq_some he)

/-! ## Classes and their members -/

namespace Class

variable {c : Class} {name : String}

lemma mem_of_property? {m : Member} (h : c.property? name = some m) : m ∈ c.properties :=
  ByName.mem_of_find? h

lemma mem_of_method? {m : Member} (h : c.method? name = some m) : m ∈ c.methods :=
  ByName.mem_of_find? h

lemma canonical_ownMember? (hc : (Ty.cls c).Canonical) {m : Member}
    (h : c.ownMember? name = some m) : m.type.Canonical := by
  have ⟨_, hproperties, hmethods, _, _⟩ := Ty.canonical_cls.1 hc
  obtain h | ⟨-, h⟩ := Option.or_eq_some_iff.1 h
  · exact hproperties m (mem_of_property? h)
  · exact hmethods m (mem_of_method? h)

lemma canonical_withProperty (hc : (Ty.cls c).Canonical) {m : Member} (hm : m.type.Canonical) :
    (Ty.cls (c.withProperty m)).Canonical := by
  have ⟨hparent, hproperties, hrest⟩ := Ty.canonical_cls.1 hc
  refine Ty.canonical_cls.2 ⟨hparent, fun n hn => ?_, hrest⟩
  obtain rfl | hn := ByName.mem_insert hn
  · simpa using hm
  · exact hproperties n hn

lemma canonical_withMethod (hc : (Ty.cls c).Canonical) {m : Member} (hm : m.type.Canonical) :
    (Ty.cls (c.withMethod m)).Canonical := by
  have ⟨hparent, hproperties, hmethods, hrest⟩ := Ty.canonical_cls.1 hc
  refine Ty.canonical_cls.2 ⟨hparent, hproperties, fun n hn => ?_, hrest⟩
  obtain rfl | hn := ByName.mem_insert hn
  · simpa using hm
  · exact hmethods n hn

lemma canonical_withConstructor (hc : (Ty.cls c).Canonical) {sig : Signature}
    (hsig : (Ty.function sig).Canonical) : (Ty.cls (c.withConstructor sig)).Canonical := by
  have ⟨hparent, hproperties, hmethods, _, hbounds⟩ := Ty.canonical_cls.1 hc
  refine Ty.canonical_cls.2 ⟨hparent, hproperties, hmethods, fun s hs => ?_, hbounds⟩
  exact Option.some.inj hs ▸ hsig

end Class

/-- A signature keeps its parameters when it gets another result. -/
lemma Signature.canonical_withResult {sig : Signature} (h : (Ty.function sig).Canonical) {t : Ty}
    (ht : t.Canonical) : (Ty.function (sig.withResult t)).Canonical := by
  obtain ⟨hparams, -, hbounds⟩ := Ty.canonical_function.1 h
  exact Ty.canonical_function.2 ⟨hparams, ht, hbounds⟩

namespace Scopes.Canonical

variable {s : Scopes} {c : Class} {name : String}

lemma refresh (hs : s.Canonical) (hc : (Ty.cls c).Canonical) :
    (Ty.cls (s.refresh c)).Canonical := by
  unfold Scopes.refresh
  cases h : s.classNamed? c.name with
  | none => exact hc
  | some d => exact hs.classNamed? h

lemma lineage (hs : s.Canonical) (hc : (Ty.cls c).Canonical) :
    ∀ d ∈ s.lineage c, (Ty.cls d).Canonical := by
  suffices h : ∀ limit (c : Class), (Ty.cls c).Canonical →
      ∀ d ∈ s.lineageWithin limit c, (Ty.cls d).Canonical from h _ c hc
  intro limit
  induction limit with
  | zero => exact fun _ _ => List.forall_mem_nil _
  | succ limit ih =>
    intro c hc
    have hnow := hs.refresh hc
    unfold lineageWithin
    dsimp only
    split
    · exact List.forall_mem_singleton.2 hnow
    · rename_i p hp
      exact List.forall_mem_cons.2 ⟨hnow, ih p ((Ty.canonical_cls.1 hnow).1 p hp)⟩

/-- What the nearest class of a lineage answers comes from a class of the lineage. -/
lemma exists_of_nearest {α : Type} {answer? : Class → Option α} {a : α}
    (h : s.nearest c answer? = .found a) : ∃ d ∈ s.lineage c, answer? d = some a :=
  List.exists_of_findSome?_eq_some (findSome?_of_nearest h)

lemma findMember (hs : s.Canonical) (hc : (Ty.cls c).Canonical) {m : Member}
    (h : s.findMember c name = .found m) : m.type.Canonical := by
  obtain ⟨d, hd, hm⟩ := exists_of_nearest h
  exact Class.canonical_ownMember? (hs.lineage hc d hd) hm

lemma constructor (hs : s.Canonical) (hc : (Ty.cls c).Canonical) {sig : Signature}
    (h : s.constructor c = .found sig) : (Ty.function sig).Canonical := by
  have hctor {d : Class} (hd : (Ty.cls d).Canonical) (hsig : d.ctor = some sig) :
      (Ty.function sig).Canonical := (Ty.canonical_cls.1 hd).2.2.2.1 sig hsig
  unfold Scopes.constructor at h
  split at h
  case h_1 hown =>
    cases h
    exact hctor hc hown
  case h_2 p _ hparent =>
    obtain ⟨d, hd, hsig⟩ := exists_of_nearest h
    exact hctor (hs.lineage ((Ty.canonical_cls.1 hc).1 p hparent) d hd) hsig
  case h_3 => cases h

lemma offered (hs : s.Canonical) (hc : (Ty.cls c).Canonical) {ps : List Property}
    (h : s.offered c = .found ps) : ∀ p ∈ ps, p.type.Canonical := by
  unfold Scopes.offered at h
  split at h
  · cases h
    intro p hp
    obtain ⟨d, hd, hp⟩ := List.mem_flatMap.1 (ByName.mem_of_mem_ofList hp)
    obtain ⟨m, hm, rfl⟩ := List.mem_map.1 hp
    have hcls := hs.lineage hc d (List.mem_reverse.1 hd)
    exact (Ty.canonical_cls.1 hcls).2.1 m (List.mem_of_mem_filter hm)
  · cases h

end Scopes.Canonical

/-- What a type applies and the bindings it makes are canonical. -/
lemma Ty.Canonical.applied {t : Ty} (ht : t.Canonical) :
    t.applied.1.Canonical ∧ t.applied.2.Canonical := by
  unfold Ty.applied
  split
  · obtain ⟨hbase, hargs⟩ := Ty.canonical_generic.1 ht
    split
    · exact ⟨hbase, .zip _ hargs⟩
    · exact ⟨hbase, .zip _ hargs⟩
    · exact ⟨hbase, .nil⟩
  · exact ⟨ht, .nil⟩

/-! ## Names and conditions -/

namespace Session.Canonical

variable {s : Session} {name : String} {t : Ty}

lemma narrowed? (hs : s.Canonical) (h : s.narrowed? name = some t) : t.Canonical := by
  obtain ⟨f, hf, ht⟩ := List.exists_of_findSome?_eq_some h
  obtain ⟨i, -, rfl⟩ := List.mem_map.1 hf
  unfold Frame.lookup? at ht
  split at ht
  · rename_i r hr
    split at ht
    · cases ht
      exact hs.narrowing i r (List.mem_of_find?_eq_some hr)
    · cases ht
  · cases ht

lemma typeOf? (hs : s.Canonical) (h : s.typeOf? name = some t) : t.Canonical := by
  obtain h | ⟨-, h⟩ := Option.or_eq_some_iff.1 h
  · exact hs.narrowed? h
  · split at h
    · rename_i x hx
      split at h
      · cases h
      · exact hs.scopes.lookup? hx h
    · cases h

lemma deref (hs : s.Canonical) (ht : t.Canonical) : (s.deref t).Canonical := hs.scopes.deref ht

end Session.Canonical

/-- Whatever comes of a condition, names are narrowed to canonical types. -/
structure Outcomes.Canonical (o : Outcomes) : Prop where
  holds : Subst.Canonical o.holds
  fails : Subst.Canonical o.fails

namespace Outcomes.Canonical

variable {o : Outcomes} {name : String} {t : Ty}

lemma nothing : Outcomes.nothing.Canonical := ⟨.nil, .nil⟩

lemma swap (ho : o.Canonical) : o.swap.Canonical := ⟨ho.fails, ho.holds⟩

lemma whenHolds (ht : t.Canonical) : Outcomes.Canonical { holds := [(name, t)] } :=
  ⟨List.forall_mem_singleton.2 ht, .nil⟩

lemma whenFails (ht : t.Canonical) : Outcomes.Canonical { fails := [(name, t)] } :=
  ⟨.nil, List.forall_mem_singleton.2 ht⟩

end Outcomes.Canonical

namespace Condition

variable {env : Surroundings}

lemma canonical_namedType? {name : String} {t : Ty} (h : namedType? name = some t) :
    t.Canonical := by
  unfold namedType? at h
  split at h <;> cases h
  all_goals exact Ty.canonical_prim _

lemma canonical_typeTest? {x y : Expr} {r : String × Ty} (h : typeTest? x y = some r) :
    r.2.Canonical := by
  unfold typeTest? at h
  split at h
  · split at h
    · rename_i ht
      cases h
      exact canonical_namedType? ht
    · cases h
  · cases h

lemma canonical_equality (htypes : ∀ name t, env.typeOf? name = some t → t.Canonical)
    (x y : Expr) : (equality env x y).Canonical := by
  unfold equality
  split
  · rename_i name t htest
    obtain htest | ⟨-, htest⟩ := Option.or_eq_some_iff.1 htest
    · exact .whenHolds (canonical_typeTest? htest)
    · exact .whenHolds (canonical_typeTest? htest)
  · split
    · split
      · rename_i name _ _ t ht
        refine .whenFails ?_
        unfold withoutNull? at ht
        split at ht
        · cases ht
        · rename_i u hu
          repeat' split at ht
          all_goals cases ht
          exact (htypes name u hu).stripNull
      · exact .nothing
    · exact .nothing

/-- A condition narrows names to types that it names, to what they had without null, and to
classes. -/
lemma canonical_analyze (htypes : ∀ name t, env.typeOf? name = some t → t.Canonical)
    (hclasses : ∀ name c, env.classNamed? name = some c → (Ty.cls c).Canonical) (e : Expr) :
    (analyze env e).Canonical := by
  fun_induction analyze env e with
  | case1 _ x ih => exact ih
  | case2 _ x ih => exact ih.swap
  | case3 _ x cls name c hclass _ => exact .whenHolds (hclasses _ c hclass)
  | case4 => exact .nothing
  | case5 _ x y ihx ihy => exact ⟨ihx.holds.foldl_bind ihy.holds, .nil⟩
  | case6 _ x y ihx ihy => exact ⟨.nil, ihx.fails.foldl_bind ihy.fails⟩
  | case7 => exact canonical_equality htypes _ _
  | case8 => exact (canonical_equality htypes _ _).swap
  | case9 => exact .nothing

end Condition

lemma Session.Canonical.outcomes {s : Session} (hs : s.Canonical) (e : Expr) :
    (Condition.analyze s.surroundings e).Canonical :=
  Condition.canonical_analyze (fun _ _ => hs.typeOf?) (fun _ _ => hs.scopes.classNamed?) e

/-! ## Results of functions -/

namespace FunctionContext.Canonical

variable {f : FunctionContext}

lemma target (hf : f.Canonical) : f.target.Canonical := by
  unfold FunctionContext.target
  split
  · rename_i t ht
    have hfuture : (Ty.future t).Canonical := hf.declared _ ht
    split
    · exact Hint.canonical_some.2 (Ty.canonical_future.1 hfuture)
    · exact Hint.canonical_some.2 hfuture
  · exact hf.declared

lemma inferredResult (hf : f.Canonical) (width : Int) : (f.inferredResult width).Canonical := by
  unfold FunctionContext.inferredResult
  split
  · exact Ty.canonical_prim _
  · exact Ty.canonical_common (fun t ht => hf.returns t (List.mem_of_mem_filter ht)) width

end FunctionContext.Canonical

end TypedScript
