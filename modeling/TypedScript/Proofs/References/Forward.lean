import TypedScript.Proofs.Canonical.Preservation
import TypedScript.Proofs.References.Agreement

/-!
# Forward references

A name may be used in an annotation before it is declared. The annotation then means a type
with a reference, and replacing the references once the name is declared gives a type equal to
the one that the annotation would have meant after the declaration.

There are three places where it does not. Inside the shape of an object type references are
never replaced. An alias that is applied to arguments before it is declared stays applied, and
its parameters are not replaced by the arguments. And an alias that leads back to itself is
followed a fixed number of times, once less from a reference than from the type itself.
-/
namespace TypedScript

namespace Scopes

/-! ## Annotations whose references are found -/

/-- The name means the same type everywhere. -/
def isBuiltin (name : String) : Bool :=
  ["List", "Array", "Map", "Future", "Promise"].contains name || (Prim.ofSpelling? name).isSome

/-- The symbol that a name in an annotation refers to. -/
def annotated? (s : Scopes) (name : String) : Option Symbol :=
  if isBuiltin name then none else s.lookup? name

end Scopes

namespace Symbol

def isAlias (x : Symbol) : Bool :=
  match x.origin with
  | .typeAlias _ => true
  | _ => false

/-- For each parameter of an alias, whether it stands outside of shapes only. -/
def openParams (x : Symbol) : List Bool :=
  match x.origin, x.type with
  | .typeAlias a, some body => a.typeParams.map fun p => !body.hides p.name false
  | _, _ => []

end Symbol

namespace Scopes

mutual

/-- Every mention of a name in the annotation stands where a reference would be replaced: not in
an object type, not in an argument that an alias puts into a shape, and not as an alias that is
applied to arguments. If the annotation itself does not stand where references are replaced,
the name must not be mentioned at all. -/
def exposes (s : Scopes) (name : String) (replaced : Bool) : Annotation → Bool
  | .omitted => true
  | .named _ n args =>
    match s.annotated? n with
    | none => exposesAll s name replaced [] args
    | some x =>
      (n != name || replaced && (args.isEmpty || !x.isAlias)) &&
        exposesAll s name replaced x.openParams args
  | .array _ element => exposes s name replaced element
  | .nullable _ base => exposes s name replaced base
  | .union _ members => exposesAll s name replaced [] members
  | .function _ params result =>
    exposesParams s name replaced params && exposes s name replaced result
  | .object _ properties => exposesProperties s name properties
termination_by structural a => a

/-- The same for a list, in which single places may be without replacement. -/
def exposesAll (s : Scopes) (name : String) (replaced : Bool) :
    List Bool → List Annotation → Bool
  | _, [] => true
  | places, a :: as =>
    exposes s name (replaced && places.headD true) a && exposesAll s name replaced places.tail as
termination_by structural _ as => as

def exposesParams (s : Scopes) (name : String) (replaced : Bool) : List ParamDecl → Bool
  | [] => true
  | ⟨_, type, _, _⟩ :: ps => exposes s name replaced type && exposesParams s name replaced ps
termination_by structural ps => ps

def exposesProperties (s : Scopes) (name : String) : List PropertyDecl → Bool
  | [] => true
  | ⟨_, type, _, _⟩ :: ps => exposes s name false type && exposesProperties s name ps
termination_by structural ps => ps

end

/-! ## What declaring a name changes -/

variable {s s' scopes : Scopes} {x : Symbol} {file name : String} {args ts us : List Ty} {t u : Ty}

lemma lookup?_eq_slots (s : Scopes) (name : String) :
    s.lookup? name =
      (s.locals.map some ++ [none]).findSome? fun i => (s.slot i).named? name := by
  simp [lookup?, chain, slot, List.findSome?_append, List.findSome?_map, Function.comp_def]

/-- A declared name means the new symbol, and every other name what it meant before. -/
lemma lookup?_define {kind : SymbolKind} {type : Option Ty} {isConst : Bool} {origin : Origin}
    (hslot : s.HasSlot s.locals.head?)
    (h : s.define name kind type isConst origin = .ok (x, scopes)) (n : String) :
    scopes.lookup? n = if n = name then some x else s.lookup? n := by
  obtain ⟨hx, hfree, hscopes⟩ := define_eq_ok h
  have hname : x.name = name := by rw [hx]
  have hnone : (s.slot s.locals.head?).named? x.name = none := by
    rw [Scope.named?, List.find?_eq_none]
    intro y hy
    simpa [hname] using hfree y hy
  have hlocals : scopes.locals = s.locals := by
    rw [hscopes]
    cases s.locals.head? <;> rfl
  have hslots : scopes.slot =
      Function.update s.slot s.locals.head? (s.slot s.locals.head? ++ [x]) := by
    rw [← slot_modifySlot hslot (· ++ [x]), hscopes]
    funext i
    cases i <;> rfl
  have hnamed (i : Option ScopeId) : (scopes.slot i).named? n =
      if i = s.locals.head? ∧ n = name then some x else (s.slot i).named? n := by
    rw [hslots, Function.update_apply]
    by_cases hi : i = s.locals.head?
    · subst hi
      simp [Scope.named?_append hnone, hname]
    · simp [hi]
  rw [lookup?_eq_slots, lookup?_eq_slots, hlocals]
  simp only [hnamed]
  by_cases hn : n = name
  · cases hl : s.locals <;> simp [hn]
  · simp [hn]

/-- A name that is not built in means what it is looked up as. -/
lemma applyNamed_of_lookup (h : isBuiltin name = false) :
    s.applyNamed file name args = applySymbol file name args (s.lookup? name) := by
  obtain ⟨hmem, hprim⟩ : ["List", "Array", "Map", "Future", "Promise"].contains name = false ∧
      Prim.ofSpelling? name = none := by simpa [isBuiltin] using h
  unfold applyNamed
  split
  case h_6 =>
    rw [hprim]
  all_goals simp at hmem

/-- What a name is replaced by when references are. -/
def follow (s : Scopes) (name : String) : Option Ty :=
  (s.typeNamed? name).map (s.derefWithin (derefLimit - 1))

lemma deref_eq_derefBy (s : Scopes) (t : Ty) : s.deref t = t.derefBy s.follow := rfl

lemma Canonical.follow (hs : s.Canonical) : ∀ name t, s.follow name = some t → t.Canonical := by
  intro name t h
  obtain ⟨u, hu, rfl⟩ := Option.map_eq_some_iff.1 h
  exact hs.derefWithin _ (hs.typeNamed? hu)

/-- A name that meant nothing is declared, and a reference to it agrees with what it now
means. -/
structure Introduces (s : Scopes) (x : Symbol) (body : Ty) (s' : Scopes) : Prop where
  before : s.lookup? x.name = none
  after : s'.lookup? x.name = some x
  other : ∀ name, name ≠ x.name → s'.lookup? name = s.lookup? name
  canonical : s.Canonical
  canonical' : s'.Canonical
  typed : x.type = some body
  agree : ∀ file, Ty.Agree s'.follow true (.ref x.name file) body

/-- Types that agree position by position, single places being without replacement. -/
def AgreeArgs (follow : String → Option Ty) (replaced : Bool) :
    List Bool → List Ty → List Ty → Prop
  | _, [], [] => True
  | places, t :: ts, u :: us =>
    Ty.Agree follow (replaced && places.headD true) t u ∧
      AgreeArgs follow replaced places.tail ts us
  | _, [], _ :: _ => False
  | _, _ :: _, [] => False

namespace AgreeArgs

variable {follow : String → Option Ty} {replaced : Bool} {places : List Bool}

lemma forall₂ (h : AgreeArgs follow replaced places ts us) :
    List.Forall₂ (Ty.Agree follow replaced) ts us := by
  induction ts generalizing places us with
  | nil =>
    cases us with
    | nil => exact .nil
    | cons u us => exact h.elim
  | cons t ts ih =>
    cases us with
    | nil => exact h.elim
    | cons u us => exact .cons (h.1.mono fun hr => by simp [hr]) (ih h.2)

/-- Arguments of an alias are bindings that agree, the same ones where its body hides the
parameter. -/
lemma zip {params : List TypeParamDecl} {body : Ty}
    (h : AgreeArgs follow replaced (params.map fun p => !body.hides p.name false) ts us) :
    Subst.Agree follow (fun name => body.hides name !replaced)
      (Subst.zip (params.map TypeParamDecl.name) ts)
      (Subst.zip (params.map TypeParamDecl.name) us) := by
  refine Subst.Related.zip ?_
  induction params generalizing ts us with
  | nil => exact .nil
  | cons p params ih =>
    cases ts with
    | nil =>
      cases us with
      | nil => exact .nil
      | cons u us => exact h.elim
    | cons t ts =>
      cases us with
      | nil => exact h.elim
      | cons u us =>
        refine .cons ⟨rfl, h.1.mono (by simp), fun hhides => h.1.same ?_⟩ (ih h.2)
        cases replaced with
        | true => simpa using hhides
        | false => rfl

end AgreeArgs

/-- A type with arguments: the body of an alias with its parameters replaced, or a type that is
kept applied. -/
def applied (x : Symbol) (body : Ty) (args : List Ty) : Ty :=
  match x.origin with
  | .typeAlias a => body.substitute (Subst.zip (a.typeParams.map TypeParamDecl.name) args)
  | _ => .generic body args

lemma applySymbol_typed (hx : x.type = some u) (h : applySymbol file name args (some x) = .ok t) :
    t = if args.isEmpty then u else applied x u args := by
  obtain ⟨id, n, kind, type, isConst, origin⟩ := x
  obtain rfl : type = some u := hx
  simp only [applySymbol] at h
  split at h
  · cases h
  · split at h
    · rename_i hnil
      rw [if_pos hnil]
      exact (Except.ok.inj h).symm
    · rename_i hne
      rw [if_neg hne]
      cases origin with
      | typeAlias a =>
        simp only [applyAlias] at h
        split at h
        · exact (Except.ok.inj h).symm
        · cases h
      | _ => exact (Except.ok.inj h).symm

lemma applySymbol_untyped {y : Option Symbol} (hy : ∀ x, y = some x → x.type = none)
    (h : applySymbol file name args y = .ok t) :
    t = if args.isEmpty then .ref name file else .generic (.ref name file) args := by
  unfold applySymbol at h
  split at h
  · cases hy _ rfl
  · split at h
    · rename_i hnil
      rw [if_pos hnil]
      exact (Except.ok.inj h).symm
    · rename_i hne
      rw [if_neg hne]
      exact (Except.ok.inj h).symm

lemma withArity_eq_ok {expected : Nat} {f : List Ty → Ty}
    (h : withArity name expected args f = .ok t) : t = f args := by
  unfold withArity at h
  split at h
  · exact (Except.ok.inj h).symm
  · cases h

/-- A type that is built in is made from its arguments alone, and agrees if they do. -/
lemma applyNamed_builtin (file : String) (hb : isBuiltin name = true) :
    ∃ f : List Ty → Ty,
      (∀ s args t, applyNamed s file name args = .ok t → t = f args) ∧
      ∀ follow replaced ts us, (∀ n t, follow n = some t → t.Canonical) →
        List.Forall₂ (Ty.Agree follow replaced) ts us → Ty.Agree follow replaced (f ts) (f us) := by
  have hhead {follow : String → Option Ty} {replaced : Bool} {ts us : List Ty}
      (hf : ∀ n t, follow n = some t → t.Canonical)
      (h : List.Forall₂ (Ty.Agree follow replaced) ts us) :
      Ty.Agree follow replaced (ts.headD .unknown) (us.headD .unknown) := by
    cases h with
    | nil => exact .refl hf _ (Ty.canonical_prim _)
    | cons hab _ => exact hab
  have htail {follow : String → Option Ty} {replaced : Bool} {ts us : List Ty}
      (h : List.Forall₂ (Ty.Agree follow replaced) ts us) :
      List.Forall₂ (Ty.Agree follow replaced) ts.tail us.tail := by
    cases h with
    | nil => exact .nil
    | cons _ hrest => exact hrest
  unfold applyNamed
  split
  · exact ⟨_, fun s args t h => withArity_eq_ok h, fun _ _ _ _ hf h => (hhead hf h).list⟩
  · exact ⟨_, fun s args t h => withArity_eq_ok h, fun _ _ _ _ hf h => (hhead hf h).list⟩
  · exact ⟨_, fun s args t h => withArity_eq_ok h,
      fun _ _ _ _ hf h => (hhead hf h).map (hhead hf (htail h))⟩
  · exact ⟨_, fun s args t h => withArity_eq_ok h, fun _ _ _ _ hf h => (hhead hf h).future⟩
  · exact ⟨_, fun s args t h => withArity_eq_ok h, fun _ _ _ _ hf h => (hhead hf h).future⟩
  · have hprim : (Prim.ofSpelling? name).isSome = true := by
      simp only [isBuiltin, Bool.or_eq_true] at hb
      refine hb.resolve_left fun hmem => ?_
      simp_all
    obtain ⟨p, hp⟩ := Option.isSome_iff_exists.1 hprim
    rw [hp]
    exact ⟨_, fun s args t h => withArity_eq_ok h,
      fun _ _ _ _ hf _ => .refl hf _ (Ty.canonical_prim _)⟩

section Named

variable {replaced : Bool} {n : String} {body : Ty}

/-- Without arguments, or with arguments that agree, types that agree are given. -/
lemma agree_ite {follow : String → Option Ty} {a b : Ty}
    (hargs : List.Forall₂ (Ty.Agree follow replaced) ts us)
    (hplain : Ty.Agree follow replaced a b) (happlied : Ty.Agree follow replaced t u) :
    Ty.Agree follow replaced (if ts.isEmpty then a else t) (if us.isEmpty then b else u) := by
  cases hargs with
  | nil => exact hplain
  | cons => exact happlied

variable (h : s.Introduces x body s')

include h

lemma Introduces.agree_applied {y : Symbol} {v : Ty} (hy : y.type = some v)
    (hv : v.Canonical) (hargs : AgreeArgs s'.follow replaced y.openParams ts us) :
    Ty.Agree s'.follow replaced (applied y v ts) (applied y v us) := by
  have hf := h.canonical'.follow
  obtain ⟨id, n, kind, type, isConst, origin⟩ := y
  obtain rfl : type = some v := hy
  cases origin with
  | typeAlias a =>
    have hsubst := Ty.agree_substitute hf hv (!replaced) hargs.zip
    rwa [Bool.not_not] at hsubst
  | _ => exact .generic (.refl hf _ hv) hargs.forall₂

/-- The same symbol is applied to arguments that agree. -/
lemma Introduces.agree_applySymbol {y : Option Symbol}
    (hy : ∀ z, y = some z → ∀ t, z.type = some t → t.Canonical)
    (hargs : AgreeArgs s'.follow replaced ((y.map Symbol.openParams).getD []) ts us)
    (ht : applySymbol file n ts y = .ok t) (hu : applySymbol file n us y = .ok u) :
    Ty.Agree s'.follow replaced t u := by
  have hf := h.canonical'.follow
  by_cases htyped : ∃ z v, y = some z ∧ z.type = some v
  · obtain ⟨z, v, rfl, hz⟩ := htyped
    have hv := hy z rfl v hz
    rw [applySymbol_typed hz ht, applySymbol_typed hz hu]
    exact agree_ite hargs.forall₂ (.refl hf _ hv) (h.agree_applied hz hv hargs)
  · have huntyped : ∀ z, y = some z → z.type = none := by
      intro z hz
      rw [Option.eq_none_iff_forall_ne_some]
      exact fun v hv => htyped ⟨z, v, hz, hv⟩
    have hrefl : Ty.Agree s'.follow replaced (.ref n file) (.ref n file) :=
      .refl hf _ (Ty.canonical_ref _ _)
    rw [applySymbol_untyped huntyped ht, applySymbol_untyped huntyped hu]
    exact agree_ite hargs.forall₂ hrefl (.generic hrefl hargs.forall₂)

/-- The new symbol stands where there was a reference. -/
lemma Introduces.agree_introduced (halias : ts = [] ∨ x.isAlias = false)
    (hargs : List.Forall₂ (Ty.Agree s'.follow true) ts us)
    (ht : applySymbol file x.name ts none = .ok t)
    (hu : applySymbol file x.name us (some x) = .ok u) :
    Ty.Agree s'.follow true t u := by
  have hagree := h.agree file
  rw [applySymbol_untyped (by simp) ht, applySymbol_typed h.typed hu]
  obtain rfl | halias := halias
  · cases hargs
    exact hagree
  · have happlied : applied x body us = .generic body us := by
      unfold applied
      unfold Symbol.isAlias at halias
      split at halias
      · cases halias
      · rfl
    rw [happlied]
    exact agree_ite hargs hagree (.generic hagree hargs)

/-- A name is applied to arguments that agree. -/
lemma Introduces.agree_applyNamed
    (hname : n = x.name → isBuiltin n = false → replaced = true ∧ (ts = [] ∨ x.isAlias = false))
    (hargs : AgreeArgs s'.follow replaced (((s'.annotated? n).map Symbol.openParams).getD []) ts us)
    (ht : s.applyNamed file n ts = .ok t) (hu : s'.applyNamed file n us = .ok u) :
    Ty.Agree s'.follow replaced t u := by
  by_cases hb : isBuiltin n = true
  · obtain ⟨f, hmade, hagree⟩ := applyNamed_builtin file hb
    rw [hmade s ts t ht, hmade s' us u hu]
    exact hagree _ _ ts us h.canonical'.follow hargs.forall₂
  · have hb : isBuiltin n = false := by simpa using hb
    have hfound : s'.annotated? n = s'.lookup? n := by simp [annotated?, hb]
    rw [applyNamed_of_lookup hb] at ht hu
    rw [hfound] at hargs
    by_cases hn : n = x.name
    · subst hn
      obtain ⟨rfl, halias⟩ := hname rfl hb
      rw [h.before] at ht
      rw [h.after] at hu
      exact h.agree_introduced halias hargs.forall₂ ht hu
    · rw [h.other n hn] at hargs hu
      exact h.agree_applySymbol (fun z hz _ ht => h.canonical.lookup? hz ht) hargs ht hu

end Named

/-! ## Annotations before and after -/

lemma exposes_named {replaced : Bool} {place : Location} {n : String} {args : List Annotation}
    (h : s.exposes name replaced (.named place n args) = true) :
    s.exposesAll name replaced (((s.annotated? n).map Symbol.openParams).getD []) args = true ∧
      ∀ y, s.annotated? n = some y → n = name →
        replaced = true ∧ (args = [] ∨ y.isAlias = false) := by
  unfold exposes at h
  cases hy : s.annotated? n with
  | none =>
    rw [hy] at h
    exact ⟨h, by simp⟩
  | some y =>
    rw [hy] at h
    obtain ⟨hmention, hargs⟩ := Bool.and_eq_true_iff.1 h
    refine ⟨hargs, fun z hz hn => ?_⟩
    obtain rfl := Option.some.inj hz
    simpa [hn] using hmention

mutual

lemma agree_resolve {body : Ty} (h : s.Introduces x body s') (file : String) :
    (a : Annotation) → ∀ (replaced : Bool) (t u : Ty), s'.exposes x.name replaced a = true →
      s.resolve file a = .ok t → s'.resolve file a = .ok u → Ty.Agree s'.follow replaced t u
  | .omitted => fun replaced t u _ ht hu => by
    cases ht
    cases hu
    exact .refl h.canonical'.follow _ (Ty.canonical_prim _)
  | .named _ n args => fun replaced t u hexposes h₁ h₂ => by
    obtain ⟨ts, hts, ht⟩ := resolve_named_eq_ok h₁
    obtain ⟨us, hus, hu⟩ := resolve_named_eq_ok h₂
    obtain ⟨hargs, hmention⟩ := exposes_named hexposes
    have hargs := agree_resolveAll h file args replaced _ ts us hargs hts hus
    refine h.agree_applyNamed (fun hn hb => ?_) hargs ht hu
    have hfound : s'.annotated? n = some x := by simpa [annotated?, hb] using hn ▸ h.after
    obtain ⟨hreplaced, rfl | halias⟩ := hmention x hfound hn
    · exact ⟨hreplaced, .inl (Except.ok.inj hts).symm⟩
    · exact ⟨hreplaced, .inr halias⟩
  | .array _ element => fun replaced t u hexposes h₁ h₂ => by
    obtain ⟨t, ht, rfl⟩ := resolve_array_eq_ok h₁
    obtain ⟨u, hu, rfl⟩ := resolve_array_eq_ok h₂
    exact (agree_resolve h file element replaced t u hexposes ht hu).list
  | .nullable _ base => fun replaced t u hexposes h₁ h₂ => by
    obtain ⟨t, ht, rfl⟩ := resolve_nullable_eq_ok h₁
    obtain ⟨u, hu, rfl⟩ := resolve_nullable_eq_ok h₂
    exact (agree_resolve h file base replaced t u hexposes ht hu).orNull
  | .union _ members => fun replaced t u hexposes h₁ h₂ => by
    obtain ⟨ts, hts, rfl⟩ := resolve_union_eq_ok h₁
    obtain ⟨us, hus, rfl⟩ := resolve_union_eq_ok h₂
    have hmembers := agree_resolveAll h file members replaced [] ts us hexposes hts hus
    exact .unionOf h.canonical'.follow hmembers.forall₂
  | .function _ params result => fun replaced t u hexposes h₁ h₂ => by
    obtain ⟨hps, hres⟩ := Bool.and_eq_true_iff.1 hexposes
    obtain ⟨r, t, hr, ht, rfl⟩ := resolve_function_eq_ok h₁
    obtain ⟨r', u, hr', hu, rfl⟩ := resolve_function_eq_ok h₂
    obtain ⟨hparams, hvariadic⟩ := agree_resolveParams h file params replaced r r' hps hr hr'
    have hresult := agree_resolve h file result replaced t u hres ht hu
    rw [hvariadic]
    refine .function hparams ?_ (List.forall_mem_nil _)
    split
    · exact .refl h.canonical'.follow _ (Ty.canonical_prim _)
    · exact hresult
  | .object _ properties => fun replaced t u hexposes h₁ h₂ => by
    have hcanonical := canonical_resolve h.canonical file _ t h₁
    obtain ⟨ps, hps, rfl⟩ := resolve_object_eq_ok h₁
    obtain ⟨qs, hqs, rfl⟩ := resolve_object_eq_ok h₂
    obtain rfl := agree_resolveProperties h file properties ps qs hexposes hps hqs
    exact .refl h.canonical'.follow _ hcanonical
termination_by structural a => a

lemma agree_resolveAll {body : Ty} (h : s.Introduces x body s') (file : String) :
    (as : List Annotation) → ∀ (replaced : Bool) (places : List Bool) (ts us : List Ty),
      s'.exposesAll x.name replaced places as = true →
      s.resolveAll file as = .ok ts → s'.resolveAll file as = .ok us →
      AgreeArgs s'.follow replaced places ts us
  | [] => fun replaced places ts us _ hts hus => by
    cases hts
    cases hus
    trivial
  | a :: as => fun replaced places ts us hexposes h₁ h₂ => by
    obtain ⟨ha, has⟩ := Bool.and_eq_true_iff.1 hexposes
    obtain ⟨t, ts, ht, hts, rfl⟩ := resolveAll_cons_eq_ok h₁
    obtain ⟨u, us, hu, hus, rfl⟩ := resolveAll_cons_eq_ok h₂
    exact ⟨agree_resolve h file a _ t u ha ht hu,
      agree_resolveAll h file as replaced _ ts us has hts hus⟩
termination_by structural as => as

lemma agree_resolveParams {body : Ty} (h : s.Introduces x body s') (file : String) :
    (ps : List ParamDecl) → ∀ (replaced : Bool) (r r' : List Param × Bool),
      s'.exposesParams x.name replaced ps = true →
      s.resolveParams file ps = .ok r → s'.resolveParams file ps = .ok r' →
      Ty.AgreeParams s'.follow replaced r.1 r'.1 ∧ r.2 = r'.2
  | [] => fun replaced r r' _ hr hr' => by
    cases hr
    cases hr'
    exact ⟨.nil, rfl⟩
  | ⟨n, type, isVariadic, l⟩ :: ps => fun replaced r r' hexposes hr hr' => by
    obtain ⟨hp, hps⟩ := Bool.and_eq_true_iff.1 hexposes
    obtain ⟨t, rest, ht, hrest, rfl⟩ := resolveParams_cons_eq_ok hr
    obtain ⟨u, rest', hu, hrest', rfl⟩ := resolveParams_cons_eq_ok hr'
    obtain ⟨hparams, hvariadic⟩ := agree_resolveParams h file ps replaced _ _ hps hrest hrest'
    have htype : Ty.Agree s'.follow replaced t u := by
      obtain ⟨homitted, rfl⟩ | ⟨hgiven, ht⟩ := resolveParam_eq_ok ht
      · obtain ⟨-, rfl⟩ | ⟨hgiven, -⟩ := resolveParam_eq_ok hu
        · exact .refl h.canonical'.follow _ (by split <;> simp)
        · simp [homitted] at hgiven
      · obtain ⟨homitted, -⟩ | ⟨-, hu⟩ := resolveParam_eq_ok hu
        · simp [homitted] at hgiven
        · exact agree_resolve h file type replaced t u hp ht hu
    exact ⟨.cons ⟨rfl, htype⟩ hparams, by simp [hvariadic]⟩
termination_by structural ps => ps

lemma agree_resolveProperties {body : Ty} (h : s.Introduces x body s') (file : String) :
    (ps : List PropertyDecl) → ∀ r r' : List Property, s'.exposesProperties x.name ps = true →
      s.resolveProperties file ps = .ok r → s'.resolveProperties file ps = .ok r' → r = r'
  | [] => fun r r' _ hr hr' => by
    cases hr
    cases hr'
    rfl
  | ⟨n, type, isOptional, l⟩ :: ps => fun r r' hexposes hr hr' => by
    obtain ⟨hp, hps⟩ := Bool.and_eq_true_iff.1 hexposes
    obtain ⟨t, rest, ht, hrest, rfl⟩ := resolveProperties_cons_eq_ok hr
    obtain ⟨u, rest', hu, hrest', rfl⟩ := resolveProperties_cons_eq_ok hr'
    obtain rfl := (agree_resolve h file type false t u hp ht hu).same rfl
    obtain rfl := agree_resolveProperties h file ps rest rest' hps hrest hrest'
    rfl
termination_by structural ps => ps

end

/-! ## Forward references -/

lemma introduces_of_define {kind : SymbolKind} {type : Ty} {isConst : Bool} {origin : Origin}
    (hslot : s.HasSlot s.locals.head?) (hs : s.Canonical) (htype : type.Canonical)
    (hfresh : s.lookup? name = none) (hkind : kind.isType = true)
    (hdefine : s.define name kind (some type) isConst origin = .ok (x, s'))
    (hends : s'.chainsEndWithin derefLimit (.ref name file) = true) :
    s.Introduces x type s' := by
  have hlookup := lookup?_define hslot hdefine
  have hs' : s'.Canonical := hs.define (fun t ht => Option.some.inj ht ▸ htype) hdefine
  obtain ⟨rfl, -, -⟩ := define_eq_ok hdefine
  have hnamed : s'.typeNamed? name = some type := by simp [typeNamed?, hlookup, hkind]
  have hends : s'.chainsEndWithin (derefLimit - 1) type = true := by
    simpa [derefLimit, chainsEndWithin, Ty.refNames, hnamed] using hends
  -- A reference is followed once less than the type itself, which makes no difference.
  have hsame : type.derefBy s'.follow = s'.derefWithin (derefLimit - 1) type :=
    derefWithin_eq_of_chainsEndWithin hs' (Nat.sub_le derefLimit 1) htype hends
  refine ⟨hfresh, by simp [hlookup], fun n hn => by simp [hlookup, hn], hs, hs', rfl, ?_⟩
  intro file
  refine ⟨Ty.canonical_ref _ _, htype, ?_, by simp⟩
  have href : (Ty.ref name file).derefBy s'.follow = s'.derefWithin (derefLimit - 1) type := by
    simp [Ty.derefBy, follow, hnamed]
  rw [href, hsame]
  exact Ty.equals_refl (hs'.derefWithin _ htype).proper

/-- Let a name that means nothing be declared as a type. An annotation that meant a type before
means one afterwards that is equal, once references have been replaced, if all references to
the name are found and the chains from it on end within the limit. What is applied to
arguments before it is declared stays applied to them, also if it turns out to be an alias, and
an object type keeps its references. -/
theorem forward_references_mean_the_same (s s' : Scopes) (x : Symbol) (name file : String)
    (kind : SymbolKind) (type : Ty) (isConst : Bool) (origin : Origin) (a : Annotation)
    (t t' : Ty) (hslot : s.HasSlot s.locals.head?) (hs : s.Canonical) (htype : type.Canonical)
    (hfresh : s.lookup? name = none) (hkind : kind.isType = true)
    (hdefine : s.define name kind (some type) isConst origin = .ok (x, s'))
    (ht : s.resolve file a = .ok t) (ht' : s'.resolve file a = .ok t') :
    (s'.chainsEndWithin derefLimit (.ref name file) = true → s'.exposes name true a = true →
      (s'.deref t).equals (s'.deref t') = true) ∧
    (∀ place args, a = .named place name args → args ≠ [] → isBuiltin name = false →
      ∃ ts, s.resolveAll file args = .ok ts ∧
        s'.deref t = .generic (s'.deref (.ref name file)) (ts.map s'.deref)) ∧
    ∀ place properties, a = .object place properties → s'.deref t = t := by
  refine ⟨?_, ?_, ?_⟩
  · intro hends hexposes
    have h := introduces_of_define hslot hs htype hfresh hkind hdefine hends
    have hname : x.name = name := by rw [(define_eq_ok hdefine).1]
    exact (agree_resolve h file a true t t' (hname ▸ hexposes) ht ht').equals
  · rintro place args rfl hargs hb
    obtain ⟨ts, hts, ht⟩ := resolve_named_eq_ok ht
    refine ⟨ts, hts, ?_⟩
    have hne : ts.isEmpty = false := by
      cases args with
      | nil => exact absurd rfl hargs
      | cons b bs =>
        obtain ⟨u, us, -, -, rfl⟩ := resolveAll_cons_eq_ok hts
        rfl
    rw [applyNamed_of_lookup hb, hfresh] at ht
    rw [applySymbol_untyped (by simp) ht, hne]
    simp [deref_eq_derefBy, Ty.derefBy, Ty.derefAll_eq_map]
  · rintro place properties rfl
    obtain ⟨ps, -, rfl⟩ := resolve_object_eq_ok ht
    rfl

/-- The alias `type Either<A, B> = A | B[]`. -/
def eitherDeclared : Scopes where
  global := [⟨0, "Either", .typeAlias, some (.union [.param "A", .list (.param "B")]), false,
    .typeAlias ⟨⟨"Either", {}⟩, [⟨"A", .omitted, {}⟩, ⟨"B", .omitted, {}⟩], .omitted, {}⟩⟩]
  nextId := 1

/-- The annotation `Either<Id, Id?> | Id[]`, where nothing is said about `Id`. -/
def laterIds : Annotation :=
  .union {} [.named {} "Either" [.named {} "Id" [], .nullable {} (.named {} "Id" [])],
    .array {} (.named {} "Id" [])]

theorem ids_before_their_declaration :
    ∃ x s' t t', eitherDeclared.define "Id" .typeAlias (some (.union [.int, .str])) false .unknown =
        .ok (x, s') ∧
      eitherDeclared.resolve "m" laterIds = .ok t ∧ t.findRef = some ("Id", "m") ∧
      s'.resolve "m" laterIds = .ok t' ∧ t'.findRef = none ∧
      (s'.deref t).equals (s'.deref t') = true := by
  have hunion : (Ty.union [.int, .str]).Canonical :=
    Ty.canonical_union.2 ⟨by decide, by simp⟩
  have hbody : (Ty.union [.param "A", .list (.param "B")]).Canonical :=
    Ty.canonical_union.2 ⟨by decide, by simp⟩
  have hscopes : eitherDeclared.Canonical := by
    rintro y ⟨i, hy⟩ v hv
    cases i with
    | none =>
      obtain rfl := List.mem_singleton.1 hy
      exact Option.some.inj hv ▸ hbody
    | some i => simp [slot, scope, eitherDeclared] at hy
  refine ⟨_, _, _, _, rfl, rfl, rfl, rfl, rfl, ?_⟩
  exact (forward_references_mean_the_same eitherDeclared _ _ "Id" "m" _ _ _ _ laterIds _ _
    (by simp [HasSlot, eitherDeclared]) hscopes hunion rfl rfl rfl rfl rfl).1 rfl rfl

/-- The annotation `Box<int>`. -/
def boxOfInt : Annotation := .named {} "Box" [.named {} "int" []]

/-- The annotation `{ next: Node }`. -/
def linked : Annotation := .object {} [⟨"next", .named {} "Node" [], false, {}⟩]

/-- If `type Box<T> = T[]` comes after its use, `Box<int>` never becomes a list of integers. If
`class Node` comes after its use, `{ next: Node }` keeps a reference. -/
theorem alias_and_object_type_before_declaration :
    (∃ x s' t t', ({} : Scopes).define "Box" .typeAlias (some (.list (.param "T"))) false
        (.typeAlias ⟨⟨"Box", {}⟩, [⟨"T", .omitted, {}⟩], .omitted, {}⟩) = .ok (x, s') ∧
      ({} : Scopes).resolve "m.te" boxOfInt = .ok t ∧ s'.resolve "m.te" boxOfInt = .ok t' ∧
      s'.deref t' = .list .int ∧ s'.deref t = .generic (.list (.param "T")) [.int] ∧
      (s'.deref t).equals (s'.deref t') = false) ∧
    ∃ x s' t t', ({} : Scopes).define "Node" .cls (some (.cls ⟨"Node", none, [], [], none, [],
        false⟩)) false .unknown = .ok (x, s') ∧
      ({} : Scopes).resolve "m.te" linked = .ok t ∧ s'.resolve "m.te" linked = .ok t' ∧
      (s'.deref t).equals (s'.deref t') = false :=
  ⟨⟨_, _, _, _, rfl, rfl, rfl, rfl, rfl, rfl⟩, ⟨_, _, _, _, rfl, rfl, rfl, rfl⟩⟩

end Scopes

end TypedScript
