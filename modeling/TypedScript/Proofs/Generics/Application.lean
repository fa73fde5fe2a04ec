import TypedScript.Checking.Members
import TypedScript.Proofs.Generics.Occurrence
import TypedScript.Proofs.References.Forward

/-!
# Types applied to arguments

A name in an annotation may be applied to arguments. What is built in and what is an alias counts
them, wherever in the annotation it stands, and in the body of an alias the arguments take the
place of all its parameters: none of them is left.

A class or an interface takes any number of arguments. They are matched with its parameters by
position when a member is looked up. Arguments without a parameter are passed over, and parameters
without an argument stay in the types of the members. An alias without arguments is its body, with
its parameters in it.
-/
namespace TypedScript

/-! ## Bindings by position -/

namespace Subst

variable {s : Subst} {bs : List (String × Ty)} {names : List String} {ts : List Ty} {n : String}

lemma get?_foldl_bind_of_forall_ne (h : ∀ b ∈ bs, b.1 ≠ n) :
    Subst.get? (bs.foldl (fun s b => s.bind b.1 b.2) s) n = s.get? n := by
  induction bs generalizing s with
  | nil => rfl
  | cons b bs ih =>
    obtain ⟨hb, hbs⟩ := List.forall_mem_cons.1 h
    rw [List.foldl_cons, ih hbs, get?_bind_of_ne hb.symm]

/-- A name that is bound more than once has one of the types that it was bound to. -/
lemma exists_get?_foldl_bind (h : n ∈ bs.map Prod.fst) :
    ∃ t, (n, t) ∈ bs ∧ Subst.get? (bs.foldl (fun s b => s.bind b.1 b.2) s) n = some t := by
  induction bs generalizing s with
  | nil => cases h
  | cons b bs ih =>
    by_cases hlater : n ∈ bs.map Prod.fst
    · obtain ⟨t, ht, hget⟩ := ih hlater (s := s.bind b.1 b.2)
      exact ⟨t, List.mem_cons_of_mem _ ht, hget⟩
    · obtain rfl : n = b.1 := by simpa [hlater] using h
      refine ⟨b.2, List.mem_cons_self, ?_⟩
      rw [List.foldl_cons, get?_foldl_bind_of_forall_ne, get?_bind_self]
      rintro c hc heq
      exact hlater (heq ▸ List.mem_map_of_mem hc)

lemma get?_zip_of_notMem (h : n ∉ names) : (zip names ts).get? n = none := by
  refine get?_foldl_bind_of_forall_ne ?_
  rintro b hb rfl
  exact h (List.of_mem_zip hb).1

/-- With an argument for every name, each name is bound to one of the arguments. -/
lemma exists_get?_zip (hlen : names.length = ts.length) (h : n ∈ names) :
    ∃ t ∈ ts, (zip names ts).get? n = some t := by
  have hnames : (names.zip ts).map Prod.fst = names := List.map_fst_zip (Nat.le_of_eq hlen)
  obtain ⟨t, ht, hget⟩ := exists_get?_foldl_bind (s := []) (hnames.symm ▸ h)
  exact ⟨t, (List.of_mem_zip ht).2, hget⟩

/-- Names that differ are bound to the arguments at their positions, as far as there are any. -/
lemma get?_zip_of_nodup (hnodup : names.Nodup) {i : ℕ} (h : names[i]? = some n) :
    (zip names ts).get? n = ts[i]? := by
  have hplace {t : Ty} (ht : (n, t) ∈ names.zip ts) : ts[i]? = some t := by
    obtain ⟨j, hj⟩ := List.mem_iff_getElem?.1 ht
    obtain ⟨hname, htype⟩ := List.getElem?_zip_eq_some.1 hj
    obtain rfl : i = j :=
      (List.getElem?_inj (List.getElem?_eq_some_iff.1 h).1 hnodup).1 (h.trans hname.symm)
    exact htype
  cases hi : ts[i]? with
  | none =>
    refine get?_foldl_bind_of_forall_ne ?_
    rintro b hb rfl
    cases (hplace hb).symm.trans hi
  | some t =>
    have hmem : (n, t) ∈ names.zip ts :=
      List.mem_of_getElem? (List.getElem?_zip_eq_some.2 ⟨h, hi⟩)
    obtain ⟨u, hu, hget⟩ := exists_get?_foldl_bind (s := []) (List.mem_map_of_mem hmem)
    exact hget.trans ((hplace hu).symm.trans hi)

end Subst

/-! ## Parameters that are left -/

namespace Ty

variable {s : Subst} {t u : Ty} {ts : List Ty} {n : String}

lemma mentions_param {m : String} : Mentions n (param m) ↔ n = m := by
  constructor
  · intro h
    cases h with
    | here => rfl
    | inside hp => exact absurd hp List.not_mem_nil
  · rintro rfl
    exact .here

lemma Mentions.of_orNull (h : Mentions n t.orNull) : Mentions n t := by
  unfold orNull at h
  split at h
  · exact h
  · exact h
  · cases h with
    | inside hp _ hpart => exact List.mem_singleton.1 hp ▸ hpart

lemma Mentions.of_mem_alternatives (h : Mentions n u) (hu : u ∈ t.alternatives) :
    Mentions n t := by
  induction t using induction_on_parts with
  | step t ih =>
    cases t with
    | union ms =>
      obtain ⟨m, hm, hmem⟩ := mem_allAlternatives_iff.1 hu
      exact .inside hm List.not_mem_nil (ih m hm hmem)
    | _ => exact List.mem_singleton.1 hu ▸ h

lemma exists_mentions_of_unionOf (h : Mentions n (unionOf ts)) : ∃ t ∈ ts, Mentions n t := by
  have hkept {u : Ty} (hu : u ∈ distinct (allAlternatives ts)) (hn : Mentions n u) :
      ∃ t ∈ ts, Mentions n t := by
    obtain ⟨t, ht, hmem⟩ := mem_allAlternatives_iff.1 (mem_of_mem_distinct hu)
    exact ⟨t, ht, hn.of_mem_alternatives hmem⟩
  unfold unionOf at h
  split at h
  · cases h with
    | inside hp => exact absurd hp List.not_mem_nil
  · rename_i t hdistinct
    exact hkept (hdistinct ▸ List.mem_singleton_self t) h
  · cases h with
    | inside hp _ hpart => exact hkept hp hpart

/-- What a type mentions after a substitution is mentioned by what was put in the place of a
parameter that it mentioned before. -/
lemma exists_mentions_of_substitute (h : Mentions n (t.substitute s)) :
    ∃ m, Mentions m t ∧ Mentions n ((param m).substitute s) := by
  induction t using induction_on_parts generalizing s with
  | step t ih =>
    have hpart (hown : t.ownNames = []) {p : Ty} (hp : p ∈ t.replacedParts)
        (hn : Mentions n (p.substitute s)) :
        ∃ m, Mentions m t ∧ Mentions n ((param m).substitute s) := by
      obtain ⟨m, hm, hput⟩ := ih p (mem_parts_of_mem_replacedParts hp) hn
      exact ⟨m, .inside hp (by simp [hown]) hm, hput⟩
    by_cases hs : s = []
    · subst hs
      exact ⟨n, h, .here⟩
    cases t with
    | param m => exact ⟨m, .here, h⟩
    | list t =>
      rw [substitute_list] at h
      cases h with
      | inside hp _ hn => exact hpart rfl List.mem_cons_self (List.mem_singleton.1 hp ▸ hn)
    | map k v =>
      rw [substitute_map] at h
      cases h with
      | inside hp _ hn =>
        obtain ⟨q, hq, rfl⟩ : ∃ q ∈ [k, v], q.substitute s = _ := List.mem_map.1 hp
        exact hpart rfl hq hn
    | nullable t =>
      rw [substitute_nullable_of_ne hs] at h
      exact hpart rfl List.mem_cons_self h.of_orNull
    | future t =>
      rw [substitute_future] at h
      cases h with
      | inside hp _ hn => exact hpart rfl List.mem_cons_self (List.mem_singleton.1 hp ▸ hn)
    | union ms =>
      rw [substitute_union_of_ne hs] at h
      obtain ⟨_, hmem, hn⟩ := exists_mentions_of_unionOf h
      obtain ⟨m, hm, rfl⟩ := List.mem_map.1 hmem
      exact hpart rfl hm hn
    | function sig =>
      rw [substitute_function] at h
      cases h with
      | inside hp hown hn =>
        rw [Signature.replacedParts_retype] at hp
        obtain ⟨q, hq, rfl⟩ := List.mem_map.1 hp
        obtain ⟨m, hm, hput⟩ := ih q (mem_parts_of_mem_replacedParts hq) hn
        -- A name that the signature declares stays as it is, and is not mentioned outside.
        have hfree : m ∉ sig.typeParams.map TypeParam.name := by
          intro hdeclared
          rw [substitute_param, Subst.get?_without, if_pos hdeclared, Option.getD_none,
            mentions_param] at hput
          exact hown (hput ▸ hdeclared)
        rw [substitute_param, Subst.get?_without, if_neg hfree, ← substitute_param] at hput
        exact ⟨m, .inside hq hfree hm, hput⟩
    | interface shape =>
      rw [substitute_interface] at h
      cases h with
      | inside hp _ hn =>
        rw [Interface.replacedParts_retype] at hp
        obtain ⟨q, hq, rfl⟩ := List.mem_map.1 hp
        exact hpart rfl hq hn
    | generic base args =>
      rw [substitute_generic] at h
      cases h with
      | inside hp _ hn =>
        obtain ⟨q, hq, rfl⟩ := List.mem_map.1 hp
        exact hpart rfl hq hn
    | prim | cls | enum | ref =>
      simp only [substitute_prim, substitute_cls, substitute_enum, substitute_ref] at h
      cases h with
      | inside hp => exact absurd hp List.not_mem_nil

/-- A parameter that nothing is put in the place of stays where it is mentioned. -/
lemma occurs_substitute_of_unbound (ht : t.Canonical) (hs : s.Canonical) (h : Mentions n t)
    (hunbound : s.get? n = none) : Occurs n (t.substitute s) := by
  have hsame : t.substitute s = t.substitute ((n, param n) :: s) := by
    refine substitute_congr ht fun m _ => ?_
    by_cases hm : n = m
    · subst hm
      simp [substitute_param, Subst.get?_cons, hunbound]
    · simp [substitute_param, Subst.get?_cons, hm]
  rw [hsame]
  refine occurs_substitute ht (List.forall_mem_cons.2 ⟨canonical_param n, hs⟩) h ?_ .here
  simp [Subst.get?_cons]

/-- The type parameters that a class or an interface declares. -/
def typeParams : Ty → List TypeParam
  | cls c => c.typeParams
  | interface shape => shape.typeParams
  | _ => []

lemma applied_generic :
    (generic t ts).applied = (t, Subst.zip (t.typeParams.map TypeParam.name) ts) := by
  cases t <;> rfl

end Ty

/-! ## Applications in an annotation -/

mutual

/-- The names in an annotation, each with the number of arguments that it is applied to. -/
def Annotation.applications : Annotation → List (String × ℕ)
  | .omitted => []
  | .named _ name args => (name, args.length) :: Annotation.allApplications args
  | .array _ element => element.applications
  | .nullable _ base => base.applications
  | .union _ members => Annotation.allApplications members
  | .function _ params result => Annotation.paramApplications params ++ result.applications
  | .object _ properties => Annotation.propertyApplications properties
termination_by structural a => a

def Annotation.allApplications : List Annotation → List (String × ℕ)
  | [] => []
  | a :: as => a.applications ++ Annotation.allApplications as
termination_by structural as => as

def Annotation.paramApplications : List ParamDecl → List (String × ℕ)
  | [] => []
  | p :: ps => p.applications ++ Annotation.paramApplications ps
termination_by structural ps => ps

def ParamDecl.applications : ParamDecl → List (String × ℕ)
  | ⟨_, type, _, _⟩ => type.applications
termination_by structural p => p

def Annotation.propertyApplications : List PropertyDecl → List (String × ℕ)
  | [] => []
  | ⟨_, type, _, _⟩ :: ps => type.applications ++ Annotation.propertyApplications ps
termination_by structural ps => ps

end

namespace Scopes

variable {s : Scopes} {file name : String} {place : Location} {args : List Annotation}
  {ts : List Ty} {t r : Ty} {x : Symbol}

lemma length_of_resolveAll (h : s.resolveAll file args = .ok ts) : ts.length = args.length := by
  induction args generalizing ts with
  | nil =>
    cases h
    rfl
  | cons a args ih =>
    obtain ⟨u, us, -, hus, rfl⟩ := resolveAll_cons_eq_ok h
    simp [ih hus]

lemma ne_nil_of_resolveAll (h : s.resolveAll file args = .ok ts) (hne : args ≠ []) : ts ≠ [] := by
  rintro rfl
  exact hne (List.length_eq_zero_iff.1 (length_of_resolveAll h).symm)

lemma resolve_named (h : s.resolveAll file args = .ok ts) :
    s.resolve file (.named place name args) = s.applyNamed file name ts := by
  rw [resolve, h]

/-- The name can be applied to so many arguments. -/
def Takes (s : Scopes) (file : String) (application : String × ℕ) : Prop :=
  ∃ ts t, ts.length = application.2 ∧ s.applyNamed file application.1 ts = .ok t

mutual

/-- In an annotation that means something every name is applied to as many arguments as it can
be. -/
lemma takes_of_resolve : (a : Annotation) → ∀ r, s.resolve file a = .ok r →
    ∀ p ∈ a.applications, s.Takes file p
  | .omitted => fun _ _ => List.forall_mem_nil _
  | .named _ name args => fun r h => by
    obtain ⟨ts, hts, hnamed⟩ := resolve_named_eq_ok h
    exact List.forall_mem_cons.2
      ⟨⟨ts, r, length_of_resolveAll hts, hnamed⟩, takes_of_resolveAll args ts hts⟩
  | .array _ element => fun _ h => by
    obtain ⟨u, hu, -⟩ := resolve_array_eq_ok h
    exact takes_of_resolve element u hu
  | .nullable _ base => fun _ h => by
    obtain ⟨u, hu, -⟩ := resolve_nullable_eq_ok h
    exact takes_of_resolve base u hu
  | .union _ members => fun _ h => by
    obtain ⟨us, hus, -⟩ := resolve_union_eq_ok h
    exact takes_of_resolveAll members us hus
  | .function _ params result => fun _ h => by
    obtain ⟨ps, u, hps, hu, -⟩ := resolve_function_eq_ok h
    exact List.forall_mem_append.2
      ⟨takes_of_resolveParams params ps hps, takes_of_resolve result u hu⟩
  | .object _ properties => fun _ h => by
    obtain ⟨ps, hps, -⟩ := resolve_object_eq_ok h
    exact takes_of_resolveProperties properties ps hps
termination_by structural a => a

lemma takes_of_resolveAll : (as : List Annotation) → ∀ ts, s.resolveAll file as = .ok ts →
    ∀ p ∈ Annotation.allApplications as, s.Takes file p
  | [] => fun _ _ => List.forall_mem_nil _
  | a :: as => fun _ h => by
    obtain ⟨u, us, hu, hus, -⟩ := resolveAll_cons_eq_ok h
    exact List.forall_mem_append.2 ⟨takes_of_resolve a u hu, takes_of_resolveAll as us hus⟩
termination_by structural as => as

lemma takes_of_resolveParams : (ps : List ParamDecl) → ∀ r, s.resolveParams file ps = .ok r →
    ∀ p ∈ Annotation.paramApplications ps, s.Takes file p
  | [] => fun _ _ => List.forall_mem_nil _
  | p :: ps => fun _ h => by
    obtain ⟨u, rest, hu, hrest, -⟩ := resolveParams_cons_eq_ok h
    exact List.forall_mem_append.2
      ⟨takes_of_resolveParam p u hu, takes_of_resolveParams ps rest hrest⟩
termination_by structural ps => ps

lemma takes_of_resolveParam : (p : ParamDecl) → ∀ t, s.resolveParam file p = .ok t →
    ∀ q ∈ p.applications, s.Takes file q
  | ⟨_, type, _, _⟩ => fun t h => by
    obtain ⟨homitted, -⟩ | ⟨-, ht⟩ := resolveParam_eq_ok h
    · cases type with
      | omitted => exact List.forall_mem_nil _
      | _ => cases homitted
    · exact takes_of_resolve type t ht
termination_by structural p => p

lemma takes_of_resolveProperties : (ps : List PropertyDecl) →
    ∀ r, s.resolveProperties file ps = .ok r →
      ∀ p ∈ Annotation.propertyApplications ps, s.Takes file p
  | [] => fun _ _ => List.forall_mem_nil _
  | ⟨_, type, _, _⟩ :: ps => fun _ h => by
    obtain ⟨u, rest, hu, hrest, -⟩ := resolveProperties_cons_eq_ok h
    exact List.forall_mem_append.2
      ⟨takes_of_resolve type u hu, takes_of_resolveProperties ps rest hrest⟩
termination_by structural ps => ps

end

/-! ## Declared names -/

lemma applyAlias_eq_ok {a : AliasDecl} : applyAlias a t ts = .ok r ↔
    a.typeParams.length = ts.length ∧
      r = t.substitute (Subst.zip (a.typeParams.map TypeParamDecl.name) ts) := by
  unfold applyAlias
  split
  · rename_i hlen
    simp [hlen, eq_comm]
  · rename_i hlen
    simp [hlen]

/-- In an applied alias none of its parameters is left, unless an argument mentions it. -/
lemma mentions_of_applyAlias {a : AliasDecl} (hr : applyAlias a t ts = .ok r) {n : String}
    (h : Ty.Mentions n r) :
    (∃ u ∈ ts, Ty.Mentions n u) ∨
      Ty.Mentions n t ∧ n ∉ a.typeParams.map TypeParamDecl.name := by
  obtain ⟨hlen, rfl⟩ := applyAlias_eq_ok.1 hr
  obtain ⟨m, hm, hput⟩ := Ty.exists_mentions_of_substitute h
  rw [Ty.substitute_param] at hput
  by_cases hown : m ∈ a.typeParams.map TypeParamDecl.name
  · obtain ⟨u, hu, hget⟩ := Subst.exists_get?_zip (by simpa using hlen) hown
    rw [hget] at hput
    exact .inl ⟨u, hu, hput⟩
  · rw [Subst.get?_zip_of_notMem hown, Option.getD_none, Ty.mentions_param] at hput
    subst hput
    exact .inr ⟨hm, hown⟩

/-- In annotations the name means a declared type. -/
structure Declares (s : Scopes) (name : String) (x : Symbol) (t : Ty) : Prop where
  annotated : s.annotated? name = some x
  typed : x.type = some t
  isType : x.kind.isType = true

namespace Declares

variable {a : AliasDecl}

lemma applyNamed_eq (h : s.Declares name x t) : s.applyNamed file name ts =
    applySymbol file name ts (some ⟨x.id, x.name, x.kind, some t, x.isConst, x.origin⟩) := by
  have hannotated := h.annotated
  unfold annotated? at hannotated
  split at hannotated
  · cases hannotated
  · rename_i hbuiltin
    rw [applyNamed_of_lookup (by simpa using hbuiltin), hannotated, ← h.typed]

lemma applyNamed_nil (h : s.Declares name x t) : s.applyNamed file name [] = .ok t := by
  simp [h.applyNamed_eq, applySymbol, h.isType]

lemma applyNamed_alias (h : s.Declares name x t) (ha : x.origin = .typeAlias a) (hne : ts ≠ []) :
    s.applyNamed file name ts = applyAlias a t ts := by
  simp [h.applyNamed_eq, applySymbol, h.isType, hne, ha]

/-- What is not an alias takes any number of arguments. -/
lemma applyNamed_of_not_isAlias (h : s.Declares name x t) (ha : x.isAlias = false)
    (hne : ts ≠ []) : s.applyNamed file name ts = .ok (.generic t ts) := by
  unfold Symbol.isAlias at ha
  cases hx : x.origin with
  | typeAlias a =>
    rw [hx] at ha
    cases ha
  | _ => simp [h.applyNamed_eq, applySymbol, h.isType, hne, hx]

/-- An alias takes no arguments, or one for each of its parameters. -/
lemma count_of_takes (h : s.Declares name x t) (ha : x.origin = .typeAlias a) {k : ℕ}
    (htakes : s.Takes file (name, k)) : k = 0 ∨ k = a.typeParams.length := by
  obtain ⟨ts, r, rfl, hok⟩ := htakes
  by_cases hne : ts = []
  · exact .inl (by simp [hne])
  · rw [h.applyNamed_alias ha hne, applyAlias_eq_ok] at hok
    exact .inr hok.1.symm

end Declares

/-- An alias is applied to as many arguments as it has parameters, wherever it stands in an
annotation that means something, and then leaves none of its parameters in what the annotation
means. Any other declared type takes every number of arguments: its parameters are bound to those
at their positions, and a parameter without one stays wherever it is mentioned. Without arguments
an alias is its body, parameters and all. -/
theorem arity_checked_for_aliases_only (h : s.Declares name x t) (file : String)
    (place : Location) :
    (∀ a, x.origin = .typeAlias a →
      (∀ b r, s.resolve file b = .ok r → ∀ k, (name, k) ∈ b.applications →
        k = 0 ∨ k = a.typeParams.length) ∧
      (∀ args, args ≠ [] → ((∃ r, s.resolve file (.named place name args) = .ok r) ↔
        (∃ ts, s.resolveAll file args = .ok ts) ∧ args.length = a.typeParams.length)) ∧
      ∀ args ts r, args ≠ [] → s.resolveAll file args = .ok ts →
        s.resolve file (.named place name args) = .ok r → ∀ n, Ty.Mentions n r →
          (∃ u ∈ ts, Ty.Mentions n u) ∨
            Ty.Mentions n t ∧ n ∉ a.typeParams.map TypeParamDecl.name) ∧
    (x.isAlias = false → ∀ args ts, args ≠ [] → s.resolveAll file args = .ok ts →
      s.resolve file (.named place name args) = .ok (.generic t ts) ∧
      ∃ bound, (Ty.generic t ts).applied = (t, bound) ∧
        ((t.typeParams.map TypeParam.name).Nodup →
          ∀ (i : ℕ) (p : TypeParam), t.typeParams[i]? = some p →
            bound.get? p.name = ts[i]? ∧
            (s.Canonical → ts.length ≤ i → ∀ u : Ty, u.Canonical → Ty.Mentions p.name u →
              Ty.Occurs p.name (u.substitute bound)))) ∧
    s.resolve file (.named place name []) = .ok t := by
  refine ⟨fun a ha => ⟨?_, ?_, ?_⟩, ?_, ?_⟩
  · intro b r hb k hk
    exact h.count_of_takes ha (takes_of_resolve b r hb _ hk)
  · intro args hne
    constructor
    · rintro ⟨r, hr⟩
      obtain ⟨ts, hts, hnamed⟩ := resolve_named_eq_ok hr
      have hcount := h.count_of_takes ha ⟨ts, r, length_of_resolveAll hts, hnamed⟩
      exact ⟨⟨ts, hts⟩, hcount.resolve_left fun hzero => hne (List.length_eq_zero_iff.1 hzero)⟩
    · rintro ⟨⟨ts, hts⟩, hcount⟩
      rw [resolve_named hts, h.applyNamed_alias ha (ne_nil_of_resolveAll hts hne)]
      have hlen : a.typeParams.length = ts.length :=
        hcount.symm.trans (length_of_resolveAll hts).symm
      exact ⟨_, applyAlias_eq_ok.2 ⟨hlen, rfl⟩⟩
  · intro args ts r hne hts hr n hn
    rw [resolve_named hts, h.applyNamed_alias ha (ne_nil_of_resolveAll hts hne)] at hr
    exact mentions_of_applyAlias hr hn
  · intro ha args ts hne hts
    rw [resolve_named hts, h.applyNamed_of_not_isAlias ha (ne_nil_of_resolveAll hts hne)]
    refine ⟨rfl, _, Ty.applied_generic, fun hnodup i p hp => ?_⟩
    have hget : (Subst.zip (t.typeParams.map TypeParam.name) ts).get? p.name = ts[i]? :=
      Subst.get?_zip_of_nodup hnodup (by simp [hp])
    refine ⟨hget, fun hs hlen u hu hmentions => ?_⟩
    exact Ty.occurs_substitute_of_unbound hu (.zip _ (canonical_resolveAll hs file args ts hts))
      hmentions (hget.trans (List.getElem?_eq_none hlen))
  · have hnil : s.resolveAll file [] = .ok [] := rfl
    rw [resolve_named hnil]
    exact h.applyNamed_nil

/-- The class `class Pair<A, B> { first: A; second: B }`. -/
def pair : Class :=
  ⟨"Pair", none, [⟨"first", .param "A", .pub, false, false, "Pair"⟩,
    ⟨"second", .param "B", .pub, false, false, "Pair"⟩], [], none, [⟨"A", none⟩, ⟨"B", none⟩], false⟩

/-- The alias `type Row<T> = T[]`. -/
def row : AliasDecl :=
  ⟨⟨"Row", {}⟩, [⟨"T", .omitted, {}⟩], .array {} (.named {} "T" []), {}⟩

def pairSymbol : Symbol := ⟨0, "Pair", .cls, some (.cls pair), false, .unknown⟩

def rowSymbol : Symbol :=
  ⟨1, "Row", .typeAlias, some (.list (.param "T")), false, .typeAlias row⟩

def pairAndRow : Scopes where
  global := [pairSymbol, rowSymbol]
  nextId := 2

/-- A name applied to so many integers. -/
def ofInts (name : String) (count : ℕ) : Annotation :=
  .named {} name (List.replicate count (.named {} "int" []))

lemma canonical_pairAndRow : pairAndRow.Canonical := by
  have hpair : (Ty.cls pair).Canonical := Ty.canonical_cls.2 (by simp [pair, TypeParam.bounds])
  rintro x ⟨i, hx⟩ t ht
  cases i with
  | none =>
    obtain rfl | hx := List.mem_cons.1 hx
    · exact Option.some.inj ht ▸ hpair
    · obtain rfl := List.mem_singleton.1 hx
      obtain rfl := Option.some.inj ht
      simp
  | some i => simp [slot, scope, pairAndRow] at hx

/-- Rows of rows are accepted, rows of two types are not, and of a pair with one argument the
second type is still a parameter. -/
theorem rows_and_pairs_applied :
    pairAndRow.Declares "Row" rowSymbol (.list (.param "T")) ∧
    pairAndRow.Declares "Pair" pairSymbol (.cls pair) ∧
    (∃ r, pairAndRow.resolve "m" (.named {} "Row" [ofInts "Row" 1]) = .ok r) ∧
    (¬ ∃ r, pairAndRow.resolve "m" (.named {} "Row" [ofInts "Row" 1, ofInts "int" 0]) = .ok r) ∧
    ∃ bound, (Ty.generic (.cls pair) [.int]).applied = (.cls pair, bound) ∧
      bound.get? "A" = some .int ∧ Ty.Occurs "B" ((Ty.param "B").substitute bound) := by
  have hrow : pairAndRow.Declares "Row" rowSymbol (.list (.param "T")) := ⟨rfl, rfl, rfl⟩
  have hpair : pairAndRow.Declares "Pair" pairSymbol (.cls pair) := ⟨rfl, rfl, rfl⟩
  obtain ⟨-, haccepted, -⟩ := (arity_checked_for_aliases_only hrow "m" {}).1 row rfl
  obtain ⟨-, bound, happlied, hbound⟩ := (arity_checked_for_aliases_only hpair "m" {}).2.1 rfl
    [ofInts "int" 0] [.int] (by simp) rfl
  have hnodup : ((Ty.cls pair).typeParams.map TypeParam.name).Nodup := by decide
  refine ⟨hrow, hpair, (haccepted _ (by simp)).2 ⟨⟨_, rfl⟩, rfl⟩, fun h => ?_, bound, happlied,
    (hbound hnodup 0 ⟨"A", none⟩ rfl).1, ?_⟩
  · cases ((haccepted _ (by simp)).1 h).2
  · exact (hbound hnodup 1 ⟨"B", none⟩ rfl).2 canonical_pairAndRow (by decide) _
      (Ty.canonical_param "B") .here

/-- A class of two parameters takes one argument and takes three, and an alias that is not applied
has its parameter in it. -/
theorem counts_missed :
    (pair.typeParams.length = 2 ∧
      pairAndRow.resolve "m" (ofInts "Pair" 1) = .ok (.generic (.cls pair) [.int]) ∧
      pairAndRow.resolve "m" (ofInts "Pair" 3) = .ok (.generic (.cls pair) [.int, .int, .int])) ∧
    row.typeParams.map TypeParamDecl.name = ["T"] ∧
      ∃ r, pairAndRow.resolve "m" (ofInts "Row" 0) = .ok r ∧ Ty.Mentions "T" r :=
  ⟨⟨rfl, rfl, rfl⟩, rfl, _, rfl, .inside List.mem_cons_self List.not_mem_nil .here⟩

end Scopes

end TypedScript
