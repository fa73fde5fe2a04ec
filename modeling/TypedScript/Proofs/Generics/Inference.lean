import TypedScript.Proofs.Canonical.Operations

/-!
# Type arguments found from instances

Matching a parameter type against an argument is a walk over both that comes upon type
parameters, each with the part of the argument that stands at its place. What is bound in the
end only depends on these encounters.

If the argument is an instance of the parameter type, every encounter is with the type that the
instance was made with, so that a name met twice is met with the same type. The one place where
the two walks get out of step is a nullable: an instance may have fewer of them than the
parameter type, since a nullable is never made nullable again. The argument then is what comes
of the parameter type without some of the nullables around it.
-/
namespace TypedScript

/-! ## Bindings -/

namespace Subst

variable {r s : Subst} {declared : List String} {name other : String} {t : Ty} {b : String × Ty}

@[simp] lemma get?_bind_self : (s.bind name t).get? name = some t := by
  have hfind := ByName.find?_insert_self Prod.fst (name, t) s
  simp only [get?, bind, hfind, Option.map_some]

lemma get?_bind_of_ne (h : other ≠ name) : (s.bind name t).get? other = s.get? other := by
  have hfind := ByName.find?_insert_of_ne Prod.fst (name, t) other s h
  simp only [get?, bind, hfind]

lemma get?_infer_of_ne (h : other ≠ name) : (s.infer name t).get? other = s.get? other := by
  unfold infer
  split
  · exact get?_bind_of_ne h
  · split
    · split
      · exact get?_bind_of_ne h
      · rfl
    · rfl
  · rfl

/-- A name stays unbound only until an argument determines it. -/
lemma isSome_get?_infer : ((s.infer name t).get? name).isSome = true := by
  unfold infer
  split
  · simp
  · rename_i hbound
    split
    · split
      · simp
      · simp [hbound]
    · simp [hbound]
  · rename_i hbound
    simp [hbound]

/-- An argument that says again what is known changes nothing. -/
lemma get?_infer_of_eq (h : s.get? name = some t) : (s.infer name t).get? name = some t := by
  unfold infer
  split
  · simp
  · rename_i p hbound
    obtain rfl : .prim p = t := Option.some.inj (hbound.symm.trans h)
    dsimp only
    split
    · simp [Prim.wider]
    · exact h
  · exact h

lemma get?_infer_of_none (h : s.get? name = none) : (s.infer name t).get? name = some t := by
  simp [infer, h]

/-- Take what stands at the place of a type parameter for its type, if it is declared. -/
def learn (declared : List String) (s : Subst) (b : String × Ty) : Subst :=
  if declared.contains b.1 then s.infer b.1 b.2 else s

lemma isSome_get?_learn : ((s.learn declared b).get? name).isSome = true ↔
    (s.get? name).isSome = true ∨ (name ∈ declared ∧ b.1 = name) := by
  unfold learn
  by_cases hname : b.1 = name
  · subst hname
    by_cases hdeclared : b.1 ∈ declared
    · simp [hdeclared, isSome_get?_infer]
    · simp [hdeclared]
  · split
    · simp [get?_infer_of_ne (Ne.symm hname), hname]
    · simp [hname]

/-- What is bound after some encounters. -/
lemma isSome_get?_foldl_learn {bs : List (String × Ty)} :
    ((bs.foldl (learn declared) s).get? name).isSome = true ↔
      (s.get? name).isSome = true ∨ (name ∈ declared ∧ ∃ b ∈ bs, b.1 = name) := by
  induction bs generalizing s with
  | nil => simp
  | cons b bs ih =>
    rw [List.foldl_cons, ih, isSome_get?_learn]
    simp only [List.exists_mem_cons_iff]
    tauto

/-- Each name that is bound is bound to the same type by the other bindings. -/
def AgreesWith (r s : Subst) : Prop := ∀ name t, r.get? name = some t → s.get? name = some t

lemma AgreesWith.learn (h : r.AgreesWith s) (hb : b.1 ∈ declared → s.get? b.1 = some b.2) :
    (r.learn declared b).AgreesWith s := by
  unfold Subst.learn
  split
  case isFalse => exact h
  case isTrue hdeclared =>
    have hb := hb (by simpa using hdeclared)
    intro name t ht
    by_cases hname : name = b.1
    · subst hname
      have hsame : (r.infer b.1 b.2).get? b.1 = some b.2 := by
        cases hr : r.get? b.1 with
        | none => exact get?_infer_of_none hr
        | some u =>
          obtain rfl : u = b.2 := Option.some.inj ((h _ _ hr).symm.trans hb)
          exact get?_infer_of_eq hr
      rw [← ht, hsame, hb]
    · rw [get?_infer_of_ne hname] at ht
      exact h name t ht

lemma AgreesWith.foldl_learn {bs : List (String × Ty)} (h : r.AgreesWith s)
    (hbs : ∀ b ∈ bs, b.1 ∈ declared → s.get? b.1 = some b.2) :
    (bs.foldl (Subst.learn declared) r).AgreesWith s := by
  induction bs generalizing r with
  | nil => exact h
  | cons b bs ih =>
    obtain ⟨hb, hbs⟩ := List.forall_mem_cons.1 hbs
    exact ih (h.learn hb) hbs

end Subst

/-! ## Encounters -/

mutual

/-- The type parameters that matching a parameter type against an argument comes upon, with what
stands at their place in the argument. -/
def Ty.encounters : Ty → Ty → List (String × Ty)
  | .param name, arg => [(name, arg)]
  | .list p, arg =>
    match arg with
    | .list a => p.encounters a
    | _ => []
  | .map k v, arg =>
    match arg with
    | .map l w => k.encounters l ++ v.encounters w
    | _ => []
  | .nullable p, arg =>
    match arg with
    | .nullable a => p.encounters a
    | a => if a.isNull then [] else p.encounters a
  | .future p, arg =>
    match arg with
    | .future a => p.encounters a
    | _ => []
  | .function ⟨params, result, _, _⟩, arg =>
    match arg with
    | .function o =>
      if o.params.length = params.length then
        Ty.encountersInParams params o.params ++ result.encounters o.result
      else []
    | _ => []
  | .generic base args, arg =>
    match arg with
    | .generic b as =>
      if as.length = args.length && base.equals b then Ty.encountersInAll args as else []
    | _ => []
  | _, _ => []
termination_by structural t => t

def Ty.encountersInAll : List Ty → List Ty → List (String × Ty)
  | p :: ps, a :: as => p.encounters a ++ Ty.encountersInAll ps as
  | _, _ => []
termination_by structural ts => ts

def Ty.encountersInParams : List Param → List Param → List (String × Ty)
  | ⟨_, p⟩ :: ps, a :: as => p.encounters a.type ++ Ty.encountersInParams ps as
  | _, _ => []
termination_by structural ps => ps

end

namespace Ty

/-- The type without the nullable around it, where there is one. -/
def inside : Ty → Ty
  | nullable t => t
  | t => t

variable (declared : List String)

lemma unify_nullable {p a : Ty} {s : Subst} : (nullable p).unify declared a s =
    if a.isNull then s else p.unify declared a.inside s := by
  cases a <;> rfl

lemma encounters_nullable {p a : Ty} :
    (nullable p).encounters a = if a.isNull then [] else p.encounters a.inside := by
  cases a <;> rfl

mutual

/-- Matching learns from its encounters, one after the other. -/
lemma unify_eq_foldl : (p : Ty) → ∀ (a : Ty) (s : Subst),
    p.unify declared a s = (p.encounters a).foldl (Subst.learn declared) s
  | .param name => fun a s => rfl
  | .list p => fun a s => by
    cases a with
    | list a => exact unify_eq_foldl p a s
    | _ => rfl
  | .map k v => fun a s => by
    cases a with
    | map l w =>
      change v.unify declared w (k.unify declared l s) =
        (k.encounters l ++ v.encounters w).foldl (Subst.learn declared) s
      rw [List.foldl_append, ← unify_eq_foldl k, ← unify_eq_foldl v]
    | _ => rfl
  | .nullable p => fun a s => by
    rw [unify_nullable, encounters_nullable]
    split
    · rfl
    · exact unify_eq_foldl p a.inside s
  | .future p => fun a s => by
    cases a with
    | future a => exact unify_eq_foldl p a s
    | _ => rfl
  | .function ⟨params, result, _, _⟩ => fun a s => by
    cases a with
    | function o =>
      unfold unify encounters
      dsimp only
      split
      · rw [List.foldl_append, ← unifyParams_eq_foldl params, ← unify_eq_foldl result]
      · rfl
    | _ => rfl
  | .generic base args => fun a s => by
    cases a with
    | generic b as =>
      unfold unify encounters
      dsimp only
      split
      · exact unifyAll_eq_foldl args as s
      · rfl
    | _ => rfl
  | .prim _ | .union _ | .interface _ | .cls _ | .enum _ | .ref _ _ => fun _ _ => rfl
termination_by structural p => p

lemma unifyAll_eq_foldl : (ps : List Ty) → ∀ (as : List Ty) (s : Subst),
    unifyAll declared ps as s = (encountersInAll ps as).foldl (Subst.learn declared) s
  | [] => fun _ _ => rfl
  | p :: ps => fun as s => by
    cases as with
    | nil => rfl
    | cons a as =>
      change unifyAll declared ps as (p.unify declared a s) =
        (p.encounters a ++ encountersInAll ps as).foldl (Subst.learn declared) s
      rw [List.foldl_append, ← unify_eq_foldl p, ← unifyAll_eq_foldl ps]
termination_by structural ps => ps

lemma unifyParams_eq_foldl : (ps : List Param) → ∀ (as : List Param) (s : Subst),
    unifyParams declared ps as s = (encountersInParams ps as).foldl (Subst.learn declared) s
  | [] => fun _ _ => rfl
  | ⟨_, p⟩ :: ps => fun as s => by
    cases as with
    | nil => rfl
    | cons a as =>
      change unifyParams declared ps as (p.unify declared a.type s) =
        (p.encounters a.type ++ encountersInParams ps as).foldl (Subst.learn declared) s
      rw [List.foldl_append, ← unify_eq_foldl p, ← unifyParams_eq_foldl ps]
termination_by structural ps => ps

end

/-! ## Places that matching comes to -/

/-- The parts that matching goes into. -/
def openParts : Ty → List Ty
  | list t => [t]
  | map k v => [k, v]
  | nullable t => [t]
  | future t => [t]
  | function sig => sig.params.map Param.type ++ [sig.result]
  | generic _ args => args
  | _ => []

/-- A type stands in another at a place that is reached only through lists, maps, nullables,
futures, parameters and results of functions and arguments of generics. -/
inductive StandsIn (u : Ty) : Ty → Prop
  | here : StandsIn u u
  | inside {t p : Ty} : p ∈ t.openParts → StandsIn u p → StandsIn u t

lemma standsIn_iff {u t : Ty} : u.StandsIn t ↔ u = t ∨ ∃ p ∈ t.openParts, u.StandsIn p := by
  constructor
  · rintro (_ | ⟨hp, h⟩)
    · exact .inl rfl
    · exact .inr ⟨_, hp, h⟩
  · rintro (rfl | ⟨p, hp, h⟩)
    · exact .here
    · exact .inside hp h

lemma mem_parts_of_mem_openParts {t p : Ty} (h : p ∈ t.openParts) : p ∈ t.parts := by
  cases t with
  | list t => exact h
  | map k v => exact h
  | nullable t => exact h
  | future t => exact h
  | function sig =>
    simp only [openParts, List.mem_append, List.mem_singleton] at h
    obtain h | rfl := h
    · exact List.mem_append_left _ h
    · exact result_mem_parts
  | generic base args => exact List.mem_cons_of_mem _ h
  | _ => exact absurd h List.not_mem_nil

/-- What matching asks of a parameter type to find its way through an instance: the functions it
comes to declare no type parameters, and shapes name each property once. -/
structure IsPattern (p : Ty) : Prop where
  plain : ∀ sig, (function sig).StandsIn p → sig.typeParams = []
  shapes : p.Everywhere NamesOnce

lemma IsPattern.part {p q : Ty} (h : p.IsPattern) (hq : q ∈ p.openParts) : q.IsPattern where
  plain sig hsig := h.plain sig (.inside hq hsig)
  shapes := h.shapes.part (mem_parts_of_mem_openParts hq)

/-! ## Instances and their nullables -/

/-- What is left of a type without some of the nullables around it. -/
inductive Unwraps : Ty → Ty → Prop
  | refl {t : Ty} : Unwraps t t
  | nullable {t a : Ty} : Unwraps t a → Unwraps (nullable t) a

namespace Unwraps

variable {t a : Ty}

lemma eq (h : t.Unwraps a) (ht : t.kind ≠ .nullable) : a = t := by
  cases h with
  | refl => rfl
  | nullable => exact absurd rfl ht

lemma inside (h : t.Unwraps a) : t.Unwraps a.inside := by
  induction h with
  | @refl t =>
    cases t with
    | nullable t => exact .nullable .refl
    | _ => exact .refl
  | nullable _ ih => exact .nullable ih

/-- Whatever is left of a type that was made nullable is null or has what is left of the type
inside. -/
lemma of_orNull (h : t.orNull.Unwraps a) (ha : a ≠ null) : t.Unwraps a.inside := by
  unfold orNull at h
  split at h
  · exact h.inside
  · exact absurd (h.eq (by simp [kind])) ha
  · cases h with
    | refl => exact .refl
    | nullable h => exact h.inside

lemma null_of_orNull (h : t.orNull.Unwraps null) : t.Unwraps null := by
  unfold orNull at h
  split at h
  · exact h
  · exact .refl
  · cases h with
    | nullable h => exact h

end Unwraps

section Instance

variable {s : Subst} {p q a t : Ty} {b : String × Ty} {name : String}

lemma length_substituteAll (s : Subst) (ts : List Ty) :
    (substituteAll s ts).length = ts.length := by
  induction ts with
  | nil => rfl
  | cons t ts ih => simp [substituteAll, ih]

lemma length_substituteParams (s : Subst) (ps : List Param) :
    (substituteParams s ps).length = ps.length := by
  induction ps with
  | nil => rfl
  | cons p ps ih =>
    obtain ⟨name, t⟩ := p
    simp [substituteParams, ih]

lemma mem_encountersInAll {ts : List Ty} : b ∈ encountersInAll ts (substituteAll s ts) ↔
    ∃ t ∈ ts, b ∈ t.encounters (t.substituteIn s) := by
  induction ts with
  | nil => simp [encountersInAll]
  | cons t ts ih => simp [encountersInAll, substituteAll, ih]

lemma mem_encountersInParams {ps : List Param} :
    b ∈ encountersInParams ps (substituteParams s ps) ↔
      ∃ p ∈ ps, b ∈ p.type.encounters (p.type.substituteIn s) := by
  induction ps with
  | nil => simp [encountersInParams]
  | cons p ps ih =>
    obtain ⟨name, t⟩ := p
    simp [encountersInParams, substituteParams, ih]

lemma substituteIn_function {sig : Signature} (hs : s ≠ []) (hplain : sig.typeParams = []) :
    (function sig).substituteIn s = function ⟨substituteParams s sig.params,
      sig.result.substituteIn s, sig.isVariadic, []⟩ := by
  obtain ⟨params, result, isVariadic, typeParams⟩ := sig
  obtain rfl : typeParams = [] := hplain
  have hwithout : s.without [] = s := by simp [Subst.without]
  simp [substituteIn, hwithout, hs]

/-- Matching a parameter type other than a single type parameter against one of its instances
matches each open part against one of the part's instances. -/
lemma mem_encounters_iff (hs : s ≠ []) (hp : p.IsPattern) (hparam : p.kind ≠ .param)
    (ha : (p.substituteIn s).Unwraps a) (hnull : a ≠ null) :
    ∃ arg : Ty → Ty, (∀ q ∈ p.openParts, (q.substituteIn s).Unwraps (arg q)) ∧
      ∀ b, b ∈ p.encounters a ↔ ∃ q ∈ p.openParts, b ∈ q.encounters (arg q) := by
  cases p with
  | list t =>
    obtain rfl := ha.eq (by simp [substituteIn, kind])
    exact ⟨substituteIn s, fun _ _ => .refl, fun b => by simp [encounters, substituteIn, openParts]⟩
  | map k v =>
    obtain rfl := ha.eq (by simp [substituteIn, kind])
    exact ⟨substituteIn s, fun _ _ => .refl, fun b => by simp [encounters, substituteIn, openParts]⟩
  | future t =>
    obtain rfl := ha.eq (by simp [substituteIn, kind])
    exact ⟨substituteIn s, fun _ _ => .refl, fun b => by simp [encounters, substituteIn, openParts]⟩
  | nullable t =>
    have hkept : a.isNull = false := Bool.eq_false_iff.2 fun h => hnull (isNull_iff.1 h)
    refine ⟨fun _ => a.inside, fun q hq => ?_, fun b => ?_⟩
    · obtain rfl := List.mem_singleton.1 hq
      exact Unwraps.of_orNull ha hnull
    · simp [encounters_nullable, hkept, openParts]
  | function sig =>
    have hplain := hp.plain sig .here
    rw [substituteIn_function hs hplain] at ha
    obtain rfl := ha.eq (by simp [kind])
    obtain ⟨params, result, isVariadic, typeParams⟩ := sig
    refine ⟨substituteIn s, fun _ _ => .refl, fun b => ?_⟩
    simp [encounters, length_substituteParams, mem_encountersInParams, openParts, or_and_right,
      exists_or]
  | generic base args =>
    have hbase : base.equals base = true := equals_self (hp.shapes.part List.mem_cons_self)
    obtain rfl := ha.eq (by simp [substituteIn, kind])
    refine ⟨substituteIn s, fun _ _ => .refl, fun b => ?_⟩
    simp [encounters, substituteIn, length_substituteAll, hbase, mem_encountersInAll, openParts]
  | param name => exact absurd rfl hparam
  | _ => exact ⟨substituteIn s, fun _ _ => .refl, fun b => by simp [encounters, openParts]⟩

/-- Every encounter in an instance is with the type that the instance was made with. -/
lemma eq_of_mem_encounters (hs : s ≠ [])
    (hvalues : ∀ name t, s.get? name = some t → t.kind ≠ .nullable) (hp : p.IsPattern)
    (ha : (p.substituteIn s).Unwraps a) (hb : b ∈ p.encounters a) (ht : s.get? b.1 = some t) :
    b.2 = t := by
  induction p using induction_on_parts generalizing a with
  | step p ih =>
    by_cases hparam : p.kind = .param
    · cases p with
      | param name =>
        obtain rfl := List.mem_singleton.1 hb
        have hsubst : (param name).substituteIn s = t := by simp [substituteIn, ht]
        rw [hsubst] at ha
        exact ha.eq (hvalues name t ht)
      | _ => cases hparam
    · by_cases hnull : a = null
      · subst hnull
        cases p with
        | param name => exact absurd rfl hparam
        | function sig =>
          obtain ⟨params, result, isVariadic, typeParams⟩ := sig
          cases hb
        | _ => cases hb
      · obtain ⟨arg, harg, hmem⟩ := mem_encounters_iff hs hp hparam ha hnull
        obtain ⟨q, hq, hbq⟩ := (hmem b).1 hb
        exact ih q (mem_parts_of_mem_openParts hq) (hp.part hq) (harg q hq) hbq

/-- Where the type that stands for a type parameter is not null, neither is an instance that the
parameter stands in. -/
lemma ne_null_of_standsIn (h : (param name).StandsIn p) (ht : s.get? name = some t)
    (hnull : t ≠ null) (hkind : t.kind ≠ .nullable) (ha : (p.substituteIn s).Unwraps a) :
    a ≠ null := by
  induction h generalizing a with
  | here =>
    have hsubst : (param name).substituteIn s = t := by simp [substituteIn, ht]
    rw [hsubst] at ha
    rwa [ha.eq hkind]
  | @inside p q hq _ ih =>
    rintro rfl
    cases p with
    | nullable x =>
      obtain rfl := List.mem_singleton.1 hq
      exact ih (Unwraps.null_of_orNull ha) rfl
    | function sig =>
      obtain ⟨params, result, isVariadic, typeParams⟩ := sig
      simp only [substituteIn] at ha
      split at ha
      · cases ha
      · cases ha
    | list x => cases ha
    | map k v => cases ha
    | future x => cases ha
    | generic base args => cases ha
    | _ => exact absurd hq List.not_mem_nil

/-- A type parameter that stands in a parameter type is met in every instance. -/
lemma exists_mem_encounters (h : (param name).StandsIn p) (hp : p.IsPattern)
    (ht : s.get? name = some t) (hnull : t ≠ null) (hkind : t.kind ≠ .nullable)
    (ha : (p.substituteIn s).Unwraps a) : ∃ b ∈ p.encounters a, b.1 = name := by
  have hs : s ≠ [] := by
    rintro rfl
    cases ht
  induction h generalizing a with
  | here => exact ⟨(name, a), List.mem_singleton.2 rfl, rfl⟩
  | @inside p q hq hstands ih =>
    have hparam : p.kind ≠ .param := by
      cases p with
      | param name => exact absurd hq List.not_mem_nil
      | _ => simp [kind]
    have ha' := ne_null_of_standsIn (.inside hq hstands) ht hnull hkind ha
    obtain ⟨arg, harg, hmem⟩ := mem_encounters_iff hs hp hparam ha ha'
    obtain ⟨b, hb, hname⟩ := ih (hp.part hq) (harg q hq)
    exact ⟨b, (hmem b).2 ⟨q, hq, hb⟩, hname⟩

end Instance

end Ty

/-! ## Type arguments -/

namespace TypeParam

variable {declared : List TypeParam} {pairs : List (Ty × Ty)} {s : Subst} {name : String} {t : Ty}

/-- Give a parameter that has no type yet the one for want of others. -/
def settle (s : Subst) (p : TypeParam) : Subst :=
  if (s.get? p.name).isSome then s else s.bind p.name p.fallback

lemma inferArguments_eq_foldl : inferArguments declared pairs =
    declared.foldl settle ((pairs.flatMap fun p => p.1.encounters p.2).foldl
      (Subst.learn (declared.map TypeParam.name)) []) := by
  unfold inferArguments
  dsimp only
  congr 1
  · funext s p
    unfold settle
    cases s.get? p.name <;> rfl
  · rw [List.foldl_flatMap]
    congr 1
    funext s p
    exact Ty.unify_eq_foldl _ p.1 p.2 s

lemma get?_settle_of_some {p : TypeParam} (h : s.get? name = some t) :
    (settle s p).get? name = some t := by
  unfold settle
  split
  case isTrue => exact h
  case isFalse hnone =>
    rw [Subst.get?_bind_of_ne, h]
    rintro rfl
    simp [h] at hnone

/-- A type that was found stays when the other parameters get theirs. -/
lemma get?_foldl_settle_of_some (h : s.get? name = some t) :
    (declared.foldl settle s).get? name = some t := by
  induction declared generalizing s with
  | nil => exact h
  | cons p declared ih => exact ih (get?_settle_of_some h)

lemma isSome_get?_foldl_settle : ((declared.foldl settle s).get? name).isSome = true ↔
    (s.get? name).isSome = true ∨ name ∈ declared.map TypeParam.name := by
  induction declared generalizing s with
  | nil => simp
  | cons p declared ih =>
    have hstep : ((settle s p).get? name).isSome = true ↔
        (s.get? name).isSome = true ∨ name = p.name := by
      unfold settle
      by_cases hname : name = p.name
      · subst hname
        split
        case isTrue hbound => simp [hbound]
        case isFalse => simp
      · split
        · simp [hname]
        · simp [Subst.get?_bind_of_ne hname, hname]
    rw [List.foldl_cons, ih, hstep, List.map_cons, List.mem_cons, or_assoc]

/-- Whatever the arguments, exactly the declared names are bound. -/
lemma isSome_get?_inferArguments : ((inferArguments declared pairs).get? name).isSome = true ↔
    name ∈ declared.map TypeParam.name := by
  rw [inferArguments_eq_foldl, isSome_get?_foldl_settle, Subst.isSome_get?_foldl_learn]
  constructor
  · rintro ((hnone | ⟨hname, -⟩) | hname)
    · cases hnone
    · exact hname
    · exact hname
  · exact .inr

/-- A parameter that stands in one of the parameter types gets the type that the instances were
made with. -/
lemma get?_inferArguments_of_standsIn {params : List Ty} {p : Ty}
    (hpatterns : ∀ p ∈ params, p.IsPattern)
    (hdeclared : ∀ name, (s.get? name).isSome = true ↔ name ∈ declared.map TypeParam.name)
    (hvalues : ∀ name t, s.get? name = some t → t ≠ .null ∧ t.kind ≠ .nullable)
    (hp : p ∈ params) (hstands : (Ty.param name).StandsIn p) (ht : s.get? name = some t) :
    (inferArguments declared (params.map fun p => (p, p.substitute s))).get? name = some t := by
  have hs : s ≠ [] := by
    rintro rfl
    cases ht
  have hinstance : ∀ p : Ty, p.substitute s = p.substituteIn s := by simp [Ty.substitute, hs]
  simp only [inferArguments_eq_foldl, List.flatMap_map, hinstance]
  apply get?_foldl_settle_of_some
  generalize hbs : (params.flatMap fun p => p.encounters (p.substituteIn s)) = bs
  have hagrees : (bs.foldl (Subst.learn (declared.map TypeParam.name)) []).AgreesWith s := by
    refine Subst.AgreesWith.foldl_learn (fun _ _ h => by cases h) fun b hb hname => ?_
    obtain ⟨u, hu⟩ := Option.isSome_iff_exists.1 ((hdeclared b.1).2 hname)
    obtain ⟨q, hq, hbq⟩ := List.mem_flatMap.1 (hbs ▸ hb)
    rw [hu, Ty.eq_of_mem_encounters hs (fun name t h => (hvalues name t h).2) (hpatterns q hq)
      .refl hbq hu]
  have hfound : ((bs.foldl (Subst.learn (declared.map TypeParam.name)) []).get? name).isSome =
      true := by
    obtain ⟨hnull, hkind⟩ := hvalues name t ht
    obtain ⟨b, hb, hname⟩ := Ty.exists_mem_encounters hstands (hpatterns p hp) ht hnull hkind .refl
    have hmem : b ∈ bs := hbs ▸ List.mem_flatMap.2 ⟨p, hp, hb⟩
    exact Subst.isSome_get?_foldl_learn.2 (.inr ⟨(hdeclared name).1 (by simp [ht]), b, hmem, hname⟩)
  obtain ⟨u, hu⟩ := Option.isSome_iff_exists.1 hfound
  rw [hu, ← hagrees name u hu, ht]

/-- Let parameter types be instantiated by types for exactly the declared names, each canonical
and neither null nor nullable. Type arguments found from these instances are for exactly the
declared names, and each name that stands in one of the parameter types in a place that matching
comes to gets a type equal to its own. -/
theorem inference_inverts_substitution {params : List Ty}
    (hplain : ∀ p ∈ params, ∀ sig, (Ty.function sig).StandsIn p → sig.typeParams = [])
    (hshapes : ∀ p ∈ params, p.Everywhere Ty.NamesOnce)
    (hdeclared : ∀ name, (s.get? name).isSome = true ↔ name ∈ declared.map TypeParam.name)
    (hvalues : ∀ name t, s.get? name = some t → t.Canonical ∧ t ≠ .null ∧ t.kind ≠ .nullable) :
    (∀ name, ((inferArguments declared (params.map fun p => (p, p.substitute s))).get?
        name).isSome = true ↔ name ∈ declared.map TypeParam.name) ∧
      ∀ name ∈ declared.map TypeParam.name, (∃ p ∈ params, (Ty.param name).StandsIn p) →
        ∃ t u, s.get? name = some t ∧
          (inferArguments declared (params.map fun p => (p, p.substitute s))).get? name = some u ∧
          u.equals t = true := by
  refine ⟨fun name => isSome_get?_inferArguments, fun name hname hstands => ?_⟩
  obtain ⟨p, hp, hstands⟩ := hstands
  obtain ⟨t, ht⟩ := Option.isSome_iff_exists.1 ((hdeclared name).2 hname)
  have hpatterns : ∀ p ∈ params, p.IsPattern := fun p hp => ⟨hplain p hp, hshapes p hp⟩
  have hfound := get?_inferArguments_of_standsIn hpatterns hdeclared
    (fun name t h => (hvalues name t h).2) hp hstands ht
  exact ⟨t, t, ht, hfound, Ty.equals_refl (hvalues name t ht).1.proper⟩

/-- The type of a function that looks for an item of a list. -/
def finder : Ty :=
  .function ⟨[⟨"items", .list (.param "T")⟩], .nullable (.param "T"), false, []⟩

theorem repeated_parameter_found_again :
    (∀ sig, (Ty.function sig).StandsIn finder → sig.typeParams = []) ∧
      finder.Everywhere Ty.NamesOnce ∧
      (∀ name, (Subst.get? [("T", .int)] name).isSome = true ↔
        name ∈ [TypeParam.mk "T" none].map TypeParam.name) ∧
      (∀ name t, Subst.get? [("T", .int)] name = some t →
        t.Canonical ∧ t ≠ .null ∧ t.kind ≠ .nullable) ∧
      (Ty.param "T").StandsIn finder ∧
      ∃ t u, Subst.get? [("T", .int)] "T" = some t ∧
        (inferArguments [⟨"T", none⟩]
          ([finder].map fun p => (p, p.substitute [("T", .int)]))).get? "T" = some u ∧
        u.equals t = true := by
  have hplain : ∀ sig, (Ty.function sig).StandsIn finder → sig.typeParams = [] := by
    intro sig h
    simp [finder, Ty.standsIn_iff (t := .function _), Ty.standsIn_iff (t := .list _),
      Ty.standsIn_iff (t := .nullable _), Ty.standsIn_iff (t := .param _), Ty.openParts] at h
    rw [h]
  have hshapes : finder.Everywhere Ty.NamesOnce := by
    simp [finder, Ty.everywhere_iff (t := .function _), Ty.everywhere_iff (t := .param _),
      Ty.parts, TypeParam.bounds, Ty.NamesOnce]
  have hdeclared : ∀ name, (Subst.get? [("T", .int)] name).isSome = true ↔
      name ∈ [TypeParam.mk "T" none].map TypeParam.name := by
    intro name
    by_cases hname : "T" = name
    · simp [Subst.get?, ByName.find?, hname]
    · simp [Subst.get?, ByName.find?, hname, Ne.symm hname]
  have hvalues : ∀ name t, Subst.get? [("T", .int)] name = some t →
      t.Canonical ∧ t ≠ .null ∧ t.kind ≠ .nullable := by
    intro name t ht
    obtain ⟨b, hb, rfl⟩ := Option.map_eq_some_iff.1 ht
    obtain rfl := List.mem_singleton.1 (ByName.mem_of_find? hb)
    simp [Ty.kind]
  have hstands : (Ty.param "T").StandsIn finder :=
    .inside List.mem_cons_self (.inside List.mem_cons_self .here)
  have hinverts := inference_inverts_substitution (List.forall_mem_singleton.2 hplain)
    (List.forall_mem_singleton.2 hshapes) hdeclared hvalues
  exact ⟨hplain, hshapes, hdeclared, hvalues, hstands,
    hinverts.2 "T" List.mem_cons_self ⟨finder, List.mem_cons_self, hstands⟩⟩

end TypeParam

end TypedScript
