import TypedScript.Proofs.Canonical.Resolution
import TypedScript.Proofs.Canonical.UnionSets

/-!
# Replacing references

Replacing the references in a canonical type comes to making the type anew from its parts,
and equal types stay equal. Of a union this holds up to equality only: two references that
differ may come to mean the same type, which the union then has once.

How often references in replacements are replaced in turn is limited. Where every chain of
references ends within the limit, a higher limit changes nothing.
-/
namespace TypedScript

mutual

/-- The names of the references in a type, as far as they are searched for. -/
def Ty.refNames : Ty → List String
  | .ref name _ => [name]
  | .list t => t.refNames
  | .map k v => k.refNames ++ v.refNames
  | .nullable t => t.refNames
  | .future t => t.refNames
  | .union ms => Ty.allRefNames ms
  | .function ⟨params, result, _, _⟩ => Ty.paramRefNames params ++ result.refNames
  | .generic base args => base.refNames ++ Ty.allRefNames args
  | _ => []
termination_by structural t => t

def Ty.allRefNames : List Ty → List String
  | [] => []
  | t :: ts => t.refNames ++ Ty.allRefNames ts
termination_by structural ts => ts

def Ty.paramRefNames : List Param → List String
  | [] => []
  | ⟨_, t⟩ :: ps => t.refNames ++ Ty.paramRefNames ps
termination_by structural ps => ps

end

namespace Ty

variable {follow other : String → Option Ty} {a b t : Ty} {ts us ms : List Ty}

lemma mem_allRefNames {name : String} : name ∈ allRefNames ts ↔ ∃ t ∈ ts, name ∈ t.refNames := by
  induction ts with
  | nil => simp [allRefNames]
  | cons t ts ih => simp [allRefNames, ih]

lemma mem_paramRefNames {name : String} {ps : List Param} :
    name ∈ paramRefNames ps ↔ ∃ p ∈ ps, name ∈ p.type.refNames := by
  induction ps with
  | nil => simp [paramRefNames]
  | cons p ps ih =>
    obtain ⟨_, t⟩ := p
    simp [paramRefNames, ih]

lemma derefAll_eq_map (follow : String → Option Ty) (ts : List Ty) :
    derefAll follow ts = ts.map (derefBy follow) := by
  induction ts with
  | nil => rfl
  | cons t ts ih => simp [derefAll, ih]

lemma derefParams_eq_map (follow : String → Option Ty) (ps : List Param) :
    derefParams follow ps = ps.map fun p => ⟨p.name, p.type.derefBy follow⟩ := by
  induction ps with
  | nil => rfl
  | cons p ps ih =>
    obtain ⟨name, t⟩ := p
    simp [derefParams, ih]

lemma derefBy_function (follow : String → Option Ty) (sig : Signature) :
    (function sig).derefBy follow = function { sig with
      params := sig.params.map fun p => ⟨p.name, p.type.derefBy follow⟩
      result := sig.result.derefBy follow } := by
  obtain ⟨params, result, isVariadic, typeParams⟩ := sig
  simp [derefBy, derefParams_eq_map]

lemma mem_refNames_function {name : String} {sig : Signature} :
    name ∈ (function sig).refNames ↔
      (∃ p ∈ sig.params, name ∈ p.type.refNames) ∨ name ∈ sig.result.refNames := by
  obtain ⟨params, result, isVariadic, typeParams⟩ := sig
  simp [refNames, mem_paramRefNames]

/-- Only what is given for names that occur matters. -/
lemma derefBy_congr (h : ∀ name ∈ t.refNames, follow name = other name) :
    t.derefBy follow = t.derefBy other := by
  induction t using induction_on_parts with
  | step t ih =>
    cases t with
    | ref name file => simp [derefBy, h name (by simp [refNames])]
    | list a => simp [derefBy, ih a (by simp [parts]) h]
    | map k v =>
      simp only [refNames, List.mem_append, or_imp, forall_and] at h
      simp [derefBy, ih k (by simp [parts]) h.1, ih v (by simp [parts]) h.2]
    | nullable a => simp [derefBy, ih a (by simp [parts]) h]
    | future a => simp [derefBy, ih a (by simp [parts]) h]
    | union ms =>
      have hmembers : derefAll follow ms = derefAll other ms := by
        simp only [derefAll_eq_map]
        refine List.map_congr_left fun m hm => ih m hm fun name hname => ?_
        exact h name (mem_allRefNames.2 ⟨m, hm, hname⟩)
      simp [derefBy, hmembers]
    | function sig =>
      have hparams : ∀ p ∈ sig.params, p.type.derefBy follow = p.type.derefBy other := by
        intro p hp
        refine ih _ (param_mem_parts hp) fun name hname => ?_
        exact h name (mem_refNames_function.2 (.inl ⟨p, hp, hname⟩))
      have hresult : sig.result.derefBy follow = sig.result.derefBy other :=
        ih _ result_mem_parts fun name hname => h name (mem_refNames_function.2 (.inr hname))
      simp only [derefBy_function, hresult]
      congr 2
      exact List.map_congr_left fun p hp => by rw [hparams p hp]
    | generic base args =>
      simp only [refNames, List.mem_append, or_imp, forall_and] at h
      have hargs : derefAll follow args = derefAll other args := by
        simp only [derefAll_eq_map]
        refine List.map_congr_left fun x hx => ih x (List.mem_cons_of_mem _ hx) fun n hn => ?_
        exact h.2 n (mem_allRefNames.2 ⟨x, hx, hn⟩)
      simp [derefBy, ih base List.mem_cons_self h.1, hargs]
    | _ => rfl

/-! ## Types that stay as they are -/

/-- Where nothing is given for any reference, a canonical type stays as it is. -/
lemma derefBy_none (ht : t.Canonical) : t.derefBy (fun _ => none) = t := by
  induction t using induction_on_parts with
  | step t ih =>
    have hall {ts : List Ty} (hparts : ∀ u ∈ ts, u ∈ t.parts) (hts : ∀ u ∈ ts, u.Canonical) :
        derefAll (fun _ => none) ts = ts := by
      rw [derefAll_eq_map]
      exact (List.map_congr_left fun u hu => ih u (hparts u hu) (hts u hu)).trans (List.map_id ts)
    cases t with
    | list a => simp [derefBy, ih a (by simp [parts]) (canonical_list.1 ht)]
    | map k v =>
      obtain ⟨hk, hv⟩ := canonical_map.1 ht
      simp [derefBy, ih k (by simp [parts]) hk, ih v (by simp [parts]) hv]
    | nullable a =>
      simp [derefBy, ih a (by simp [parts]) (canonical_nullable.1 ht).2, orNull_of_canonical ht]
    | future a => simp [derefBy, ih a (by simp [parts]) (canonical_future.1 ht)]
    | union ms =>
      have hmembers : derefAll (fun _ => none) ms = ms :=
        hall (fun _ hm => hm) (canonical_union.1 ht).2
      simp [derefBy, hmembers, unionOf_members ht]
    | function sig =>
      obtain ⟨hparams, hresult, -⟩ := canonical_function.1 ht
      have hsame : sig.params.map (fun p => ⟨p.name, p.type.derefBy fun _ => none⟩) =
          sig.params := by
        refine (List.map_congr_left fun p hp => ?_).trans (List.map_id sig.params)
        rw [ih _ (param_mem_parts hp) (hparams p hp)]
        cases p
        rfl
      rw [derefBy_function, hsame, ih _ result_mem_parts hresult]
      cases sig
      rfl
    | generic base args =>
      obtain ⟨hbase, hargs⟩ := canonical_generic.1 ht
      have hargs := hall (fun _ hx => List.mem_cons_of_mem _ hx) hargs
      simp [derefBy, ih base List.mem_cons_self hbase, hargs]
    | _ => rfl

/-- Where nothing is given for its own references, a canonical type stays as it is. -/
lemma derefBy_eq_self (ht : t.Canonical) (h : ∀ name ∈ t.refNames, follow name = none) :
    t.derefBy follow = t :=
  (derefBy_congr h).trans (derefBy_none ht)

mutual

/-- The search for a reference finds the first one. -/
lemma head?_refNames : (t : Ty) → t.refNames.head? = t.findRef.map Prod.fst
  | .ref _ _ => rfl
  | .list t | .nullable t | .future t => head?_refNames t
  | .map k v => by simp [refNames, findRef, Option.map_or, head?_refNames k, head?_refNames v]
  | .union ms => head?_allRefNames ms
  | .function ⟨params, result, _, _⟩ => by
    simp [refNames, findRef, Option.map_or, head?_paramRefNames params, head?_refNames result]
  | .generic base args => by
    simp [refNames, findRef, Option.map_or, head?_refNames base, head?_allRefNames args]
  | .prim _ | .interface _ | .cls _ | .enum _ | .param _ => rfl
termination_by structural t => t

lemma head?_allRefNames : (ts : List Ty) → (allRefNames ts).head? = (findRefIn ts).map Prod.fst
  | [] => rfl
  | t :: ts => by
    simp [allRefNames, findRefIn, Option.map_or, head?_refNames t, head?_allRefNames ts]
termination_by structural ts => ts

lemma head?_paramRefNames :
    (ps : List Param) → (paramRefNames ps).head? = (findRefInParams ps).map Prod.fst
  | [] => rfl
  | ⟨_, t⟩ :: ps => by
    simp [paramRefNames, findRefInParams, Option.map_or, head?_refNames t,
      head?_paramRefNames ps]
termination_by structural ps => ps

end

lemma refNames_of_findRef (h : t.findRef = none) : t.refNames = [] :=
  List.head?_eq_none_iff.1 (by rw [head?_refNames, h, Option.map_none])

lemma allRefNames_of_findRefIn (h : findRefIn ts = none) : allRefNames ts = [] :=
  List.head?_eq_none_iff.1 (by rw [head?_allRefNames, h, Option.map_none])

/-! ## Types made anew -/

lemma derefBy_nullable (h : (nullable t).Canonical) :
    (nullable t).derefBy follow = (t.derefBy follow).orNull := by
  have hunfold : (nullable t).derefBy follow =
      if t.findRef.isNone then nullable t else (t.derefBy follow).orNull := rfl
  rw [hunfold]
  split
  · rename_i hnone
    have hself : t.derefBy follow = t := by
      refine derefBy_eq_self (canonical_nullable.1 h).2 ?_
      simp [refNames_of_findRef (Option.isNone_iff_eq_none.1 hnone)]
    rw [hself, orNull_of_canonical h]
  · rfl

lemma derefBy_union (h : (union ms).Canonical) :
    (union ms).derefBy follow = unionOf (ms.map (derefBy follow)) := by
  have hunfold : (union ms).derefBy follow =
      if (findRefIn ms).isNone then union ms else unionOf (derefAll follow ms) := rfl
  rw [hunfold, derefAll_eq_map]
  split
  · rename_i hnone
    have hnames := allRefNames_of_findRefIn (Option.isNone_iff_eq_none.1 hnone)
    have hself : ms.map (derefBy follow) = ms := by
      refine (List.map_congr_left fun m hm => ?_).trans (List.map_id ms)
      refine derefBy_eq_self ((canonical_union.1 h).2 m hm) fun name hname => ?_
      have hmem : name ∈ allRefNames ms := mem_allRefNames.2 ⟨m, hm, hname⟩
      simp [hnames] at hmem
    rw [hself, unionOf_members h]
  · rfl

lemma derefBy_orNull (h : t.Canonical) :
    t.orNull.derefBy follow = (t.derefBy follow).orNull :=
  become_orNull (derefBy follow) rfl (fun _ => derefBy_nullable) h

section Equal

variable (hf : ∀ name t, follow name = some t → t.Canonical)

include hf

lemma canonical_map_derefBy (h : ∀ t ∈ ts, t.Canonical) :
    ∀ t ∈ ts.map (derefBy follow), t.Canonical := by
  intro u hu
  obtain ⟨t, ht, rfl⟩ := List.mem_map.1 hu
  exact canonical_derefBy hf t (h t ht)

/-- Equal types are equal after their references have been replaced. -/
theorem equals_derefBy (ha : a.Canonical) (hb : b.Canonical) (h : a.equals b = true) :
    (a.derefBy follow).equals (b.derefBy follow) = true := by
  induction a using induction_on_parts generalizing b with
  | step a ih =>
    cases matches_of_equals h with
    | prim p => exact h
    | @list a b hab =>
      have ihab := ih a (by simp [parts]) (canonical_list.1 ha) (canonical_list.1 hb) hab
      exact equals_iff.2 (.list ihab)
    | @map k v l w hkl hvw =>
      obtain ⟨hk, hv⟩ := canonical_map.1 ha
      obtain ⟨hl, hw⟩ := canonical_map.1 hb
      have ihkl := ih k (by simp [parts]) hk hl hkl
      have ihvw := ih v (by simp [parts]) hv hw hvw
      exact equals_iff.2 (.map ihkl ihvw)
    | @nullable a b hab =>
      rw [derefBy_nullable ha, derefBy_nullable hb]
      have ha := (canonical_nullable.1 ha).2
      have hb := (canonical_nullable.1 hb).2
      exact equals_orNull (ih a (by simp [parts]) ha hb hab)
    | @union ms os hlen hcover =>
      have hms := (canonical_union.1 ha).2
      have hos := (canonical_union.1 hb).2
      rw [derefBy_union ha, derefBy_union hb]
      exact equals_unionOf_map ha hb h (fun m hm => canonical_derefBy hf m (hms m hm))
        (fun o ho => canonical_derefBy hf o (hos o ho))
        fun m hm o ho => ih m hm (hms m hm) (hos o ho)
    | @function f g hparams hvariadic hresult =>
      obtain ⟨hps, hr, -⟩ := canonical_function.1 ha
      obtain ⟨hqs, hr', -⟩ := canonical_function.1 hb
      rw [derefBy_function, derefBy_function]
      refine equals_iff.2 (.function ?_ hvariadic (ih _ result_mem_parts hr hr' hresult))
      simp only [List.forall₂_map_left_iff, List.forall₂_map_right_iff]
      exact forall₂_step hparams fun p hp q hq => ih _ (param_mem_parts hp) (hps p hp) (hqs q hq)
    | interface => exact h
    | cls => exact h
    | enum => exact h
    | @future a b hab =>
      have ihab := ih a (by simp [parts]) (canonical_future.1 ha) (canonical_future.1 hb) hab
      exact equals_iff.2 (.future ihab)
    | ref name file => exact equals_refl (canonical_derefBy hf _ ha).proper
    | param => exact h
    | @generic a b as bs hab hargs =>
      obtain ⟨ha, has⟩ := canonical_generic.1 ha
      obtain ⟨hb, hbs⟩ := canonical_generic.1 hb
      simp only [derefBy, derefAll_eq_map]
      refine equals_iff.2 (.generic (ih a List.mem_cons_self ha hb hab) ?_)
      simp only [List.forall₂_map_left_iff, List.forall₂_map_right_iff]
      exact forall₂_step hargs fun x hx y hy =>
        ih x (List.mem_cons_of_mem _ hx) (has x hx) (hbs y hy)

lemma rebuilds_derefBy : Rebuilds Canonical (derefBy follow) where
  before _ ht := ht
  after := canonical_derefBy hf
  alternative := Canonical.alternatives
  united _ := canonical_unionOf
  union _ := derefBy_union
  unknown := rfl
  equal _ _ := equals_derefBy hf

/-- What a union becomes is equal to the union of what its members become. -/
theorem equals_derefBy_unionOf (h : ∀ t ∈ ts, t.Canonical) :
    ((unionOf ts).derefBy follow).equals (unionOf (ts.map (derefBy follow))) = true :=
  (rebuilds_derefBy hf).equals_unionOf h

end Equal

end Ty

/-! ## Chains of references -/

namespace Scopes

/-- Every chain of references that starts in the type ends after `limit` steps at most. -/
def chainsEndWithin (s : Scopes) : Nat → Ty → Bool
  | 0, t => t.refNames.all fun name => (s.typeNamed? name).isNone
  | limit + 1, t => t.refNames.all fun name => (s.typeNamed? name).all (s.chainsEndWithin limit)

variable {s : Scopes} {t : Ty}

/-- Where chains end within the limit, a higher one changes nothing. -/
lemma derefWithin_eq_of_chainsEndWithin (hs : s.Canonical) {n m : Nat} (hle : n ≤ m)
    (ht : t.Canonical) (h : s.chainsEndWithin n t = true) :
    s.derefWithin m t = s.derefWithin n t := by
  induction n generalizing m t with
  | zero =>
    cases m with
    | zero => rfl
    | succ m =>
      refine Ty.derefBy_eq_self ht fun name hname => ?_
      have hnone := List.all_eq_true.1 h name hname
      simp [Option.isNone_iff_eq_none.1 hnone]
  | succ n ih =>
    obtain ⟨m, rfl⟩ := Nat.exists_eq_add_of_le' (Nat.le_trans (Nat.succ_le_succ n.zero_le) hle)
    refine Ty.derefBy_congr fun name hname => ?_
    have hall := List.all_eq_true.1 h name hname
    cases hu : s.typeNamed? name with
    | none => rfl
    | some u =>
      rw [hu] at hall
      exact congrArg some (ih (Nat.le_of_succ_le_succ hle) (hs.typeNamed? hu) hall)

end Scopes

end TypedScript
