import TypedScript.Proofs.Generics.Substitution

/-!
# Substitutions compose

Two substitutions, one after the other, come to a single one. Each step makes unions and nullables
anew, so that members may merge in the first step that would only merge in the second one, and the
two ways agree up to equality.

Signatures must not declare type parameters: equality does not see which names a signature
declares, but substitution does.
-/
namespace TypedScript

namespace Ty

variable {s s₁ s₂ : Subst} {a b p t u : Ty} {ts : List Ty}

/-! ## Types without binders -/

/-- No signature that substitution comes to declares type parameters. -/
inductive Binderless : Ty → Prop
  | intro {t : Ty} : t.ownNames = [] → (∀ p ∈ t.replacedParts, Binderless p) → Binderless t

namespace Binderless

lemma own (h : t.Binderless) : t.ownNames = [] := by
  cases h with
  | intro hown _ => exact hown

lemma part (h : t.Binderless) (hp : p ∈ t.replacedParts) : p.Binderless := by
  cases h with
  | intro _ hparts => exact hparts p hp

lemma typeParams {sig : Signature} (h : (function sig).Binderless) : sig.typeParams = [] :=
  List.map_eq_nil_iff.1 h.own

lemma of_atom (hown : t.ownNames = []) (hparts : t.replacedParts = []) : t.Binderless :=
  .intro hown (by simp [hparts])

lemma orNull (h : t.Binderless) : t.orNull.Binderless := by
  unfold Ty.orNull
  split
  · exact h
  · exact .of_atom rfl rfl
  · exact .intro rfl (List.forall_mem_singleton.2 h)

lemma alternatives (ht : t.Canonical) (h : t.Binderless) : ∀ a ∈ t.alternatives, a.Binderless := by
  rw [← members_eq_alternatives ht]
  cases t with
  | union ms => exact fun a ha => h.part ha
  | _ => exact List.forall_mem_singleton.2 h

lemma unionOf (hts : ∀ t ∈ ts, t.Canonical) (h : ∀ t ∈ ts, t.Binderless) :
    (Ty.unionOf ts).Binderless :=
  unionOf_of_alternatives (.of_atom rfl rfl) (fun _ hms => .intro rfl hms)
    fun t ht => (h t ht).alternatives (hts t ht)

end Binderless

/-- Types put into a type without binders give one without binders. -/
lemma Binderless.substitute (ht : t.Canonical) (h : t.Binderless) (hs : s.Canonical)
    (hsubst : ∀ name u, s.get? name = some u → u.Binderless) : (t.substitute s).Binderless := by
  induction t using induction_on_parts with
  | step t ih =>
    have hpart : ∀ p ∈ t.replacedParts, (p.substitute s).Binderless := fun p hp =>
      have hmem := mem_parts_of_mem_replacedParts hp
      ih p hmem (ht.part hmem) (h.part hp)
    cases t with
    | param name =>
      rw [substitute_param]
      cases hbound : s.get? name with
      | none => exact h
      | some u => exact hsubst name u hbound
    | list t =>
      rw [substitute_list]
      exact .intro rfl (List.forall_mem_singleton.2 (hpart t List.mem_cons_self))
    | map k v =>
      rw [substitute_map]
      exact .intro rfl (List.forall_mem_map.2 hpart)
    | nullable t =>
      rw [substitute_nullable ht]
      exact (hpart t List.mem_cons_self).orNull
    | future t =>
      rw [substitute_future]
      exact .intro rfl (List.forall_mem_singleton.2 (hpart t List.mem_cons_self))
    | union ms =>
      rw [substitute_union ht]
      refine .unionOf (List.forall_mem_map.2 fun m hm => ?_) (List.forall_mem_map.2 hpart)
      exact ((canonical_union.1 ht).2 m hm).substitute hs
    | function sig =>
      rw [substitute_function_of_nil h.typeParams]
      exact .intro h.own (Signature.replacedParts_retype ▸ List.forall_mem_map.2 hpart)
    | interface shape =>
      rw [substitute_interface]
      exact .intro rfl (Interface.replacedParts_retype ▸ List.forall_mem_map.2 hpart)
    | generic base args =>
      rw [substitute_generic]
      exact .intro rfl (List.forall_mem_map.2 hpart)
    | prim | cls | enum | ref => simpa using h

/-! ## Equal types -/

/-- Equal types without binders stay equal when the same types are put into them. -/
theorem equals_substitute (hs : s.Canonical) (ha : a.Canonical) (hb : b.Canonical)
    (ha' : a.Binderless) (hb' : b.Binderless) (h : a.equals b = true) :
    (a.substitute s).equals (b.substitute s) = true := by
  induction a using induction_on_parts generalizing b with
  | step a ih =>
    have hpart : ∀ p ∈ a.replacedParts, ∀ q ∈ b.replacedParts, p.equals q = true →
        (p.substitute s).equals (q.substitute s) = true := fun p hp q hq =>
      have hmem := mem_parts_of_mem_replacedParts hp
      ih p hmem (ha.part hmem) (hb.part (mem_parts_of_mem_replacedParts hq)) (ha'.part hp)
        (hb'.part hq)
    cases matches_of_equals h with
    | @list a b hab =>
      rw [substitute_list, substitute_list]
      exact equals_iff.2 (.list (hpart a List.mem_cons_self b List.mem_cons_self hab))
    | @map k v l w hkl hvw =>
      have hvalue := hpart v (by simp [replacedParts, openParts]) w
        (by simp [replacedParts, openParts]) hvw
      rw [substitute_map, substitute_map]
      exact equals_iff.2 (.map (hpart k List.mem_cons_self l List.mem_cons_self hkl) hvalue)
    | @nullable a b hab =>
      rw [substitute_nullable ha, substitute_nullable hb]
      exact equals_orNull (hpart a List.mem_cons_self b List.mem_cons_self hab)
    | @union ms os hlen hcover =>
      rw [substitute_union ha, substitute_union hb]
      exact equals_unionOf_map ha hb h (fun m hm => ((canonical_union.1 ha).2 m hm).substitute hs)
        (fun o ho => ((canonical_union.1 hb).2 o ho).substitute hs) hpart
    | @function f g hparams hvariadic hresult =>
      rw [substitute_function_of_nil ha'.typeParams, substitute_function_of_nil hb'.typeParams]
      exact Signature.equals_retype h hpart
    | @interface shape other hname hlen hprops =>
      rw [substitute_interface, substitute_interface]
      refine Interface.equals_retype hname hlen fun p hp => ?_
      obtain ⟨q, hq, hoptional, hequal⟩ := hprops p hp
      have hmem := property_mem_replacedParts (Interface.mem_of_property? hq)
      exact ⟨q, hq, hoptional, hpart _ (property_mem_replacedParts hp) _ hmem hequal⟩
    | @future a b hab =>
      rw [substitute_future, substitute_future]
      exact equals_iff.2 (.future (hpart a List.mem_cons_self b List.mem_cons_self hab))
    | prim | param | ref => exact equals_refl (ha.substitute hs).proper
    | @generic a b as bs hab hargs =>
      rw [substitute_generic, substitute_generic]
      refine equals_iff.2 (.generic hab ?_)
      simp only [List.forall₂_map_left_iff, List.forall₂_map_right_iff]
      exact forall₂_step hargs hpart
    | cls | enum => simpa using h

lemma rebuilds_substitute (hs : s.Canonical) :
    Rebuilds (fun t => t.Canonical ∧ t.Binderless) fun t => t.substitute s where
  before _ ht := ht.1
  after _ ht := ht.1.substitute hs
  alternative t ht a ha := ⟨ht.1.alternatives t a ha, ht.2.alternatives ht.1 a ha⟩
  united _ hts :=
    ⟨canonical_unionOf fun t ht => (hts t ht).1,
      .unionOf (fun t ht => (hts t ht).1) fun t ht => (hts t ht).2⟩
  union _ ht := substitute_union ht.1
  unknown := substitute_prim
  equal _ _ ha hb := equals_substitute hs ha.1 hb.1 ha.2 hb.2

/-! ## Two substitutions in one -/

lemma substitute_orNull (ht : t.Canonical) : t.orNull.substitute s = (t.substitute s).orNull :=
  become_orNull (fun t => t.substitute s) substitute_prim (fun _ => substitute_nullable) ht

end Ty

/-- The first bindings with the second ones put in, and after them the second ones. -/
def Subst.andThen (s₁ s₂ : Subst) : Subst := s₁.map (fun b => (b.1, b.2.substitute s₂)) ++ s₂

lemma Subst.get?_andThen {s₁ s₂ : Subst} {name : String} : (s₁.andThen s₂).get? name =
    ((s₁.get? name).map fun u => u.substitute s₂).or (s₂.get? name) := by
  induction s₁ with
  | nil => rfl
  | cons b s₁ ih =>
    change Subst.get? ((b.1, b.2.substitute s₂) :: Subst.andThen s₁ s₂) name = _
    rw [Subst.get?_cons, Subst.get?_cons, ih]
    split <;> rfl

lemma Subst.Canonical.andThen {s₁ s₂ : Subst} (hs₁ : s₁.Canonical) (hs₂ : s₂.Canonical) :
    (s₁.andThen s₂).Canonical := by
  refine List.forall_mem_append.2 ⟨List.forall_mem_map.2 fun b hb => ?_, hs₂⟩
  exact (hs₁ b hb).substitute hs₂

namespace Ty

lemma equals_substitute_andThen {t : Ty} {s₁ s₂ : Subst} (ht : t.Canonical) (ht' : t.Binderless)
    (hs₁ : s₁.Canonical) (hs₁' : ∀ name u, s₁.get? name = some u → u.Binderless)
    (hs₂ : s₂.Canonical) :
    ((t.substitute s₁).substitute s₂).equals (t.substitute (s₁.andThen s₂)) = true := by
  have hs := hs₁.andThen hs₂
  induction t using induction_on_parts with
  | step t ih =>
    have hpart : ∀ p ∈ t.replacedParts,
        ((p.substitute s₁).substitute s₂).equals (p.substitute (s₁.andThen s₂)) = true := fun p hp =>
      have hmem := mem_parts_of_mem_replacedParts hp
      ih p hmem (ht.part hmem) (ht'.part hp)
    cases t with
    | param name =>
      have hsame : ((param name).substitute s₁).substitute s₂ =
          (param name).substitute (s₁.andThen s₂) := by
        rw [substitute_param, substitute_param, Subst.get?_andThen]
        cases s₁.get? name with
        | none => exact substitute_param
        | some u => rfl
      rw [hsame]
      exact equals_refl (ht.substitute hs).proper
    | list t =>
      simp only [substitute_list]
      exact equals_iff.2 (.list (hpart t List.mem_cons_self))
    | map k v =>
      simp only [substitute_map]
      exact equals_iff.2 (.map (hpart k List.mem_cons_self)
        (hpart v (List.mem_cons_of_mem _ List.mem_cons_self)))
    | nullable t =>
      have hinner := ((canonical_nullable.1 ht).2).substitute hs₁
      rw [substitute_nullable ht, substitute_nullable ht, substitute_orNull hinner]
      exact equals_orNull (hpart t List.mem_cons_self)
    | future t =>
      simp only [substitute_future]
      exact equals_iff.2 (.future (hpart t List.mem_cons_self))
    | union ms =>
      have hms : ∀ m ∈ ms, m.Canonical := (canonical_union.1 ht).2
      have hfirst : ∀ u ∈ ms.map fun m => m.substitute s₁, u.Canonical ∧ u.Binderless :=
        List.forall_mem_map.2 fun m hm =>
          ⟨(hms m hm).substitute hs₁, (ht'.part hm).substitute (hms m hm) hs₁ hs₁'⟩
      rw [substitute_union ht, substitute_union ht]
      -- What merges in the first step would have merged in the second one.
      refine equals_trans ((rebuilds_substitute hs₂).equals_unionOf hfirst) ?_
      refine equals_unionOf_of_forall₂ ((rebuilds_substitute hs₂).after_map hfirst)
        (List.forall_mem_map.2 fun m hm => (hms m hm).substitute hs) ?_
      simp only [List.forall₂_map_left_iff, List.forall₂_map_right_iff, List.forall₂_same]
      exact hpart
    | function sig =>
      have hown := ht'.typeParams
      have hown' : (sig.retype fun t => t.substitute s₁).typeParams = [] := hown
      rw [substitute_function_of_nil hown, substitute_function_of_nil hown,
        substitute_function_of_nil hown', Signature.retype_retype]
      exact Signature.equals_retype_self hpart
    | interface shape =>
      simp only [substitute_interface, Interface.retype_retype]
      refine Interface.equals_retype rfl rfl fun p hp => ?_
      exact ⟨p, shape.property?_of_mem (canonical_interface.1 ht).1 hp, rfl,
        hpart _ (property_mem_replacedParts hp)⟩
    | generic base args =>
      simp only [substitute_generic]
      refine equals_iff.2 (.generic (equals_refl (canonical_generic.1 ht).1.proper) ?_)
      simp only [List.forall₂_map_left_iff, List.forall₂_map_right_iff, List.forall₂_same]
      exact hpart
    | prim | cls | enum | ref => simpa using equals_refl ht.proper

/-- Let bindings give to each name what the first ones bind it to, with the second ones put in, and
to every other name what the second ones bind it to. In a canonical type without binders, with
types of that sort put in, they do what the others do one after the other. -/
theorem substitutions_compose {t : Ty} {s₁ s₂ s : Subst} (ht : t.Canonical) (ht' : t.Binderless)
    (hs₁ : s₁.Canonical) (hs₁' : ∀ name u, s₁.get? name = some u → u.Binderless)
    (hs₂ : s₂.Canonical) (hs : ∀ name, s.get? name =
      ((s₁.get? name).map fun u => u.substitute s₂).or (s₂.get? name)) :
    ((t.substitute s₁).substitute s₂).equals (t.substitute s) = true := by
  have hsame : t.substitute s = t.substitute (s₁.andThen s₂) := by
    refine substitute_congr ht fun name _ => ?_
    rw [substitute_param, substitute_param, hs, Subst.get?_andThen]
  rw [hsame]
  exact equals_substitute_andThen ht ht' hs₁ hs₁' hs₂

/-- The members merge in the first step, and what is left collapses to null in the second one. -/
theorem members_merge_between_substitutions :
    (union [param "T", nullable (param "U")]).Canonical ∧
      (union [param "T", nullable (param "U")]).Binderless ∧
      Subst.Canonical [("T", nullable (param "U"))] ∧
      (∀ name u, Subst.get? [("T", nullable (param "U"))] name = some u → u.Binderless) ∧
      Subst.Canonical [("U", null)] ∧
      (∀ name, Subst.get? [("T", null), ("U", null)] name =
        ((Subst.get? [("T", nullable (param "U"))] name).map fun u =>
          u.substitute [("U", null)]).or (Subst.get? [("U", null)] name)) ∧
      (((union [param "T", nullable (param "U")]).substitute
          [("T", nullable (param "U"))]).substitute [("U", null)]).equals
        ((union [param "T", nullable (param "U")]).substitute
          [("T", null), ("U", null)]) = true := by
  have hinner : (nullable (param "U")).Canonical :=
    canonical_nullable.2 ⟨⟨rfl, by simp [kind]⟩, canonical_param _⟩
  have ht : (union [param "T", nullable (param "U")]).Canonical :=
    canonical_union.2 ⟨by decide, by simp [hinner]⟩
  have hparam (name : String) : (param name).Binderless := .of_atom rfl rfl
  have hinner' : (nullable (param "U")).Binderless :=
    .intro rfl (List.forall_mem_singleton.2 (hparam "U"))
  have ht' : (union [param "T", nullable (param "U")]).Binderless :=
    .intro rfl (List.forall_mem_cons.2 ⟨hparam "T", List.forall_mem_singleton.2 hinner'⟩)
  have hs₁ : Subst.Canonical [("T", nullable (param "U"))] := List.forall_mem_singleton.2 hinner
  have hs₁' : ∀ name u, Subst.get? [("T", nullable (param "U"))] name = some u →
      u.Binderless := by
    intro name u hu
    rw [Subst.get?_cons] at hu
    split at hu <;> cases hu
    exact hinner'
  have hs₂ : Subst.Canonical [("U", null)] := List.forall_mem_singleton.2 (canonical_prim _)
  have hs : ∀ name, Subst.get? [("T", null), ("U", null)] name =
      ((Subst.get? [("T", nullable (param "U"))] name).map fun u =>
        u.substitute [("U", null)]).or (Subst.get? [("U", null)] name) := by
    intro name
    simp only [Subst.get?_cons]
    split <;> rfl
  exact ⟨ht, ht', hs₁, hs₁', hs₂, hs, substitutions_compose ht ht' hs₁ hs₁' hs₂ hs⟩

/-- Two signatures of which only one declares `U` merge, and the one that is left hides it. -/
example :
    (((union [param "T", function ⟨[], param "U", false, []⟩]).substitute
        [("T", function ⟨[], param "U", false, [⟨"U", none⟩]⟩)]).substitute [("U", int)]).equals
      ((union [param "T", function ⟨[], param "U", false, []⟩]).substitute
        [("T", function ⟨[], param "U", false, [⟨"U", none⟩]⟩), ("U", int)]) = false := rfl

end Ty

end TypedScript
