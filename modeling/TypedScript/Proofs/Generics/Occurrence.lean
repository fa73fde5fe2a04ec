import Mathlib.Data.Set.Finite.Lattice
import Mathlib.Data.Set.Finite.List
import TypedScript.Proofs.Generics.Substitution

/-!
# Where type parameters are looked for

The search for type parameters goes into the same parts as substitution, but for shapes. A type in
which it finds none is left as it is by every substitution, exactly if no shape in it mentions a
type parameter.

That a type changes is seen by a new name: one that did not occur in it stands, after the
substitution, where the old one was mentioned. Equal types have the same names in them, whatever
their signatures declare.
-/
namespace TypedScript.Ty

variable {s : Subst} {a b p t u : Ty} {ts : List Ty} {name other : String}

/-! ## Names that occur -/

/-- A type parameter stands in a type, at a place that substitution comes to. Whether a signature
around it declares the name makes no difference. -/
inductive Occurs (name : String) : Ty → Prop
  | here : Occurs name (param name)
  | inside {t p : Ty} : p ∈ t.replacedParts → Occurs name p → Occurs name t

/-- Parts of a type have equals among the parts of an equal type. -/
lemma exists_equal_part (ha : a.Proper) (hb : b.Proper) (h : a.equals b = true)
    (hp : p ∈ a.replacedParts) : ∃ q ∈ b.replacedParts, p.equals q = true := by
  have hall {as bs : List Ty} (has : List.Forall₂ (fun x y => x.equals y = true) as bs)
      (hp : p ∈ as) : ∃ q ∈ bs, p.equals q = true :=
    covered_of_forall₂ has p hp
  cases matches_of_equals h with
  | list hab => exact hall (.cons hab .nil) hp
  | map hkl hvw => exact hall (.cons hkl (.cons hvw .nil)) hp
  | nullable hab => exact hall (.cons hab .nil) hp
  | union _ hcover =>
    obtain ⟨q, hq, hqp⟩ := hcover p hp
    exact ⟨q, hq, equals_symm (hb.part hq) (ha.part hp) hqp⟩
  | @function f g hparams _ hresult =>
    refine hall (List.rel_append ?_ (.cons hresult .nil)) hp
    rwa [List.forall₂_map_left_iff, List.forall₂_map_right_iff]
  | interface _ _ hprops =>
    obtain ⟨property, hproperty, rfl⟩ := List.mem_map.1 hp
    obtain ⟨q, hq, -, hequal⟩ := hprops property hproperty
    exact ⟨q.type, property_mem_replacedParts (Interface.mem_of_property? hq), hequal⟩
  | future hab => exact hall (.cons hab .nil) hp
  | generic _ hargs => exact hall hargs hp
  | _ => exact absurd hp List.not_mem_nil

/-- Equal types have the same names in them. -/
lemma Occurs.of_equals (hname : Occurs name a) (ha : a.Proper) (hb : b.Proper)
    (h : a.equals b = true) : Occurs name b := by
  induction hname generalizing b with
  | here =>
    cases matches_of_equals h with
    | param => exact .here
  | inside hp _ ih =>
    obtain ⟨q, hq, hpq⟩ := exists_equal_part ha hb h hp
    exact .inside hq (ih (ha.part (mem_parts_of_mem_replacedParts hp))
      (hb.part (mem_parts_of_mem_replacedParts hq)) hpq)

lemma Occurs.orNull (h : Occurs name t) : Occurs name t.orNull := by
  unfold Ty.orNull
  split
  · exact h
  · cases h with
    | inside hp => exact absurd hp List.not_mem_nil
  · exact .inside List.mem_cons_self h

lemma occurs_iff_alternatives (ht : t.Canonical) :
    Occurs name t ↔ ∃ a ∈ t.alternatives, Occurs name a := by
  rw [← members_eq_alternatives ht]
  cases t with
  | union ms =>
    constructor
    · rintro (_ | ⟨hp, h⟩)
      exact ⟨_, hp, h⟩
    · rintro ⟨m, hm, h⟩
      exact .inside hm h
  | _ => simp [members]

lemma Occurs.unionOf (hts : ∀ t ∈ ts, t.Canonical) (ht : t ∈ ts) (h : Occurs name t) :
    Occurs name (Ty.unionOf ts) := by
  obtain ⟨a, ha, hname⟩ := (occurs_iff_alternatives (hts t ht)).1 h
  obtain ⟨b, hb, hab⟩ := (within_unionOf hts (List.ne_nil_of_mem ht)).1 a
    (mem_allAlternatives_iff.2 ⟨t, ht, ha⟩)
  have hunion := canonical_unionOf hts
  replace hb : b ∈ (Ty.unionOf ts).alternatives := by simpa [allAlternatives] using hb
  exact (occurs_iff_alternatives hunion).2 ⟨b, hb, hname.of_equals
    (Canonical.alternatives t (hts t ht) a ha).proper
    (Canonical.alternatives _ hunion b hb).proper hab⟩

/-- Only finitely many names occur in a type. -/
lemma finite_occurs (t : Ty) : {name | Occurs name t}.Finite := by
  induction t using induction_on_parts with
  | step t ih =>
    have hparts : (⋃ p ∈ {p | p ∈ t.replacedParts}, {name | Occurs name p}).Finite :=
      t.replacedParts.finite_toSet.biUnion fun p hp => ih p (mem_parts_of_mem_replacedParts hp)
    have hself : {name | t = param name}.Finite :=
      Set.Subsingleton.finite fun n hn m hm => param.inj (hn.symm.trans hm)
    refine (hparts.union hself).subset fun name hname => ?_
    cases hname with
    | here => exact .inr rfl
    | inside hp h => exact .inl (Set.mem_biUnion hp h)

/-! ## What is put in the place of a name -/

/-- What is bound to a type parameter that the type mentions stands in the type afterwards. -/
lemma occurs_substitute (ht : t.Canonical) (hs : s.Canonical) (h : Mentions name t)
    (hbound : s.get? name = some u) (hu : Occurs other u) : Occurs other (t.substitute s) := by
  induction h generalizing s with
  | here => rwa [substitute_param, hbound]
  | @inside t p hp hown _ ih =>
    have hcanonical := ht.part (mem_parts_of_mem_replacedParts hp)
    have hpart := ih hcanonical hs hbound
    cases t with
    | list t =>
      obtain rfl := List.mem_singleton.1 hp
      rw [substitute_list]
      exact .inside List.mem_cons_self hpart
    | map k v =>
      rw [substitute_map]
      exact .inside (List.mem_map_of_mem (f := fun t => t.substitute s) hp) hpart
    | nullable t =>
      obtain rfl := List.mem_singleton.1 hp
      rw [substitute_nullable ht]
      exact hpart.orNull
    | future t =>
      obtain rfl := List.mem_singleton.1 hp
      rw [substitute_future]
      exact .inside List.mem_cons_self hpart
    | union ms =>
      rw [substitute_union ht]
      refine .unionOf (List.forall_mem_map.2 fun m hm => ?_) (List.mem_map_of_mem hp) hpart
      exact ((canonical_union.1 ht).2 m hm).substitute hs
    | function sig =>
      have hinner : (s.without sig.typeParams).get? name = some u := by
        rw [Subst.get?_without]
        exact (if_neg hown).trans hbound
      have hpart := ih hcanonical (hs.without _) hinner
      rw [substitute_function]
      exact .inside (Signature.replacedParts_retype ▸ List.mem_map_of_mem hp) hpart
    | interface shape =>
      rw [substitute_interface]
      exact .inside (Interface.replacedParts_retype ▸ List.mem_map_of_mem hp) hpart
    | generic base args =>
      rw [substitute_generic]
      exact .inside (List.mem_map_of_mem hp) hpart
    | prim | cls | enum | ref | param => exact absurd hp List.not_mem_nil

/-- A type that mentions a type parameter does not stay equal to itself under every
substitution. -/
lemma exists_substitute_differs (ht : t.Canonical) (h : Mentions name t) :
    ∃ u, u.Canonical ∧ (t.substitute [(name, u)]).equals t = false := by
  obtain ⟨other, hother⟩ := (finite_occurs t).exists_notMem
  refine ⟨param other, canonical_param other, Bool.eq_false_iff.2 fun hequal => hother ?_⟩
  have hs : Subst.Canonical [(name, param other)] :=
    List.forall_mem_singleton.2 (canonical_param other)
  have hbound : Subst.get? [(name, param other)] name = some (param other) := by
    simp [Subst.get?_cons]
  exact (occurs_substitute ht hs h hbound .here).of_equals (ht.substitute hs).proper ht.proper hequal

/-! ## The search -/

lemma someHasParam_iff : someHasParam ts = true ↔ ∃ t ∈ ts, t.hasParam = true := by
  induction ts with
  | nil => simp [someHasParam]
  | cons t ts ih => simp [someHasParam, ih]

lemma someParamHasParam_iff {ps : List Param} :
    someParamHasParam ps = true ↔ ∃ p ∈ ps, p.type.hasParam = true := by
  induction ps with
  | nil => simp [someParamHasParam]
  | cons p ps ih =>
    obtain ⟨name, t⟩ := p
    simp [someParamHasParam, ih]

/-- The search goes into every part that substitution goes into, except for those of shapes. -/
lemma hasParam_of_part (hkind : t.kind ≠ .interface) (hp : p ∈ t.replacedParts)
    (h : p.hasParam = true) : t.hasParam = true := by
  cases t with
  | list | nullable | future =>
    obtain rfl := List.mem_singleton.1 hp
    exact h
  | map k v =>
    obtain rfl | rfl : p = k ∨ p = v := by simpa [replacedParts, openParts] using hp
    · simp [hasParam, h]
    · simp [hasParam, h]
  | union ms => exact someHasParam_iff.2 ⟨p, hp, h⟩
  | function sig =>
    obtain ⟨params, result, isVariadic, typeParams⟩ := sig
    obtain ⟨q, hq, rfl⟩ | rfl : (∃ q ∈ params, q.type = p) ∨ p = result := by
      simpa [replacedParts, openParts] using hp
    · simp [hasParam, someParamHasParam_iff.2 ⟨q, hq, h⟩]
    · simp [hasParam, h]
  | interface shape => exact absurd rfl hkind
  | generic base args => exact someHasParam_iff.2 ⟨p, hp, h⟩
  | prim | cls | enum | ref | param => exact absurd hp List.not_mem_nil

/-- A type parameter is mentioned in a type inside of a shape. -/
inductive MentionsInShape (name : String) : Ty → Prop
  | shape {shape : Interface} : Mentions name (interface shape) →
      MentionsInShape name (interface shape)
  | inside {t p : Ty} : p ∈ t.replacedParts → name ∉ t.ownNames → MentionsInShape name p →
      MentionsInShape name t

lemma MentionsInShape.mentions (h : MentionsInShape name t) : Mentions name t := by
  induction h with
  | shape h => exact h
  | inside hp hown _ ih => exact .inside hp hown ih

/-- Type parameters that the search misses are mentioned in shapes. -/
lemma Mentions.inShape (h : Mentions name t) (hnone : t.hasParam = false) :
    MentionsInShape name t := by
  induction h with
  | here => cases hnone
  | @inside t p hp hown hmentions ih =>
    by_cases hkind : t.kind = .interface
    · cases t with
      | interface shape => exact .shape (.inside hp hown hmentions)
      | _ => cases hkind
    · refine .inside hp hown (ih (Bool.eq_false_iff.2 fun hfound => ?_))
      simp [hasParam_of_part hkind hp hfound] at hnone

/-- Where the search finds no type parameter in a canonical type, a substitution leaves the type
as it is, provided it binds no type parameter that a shape in the type mentions. For each type
parameter that is mentioned in a shape there is a substitution under which the type changes. -/
theorem search_misses_shapes_only {t : Ty} (ht : t.Canonical) (hnone : t.hasParam = false) :
    (∀ s : Subst, (∀ name, MentionsInShape name t → s.get? name = none) →
        (t.substitute s).equals t = true) ∧
      ∀ name, MentionsInShape name t →
        ∃ u, u.Canonical ∧ (t.substitute [(name, u)]).equals t = false := by
  refine ⟨fun s hs => ?_, fun name hname => exists_substitute_differs ht hname.mentions⟩
  have hfixes : Fixes s t := by
    intro name hname u hu
    simp [hs name (hname.inShape hnone)] at hu
  rw [substitute_eq_self ht hfixes]
  exact equals_refl ht.proper

/-- A box is a shape with one property, whose type is a type parameter. -/
def box : Ty := interface ⟨"", [⟨"item", param "T", false⟩], []⟩

theorem boxes_change_by_their_parameter :
    (list box).Canonical ∧ (list box).hasParam = false ∧
      ((list box).substitute [("U", int)]).equals (list box) = true ∧
      ∃ u, u.Canonical ∧ ((list box).substitute [("T", u)]).equals (list box) = false := by
  have ht : (list box).Canonical := by simp [box, TypeParam.bounds]
  have hsearch := search_misses_shapes_only ht rfl
  refine ⟨ht, rfl, hsearch.1 _ fun name hname => ?_, hsearch.2 "T" ?_⟩
  · have hitem : name = "T" := by
      cases hname.mentions with
      | inside hlist _ hbox =>
        obtain rfl := List.mem_singleton.1 hlist
        cases hbox with
        | inside hproperty _ hitem =>
          obtain rfl := List.mem_singleton.1 hproperty
          cases hitem with
          | here => rfl
          | inside hnone => exact absurd hnone List.not_mem_nil
    simp [hitem, Subst.get?_cons]
  · refine .inside List.mem_cons_self (by simp [ownNames]) (.shape ?_)
    exact .inside List.mem_cons_self (by simp [ownNames]) .here

/-- The search finds no type parameter in a shape whose property has one for its type. -/
theorem parameter_of_box_missed :
    box.hasParam = false ∧ (box.substitute [("T", int)]).equals box = false := ⟨rfl, rfl⟩

end TypedScript.Ty
