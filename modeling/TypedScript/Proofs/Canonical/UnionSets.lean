import TypedScript.Proofs.Canonical.Unions

/-!
# Unions as sets of alternatives

A union only depends on the set of its alternatives, where equal types count as one. So it makes
no difference in what order the types of a union are given, how often, or which of them were
united before. The members stand in the order in which their alternatives come first.

An operation that makes unions anew from what their members become, and equal types from equal
ones, goes through the making of a union. References and type parameters are replaced in this way.
-/
namespace TypedScript.Ty

variable {a b t : Ty} {ts us vs ms os : List Ty}

/-! ## First occurrences -/

lemma eraseDupsBy_loop_eq_foldl (ts kept : List Ty) :
    List.eraseDupsBy.loop (fun t s => s.equals t) ts kept =
      ts.foldl addDistinct kept.reverse := by
  induction ts generalizing kept with
  | nil => rfl
  | cons t ts ih =>
    have hany : kept.reverse.any (fun s => s.equals t) = kept.any fun s => s.equals t :=
      List.any_reverse
    rw [List.foldl_cons, addDistinct, hany, List.eraseDupsBy.loop]
    cases kept.any fun s => s.equals t with
    | true => exact ih kept
    | false => simpa using ih (t :: kept)

/-- Of equal types the first one is kept. -/
lemma distinct_eq_eraseDupsBy (ts : List Ty) :
    distinct ts = ts.eraseDupsBy fun t s => s.equals t :=
  (eraseDupsBy_loop_eq_foldl ts []).symm

/-! ## Alternatives among others -/

/-- Every alternative of the types has an equal among the alternatives of the others. -/
def Within (ts us : List Ty) : Prop :=
  Covered (allAlternatives ts) (allAlternatives us)

lemma Within.trans (htu : Within ts us) (huv : Within us vs) : Within ts vs := by
  intro a ha
  obtain ⟨b, hb, hab⟩ := htu a ha
  obtain ⟨c, hc, hbc⟩ := huv b hb
  exact ⟨c, hc, equals_trans hab hbc⟩

lemma within_of_subset (hts : ∀ t ∈ ts, t.Canonical) (h : ts ⊆ us) : Within ts us := by
  intro a ha
  obtain ⟨t, ht, hat⟩ := mem_allAlternatives_iff.1 ha
  exact ⟨a, mem_allAlternatives_iff.2 ⟨t, h ht, hat⟩,
    equals_refl (canonical_allAlternatives ts hts a ha).proper⟩

lemma within_of_covered (hts : ∀ t ∈ ts, t.Canonical) (hus : ∀ u ∈ us, u.Canonical)
    (h : Covered ts us) : Within ts us := h.allAlternatives hts hus

lemma within_iff_forall : Within ts us ↔ ∀ t ∈ ts, Within [t] us := by
  simp only [Within, Covered, mem_allAlternatives_iff, List.mem_singleton, exists_eq_left]
  constructor
  · exact fun h t ht a ha => h a ⟨t, ht, ha⟩
  · rintro h a ⟨t, ht, ha⟩
    exact h t ht a ha

/-- Unions of the same alternatives are equal. -/
lemma equals_unionOf_of_within (hts : ∀ t ∈ ts, t.Canonical) (hus : ∀ u ∈ us, u.Canonical)
    (htu : Within ts us) (hut : Within us ts) : (unionOf ts).equals (unionOf us) = true :=
  equals_unionOf hts hus htu hut

/-- Types have the same alternatives as their union. -/
lemma within_unionOf (hts : ∀ t ∈ ts, t.Canonical) (hne : ts ≠ []) :
    Within ts [unionOf ts] ∧ Within [unionOf ts] ts := by
  have hproper : ∀ a ∈ allAlternatives ts, a.Proper :=
    fun a ha => (canonical_allAlternatives ts hts a ha).proper
  have hunion : allAlternatives [unionOf ts] = distinct (allAlternatives ts) := by
    rw [← alternatives_unionOf (allAlternatives_ne_nil hts hne)]
    exact List.append_nil _
  constructor
  · intro a ha
    obtain ⟨b, hb, hba⟩ := exists_mem_distinct hproper ha
    exact ⟨b, hunion ▸ hb, equals_symm (hproper b (mem_of_mem_distinct hb)) (hproper a ha) hba⟩
  · intro a ha
    rw [hunion] at ha
    have ha := mem_of_mem_distinct ha
    exact ⟨a, ha, equals_refl (hproper a ha)⟩

/-- Some of the types may be united before the others. -/
lemma equals_unionOf_regroup {group rest : List Ty} (hgroup : ∀ t ∈ group, t.Canonical)
    (hrest : ∀ t ∈ rest, t.Canonical) (hne : group ≠ []) :
    (unionOf (unionOf group :: rest)).equals (unionOf (group ++ rest)) = true := by
  obtain ⟨hapart, hunited⟩ := within_unionOf hgroup hne
  have hunion : ∀ t ∈ unionOf group :: rest, t.Canonical :=
    List.forall_mem_cons.2 ⟨canonical_unionOf hgroup, hrest⟩
  have hall : ∀ t ∈ group ++ rest, t.Canonical := List.forall_mem_append.2 ⟨hgroup, hrest⟩
  refine equals_unionOf_of_within hunion hall ?_ ?_
  · rw [within_iff_forall, List.forall_mem_cons]
    refine ⟨hunited.trans (within_of_subset hgroup (List.subset_append_left _ _)), fun t ht => ?_⟩
    refine within_of_subset (List.forall_mem_singleton.2 (hrest t ht)) ?_
    simpa using .inr ht
  · rw [within_iff_forall, List.forall_mem_append]
    refine ⟨within_iff_forall.1 (hapart.trans ?_), fun t ht => ?_⟩
    · exact within_of_subset (List.forall_mem_singleton.2 (canonical_unionOf hgroup)) (by simp)
    · refine within_of_subset (List.forall_mem_singleton.2 (hrest t ht)) ?_
      simpa using .inr ht

/-! ## Operations that go through unions -/

/-- An operation on some canonical types makes unions anew from what their members become, and
equal types from equal ones. -/
structure Rebuilds (concerned : Ty → Prop) (become : Ty → Ty) : Prop where
  before : ∀ t, concerned t → t.Canonical
  after : ∀ t, concerned t → (become t).Canonical
  alternative : ∀ t, concerned t → ∀ a ∈ t.alternatives, concerned a
  united : ∀ ts, (∀ t ∈ ts, concerned t) → concerned (unionOf ts)
  union : ∀ ms, concerned (union ms) → become (union ms) = unionOf (ms.map become)
  unknown : become unknown = unknown
  equal : ∀ a b, concerned a → concerned b → a.equals b = true →
    (become a).equals (become b) = true

namespace Rebuilds

variable {concerned : Ty → Prop} {become : Ty → Ty}

lemma after_map (h : Rebuilds concerned become) (hts : ∀ t ∈ ts, concerned t) :
    ∀ u ∈ ts.map become, u.Canonical :=
  List.forall_mem_map.2 fun t ht => h.after t (hts t ht)

/-- What a type becomes is made of what its alternatives become. -/
lemma eq_unionOf (h : Rebuilds concerned become) (ht : concerned t) :
    become t = unionOf (t.alternatives.map become) := by
  obtain ⟨ms, rfl⟩ | hkind := t.union_or_kind_ne
  · rw [alternatives_union (h.before _ ht)]
    exact h.union ms ht
  · rw [alternatives_eq_self hkind]
    exact (unionOf_singleton (h.after t ht)).symm

/-- The union of what equal alternatives become does not depend on which of them is kept. -/
lemma within_map_distinct (h : Rebuilds concerned become) (hts : ∀ t ∈ ts, concerned t) :
    Within (ts.map become) ((distinct ts).map become) := by
  have hkept : ∀ t ∈ distinct ts, concerned t := fun t ht => hts t (mem_of_mem_distinct ht)
  refine within_of_covered (h.after_map hts) (h.after_map hkept) (List.forall_mem_map.2 ?_)
  intro t ht
  have hproper : ∀ t ∈ ts, t.Proper := fun t ht => (h.before t (hts t ht)).proper
  obtain ⟨u, hu, hut⟩ := exists_mem_distinct hproper ht
  have htu := equals_symm (hproper u (mem_of_mem_distinct hu)) (hproper t ht) hut
  exact ⟨become u, List.mem_map_of_mem hu, h.equal t u (hts t ht) (hkept u hu) htu⟩

/-- Types become, taken together, what their alternatives become. -/
lemma within_allAlternatives (h : Rebuilds concerned become) (hts : ∀ t ∈ ts, concerned t) :
    Within (ts.map become) ((allAlternatives ts).map become) ∧
      Within ((allAlternatives ts).map become) (ts.map become) := by
  have hsingle : ∀ t ∈ ts, Within [become t] (t.alternatives.map become) ∧
      Within (t.alternatives.map become) [become t] := by
    intro t ht
    rw [h.eq_unionOf (hts t ht)]
    refine (within_unionOf (h.after_map (h.alternative t (hts t ht))) ?_).symm
    simpa using alternatives_ne_nil (h.before t (hts t ht))
  constructor
  · rw [within_iff_forall, List.forall_mem_map]
    intro t ht
    refine (hsingle t ht).1.trans (within_of_subset
      (h.after_map (h.alternative t (hts t ht))) (List.map_subset _ fun a ha => ?_))
    exact mem_allAlternatives_iff.2 ⟨t, ht, ha⟩
  · rw [within_iff_forall, List.forall_mem_map]
    intro a ha
    obtain ⟨t, ht, hat⟩ := mem_allAlternatives_iff.1 ha
    refine (within_iff_forall.1 (hsingle t ht).2 _ (List.mem_map_of_mem hat)).trans ?_
    refine within_of_subset (List.forall_mem_singleton.2 (h.after t (hts t ht))) ?_
    simpa using ⟨t, ht, rfl⟩

/-- What a union becomes is equal to the union of what its types become. -/
theorem equals_unionOf (h : Rebuilds concerned become) (hts : ∀ t ∈ ts, concerned t) :
    (become (unionOf ts)).equals (unionOf (ts.map become)) = true := by
  have halternatives : ∀ a ∈ allAlternatives ts, concerned a := by
    intro a ha
    obtain ⟨t, ht, hat⟩ := mem_allAlternatives_iff.1 ha
    exact h.alternative t (hts t ht) a hat
  have hkept : ∀ a ∈ distinct (allAlternatives ts), concerned a :=
    fun a ha => halternatives a (mem_of_mem_distinct ha)
  obtain ⟨hinto, hfrom⟩ := h.within_allAlternatives hts
  by_cases hne : ts = []
  · subst hne
    exact h.unknown ▸ rfl
  · have hcanonical : ∀ t ∈ ts, t.Canonical := fun t ht => h.before t (hts t ht)
    rw [h.eq_unionOf (h.united ts hts),
      alternatives_unionOf (allAlternatives_ne_nil hcanonical hne)]
    refine equals_unionOf_of_within (h.after_map hkept) (h.after_map hts) ?_ ?_
    · refine (within_of_subset (h.after_map hkept) (List.map_subset _ ?_)).trans hfrom
      exact fun a ha => mem_of_mem_distinct ha
    · exact hinto.trans (h.within_map_distinct halternatives)

end Rebuilds

/-- Equal unions become equal if their members do. -/
lemma equals_unionOf_map {become : Ty → Ty} (hms : (union ms).Canonical) (hos : (union os).Canonical)
    (h : (union ms).equals (union os) = true) (hms' : ∀ m ∈ ms, (become m).Canonical)
    (hos' : ∀ o ∈ os, (become o).Canonical)
    (hequal : ∀ m ∈ ms, ∀ o ∈ os, m.equals o = true → (become m).equals (become o) = true) :
    (unionOf (ms.map become)).equals (unionOf (os.map become)) = true := by
  have hcover := covered_alternatives hms hos h
  have hcover' := covered_alternatives hos hms (equals_symm hms.proper hos.proper h)
  rw [alternatives_union hms, alternatives_union hos] at hcover hcover'
  have hcanonical := List.forall_mem_map.2 hms'
  have hcanonical' := List.forall_mem_map.2 hos'
  refine equals_unionOf_of_within hcanonical hcanonical'
    (within_of_covered hcanonical hcanonical' (List.forall_mem_map.2 fun m hm => ?_))
    (within_of_covered hcanonical' hcanonical (List.forall_mem_map.2 fun o ho => ?_))
  · obtain ⟨o, ho, hmo⟩ := hcover m hm
    exact ⟨_, List.mem_map_of_mem ho, hequal m hm o ho hmo⟩
  · obtain ⟨m, hm, hom⟩ := hcover' o ho
    have hm' := ((canonical_union.1 hms).2 m hm).proper
    have hmo := hequal m hm o ho (equals_symm ((canonical_union.1 hos).2 o ho).proper hm' hom)
    exact ⟨_, List.mem_map_of_mem hm, equals_symm (hms' m hm).proper (hos' o ho).proper hmo⟩

/-! ## Unions of types some of which may be missing -/

/-- The members of a union; any other type is its own single member. -/
def members : Ty → List Ty
  | union ms => ms
  | t => [t]

/-- The alternatives of some types, those that are missing left out. -/
def presentAlternatives (ts : List (Option Ty)) : List Ty := allAlternatives (ts.filterMap id)

section Present

variable {ts us group rest : List (Option Ty)}

lemma canonical_present (h : ∀ t, some t ∈ ts → t.Canonical) :
    ∀ t ∈ ts.filterMap id, t.Canonical := by
  simpa using h

lemma present_ne_nil (h : ∃ t, some t ∈ ts) : ts.filterMap id ≠ [] := by
  obtain ⟨t, ht⟩ := h
  exact List.ne_nil_of_mem (List.mem_filterMap.2 ⟨some t, ht, rfl⟩)

lemma members_eq_alternatives (h : t.Canonical) : t.members = t.alternatives := by
  cases t with
  | union ms => exact (alternatives_union h).symm
  | _ => rfl

lemma members_unionOfPresent (hts : ∀ t, some t ∈ ts → t.Canonical) (hsome : ∃ t, some t ∈ ts) :
    (unionOfPresent ts).members = distinct (presentAlternatives ts) := by
  have hcanonical := canonical_present hts
  rw [unionOfPresent, members_eq_alternatives (canonical_unionOf hcanonical)]
  exact alternatives_unionOf (allAlternatives_ne_nil hcanonical (present_ne_nil hsome))

/-- Only which types there are matters for a union. -/
lemma equals_unionOfPresent_of_subset (hts : ∀ t, some t ∈ ts → t.Canonical) (hut : us ⊆ ts)
    (htu : ts ⊆ us) : (unionOfPresent us).equals (unionOfPresent ts) = true := by
  have hts := canonical_present hts
  have hpresent : us.filterMap id ⊆ ts.filterMap id := List.filterMap_subset _ hut
  have hus : ∀ t ∈ us.filterMap id, t.Canonical := fun t ht => hts t (hpresent ht)
  exact equals_unionOf_of_within hus hts (within_of_subset hus hpresent)
    (within_of_subset hts (List.filterMap_subset _ htu))

lemma equals_unionOfPresent_regroup (hts : ∀ t, some t ∈ ts → t.Canonical)
    (hgroup : ∃ t, some t ∈ group) (hperm : ts.Perm (group ++ rest))
    (hus : us.Perm (some (unionOfPresent group) :: rest)) :
    (unionOfPresent us).equals (unionOfPresent ts) = true := by
  have hall : ∀ t, some t ∈ group ++ rest → t.Canonical := fun t ht => hts t (hperm.mem_iff.2 ht)
  have hgroup' : ∀ t ∈ group.filterMap id, t.Canonical :=
    canonical_present fun t ht => hall t (List.mem_append_left _ ht)
  have hrest' : ∀ t ∈ rest.filterMap id, t.Canonical :=
    canonical_present fun t ht => hall t (List.mem_append_right _ ht)
  have hequal := equals_unionOf_regroup hgroup' hrest' (present_ne_nil hgroup)
  have hlast : (unionOfPresent (group ++ rest)).equals (unionOfPresent ts) = true :=
    equals_unionOfPresent_of_subset hts hperm.symm.subset hperm.subset
  have hfirst : (unionOfPresent us).equals
      (unionOfPresent (some (unionOfPresent group) :: rest)) = true := by
    refine equals_unionOfPresent_of_subset ?_ hus.subset hus.symm.subset
    simpa using ⟨canonical_unionOf hgroup', fun t ht => hall t (List.mem_append_right _ ht)⟩
  rw [unionOfPresent, List.filterMap_append] at hlast
  exact equals_trans hfirst (equals_trans hequal hlast)

end Present

/-- The members of a union are its alternatives, an equal one for each, in the order of their
first occurrences and without two that are equal. So it makes no difference in what order and how
often the types are given, or whether some of them, not all missing, are united before. -/
theorem union_is_set {ts : List (Option Ty)} (hts : ∀ t, some t ∈ ts → t.Canonical)
    (hsome : ∃ t, some t ∈ ts) :
    (unionOfPresent ts).members = (presentAlternatives ts).eraseDupsBy (fun t s => s.equals t) ∧
      (∀ m ∈ (unionOfPresent ts).members, m ∈ presentAlternatives ts) ∧
      (∀ a ∈ presentAlternatives ts, ∃ m ∈ (unionOfPresent ts).members, m.equals a = true) ∧
      (unionOfPresent ts).members.Pairwise (fun m n => m.equals n = false) ∧
      (∀ us, us ⊆ ts → ts ⊆ us → (unionOfPresent us).equals (unionOfPresent ts) = true) ∧
      ∀ group rest us, (∃ t, some t ∈ group) → ts.Perm (group ++ rest) →
        us.Perm (some (unionOfPresent group) :: rest) →
        (unionOfPresent us).equals (unionOfPresent ts) = true := by
  have hproper : ∀ a ∈ presentAlternatives ts, a.Proper := fun a ha =>
    (canonical_allAlternatives _ (canonical_present hts) a ha).proper
  rw [members_unionOfPresent hts hsome]
  refine ⟨distinct_eq_eraseDupsBy _, fun _ => mem_of_mem_distinct,
    fun _ => exists_mem_distinct hproper, allDiffer_distinct _,
    fun _ => equals_unionOfPresent_of_subset hts,
    fun _ _ _ => equals_unionOfPresent_regroup hts⟩

theorem union_with_missing_and_nested_types :
    (∀ t, some t ∈ [none, some (list bool), some (union [int, str]), some int] → t.Canonical) ∧
      (∃ t, some t ∈ [none, some (list bool), some (union [int, str]), some int]) ∧
      (unionOfPresent [none, some (list bool), some (union [int, str]), some int]).members =
        [list bool, int, str] ∧
      (unionOfPresent [some (unionOfPresent [none, some (list bool)]), some (union [int, str]),
          some int]).equals
        (unionOfPresent [none, some (list bool), some (union [int, str]), some int]) = true := by
  have hcanonical : ∀ t, some t ∈ [none, some (list bool), some (union [int, str]), some int] →
      t.Canonical := by
    have hpair : (union [int, str]).Canonical := canonical_union.2 ⟨by decide, by simp⟩
    simp [hpair]
  have hsome : ∃ t, some t ∈ [none, some (list bool), some (union [int, str]), some int] :=
    ⟨int, by simp⟩
  have hset := union_is_set hcanonical hsome
  refine ⟨hcanonical, hsome, hset.1.trans rfl, ?_⟩
  exact hset.2.2.2.2.2 [none, some (list bool)] [some (union [int, str]), some int] _
    ⟨list bool, by simp⟩ (.refl _) (.refl _)

/-- The union of nothing but a missing type is unknown, which then stands among the members. -/
theorem missing_type_united_before :
    unionOfPresent [none] = unknown ∧
      (unionOfPresent [some (unionOfPresent [none]), some int]).equals
        (unionOfPresent [none, some int]) = false := ⟨rfl, rfl⟩

end TypedScript.Ty
