import TypedScript.Proofs.Joins
import TypedScript.Proofs.NullRemoval

/-!
# A type or null

That a value may be null is said by a nullable or by a union with a null member. As values and
as targets the two come to the same, as long as null is said once: a nullable around a type that
takes null fits the nullable of another type only if its inside does, null included, but fits a
union already if that takes null somewhere.

A type lies between itself without null and that made nullable: nothing but null is lost when
null is taken out. For a union it matters that what is left of it is neither null nor nullable, so
that making it nullable adds a wrapper around all of it.
-/
namespace TypedScript.Ty

variable {a c t v : Ty} {ts ms : List Ty}

/-! ## Nullables and unions with null -/

/-- A plain value fits a type if it fits one of its alternatives. -/
lemma IsPlain.assignableTo_iff_alternatives (hv : v.IsPlain) (ht : t.Canonical) :
    v.assignableTo t = true ↔ ∃ a ∈ t.alternatives, v.assignableTo a = true := by
  obtain ⟨ms, rfl⟩ | hkind := t.union_or_kind_ne
  · rw [alternatives_union ht, hv.assignableTo_union_iff]
  · simp [alternatives_eq_self hkind]

lemma orNull_of_not_allowsNull (h : t.allowsNull = false) : t.orNull = nullable t := by
  unfold orNull
  split
  · cases h
  · cases h
  · rfl

lemma canonical_with_null (ht : t.Canonical) : ∀ u ∈ [t, null], u.Canonical := by
  simp [ht]

/-- Null is one more alternative to a type that does not take it. -/
lemma alternatives_unionOf_null (ht : t.Canonical) (hnull : t.allowsNull = false) :
    (unionOf [t, null]).alternatives = t.alternatives ++ [null] := by
  have hall : allAlternatives [t, null] = t.alternatives ++ [null] := by
    simp [allAlternatives, alternatives]
  have hothers : ∀ a ∈ t.alternatives, a.equals null = false := by
    intro a ha
    rw [Bool.eq_false_iff]
    intro hequal
    cases matches_of_equals hequal with
    | prim p =>
      have htakes := (allowsNull_iff_alternatives ht).2 ⟨null, ha, rfl⟩
      simp [hnull] at htakes
  have hdiffer : AllDiffer (t.alternatives ++ [null]) := by
    refine List.pairwise_append.2 ⟨allDiffer_alternatives ht, List.pairwise_singleton _ _, ?_⟩
    intro a ha n hn
    rw [List.mem_singleton.1 hn]
    exact hothers a ha
  rw [alternatives_unionOf (by simp [hall]), hall, distinct_eq_self hdiffer]

lemma allowsNull_unionOf_null (ht : t.Canonical) : (unionOf [t, null]).allowsNull = true :=
  (allowsNull_unionOf (List.cons_ne_nil _ _) (canonical_with_null ht)).2 ⟨null, by simp, rfl⟩

/-- As values, the nullable of a type and its union with null fit the same targets. -/
lemma nullable_assignableTo_iff_union (ht : t.Canonical) (hnull : t.allowsNull = false)
    (hc : c.Proper) :
    (nullable t).assignableTo c = true ↔ (unionOf [t, null]).assignableTo c = true := by
  have hunion := canonical_unionOf (canonical_with_null ht)
  rw [ht.nullable_assignableTo_iff hc hnull, assignableTo_iff_alternatives hunion,
    alternatives_unionOf_null ht hnull, List.forall_mem_append, List.forall_mem_singleton,
    ← assignableTo_iff_alternatives ht, null_assignableTo_iff]

/-- A plain value fits neither the null of a nullable nor that of a union. -/
lemma IsPlain.assignableTo_nullable_iff_union (hv : v.IsPlain) (ht : t.Canonical)
    (hnull : t.allowsNull = false) :
    v.assignableTo (nullable t) = true ↔ v.assignableTo (unionOf [t, null]) = true := by
  have hunion := canonical_unionOf (canonical_with_null ht)
  rw [hv.assignableTo_nullable_iff, hv.assignableTo_iff_alternatives ht,
    hv.assignableTo_iff_alternatives hunion, alternatives_unionOf_null ht hnull]
  simp [or_and_right, exists_or, hv.not_assignableTo_null]

/-- No alternative of the type says twice that it takes null. -/
def SaysNullOnce (t : Ty) : Prop := ∀ u, nullable u ∈ t.alternatives → u.allowsNull = false

lemma saysNullOnce_of_not_allowsNull (ht : t.Canonical) (hnull : t.allowsNull = false) :
    t.SaysNullOnce := by
  intro u hu
  have htakes := (allowsNull_iff_alternatives ht).2 ⟨nullable u, hu, rfl⟩
  simp [hnull] at htakes

lemma SaysNullOnce.member (h : (union ms).SaysNullOnce) (hms : (union ms).Canonical)
    (hm : t ∈ ms) : t.SaysNullOnce := by
  intro u hu
  rw [alternatives_eq_self ((canonical_union.1 hms).1.2.1 t hm)] at hu
  obtain rfl := List.mem_singleton.1 hu
  exact h u ((alternatives_union hms).symm ▸ hm)

/-- As targets, the nullable of a type and its union with null take the same values, if these say
null once. -/
lemma assignableTo_nullable_iff_union (ha : a.Canonical) (honce : a.SaysNullOnce)
    (ht : t.Canonical) (hnull : t.allowsNull = false) :
    a.assignableTo (nullable t) = true ↔ a.assignableTo (unionOf [t, null]) = true := by
  have hnullable : (nullable t).allowsNull = true := rfl
  have hunion := allowsNull_unionOf_null ht
  have hproper : (nullable t).Proper :=
    (orNull_of_not_allowsNull hnull ▸ ht.orNull : (nullable t).Canonical).proper
  have hproper' := (canonical_unionOf (canonical_with_null ht)).proper
  induction a using induction_on_parts with
  | step a ih =>
    cases a.role with
    | null => rw [null_assignableTo_iff, null_assignableTo_iff, hnullable, hunion]
    | nullable b =>
      have hb : b.Canonical := (canonical_nullable.1 ha).2
      have hbnull : b.allowsNull = false := honce b List.mem_cons_self
      have hinside := ih b List.mem_cons_self hb (saysNullOnce_of_not_allowsNull hb hbnull)
      rw [hb.nullable_assignableTo_iff hproper hbnull, hb.nullable_assignableTo_iff hproper' hbnull,
        hnullable, hunion]
      exact and_congr_left fun _ => hinside
    | union ms =>
      rw [union_assignableTo_iff, union_assignableTo_iff]
      exact forall₂_congr fun m hm => ih m hm (ha.part hm) (honce.member ha hm)
    | plain hplain => exact hplain.assignableTo_nullable_iff_union ht hnull

/-- A type that does not take null can be made nullable or joined with null in a union. Both fit
the same targets whose unions are flat and without repetition, and both take the same values, as
long as these do not say twice that they take null. -/
theorem nullable_or_union_with_null (ht : t.Canonical) (hnull : t.allowsNull = false) :
    (∀ c : Ty, c.Proper → t.orNull.assignableTo c = (unionOf [t, null]).assignableTo c) ∧
      ∀ a : Ty, a.Canonical → a.SaysNullOnce →
        a.assignableTo t.orNull = a.assignableTo (unionOf [t, null]) := by
  rw [orNull_of_not_allowsNull hnull]
  refine ⟨fun c hc => ?_, fun a ha honce => ?_⟩
  · exact Bool.eq_iff_iff.2 (nullable_assignableTo_iff_union ht hnull hc)
  · exact Bool.eq_iff_iff.2 (assignableTo_nullable_iff_union ha honce ht hnull)

theorem union_nullable_or_with_null :
    (union [int, str]).Canonical ∧ (union [int, str]).allowsNull = false ∧
      (union [nullable (prim .i8), str]).Canonical ∧
      (union [nullable (prim .i8), str]).SaysNullOnce ∧
      unionOf [union [int, str], null] = union [int, str, null] ∧
      (union [nullable (prim .f64), str]).Proper ∧
      (union [int, str]).orNull.assignableTo (union [nullable (prim .f64), str]) =
        (unionOf [union [int, str], null]).assignableTo (union [nullable (prim .f64), str]) ∧
      (union [nullable (prim .i8), str]).assignableTo (union [int, str]).orNull =
        (union [nullable (prim .i8), str]).assignableTo (unionOf [union [int, str], null]) := by
  have hcanonical :
      (union [int, str]).Canonical ∧ (union [nullable (prim .i8), str]).Canonical := by
    simp only [Canonical, everywhere_union, everywhere_nullable, everywhere_prim,
      List.forall_mem_cons, List.not_mem_nil, IsEmpty.forall_iff, implies_true]
    decide
  have honce : (union [nullable (prim .i8), str]).SaysNullOnce := by
    intro u hu
    obtain rfl : u = prim .i8 := by simpa [alternatives, allAlternatives] using hu
    rfl
  have hproper : (union [nullable (prim .f64), str]).Proper := by
    simp only [Proper, everywhere_union, everywhere_nullable, everywhere_prim,
      List.forall_mem_cons, List.not_mem_nil, IsEmpty.forall_iff, implies_true]
    decide
  obtain ⟨hvalue, htarget⟩ := nullable_or_union_with_null hcanonical.1 rfl
  exact ⟨hcanonical.1, rfl, hcanonical.2, honce, rfl, hproper, hvalue _ hproper,
    htarget _ hcanonical.2 honce⟩

/-- A value that says null twice can tell the two apart. -/
example :
    (nullable (union [int, null])).assignableTo int.orNull = false ∧
      (nullable (union [int, null])).assignableTo (unionOf [int, null]) = true := by decide

/-! ## Between a type without null and its nullable -/

/-- A union of some types fits where all of them do. -/
lemma unionOf_assignableTo (hts : ∀ t ∈ ts, t.Canonical) (hne : ts ≠ [])
    (h : ∀ t ∈ ts, t.assignableTo c = true) : (unionOf ts).assignableTo c = true := by
  rw [assignableTo_iff_alternatives (canonical_unionOf hts),
    alternatives_unionOf (allAlternatives_ne_nil hts hne)]
  intro a ha
  obtain ⟨t, ht, hat⟩ := mem_allAlternatives_iff.1 (mem_of_mem_distinct ha)
  exact (assignableTo_iff_alternatives (hts t ht)).1 (h t ht) a hat

/-- A union of some types that comes down to a single alternative is one of them: a union among
them would have given two. -/
lemma unionOf_mem_of_kind_ne (hts : ∀ t ∈ ts, t.Canonical) (hne : ts ≠ [])
    (hkind : (unionOf ts).kind ≠ .union) : unionOf ts ∈ ts := by
  have hproper : ∀ a ∈ allAlternatives ts, a.Proper :=
    fun a ha => (canonical_allAlternatives ts hts a ha).proper
  have hone : distinct (allAlternatives ts) = [unionOf ts] := by
    rw [← alternatives_unionOf (allAlternatives_ne_nil hts hne), alternatives_eq_self hkind]
  have hmem : unionOf ts ∈ allAlternatives ts := mem_of_mem_distinct (by simp [hone])
  obtain ⟨t, ht, hat⟩ := mem_allAlternatives_iff.1 hmem
  have hsub : ∀ a ∈ t.alternatives, a ∈ allAlternatives ts :=
    fun a ha => mem_allAlternatives_iff.2 ⟨t, ht, ha⟩
  have hfew : t.alternatives.length ≤ 1 := by
    have hcover : Covered t.alternatives (allAlternatives ts) :=
      fun a ha => ⟨a, hsub a ha, equals_refl (hproper a (hsub a ha))⟩
    have hle := length_distinct_le (fun a ha => hproper a (hsub a ha)) hproper hcover
    rwa [distinct_eq_self (allDiffer_alternatives (hts t ht)), hone] at hle
  obtain ⟨ms, rfl⟩ | hsingle := t.union_or_kind_ne
  · have hlen : 2 ≤ ms.length := (canonical_union.1 (hts _ ht)).1.1
    rw [alternatives_union (hts _ ht)] at hfew
    omega
  · rw [alternatives_eq_self hsingle] at hat
    rwa [List.mem_singleton.1 hat]

/-- Without its null, a member of a union is neither null nor nullable. -/
lemma stripNull_of_canonical (ht : t.Canonical) (hkind : t.kind ≠ .union)
    (hnull : t.isNull = false) :
    t.stripNull.isNull = false ∧ t.stripNull.kind ≠ .nullable := by
  cases t with
  | nullable u => exact (canonical_nullable.1 ht).1
  | union ms => exact absurd rfl hkind
  | prim p => exact ⟨hnull, by simp [stripNull, kind]⟩
  | _ => exact ⟨rfl, by simp [stripNull, kind]⟩

/-- A union with a null member says null once when it is made nullable after null was taken out. -/
lemma orNull_stripNull_union (ht : (union ms).Canonical) (hmem : null ∈ ms) :
    (union ms).stripNull.orNull = nullable (union ms).stripNull := by
  have hmembers := canonical_strippedMembers ht
  rw [stripNull_union hmem]
  refine orNull_of_canonical (canonical_nullable.2 ⟨?_, canonical_unionOf hmembers⟩)
  by_cases hkind : (unionOf (strippedMembers ms)).kind = .union
  · refine ⟨Bool.eq_false_iff.2 fun hnull => ?_, by simp [hkind]⟩
    rw [isNull_iff.1 hnull] at hkind
    cases hkind
  · have hin := unionOf_mem_of_kind_ne hmembers (strippedMembers_ne_nil ht) hkind
    obtain ⟨m, hm, hkept, heq⟩ := mem_strippedMembers.1 hin
    rw [← heq]
    exact stripNull_of_canonical (ht.part hm) ((canonical_union.1 ht).1.2.1 m hm) hkept

/-- What a type that is no union is without its null fits it. -/
lemma stripNull_assignableTo_of_kind_ne (ht : t.Canonical) (hkind : t.kind ≠ .union) :
    t.stripNull.assignableTo t = true := by
  have hproper := (canonical_stripNull ht hkind).proper
  have hself := hproper.embeds.equal hproper (equals_refl hproper)
  obtain heq | heq := stripNull_cases hkind
  · rwa [heq] at hself ⊢
  · rw [heq]
    exact hproper.embeds.nullable hproper hself

/-- A member of a union fits whatever it fits without its null, as soon as that is made
nullable. -/
lemma assignableTo_nullable_of_stripNull (ht : t.Proper) (hc : c.Proper) (hkind : t.kind ≠ .union)
    (h : t.stripNull.assignableTo c = true) : t.assignableTo (nullable c) = true := by
  obtain heq | heq := stripNull_cases hkind
  · rw [heq] at h
    exact ht.embeds.nullable hc h
  · rw [heq]
    exact nullable_assignableTo_nullable_iff.2 (.inr h)

/-- A union with a null member, without its null and back. -/
lemma stripNull_union_between (ht : (union ms).Canonical) (hmem : null ∈ ms) :
    (union ms).stripNull.assignableTo (union ms) = true ∧
      (union ms).assignableTo (union ms).stripNull.orNull = true := by
  have hstripped := canonical_strippedMembers ht
  obtain ⟨⟨-, hflat, -⟩, hmembers⟩ := canonical_union.1 ht
  constructor
  · rw [stripNull_union hmem]
    refine unionOf_assignableTo hstripped (strippedMembers_ne_nil ht) fun s hs => ?_
    obtain ⟨m, hm, -, rfl⟩ := mem_strippedMembers.1 hs
    have hfits := stripNull_assignableTo_of_kind_ne (hmembers m hm) (hflat m hm)
    have hproper := (canonical_stripNull (hmembers m hm) (hflat m hm)).proper
    exact hproper.embeds.member (hmembers m hm).proper hm hfits
  · rw [orNull_stripNull_union ht hmem, stripNull_union hmem]
    refine union_assignableTo_iff.2 fun m hm => ?_
    by_cases hnull : m.isNull = true
    · rw [isNull_iff.1 hnull, null_assignableTo_iff]
      rfl
    · have hs : m.stripNull ∈ strippedMembers ms :=
        mem_strippedMembers.2 ⟨m, hm, by simpa using hnull, rfl⟩
      have hcanonical := hstripped _ hs
      exact assignableTo_nullable_of_stripNull (hmembers m hm).proper
        (canonical_unionOf hstripped).proper (hflat m hm)
        (assignableTo_unionOf hcanonical hstripped hs (equals_refl hcanonical.proper))

/-- Taking null out of a canonical type loses nothing but null: what is left fits the type, and
the type fits what is left or null. -/
theorem null_removal_loses_only_null (ht : t.Canonical) :
    t.stripNull.assignableTo t = true ∧ t.assignableTo t.stripNull.orNull = true := by
  have hself : t.assignableTo t = true := ht.proper.embeds.equal ht.proper (equals_refl ht.proper)
  obtain ⟨ms, rfl⟩ | hkind := t.union_or_kind_ne
  · by_cases hmem : null ∈ ms
    · exact stripNull_union_between ht hmem
    · rw [stripNull_union_of_not_mem hmem]
      exact ⟨hself, assignableTo_orNull ht.proper ht.proper hself⟩
  · refine ⟨stripNull_assignableTo_of_kind_ne ht hkind, ?_⟩
    obtain heq | heq := stripNull_cases hkind
    · rw [heq]
      exact assignableTo_orNull ht.proper ht.proper hself
    · rw [heq] at ht
      rwa [orNull_of_canonical ht, ← heq]

/-- The union inside of a nullable member is taken apart, and its own null stays. -/
theorem union_with_nullable_union_between :
    (union [nullable (union [int, null]), null, str]).Canonical ∧
      (union [nullable (union [int, null]), null, str]).stripNull = union [int, null, str] ∧
      (union [int, null, str]).assignableTo (union [nullable (union [int, null]), null, str]) =
        true ∧
      (union [nullable (union [int, null]), null, str]).assignableTo
        (nullable (union [int, null, str])) = true := by
  have hcanonical : (union [nullable (union [int, null]), null, str]).Canonical := by
    simp only [Canonical, everywhere_union, everywhere_nullable, everywhere_prim,
      List.forall_mem_cons, List.not_mem_nil, IsEmpty.forall_iff, implies_true]
    decide
  exact ⟨hcanonical, rfl, null_removal_loses_only_null hcanonical⟩

end TypedScript.Ty
