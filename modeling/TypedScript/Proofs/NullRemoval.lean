import TypedScript.Proofs.Canonical.Unions
import TypedScript.Proofs.Transitivity

/-!
# Types without their null

Taking null out of a type goes one step deep. A nullable gives up its wrapper and nothing of
what is inside. A union gives up its null member; only when it has one do its nullable members
give up their wrappers too.

So null is gone from the result exactly if it was said plainly: nothing that already takes null
is made nullable, and a union with a nullable member has null itself among its members.
-/
namespace TypedScript

mutual

/-- What is left of a type when unions and nullables are taken apart. -/
def Ty.leaves : Ty → List Ty
  | .nullable t => t.leaves
  | .union ms => Ty.allLeaves ms
  | t => [t]
termination_by structural t => t

def Ty.allLeaves : List Ty → List Ty
  | [] => []
  | m :: ms => m.leaves ++ Ty.allLeaves ms
termination_by structural ts => ts

end

namespace Ty

variable {t m : Ty} {ts ms : List Ty}

lemma mem_leaves_of_mem (hm : m ∈ ms) {a : Ty} (ha : a ∈ m.leaves) : a ∈ (union ms).leaves := by
  change a ∈ allLeaves ms
  induction ms with
  | nil => exact absurd hm List.not_mem_nil
  | cons n ms ih =>
    obtain rfl | hm := List.mem_cons.1 hm
    · exact List.mem_append_left _ ha
    · exact List.mem_append_right _ (ih hm)

/-! ## Null in unions -/

/-- Equal types take null alike. -/
lemma allowsNull_of_equals {a b : Ty} (ha : a.Proper) (hb : b.Proper) (h : a.equals b = true)
    (hnull : a.allowsNull = true) : b.allowsNull = true :=
  allowsNull_of_assignableTo hnull hb (ha.embeds.equal hb h)

lemma allowsNull_iff_alternatives (ht : t.Canonical) :
    t.allowsNull = true ↔ ∃ a ∈ t.alternatives, a.allowsNull = true := by
  obtain ⟨ms, rfl⟩ | hkind := t.union_or_kind_ne
  · rw [alternatives_union ht, allowsNull, anyAllowsNull_iff]
  · simp [alternatives_eq_self hkind]

/-- The union of some types takes null if one of them does. -/
lemma allowsNull_unionOf (hne : ts ≠ []) (hts : ∀ t ∈ ts, t.Canonical) :
    (unionOf ts).allowsNull = true ↔ ∃ t ∈ ts, t.allowsNull = true := by
  have hproper : ∀ a ∈ allAlternatives ts, a.Proper :=
    fun a ha => (canonical_allAlternatives ts hts a ha).proper
  rw [allowsNull_iff_alternatives (canonical_unionOf hts),
    alternatives_unionOf (allAlternatives_ne_nil hts hne)]
  constructor
  · rintro ⟨a, ha, hnull⟩
    obtain ⟨t, ht, hat⟩ := mem_allAlternatives_iff.1 (mem_of_mem_distinct ha)
    exact ⟨t, ht, (allowsNull_iff_alternatives (hts t ht)).2 ⟨a, hat, hnull⟩⟩
  · rintro ⟨t, ht, hnull⟩
    obtain ⟨a, hat, ha⟩ := (allowsNull_iff_alternatives (hts t ht)).1 hnull
    have hmem : a ∈ allAlternatives ts := mem_allAlternatives_iff.2 ⟨t, ht, hat⟩
    -- The alternative may have been dropped for an equal one, which takes null too.
    obtain ⟨b, hb, hba⟩ := exists_mem_distinct hproper hmem
    have hb' := hproper b (mem_of_mem_distinct hb)
    have hab := equals_symm hb' (hproper a hmem) hba
    exact ⟨b, hb, allowsNull_of_equals (hproper a hmem) hb' hab ha⟩

/-! ## One step deep -/

/-- Besides null and unions, a type takes null only as a nullable. -/
lemma exists_nullable_of_allowsNull (hkind : t.kind ≠ .union) (hnull : t ≠ null)
    (hleaves : ∀ a ∈ t.leaves, a.isAbsorbing = false) (h : t.allowsNull = true) :
    ∃ u, t = nullable u := by
  cases t with
  | prim p =>
    have habsorbing : p.isAbsorbing = false := hleaves (prim p) List.mem_cons_self
    have hp : p ≠ .null := fun hp => hnull (by rw [hp])
    simp [allowsNull, habsorbing, hp] at h
  | nullable u => exact ⟨u, rfl⟩
  | union ms => exact absurd rfl hkind
  | _ => simp [allowsNull] at h

/-- A type that is no union keeps null only inside of a nullable. -/
lemma allowsNull_stripNull_of_kind_ne (hkind : t.kind ≠ .union) (hnull : t ≠ null)
    (hleaves : ∀ a ∈ t.leaves, a.isAbsorbing = false) :
    t.stripNull.allowsNull = true ↔ ∃ u, t = nullable u ∧ u.allowsNull = true := by
  by_cases hnullable : ∃ u, t = nullable u
  · obtain ⟨u, rfl⟩ := hnullable
    simp [stripNull]
  · have heq : t.stripNull = t :=
      (stripNull_cases hkind).resolve_right fun h => hnullable ⟨_, h⟩
    rw [heq]
    constructor
    · intro h
      exact absurd (exists_nullable_of_allowsNull hkind hnull hleaves h) hnullable
    · rintro ⟨u, hu, -⟩
      exact absurd ⟨u, hu⟩ hnullable

lemma stripNull_union (hmem : null ∈ ms) : (union ms).stripNull = unionOf (strippedMembers ms) :=
  if_pos (List.any_eq_true.2 ⟨null, hmem, rfl⟩)

lemma stripNull_union_of_not_mem (hmem : null ∉ ms) : (union ms).stripNull = union ms := by
  refine if_neg fun hany => ?_
  obtain ⟨m, hm, hnull⟩ := List.any_eq_true.1 hany
  exact hmem (isNull_iff.1 hnull ▸ hm)

lemma canonical_strippedMembers (ht : (union ms).Canonical) :
    ∀ s ∈ strippedMembers ms, s.Canonical := by
  obtain ⟨⟨-, hflat, -⟩, hmembers⟩ := canonical_union.1 ht
  intro s hs
  obtain ⟨m, hm, -, rfl⟩ := mem_strippedMembers.1 hs
  exact canonical_stripNull (hmembers m hm) (hflat m hm)

/-- A union has a member besides null. -/
lemma strippedMembers_ne_nil (ht : (union ms).Canonical) : strippedMembers ms ≠ [] := by
  obtain ⟨m, hm, hnull⟩ := exists_mem_ne (t := null) ht rfl
  have hkept : m.isNull = false := Bool.eq_false_iff.2 fun h => hnull (isNull_iff.1 h)
  exact List.ne_nil_of_mem (mem_strippedMembers.2 ⟨m, hm, hkept, rfl⟩)

/-- A union with a null member keeps null only inside of its nullable members. -/
lemma allowsNull_stripNull_of_null_mem (ht : (union ms).Canonical) (hmem : null ∈ ms)
    (hleaves : ∀ a ∈ (union ms).leaves, a.isAbsorbing = false) :
    (union ms).stripNull.allowsNull = true ↔ ∃ u, nullable u ∈ ms ∧ u.allowsNull = true := by
  have hmember : ∀ m ∈ ms, m ≠ null →
      (m.stripNull.allowsNull = true ↔ ∃ u, m = nullable u ∧ u.allowsNull = true) :=
    fun m hm hnull => allowsNull_stripNull_of_kind_ne ((canonical_union.1 ht).1.2.1 m hm) hnull
      fun a ha => hleaves a (mem_leaves_of_mem hm ha)
  rw [stripNull_union hmem,
    allowsNull_unionOf (strippedMembers_ne_nil ht) (canonical_strippedMembers ht)]
  constructor
  · rintro ⟨s, hs, hnull⟩
    obtain ⟨m, hm, hkept, rfl⟩ := mem_strippedMembers.1 hs
    have hm' : m ≠ null := by
      rintro rfl
      cases hkept
    obtain ⟨u, rfl, hu⟩ := (hmember m hm hm').1 hnull
    exact ⟨u, hm, hu⟩
  · rintro ⟨u, hu, hnull⟩
    exact ⟨u, mem_strippedMembers.2 ⟨nullable u, hu, rfl, rfl⟩, hnull⟩

/-- A union without a null member is left alone, with its nullable members. -/
lemma allowsNull_stripNull_of_null_not_mem (ht : (union ms).Canonical) (hmem : null ∉ ms)
    (hleaves : ∀ a ∈ (union ms).leaves, a.isAbsorbing = false) :
    (union ms).stripNull.allowsNull = true ↔ ∃ u, nullable u ∈ ms := by
  rw [stripNull_union_of_not_mem hmem, allowsNull, anyAllowsNull_iff]
  constructor
  · rintro ⟨m, hm, hnull⟩
    have hm' : m ≠ null := fun heq => hmem (heq ▸ hm)
    obtain ⟨u, rfl⟩ := exists_nullable_of_allowsNull ((canonical_union.1 ht).1.2.1 m hm) hm'
      (fun a ha => hleaves a (mem_leaves_of_mem hm ha)) hnull
    exact ⟨u, hm⟩
  · rintro ⟨u, hu⟩
    exact ⟨nullable u, hu, rfl⟩

/-- Null is said plainly in a type: nothing in it that takes null is made nullable, and as a
union with a nullable member it has null among its members. -/
def PlainlyNull (t : Ty) : Prop :=
  (∀ u, nullable u ∈ t.alternatives → u.allowsNull = false) ∧
    (t.kind = .union → ∀ u, nullable u ∈ t.alternatives → null ∈ t.alternatives)

/-- For a canonical type besides null that neither any nor unknown is a choice of, taking null
out leaves a type that does not take null exactly if the type says null plainly. -/
theorem null_removed_iff (ht : t.Canonical) (hnull : t ≠ null)
    (hleaves : ∀ a ∈ t.leaves, a.isAbsorbing = false) :
    t.stripNull.allowsNull = false ↔ t.PlainlyNull := by
  rw [← Bool.not_eq_true]
  by_cases hkind : t.kind = .union
  · cases t with
    | union ms =>
      by_cases hmem : null ∈ ms
      · rw [allowsNull_stripNull_of_null_mem ht hmem hleaves]
        simp [PlainlyNull, alternatives_union ht, hmem]
      · rw [allowsNull_stripNull_of_null_not_mem ht hmem hleaves]
        have hnone : (∀ u, nullable u ∉ ms) → ∀ u, nullable u ∈ ms → u.allowsNull = false :=
          fun h u hu => absurd hu (h u)
        simpa [PlainlyNull, alternatives_union ht, hmem, kind] using hnone
    | _ => simp [kind] at hkind
  · rw [allowsNull_stripNull_of_kind_ne hkind hnull hleaves]
    simp [PlainlyNull, alternatives_eq_self hkind, hkind, eq_comm (b := t)]

theorem null_removed_from_union_with_nullable :
    (union [nullable int, null, str]).Canonical ∧ union [nullable int, null, str] ≠ null ∧
      (∀ a ∈ (union [nullable int, null, str]).leaves, a.isAbsorbing = false) ∧
      (union [nullable int, null, str]).PlainlyNull ∧
      (union [nullable int, null, str]).stripNull.allowsNull = false := by
  have hcanonical : (union [nullable int, null, str]).Canonical := by
    simp only [Canonical, everywhere_union, everywhere_nullable, everywhere_prim,
      List.forall_mem_cons, List.not_mem_nil, IsEmpty.forall_iff, implies_true]
    decide
  have hleaves : ∀ a ∈ (union [nullable int, null, str]).leaves, a.isAbsorbing = false := by decide
  have hplain : (union [nullable int, null, str]).PlainlyNull := by
    refine ⟨fun u hu => ?_, fun _ _ _ => by simp [alternatives, allAlternatives]⟩
    obtain rfl : u = int := by simpa [alternatives, allAlternatives] using hu
    rfl
  exact ⟨hcanonical, by simp, hleaves, hplain,
    (null_removed_iff hcanonical (by simp) hleaves).2 hplain⟩

/-- A nullable member of a union without null stays, and so does null in a union that was made
nullable. -/
theorem null_left_by_removal :
    ((union [nullable int, str]).Canonical ∧
      (∀ a ∈ (union [nullable int, str]).leaves, a.isAbsorbing = false) ∧
      (union [nullable int, str]).stripNull.allowsNull = true) ∧
    (nullable (union [int, null])).Canonical ∧
      (∀ a ∈ (nullable (union [int, null])).leaves, a.isAbsorbing = false) ∧
      (nullable (union [int, null])).stripNull.allowsNull = true := by
  simp only [Canonical, everywhere_union, everywhere_nullable, everywhere_prim,
    List.forall_mem_cons, List.not_mem_nil, IsEmpty.forall_iff, implies_true, and_true]
  exact ⟨⟨by decide, by decide, rfl⟩, by decide, by decide, rfl⟩

end Ty

end TypedScript
