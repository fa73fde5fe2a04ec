import TypedScript.Proofs.Assignability
import TypedScript.Proofs.Generics.Substitution
import TypedScript.Typing.Access

/-!
# Bounds of type parameters

A type argument is compared with the bound of its parameter as the bound was declared. Where the
bound mentions no parameter that the type arguments replace, substitution leaves it alone, and
what is compared is the bound that is meant.

A bound may mention other parameters of the list. They stand for themselves then, and not for the
type arguments that go with them: if the bound is another parameter, the only type argument that
meets it is that parameter.
-/
namespace TypedScript

namespace Ty

variable {t : Ty} {name : String}

/-! ## Values that fit a type parameter -/

lemma eq_param_of_assignableTo (hkind : t.kind ≠ .union)
    (h : t.assignableTo (param name) = true) : t = param name := by
  cases t.role with
  | null => simp [null_assignableTo_iff, allowsNull] at h
  | nullable a =>
    simp [nullable_assignableTo_single_iff (t := param name) trivial, isAbsorbing] at h
  | union ms => exact absurd rfl hkind
  | plain ht =>
    obtain habsorbing | hdirect := (ht.assignableTo_single_iff (t := param name) trivial).1 h
    · cases habsorbing
    · cases hdirect with
      | same _ hequal =>
        cases matches_of_equals hequal with
        | param => rfl

/-- A type parameter takes no values but its own. -/
lemma assignableTo_param_iff (ht : t.Canonical) :
    t.assignableTo (param name) = true ↔ t = param name := by
  constructor
  · intro h
    obtain ⟨ms, rfl⟩ | hkind := t.union_or_kind_ne
    · have hflat := (canonical_union.1 ht).1.2.1
      have hall : ∀ m ∈ ms, m = param name :=
        fun m hm => eq_param_of_assignableTo (hflat m hm) (union_assignableTo_iff.1 h m hm)
      obtain ⟨m, hm, hother⟩ := exists_mem_ne (t := param name) ht (by simp [equals, equalsBy])
      exact absurd (hall m hm) hother
    · exact eq_param_of_assignableTo hkind h
  · rintro rfl
    exact ht.proper.embeds.equal ht.proper (equals_refl ht.proper)

end Ty

/-! ## The check -/

namespace TypeParam

variable {declared : List TypeParam} {p : TypeParam} {s : Subst}

/-- A parameter is unbound, or bound to unknown or to a type that fits its bound, as the bound is
read. -/
def Meets (s : Subst) (read : Ty → Ty) (p : TypeParam) : Prop :=
  ∀ b, p.bound = some b → s.get? p.name = none ∨ s.get? p.name = some .unknown ∨
    ∃ t, s.get? p.name = some t ∧ t.assignableTo (read b) = true

lemma violation?_eq_none_iff : p.violation? s = none ↔ p.Meets s id := by
  unfold violation? Meets
  cases p.bound with
  | none => simp
  | some b =>
    cases s.get? p.name with
    | none => simp
    | some t =>
      have hunknown : t.isUnknown = true ↔ t = .unknown := Ty.isPrim_iff
      dsimp only
      split
      case isTrue hmet => simpa [hunknown] using hmet
      case isFalse hmissed => simpa [hunknown] using hmissed

lemma constraints?_eq_none_iff :
    Typing.constraints? declared s = none ↔ ∀ p ∈ declared, p.Meets s id := by
  simp [Typing.constraints?, firstViolation?, violation?_eq_none_iff]

/-- No diagnostic comes of the type arguments exactly if each fits the bound of its parameter as
the bound was declared. If the bounds are canonical and the type arguments fix them, that is so
exactly if each fits its bound with the type arguments put in. A parameter whose bound is another
parameter passes only unbound, with unknown or with that parameter itself. -/
theorem bounds_checked_as_declared {declared : List TypeParam} {s : Subst} :
    (Typing.constraints? declared s = none ↔ ∀ p ∈ declared, p.Meets s id) ∧
      ((∀ b ∈ bounds declared, b.Canonical ∧ b.Fixes s) →
        (Typing.constraints? declared s = none ↔
          ∀ p ∈ declared, p.Meets s fun b => b.substitute s)) ∧
      ∀ p ∈ declared, ∀ name t, p.bound = some (.param name) → s.get? p.name = some t →
        t.Canonical → Typing.constraints? declared s = none → t = .unknown ∨ t = .param name := by
  refine ⟨constraints?_eq_none_iff, fun hbounds => ?_, fun p hp name t hbound ht hcanonical h => ?_⟩
  · rw [constraints?_eq_none_iff]
    refine forall₂_congr fun p hp => forall₂_congr fun b hb => ?_
    obtain ⟨hcanonical, hfixes⟩ := hbounds b (mem_bounds hp hb)
    simp only [Ty.substitute_eq_self hcanonical hfixes, id]
  · obtain hnone | hunknown | ⟨u, hu, hfits⟩ := constraints?_eq_none_iff.1 h p hp _ hbound
    · simp [hnone] at ht
    · exact .inl (Option.some.inj (ht.symm.trans hunknown))
    · obtain rfl : u = t := Option.some.inj (hu.symm.trans ht)
      exact .inr ((Ty.assignableTo_param_iff hcanonical).1 hfits)

theorem bound_with_outer_parameter_met :
    (∀ b ∈ bounds [⟨"T", some (.list (.param "E"))⟩],
        b.Canonical ∧ b.Fixes [("T", .list (.param "E"))]) ∧
      Typing.constraints? [⟨"T", some (.list (.param "E"))⟩] [("T", .list (.param "E"))] = none ∧
      ∀ p ∈ [TypeParam.mk "T" (some (.list (.param "E")))],
        p.Meets [("T", .list (.param "E"))] fun b => b.substitute [("T", .list (.param "E"))] := by
  have hbounds : ∀ b ∈ bounds [⟨"T", some (.list (.param "E"))⟩],
      b.Canonical ∧ b.Fixes [("T", .list (.param "E"))] := by
    refine List.forall_mem_singleton.2 ⟨by simp, fun name hname u hu => ?_⟩
    cases hname with
    | inside hpart _ hname =>
      obtain rfl := List.mem_singleton.1 hpart
      cases hname with
      | here => simp [Subst.get?, ByName.find?] at hu
      | inside hpart => exact absurd hpart List.not_mem_nil
  have hnone : Typing.constraints? [⟨"T", some (.list (.param "E"))⟩]
      [("T", .list (.param "E"))] = none := rfl
  exact ⟨hbounds, hnone, (bounds_checked_as_declared.2.1 hbounds).1 hnone⟩

/-- The second parameter is bound to a type that fits what the first is bound to, and is refused
nevertheless. -/
theorem sibling_bound_not_replaced :
    (∀ p ∈ [TypeParam.mk "T" none, ⟨"U", some (.param "T")⟩],
        p.Meets [("T", .int), ("U", .int)] fun b => b.substitute [("T", .int), ("U", .int)]) ∧
      (Typing.constraints? [⟨"T", none⟩, ⟨"U", some (.param "T")⟩]
        [("T", .int), ("U", .int)]).isSome = true := by
  refine ⟨?_, rfl⟩
  simp only [List.forall_mem_cons, List.not_mem_nil, IsEmpty.forall_iff, implies_true, and_true]
  refine ⟨fun b hb => (by cases hb), fun b hb => ?_⟩
  cases hb
  exact .inr (.inr ⟨.int, rfl, rfl⟩)

end TypeParam

end TypedScript
