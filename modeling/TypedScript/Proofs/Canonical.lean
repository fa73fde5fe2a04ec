import Mathlib.Tactic.Common
import TypedScript.Type.Union

/-!
# Canonical types

What a type is made of, and the rules that hold of a type at every depth. A type has
finitely many immediate parts, each smaller than the type itself; a rule about a single
type extends to everything inside it by going through the parts.

A type is canonical when no union or nullable in it could be written more simply. The
parts of a class include its superclass, and those of a generic declaration the bounds
of its parameters.
-/
namespace TypedScript

/-- The bounds that a list of type parameters declares. -/
def TypeParam.bounds (params : List TypeParam) : List Ty := params.filterMap TypeParam.bound

namespace Ty

/-- The types a type is immediately made of. -/
def parts : Ty → List Ty
  | prim _ => []
  | list t => [t]
  | map k v => [k, v]
  | nullable t => [t]
  | union ms => ms
  | function sig => sig.params.map Param.type ++ sig.result :: TypeParam.bounds sig.typeParams
  | interface shape => shape.properties.map Property.type ++ TypeParam.bounds shape.typeParams
  | cls c =>
    c.parent.toList.map cls ++ c.properties.map Member.type ++ c.methods.map Member.type ++
      c.ctor.toList.map function ++ TypeParam.bounds c.typeParams
  | enum _ => []
  | future t => [t]
  | ref _ _ => []
  | param _ => []
  | generic base args => base :: args

end Ty

/-! ## Parts are smaller -/

lemma TypeParam.sizeOf_bounds_lt {params : List TypeParam} {t : Ty}
    (h : t ∈ TypeParam.bounds params) : sizeOf t < sizeOf params := by
  obtain ⟨⟨name, bound⟩, hmem, rfl⟩ := List.mem_filterMap.1 h
  have := List.sizeOf_lt_of_mem hmem
  simp only [TypeParam.mk.sizeOf_spec, Option.some.sizeOf_spec] at this
  omega

lemma Param.sizeOf_type_lt {p : Param} {ps : List Param} (h : p ∈ ps) :
    sizeOf p.type < sizeOf ps := by
  have := List.sizeOf_lt_of_mem h
  obtain ⟨name, type⟩ := p
  simp only [Param.mk.sizeOf_spec] at this
  dsimp only
  omega

lemma Property.sizeOf_type_lt {p : Property} {ps : List Property} (h : p ∈ ps) :
    sizeOf p.type < sizeOf ps := by
  have := List.sizeOf_lt_of_mem h
  obtain ⟨name, type, isOptional⟩ := p
  simp only [Property.mk.sizeOf_spec] at this
  dsimp only
  omega

lemma Member.sizeOf_type_lt {m : Member} {ms : List Member} (h : m ∈ ms) :
    sizeOf m.type < sizeOf ms := by
  have := List.sizeOf_lt_of_mem h
  obtain ⟨name, type, visibility, isStatic, isReadonly, owner⟩ := m
  simp only [Member.mk.sizeOf_spec] at this
  dsimp only
  omega

namespace Ty

lemma sizeOf_function_part_lt {sig : Signature} {p : Ty} (h : p ∈ (function sig).parts) :
    sizeOf p < sizeOf (function sig) := by
  obtain ⟨params, result, isVariadic, typeParams⟩ := sig
  simp only [parts, List.mem_append, List.mem_map, List.mem_cons] at h
  simp only [function.sizeOf_spec, Signature.mk.sizeOf_spec]
  obtain ⟨q, hq, rfl⟩ | rfl | hb := h
  · have := Param.sizeOf_type_lt hq
    omega
  · omega
  · have := TypeParam.sizeOf_bounds_lt hb
    omega

lemma sizeOf_interface_part_lt {shape : Interface} {p : Ty}
    (h : p ∈ (interface shape).parts) : sizeOf p < sizeOf (interface shape) := by
  obtain ⟨name, properties, typeParams⟩ := shape
  simp only [parts, List.mem_append, List.mem_map] at h
  simp only [interface.sizeOf_spec, Interface.mk.sizeOf_spec]
  obtain ⟨q, hq, rfl⟩ | hb := h
  · have := Property.sizeOf_type_lt hq
    omega
  · have := TypeParam.sizeOf_bounds_lt hb
    omega

lemma sizeOf_cls_part_lt {c : Class} {p : Ty} (h : p ∈ (cls c).parts) :
    sizeOf p < sizeOf (cls c) := by
  obtain ⟨name, parent, properties, methods, ctor, typeParams, isAbstract⟩ := c
  simp only [parts, List.mem_append, List.mem_map, Option.mem_toList] at h
  simp only [cls.sizeOf_spec, Class.mk.sizeOf_spec]
  obtain (((⟨d, rfl, rfl⟩ | ⟨m, hm, rfl⟩) | ⟨m, hm, rfl⟩) | ⟨sig, rfl, rfl⟩) | hb := h
  · simp only [cls.sizeOf_spec, Option.some.sizeOf_spec]
    omega
  · have := Member.sizeOf_type_lt hm
    omega
  · have := Member.sizeOf_type_lt hm
    omega
  · simp only [function.sizeOf_spec, Option.some.sizeOf_spec]
    omega
  · have := TypeParam.sizeOf_bounds_lt hb
    omega

/-- Parts are smaller than what they are part of. -/
theorem sizeOf_part_lt {t p : Ty} (h : p ∈ t.parts) : sizeOf p < sizeOf t := by
  cases t with
  | prim p => exact absurd h List.not_mem_nil
  | list a =>
    obtain rfl := List.mem_singleton.1 h
    simp only [list.sizeOf_spec]
    omega
  | map k v =>
    simp only [parts, List.mem_cons, List.not_mem_nil, or_false] at h
    simp only [map.sizeOf_spec]
    obtain rfl | rfl := h <;> omega
  | nullable a =>
    obtain rfl := List.mem_singleton.1 h
    simp only [nullable.sizeOf_spec]
    omega
  | union ms =>
    have hlt : sizeOf p < sizeOf ms := List.sizeOf_lt_of_mem h
    simp only [union.sizeOf_spec]
    omega
  | function sig => exact sizeOf_function_part_lt h
  | interface shape => exact sizeOf_interface_part_lt h
  | cls c => exact sizeOf_cls_part_lt h
  | enum e => exact absurd h List.not_mem_nil
  | future a =>
    obtain rfl := List.mem_singleton.1 h
    simp only [future.sizeOf_spec]
    omega
  | ref name file => exact absurd h List.not_mem_nil
  | param name => exact absurd h List.not_mem_nil
  | generic base args =>
    simp only [generic.sizeOf_spec]
    obtain rfl | h := List.mem_cons.1 h
    · omega
    · have := List.sizeOf_lt_of_mem h
      omega

/-- What holds of a type as soon as it holds of the parts holds of every type. -/
theorem induction_on_parts {P : Ty → Prop} (step : ∀ t, (∀ p ∈ t.parts, P p) → P t) (t : Ty) :
    P t := by
  induction h : sizeOf t using Nat.strongRecOn generalizing t with
  | ind n ih =>
    subst h
    exact step t fun p hp => ih (sizeOf p) (sizeOf_part_lt hp) p rfl

lemma param_mem_parts {sig : Signature} {p : Param} (h : p ∈ sig.params) :
    p.type ∈ (function sig).parts :=
  List.mem_append_left _ (List.mem_map_of_mem h)

lemma result_mem_parts {sig : Signature} : sig.result ∈ (function sig).parts :=
  List.mem_append_right _ List.mem_cons_self

lemma property_mem_parts {s : Interface} {p : Property} (h : p ∈ s.properties) :
    p.type ∈ (interface s).parts :=
  List.mem_append_left _ (List.mem_map_of_mem h)

lemma union_or_kind_ne (t : Ty) : (∃ ms, t = union ms) ∨ t.kind ≠ .union := by
  cases t with
  | union ms => exact .inl ⟨ms, rfl⟩
  | _ => exact .inr (by simp [kind])

/-! ## Rules at every depth -/

/-- A rule holds of a type and of everything inside it. -/
inductive Everywhere (rule : Ty → Prop) : Ty → Prop
  | intro {t : Ty} : rule t → (∀ p ∈ t.parts, Everywhere rule p) → Everywhere rule t

namespace Everywhere

variable {rule other : Ty → Prop} {t p : Ty}

lemma here (h : Everywhere rule t) : rule t := by
  cases h with
  | intro hrule _ => exact hrule

lemma part (h : Everywhere rule t) (hp : p ∈ t.parts) : Everywhere rule p := by
  cases h with
  | intro _ hparts => exact hparts p hp

lemma mono (himp : ∀ t, rule t → other t) (h : Everywhere rule t) : Everywhere other t := by
  induction h with
  | intro hrule _ ih => exact .intro (himp _ hrule) ih

end Everywhere

lemma everywhere_iff {rule : Ty → Prop} {t : Ty} :
    t.Everywhere rule ↔ rule t ∧ ∀ p ∈ t.parts, p.Everywhere rule :=
  ⟨fun h => ⟨h.here, fun _ hp => h.part hp⟩, fun h => .intro h.1 h.2⟩

@[simp] lemma everywhere_prim {rule : Ty → Prop} {p : Prim} :
    (prim p).Everywhere rule ↔ rule (prim p) := by
  simp [everywhere_iff (t := prim p), parts]

@[simp] lemma everywhere_list {rule : Ty → Prop} {t : Ty} :
    (list t).Everywhere rule ↔ rule (list t) ∧ t.Everywhere rule := by
  simp [everywhere_iff (t := list t), parts]

@[simp] lemma everywhere_nullable {rule : Ty → Prop} {t : Ty} :
    (nullable t).Everywhere rule ↔ rule (nullable t) ∧ t.Everywhere rule := by
  simp [everywhere_iff (t := nullable t), parts]

@[simp] lemma everywhere_union {rule : Ty → Prop} {ms : List Ty} :
    (union ms).Everywhere rule ↔ rule (union ms) ∧ ∀ m ∈ ms, m.Everywhere rule :=
  everywhere_iff

/-- The rule for unions and shapes. A union has at least two members, none of them a
union and none equal to a later one. A shape names each of its properties once. -/
def IsProper : Ty → Prop
  | union ms =>
    2 ≤ ms.length ∧ (∀ m ∈ ms, m.kind ≠ .union) ∧ ms.Pairwise fun m n => m.equals n = false
  | interface shape => (shape.properties.map Property.name).Nodup
  | _ => True

instance : DecidablePred IsProper
  | union _ => inferInstanceAs (Decidable (_ ∧ _ ∧ _))
  | interface _ => inferInstanceAs (Decidable (List.Nodup _))
  | prim _ | list _ | map _ _ | nullable _ | function _ | cls _ | enum _ | future _ | ref _ _
  | param _ | generic _ _ => inferInstanceAs (Decidable True)

/-- The rule for nullables: what is made nullable is neither null nor nullable. -/
def IsTight : Ty → Prop
  | nullable t => t.isNull = false ∧ t.kind ≠ .nullable
  | _ => True

instance : DecidablePred IsTight
  | nullable _ => inferInstanceAs (Decidable (_ ∧ _))
  | prim _ | list _ | map _ _ | union _ | function _ | interface _ | cls _ | enum _ | future _
  | ref _ _ | param _ | generic _ _ => inferInstanceAs (Decidable True)

/-- All unions in the type are flat and without repetition. -/
def Proper (t : Ty) : Prop := t.Everywhere IsProper

lemma proper_prim (p : Prim) : (prim p).Proper := everywhere_prim.2 trivial

/-- All unions in the type are flat and without repetition, and no nullable in it says
twice that it takes null. -/
def Canonical (t : Ty) : Prop := t.Everywhere fun u => u.IsProper ∧ u.IsTight

lemma Canonical.proper {t : Ty} (h : t.Canonical) : t.Proper := h.mono fun _ hu => hu.1

end Ty

end TypedScript
