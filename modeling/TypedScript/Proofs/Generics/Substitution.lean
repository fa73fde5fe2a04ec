import TypedScript.Proofs.Canonical.UnionSets
import TypedScript.Proofs.Generics.Inference

/-!
# What substitution does to a type

Substitution goes into the parts of a type and makes the type anew, with one equation for each
kind of type. The equations for unions and nullables ask for a canonical type, since empty
bindings leave every type as it is and do not make it anew.

Only what is bound to the type parameters that a type mentions matters. Those that a signature
declares are not mentioned outside of it.
-/
namespace TypedScript

/-! ## Bindings -/

namespace Subst

variable {s : Subst} {params : List TypeParam} {name : String} {t : Ty}

@[simp] lemma get?_nil : Subst.get? [] name = none := rfl

lemma get?_cons {b : String × Ty} :
    Subst.get? (b :: s) name = if b.1 = name then some b.2 else s.get? name := by
  by_cases hname : b.1 = name
  · simp [get?, ByName.find?, hname]
  · simp [get?, ByName.find?, hname]

/-- The names that are declared anew are no longer bound, and the others are bound as before. -/
lemma get?_without : (s.without params).get? name =
    if name ∈ params.map TypeParam.name then none else s.get? name := by
  unfold get? ByName.find? without
  rw [List.find?_filter]
  split
  case isTrue hdeclared =>
    obtain ⟨p, hp, rfl⟩ := List.mem_map.1 hdeclared
    rw [Option.map_eq_none_iff, List.find?_eq_none]
    rintro ⟨n, t⟩ - hb
    obtain ⟨hother, rfl⟩ : (∀ q ∈ params, q.name ≠ n) ∧ n = p.name := by simpa using hb
    exact hother p hp rfl
  case isFalse hother =>
    congr 2
    funext b
    by_cases hname : b.1 = name
    · have hnone : (params.any fun p => p.name == name) = false := by simpa using hother
      simp [hname, hnone]
    · simp [hname]

@[simp] lemma without_nil : s.without [] = s := by simp [without]

@[simp] lemma without_without : (s.without params).without params = s.without params := by
  simp [without]

end Subst

/-! ## Parts that are replaced -/

namespace Ty

/-- The parts that substitution goes into. -/
def replacedParts : Ty → List Ty
  | union ms => ms
  | interface shape => shape.properties.map Property.type
  | t => t.openParts

lemma mem_parts_of_mem_replacedParts {t p : Ty} (h : p ∈ t.replacedParts) : p ∈ t.parts := by
  cases t with
  | union ms => exact h
  | interface shape => exact List.mem_append_left _ h
  | _ => exact mem_parts_of_mem_openParts h

lemma param_mem_replacedParts {sig : Signature} {p : Param} (h : p ∈ sig.params) :
    p.type ∈ (function sig).replacedParts :=
  List.mem_append_left _ (List.mem_map_of_mem h)

lemma result_mem_replacedParts {sig : Signature} : sig.result ∈ (function sig).replacedParts :=
  List.mem_append_right _ List.mem_cons_self

lemma property_mem_replacedParts {shape : Interface} {p : Property} (h : p ∈ shape.properties) :
    p.type ∈ (interface shape).replacedParts :=
  List.mem_map_of_mem h

end Ty

namespace Signature

variable {sig : Signature} {f g : Ty → Ty}

/-- The signature with other types for its parameters and its result. -/
def retype (sig : Signature) (f : Ty → Ty) : Signature :=
  { sig with
    params := sig.params.map fun p => { p with type := f p.type }
    result := f sig.result }

lemma replacedParts_retype :
    (Ty.function (sig.retype f)).replacedParts = (Ty.function sig).replacedParts.map f := by
  simp [Ty.replacedParts, Ty.openParts, retype]

lemma retype_congr (h : ∀ p ∈ (Ty.function sig).replacedParts, f p = g p) :
    sig.retype f = sig.retype g := by
  unfold retype
  rw [h _ Ty.result_mem_replacedParts]
  congr 1
  refine List.map_congr_left fun p hp => ?_
  rw [h _ (Ty.param_mem_replacedParts hp)]

lemma retype_self (h : ∀ p ∈ (Ty.function sig).replacedParts, f p = p) : sig.retype f = sig := by
  rw [retype_congr (g := id) h]
  obtain ⟨params, result, isVariadic, typeParams⟩ := sig
  have hparams : params.map (fun p => { p with type := id p.type }) = params :=
    List.map_id'' (fun p => by cases p; rfl) params
  unfold retype
  rw [hparams, id]

@[simp] lemma retype_retype : (sig.retype f).retype g = sig.retype (g ∘ f) := by
  simp [retype]

/-- Equal signatures stay equal with types that are equal for equal ones. -/
lemma equals_retype {other : Signature} (h : (Ty.function sig).equals (.function other) = true)
    (hparts : ∀ p ∈ (Ty.function sig).replacedParts, ∀ q ∈ (Ty.function other).replacedParts,
      p.equals q = true → (f p).equals (g q) = true) :
    (Ty.function (sig.retype f)).equals (.function (other.retype g)) = true := by
  obtain ⟨hparams, hvariadic, hresult⟩ := Ty.equals_function.1 h
  refine Ty.equals_function.2 ⟨?_, hvariadic,
    hparts _ Ty.result_mem_replacedParts _ Ty.result_mem_replacedParts hresult⟩
  simp only [retype, List.forall₂_map_left_iff, List.forall₂_map_right_iff]
  exact forall₂_step hparams fun p hp q hq =>
    hparts _ (Ty.param_mem_replacedParts hp) _ (Ty.param_mem_replacedParts hq)

lemma equals_retype_self
    (h : ∀ p ∈ (Ty.function sig).replacedParts, (f p).equals (g p) = true) :
    (Ty.function (sig.retype f)).equals (.function (sig.retype g)) = true := by
  refine Ty.equals_function.2 ⟨?_, rfl, h _ Ty.result_mem_replacedParts⟩
  simp only [retype, List.forall₂_map_left_iff, List.forall₂_map_right_iff, List.forall₂_same]
  exact fun p hp => h _ (Ty.param_mem_replacedParts hp)

end Signature

namespace Interface

variable {shape : Interface} {f g : Ty → Ty}

/-- The shape with other types for its properties. -/
def retype (shape : Interface) (f : Ty → Ty) : Interface :=
  { shape with properties := shape.properties.map fun p => { p with type := f p.type } }

lemma replacedParts_retype :
    (Ty.interface (shape.retype f)).replacedParts = (Ty.interface shape).replacedParts.map f := by
  simp [Ty.replacedParts, retype]

lemma retype_congr (h : ∀ p ∈ (Ty.interface shape).replacedParts, f p = g p) :
    shape.retype f = shape.retype g := by
  unfold retype
  congr 1
  refine List.map_congr_left fun p hp => ?_
  rw [h _ (Ty.property_mem_replacedParts hp)]

lemma retype_self (h : ∀ p ∈ (Ty.interface shape).replacedParts, f p = p) :
    shape.retype f = shape := by
  rw [retype_congr (g := id) h]
  obtain ⟨name, properties, typeParams⟩ := shape
  have hproperties : properties.map (fun p => { p with type := id p.type }) = properties :=
    List.map_id'' (fun p => by cases p; rfl) properties
  unfold retype
  rw [hproperties]

@[simp] lemma retype_retype : (shape.retype f).retype g = shape.retype (g ∘ f) := by
  simp [retype]

lemma property?_retype {name : String} : (shape.retype f).property? name =
    (shape.property? name).map fun p => { p with type := f p.type } :=
  List.find?_map

/-- Shapes with the same properties are equal if the types they get are. -/
lemma equals_retype {other : Interface} (hname : shape.name = other.name)
    (hlen : shape.properties.length = other.properties.length)
    (h : ∀ p ∈ shape.properties, ∃ q, other.property? p.name = some q ∧
      p.isOptional = q.isOptional ∧ (f p.type).equals (g q.type) = true) :
    (Ty.interface (shape.retype f)).equals (.interface (other.retype g)) = true := by
  refine Ty.equals_interface.2 ⟨hname, by simpa [retype] using hlen, ?_⟩
  refine List.forall_mem_map.2 fun p hp => ?_
  obtain ⟨q, hq, hoptional, hequal⟩ := h p hp
  have hfound : (other.retype g).property? p.name = some { q with type := g q.type } := by
    rw [property?_retype, hq, Option.map_some]
  exact ⟨_, hfound, hoptional, hequal⟩

end Interface

namespace Ty

variable {s s' : Subst} {t u : Ty} {name : String}

/-! ## One equation for each kind -/

lemma substituteAll_eq_map (s : Subst) (ts : List Ty) :
    substituteAll s ts = ts.map (substituteIn s) := by
  induction ts with
  | nil => rfl
  | cons t ts ih => simp [substituteAll, ih]

lemma substituteParams_eq_map (s : Subst) (ps : List Param) :
    substituteParams s ps = ps.map fun p => { p with type := p.type.substituteIn s } := by
  induction ps with
  | nil => rfl
  | cons p ps ih =>
    obtain ⟨name, t⟩ := p
    simp [substituteParams, ih]

lemma substituteProperties_eq_map (s : Subst) (ps : List Property) :
    substituteProperties s ps = ps.map fun p => { p with type := p.type.substituteIn s } := by
  induction ps with
  | nil => rfl
  | cons p ps ih =>
    obtain ⟨name, t, isOptional⟩ := p
    simp [substituteProperties, ih]

@[simp] lemma substitute_nil (t : Ty) : t.substitute [] = t := rfl

lemma substitute_of_ne (hs : s ≠ []) (t : Ty) : t.substitute s = t.substituteIn s := by
  simp [substitute, hs]

lemma substitute_param : (param name).substitute s = (s.get? name).getD (param name) := by
  by_cases hs : s = []
  · subst hs
    rfl
  · rw [substitute_of_ne hs, substituteIn]

lemma substitute_list : (list t).substitute s = list (t.substitute s) := by
  by_cases hs : s = []
  · subst hs
    rfl
  · simp only [substitute_of_ne hs, substituteIn]

lemma substitute_map {k v : Ty} :
    (map k v).substitute s = map (k.substitute s) (v.substitute s) := by
  by_cases hs : s = []
  · subst hs
    rfl
  · simp only [substitute_of_ne hs, substituteIn]

lemma substitute_future : (future t).substitute s = future (t.substitute s) := by
  by_cases hs : s = []
  · subst hs
    rfl
  · simp only [substitute_of_ne hs, substituteIn]

lemma substitute_generic {base : Ty} {args : List Ty} :
    (generic base args).substitute s = generic base (args.map fun a => a.substitute s) := by
  by_cases hs : s = []
  · subst hs
    simp
  · simp only [substitute_of_ne hs, substituteIn, substituteAll_eq_map]

lemma substitute_interface {shape : Interface} :
    (interface shape).substitute s = interface (shape.retype fun t => t.substitute s) := by
  by_cases hs : s = []
  · subst hs
    rw [substitute_nil, Interface.retype_self fun t _ => substitute_nil t]
  · obtain ⟨name, properties, typeParams⟩ := shape
    simp only [substitute_of_ne hs, substituteIn, substituteProperties_eq_map, Interface.retype]

/-- Inside a signature the names that it declares are not bound. -/
lemma substitute_function {sig : Signature} : (function sig).substitute s =
    function (sig.retype fun t => t.substitute (s.without sig.typeParams)) := by
  obtain ⟨params, result, isVariadic, typeParams⟩ := sig
  by_cases hinner : s.without typeParams = []
  · rw [hinner, Signature.retype_self fun t _ => substitute_nil t]
    simp [substitute, substituteIn, hinner]
  · have hs : s ≠ [] := by
      rintro rfl
      exact hinner rfl
    simp only [substitute_of_ne hs, substitute_of_ne hinner, substituteIn, substituteParams_eq_map,
      List.isEmpty_eq_false_iff.2 hinner, Bool.false_eq_true, if_false, Signature.retype]

lemma substitute_function_of_nil {sig : Signature} (h : sig.typeParams = []) :
    (function sig).substitute s = function (sig.retype fun t => t.substitute s) := by
  rw [substitute_function, h, Subst.without_nil]

lemma substitute_nullable_of_ne (hs : s ≠ []) :
    (nullable t).substitute s = (t.substitute s).orNull := by
  simp only [substitute_of_ne hs, substituteIn]

lemma substitute_nullable (h : (nullable t).Canonical) :
    (nullable t).substitute s = (t.substitute s).orNull := by
  by_cases hs : s = []
  · subst hs
    exact (orNull_of_canonical h).symm
  · exact substitute_nullable_of_ne hs

lemma substitute_union_of_ne {ms : List Ty} (hs : s ≠ []) :
    (union ms).substitute s = unionOf (ms.map fun m => m.substitute s) := by
  simp only [substitute_of_ne hs, substituteIn, substituteAll_eq_map]

lemma substitute_union {ms : List Ty} (h : (union ms).Canonical) :
    (union ms).substitute s = unionOf (ms.map fun m => m.substitute s) := by
  by_cases hs : s = []
  · subst hs
    simpa using (unionOf_members h).symm
  · exact substitute_union_of_ne hs

@[simp] lemma substitute_prim {p : Prim} : (prim p).substitute s = prim p := by
  simp [substitute, substituteIn]

@[simp] lemma substitute_cls {c : Class} : (cls c).substitute s = cls c := by
  simp [substitute, substituteIn]

@[simp] lemma substitute_enum {e : Enum} : (enum e).substitute s = enum e := by
  simp [substitute, substituteIn]

@[simp] lemma substitute_ref {file : String} : (ref name file).substitute s = ref name file := by
  simp [substitute, substituteIn]

/-! ## Type parameters that a type mentions -/

/-- The type parameters that a type declares for its parts. -/
def ownNames : Ty → List String
  | function sig => sig.typeParams.map TypeParam.name
  | _ => []

/-- A type parameter occurs in a type where substitution would replace it. -/
inductive Mentions (name : String) : Ty → Prop
  | here : Mentions name (param name)
  | inside {t p : Ty} : p ∈ t.replacedParts → name ∉ t.ownNames → Mentions name p → Mentions name t

/-- Bindings that do the same to every type parameter that a canonical type mentions do the same
to the type. -/
theorem substitute_congr (ht : t.Canonical)
    (h : ∀ name, Mentions name t → (param name).substitute s = (param name).substitute s') :
    t.substitute s = t.substitute s' := by
  induction t using induction_on_parts generalizing s s' with
  | step t ih =>
    have hpart : t.ownNames = [] → ∀ p ∈ t.replacedParts, p.substitute s = p.substitute s' := by
      intro hown p hp
      have hmem := mem_parts_of_mem_replacedParts hp
      exact ih p hmem (ht.part hmem) fun name hname => h name (.inside hp (by simp [hown]) hname)
    cases t with
    | param name => exact h name .here
    | list t => rw [substitute_list, substitute_list, hpart rfl t List.mem_cons_self]
    | map k v =>
      have hvalue := hpart rfl v (List.mem_cons_of_mem _ List.mem_cons_self)
      rw [substitute_map, substitute_map, hpart rfl k List.mem_cons_self, hvalue]
    | nullable t =>
      rw [substitute_nullable ht, substitute_nullable ht, hpart rfl t List.mem_cons_self]
    | future t => rw [substitute_future, substitute_future, hpart rfl t List.mem_cons_self]
    | union ms =>
      rw [substitute_union ht, substitute_union ht]
      exact congrArg unionOf (List.map_congr_left (hpart rfl))
    | function sig =>
      -- Names that the signature declares itself are not bound inside of it, on either side.
      have hinner : ∀ p ∈ (function sig).replacedParts,
          p.substitute (s.without sig.typeParams) = p.substitute (s'.without sig.typeParams) := by
        intro p hp
        have hmem := mem_parts_of_mem_replacedParts hp
        refine ih p hmem (ht.part hmem) fun name hname => ?_
        by_cases hown : name ∈ sig.typeParams.map TypeParam.name
        · simp only [substitute_param, Subst.get?_without, if_pos hown]
        · simp only [substitute_param, Subst.get?_without, if_neg hown]
          simpa only [substitute_param] using h name (.inside hp hown hname)
      rw [substitute_function, substitute_function, Signature.retype_congr hinner]
    | interface shape =>
      rw [substitute_interface, substitute_interface, Interface.retype_congr (hpart rfl)]
    | generic base args =>
      rw [substitute_generic, substitute_generic]
      exact congrArg (generic base) (List.map_congr_left (hpart rfl))
    | prim | cls | enum | ref => simp

/-- The bindings have nothing to put in the place of what the type mentions. -/
def Fixes (s : Subst) (t : Ty) : Prop :=
  ∀ name, Mentions name t → ∀ u, s.get? name = some u → u = param name

/-- Bindings that fix a canonical type give the type back. -/
lemma substitute_eq_self (ht : t.Canonical) (h : Fixes s t) : t.substitute s = t := by
  suffices hsame : t.substitute s = t.substitute [] from hsame
  refine substitute_congr ht fun name hname => ?_
  rw [substitute_param, substitute_nil]
  cases hbound : s.get? name with
  | none => rfl
  | some u => exact h name hname u hbound

end Ty

end TypedScript
