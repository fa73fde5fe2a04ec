import Mathlib.Algebra.Group.End
import TypedScript.Proofs.Generics.Occurrence

/-!
# Renaming type parameters

Type parameters are renamed where they stand and where they are declared, either all of them or
only those that are free in a type. All that is done to types commutes with renaming all of them by
a permutation: equality, unions, nullables and, if the bindings are renamed as well, substitution.

A permutation has an inverse, so nothing merges that did not merge before. To rename only what is
free is the same where no type inside declares one of the names. Where one does it would not do:
equality does not see declarations, and signatures that merge need not declare the same.
-/
namespace TypedScript

mutual

/-- The names of the type parameters that stand in a type or are declared in it. -/
def Ty.names : Ty → List String
  | .param name => [name]
  | .list t => t.names
  | .map k v => k.names ++ v.names
  | .nullable t => t.names
  | .future t => t.names
  | .union ms => Ty.allNames ms
  | .function ⟨params, result, _, typeParams⟩ =>
    Ty.paramNames params ++ result.names ++ Ty.declaredNames typeParams
  | .interface ⟨_, properties, typeParams⟩ =>
    Ty.propertyNames properties ++ Ty.declaredNames typeParams
  | .generic base args => base.names ++ Ty.allNames args
  | _ => []
termination_by structural t => t

def Ty.allNames : List Ty → List String
  | [] => []
  | t :: ts => t.names ++ Ty.allNames ts
termination_by structural ts => ts

def Ty.paramNames : List Param → List String
  | [] => []
  | ⟨_, t⟩ :: ps => t.names ++ Ty.paramNames ps
termination_by structural ps => ps

def Ty.propertyNames : List Property → List String
  | [] => []
  | ⟨_, t, _⟩ :: ps => t.names ++ Ty.propertyNames ps
termination_by structural ps => ps

def Ty.declaredNames : List TypeParam → List String
  | [] => []
  | ⟨name, bound⟩ :: ps => name :: (Ty.boundNames bound ++ Ty.declaredNames ps)
termination_by structural ps => ps

def Ty.boundNames : Option Ty → List String
  | none => []
  | some t => t.names
termination_by structural bound => bound

end

/-- What becomes of a renaming inside of a type that declares these type parameters. -/
abbrev BinderRule := (String → String) → List TypeParam → String → String

mutual

/-- Rename type parameters, where they stand and where they are declared. Classes are known by their
name, and what is in them stays. -/
def Ty.renameBy (under : BinderRule) : (String → String) → Ty → Ty
  | ρ, .param name => .param (ρ name)
  | ρ, .list t => .list (t.renameBy under ρ)
  | ρ, .map k v => .map (k.renameBy under ρ) (v.renameBy under ρ)
  | ρ, .nullable t => .nullable (t.renameBy under ρ)
  | ρ, .future t => .future (t.renameBy under ρ)
  | ρ, .union ms => .union (Ty.renameAll under ρ ms)
  | ρ, .function ⟨params, result, isVariadic, typeParams⟩ =>
    .function ⟨Ty.renameParams under (under ρ typeParams) params,
      result.renameBy under (under ρ typeParams), isVariadic,
      Ty.renameDeclared under (under ρ typeParams) typeParams⟩
  | ρ, .interface ⟨name, properties, typeParams⟩ =>
    .interface ⟨name, Ty.renameProperties under (under ρ typeParams) properties,
      Ty.renameDeclared under (under ρ typeParams) typeParams⟩
  | ρ, .generic base args => .generic (base.renameBy under ρ) (Ty.renameAll under ρ args)
  | _, t => t
termination_by structural _ t => t

def Ty.renameAll (under : BinderRule) : (String → String) → List Ty → List Ty
  | _, [] => []
  | ρ, t :: ts => t.renameBy under ρ :: Ty.renameAll under ρ ts
termination_by structural _ ts => ts

def Ty.renameParams (under : BinderRule) : (String → String) → List Param → List Param
  | _, [] => []
  | ρ, ⟨name, t⟩ :: ps => ⟨name, t.renameBy under ρ⟩ :: Ty.renameParams under ρ ps
termination_by structural _ ps => ps

def Ty.renameProperties (under : BinderRule) : (String → String) → List Property → List Property
  | _, [] => []
  | ρ, ⟨name, t, isOptional⟩ :: ps =>
    ⟨name, t.renameBy under ρ, isOptional⟩ :: Ty.renameProperties under ρ ps
termination_by structural _ ps => ps

def Ty.renameDeclared (under : BinderRule) : (String → String) → List TypeParam → List TypeParam
  | _, [] => []
  | ρ, ⟨name, bound⟩ :: ps =>
    ⟨ρ name, Ty.renameBound under ρ bound⟩ :: Ty.renameDeclared under ρ ps
termination_by structural _ ps => ps

def Ty.renameBound (under : BinderRule) : (String → String) → Option Ty → Option Ty
  | _, none => none
  | ρ, some t => some (t.renameBy under ρ)
termination_by structural _ bound => bound

end

/-- Rename all type parameters, whatever declares them. -/
def Ty.rename (ρ : String → String) (t : Ty) : Ty := t.renameBy (fun ρ _ => ρ) ρ

/-- The type parameter under its new name. -/
def TypeParam.rename (ρ : String → String) (p : TypeParam) : TypeParam :=
  ⟨ρ p.name, p.bound.map (Ty.rename ρ)⟩

namespace Ty

variable {ρ σ : String → String} {p t : Ty} {ts : List Ty} {name : String}

/-! ## The parts of a renamed type -/

lemma mem_allNames : name ∈ allNames ts ↔ ∃ t ∈ ts, name ∈ t.names := by
  induction ts with
  | nil => simp [allNames]
  | cons t ts ih => simp [allNames, ih]

lemma mem_paramNames {ps : List Param} :
    name ∈ paramNames ps ↔ ∃ p ∈ ps, name ∈ p.type.names := by
  induction ps with
  | nil => simp [paramNames]
  | cons p ps ih =>
    obtain ⟨n, t⟩ := p
    simp [paramNames, ih]

lemma mem_propertyNames {ps : List Property} :
    name ∈ propertyNames ps ↔ ∃ p ∈ ps, name ∈ p.type.names := by
  induction ps with
  | nil => simp [propertyNames]
  | cons p ps ih =>
    obtain ⟨n, t, isOptional⟩ := p
    simp [propertyNames, ih]

lemma mem_declaredNames {ps : List TypeParam} : name ∈ declaredNames ps ↔
    name ∈ ps.map TypeParam.name ∨ ∃ b ∈ TypeParam.bounds ps, name ∈ b.names := by
  induction ps with
  | nil => simp [declaredNames, TypeParam.bounds]
  | cons p ps ih =>
    obtain ⟨n, bound⟩ := p
    cases bound with
    | none => simp_all [declaredNames, boundNames, TypeParam.bounds, or_assoc]
    | some b => simp_all [declaredNames, boundNames, TypeParam.bounds, or_assoc, or_left_comm]

/-- The type parameters that a type declares. -/
def declared : Ty → List TypeParam
  | function sig => sig.typeParams
  | interface shape => shape.typeParams
  | _ => []

/-- Names stand in the parts of a type, unless the type is a type parameter or declares them. -/
lemma mem_names_iff : name ∈ t.names ↔ t = param name ∨ name ∈ t.declared.map TypeParam.name ∨
    t.kind ≠ .cls ∧ ∃ p ∈ t.parts, name ∈ p.names := by
  cases t with
  | param other => simp [names, declared, parts, eq_comm]
  | function sig =>
    obtain ⟨params, result, isVariadic, typeParams⟩ := sig
    simp [names, declared, parts, kind, mem_paramNames, mem_declaredNames, or_and_right, exists_or,
      or_left_comm]
  | interface shape =>
    obtain ⟨n, properties, typeParams⟩ := shape
    simp [names, declared, parts, kind, mem_propertyNames, mem_declaredNames, or_and_right,
      exists_or, or_left_comm]
  | _ => simp [names, declared, parts, kind, mem_allNames]

lemma mem_names_of_part (hkind : t.kind ≠ .cls) (hp : p ∈ t.parts) (h : name ∈ p.names) :
    name ∈ t.names := mem_names_iff.2 (.inr (.inr ⟨hkind, p, hp, h⟩))

lemma mem_names_of_declared (h : name ∈ t.declared.map TypeParam.name) : name ∈ t.names :=
  mem_names_iff.2 (.inr (.inl h))

lemma kind_ne_cls_of_mem (h : p ∈ t.replacedParts) : t.kind ≠ .cls := by
  intro hkind
  cases t <;> cases hkind
  exact absurd h List.not_mem_nil

lemma Occurs.mem_names (h : Occurs name t) : name ∈ t.names := by
  induction h with
  | here => exact List.mem_cons_self
  | inside hp _ ih =>
    exact mem_names_of_part (kind_ne_cls_of_mem hp) (mem_parts_of_mem_replacedParts hp) ih

lemma Mentions.occurs (h : Mentions name t) : Occurs name t := by
  induction h with
  | here => exact .here
  | inside hp _ _ ih => exact .inside hp ih

end Ty

/-! ## One layer -/

namespace TypeParam

variable {f f' : Ty → Ty} {g g' : String → String} {p : TypeParam} {ps : List TypeParam}

/-- The type parameter with another name and another bound. -/
def mapParts (f : Ty → Ty) (g : String → String) (p : TypeParam) : TypeParam :=
  ⟨g p.name, p.bound.map f⟩

lemma mapParts_congr (hname : g p.name = g' p.name)
    (hbound : ∀ b, p.bound = some b → f b = f' b) : p.mapParts f g = p.mapParts f' g' := by
  obtain ⟨name, bound⟩ := p
  cases bound with
  | none => simpa [mapParts] using hname
  | some b => simpa [mapParts, hbound b rfl] using hname

lemma map_mapParts_congr (hname : ∀ p ∈ ps, g p.name = g' p.name)
    (hbounds : ∀ b ∈ bounds ps, f b = f' b) : ps.map (mapParts f g) = ps.map (mapParts f' g') :=
  List.map_congr_left fun p hp =>
    mapParts_congr (hname p hp) fun b hb => hbounds b (mem_bounds hp hb)

lemma bounds_map_mapParts : bounds (ps.map (mapParts f g)) = (bounds ps).map f := by
  simp [bounds, List.filterMap_map, List.map_filterMap, mapParts, Function.comp_def]

end TypeParam

namespace Ty

variable {ρ σ : String → String} {p t : Ty} {ts : List Ty} {name : String}
  {f f' : Ty → Ty} {g g' : String → String}

/-- The type with other parts and with other names for what it declares. A type parameter gets
another name itself, and a class stays as it is. -/
def mapParts (f : Ty → Ty) (g : String → String) : Ty → Ty
  | param name => param (g name)
  | list t => list (f t)
  | map k v => map (f k) (f v)
  | nullable t => nullable (f t)
  | future t => future (f t)
  | union ms => union (ms.map f)
  | function sig =>
    function { sig.retype f with typeParams := sig.typeParams.map (TypeParam.mapParts f g) }
  | interface shape =>
    interface { shape.retype f with typeParams := shape.typeParams.map (TypeParam.mapParts f g) }
  | generic base args => generic (f base) (args.map f)
  | t => t

lemma mapParts_congr
    (hname : ∀ name, t = param name ∨ name ∈ t.declared.map TypeParam.name → g name = g' name)
    (hparts : t.kind ≠ .cls → ∀ p ∈ t.parts, f p = f' p) : t.mapParts f g = t.mapParts f' g' := by
  have hdeclared (p : TypeParam) (hp : p ∈ t.declared) : g p.name = g' p.name :=
    hname p.name (.inr (List.mem_map_of_mem hp))
  cases t with
  | param name => exact congrArg param (hname name (.inl rfl))
  | list t => exact congrArg list (hparts nofun t List.mem_cons_self)
  | map k v =>
    exact congrArg₂ map (hparts nofun k List.mem_cons_self)
      (hparts nofun v (List.mem_cons_of_mem _ List.mem_cons_self))
  | nullable t => exact congrArg nullable (hparts nofun t List.mem_cons_self)
  | future t => exact congrArg future (hparts nofun t List.mem_cons_self)
  | union ms => exact congrArg union (List.map_congr_left (hparts nofun))
  | function sig =>
    have hbody : sig.retype f = sig.retype f' :=
      Signature.retype_congr fun p hp => hparts nofun p (mem_parts_of_mem_replacedParts hp)
    have hbounds := TypeParam.map_mapParts_congr hdeclared fun b hb =>
      hparts nofun b (List.mem_append_right _ (List.mem_cons_of_mem _ hb))
    simp only [mapParts, hbody]
    exact congrArg _ (congrArg _ hbounds)
  | interface shape =>
    have hbody : shape.retype f = shape.retype f' :=
      Interface.retype_congr fun p hp => hparts nofun p (mem_parts_of_mem_replacedParts hp)
    have hbounds := TypeParam.map_mapParts_congr hdeclared fun b hb =>
      hparts nofun b (List.mem_append_right _ hb)
    simp only [mapParts, hbody]
    exact congrArg _ (congrArg _ hbounds)
  | generic base args =>
    exact congrArg₂ generic (hparts nofun base List.mem_cons_self)
      (List.map_congr_left fun a ha => hparts nofun a (List.mem_cons_of_mem _ ha))
  | prim | cls | enum | ref => rfl

lemma mapParts_id : t.mapParts id id = t := by
  have hparams : TypeParam.mapParts id id = id := by
    funext p
    cases p
    simp [TypeParam.mapParts]
  cases t with
  | function sig =>
    have hbody : sig.retype id = sig := Signature.retype_self fun _ _ => rfl
    rw [mapParts, hbody, hparams, List.map_id]
    cases sig
    rfl
  | interface shape =>
    have hbody : shape.retype id = shape := Interface.retype_self fun _ _ => rfl
    rw [mapParts, hbody, hparams, List.map_id]
    cases shape
    rfl
  | _ => simp [mapParts]

lemma mapParts_mapParts : (t.mapParts f g).mapParts f' g' = t.mapParts (f' ∘ f) (g' ∘ g) := by
  cases t <;>
    simp [mapParts, Signature.retype, Interface.retype, TypeParam.mapParts, Function.comp_def]

lemma kind_mapParts : (t.mapParts f g).kind = t.kind := by
  cases t <;> rfl

lemma declared_mapParts : (t.mapParts f g).declared = t.declared.map (TypeParam.mapParts f g) := by
  cases t <;> rfl

lemma parts_mapParts (hkind : t.kind ≠ .cls) : (t.mapParts f g).parts = t.parts.map f := by
  cases t with
  | function sig =>
    simp [mapParts, parts, Signature.retype, TypeParam.bounds_map_mapParts, Function.comp_def]
  | interface shape =>
    simp [mapParts, parts, Interface.retype, TypeParam.bounds_map_mapParts, Function.comp_def]
  | cls => exact absurd rfl hkind
  | _ => rfl

/-- A renaming that stays the same inside of the type goes to all its parts. -/
lemma renameBy_eq_mapParts {under : BinderRule} (h : under ρ t.declared = ρ) :
    t.renameBy under ρ = t.mapParts (renameBy under ρ) ρ := by
  have hall (ts : List Ty) : renameAll under ρ ts = ts.map (renameBy under ρ) := by
    induction ts with
    | nil => rfl
    | cons t ts ih => simp [renameAll, ih]
  have hdeclared (ps : List TypeParam) :
      renameDeclared under ρ ps = ps.map (TypeParam.mapParts (renameBy under ρ) ρ) := by
    induction ps with
    | nil => rfl
    | cons p ps ih =>
      obtain ⟨n, bound⟩ := p
      cases bound <;> simp [renameDeclared, renameBound, TypeParam.mapParts, ih]
  have hparams (ps : List Param) : renameParams under ρ ps =
      ps.map fun p => { p with type := p.type.renameBy under ρ } := by
    induction ps with
    | nil => rfl
    | cons p ps ih =>
      obtain ⟨n, t⟩ := p
      simp [renameParams, ih]
  have hproperties (ps : List Property) : renameProperties under ρ ps =
      ps.map fun p => { p with type := p.type.renameBy under ρ } := by
    induction ps with
    | nil => rfl
    | cons p ps ih =>
      obtain ⟨n, t, isOptional⟩ := p
      simp [renameProperties, ih]
  cases t with
  | union ms => simp only [renameBy, mapParts, hall]
  | generic base args => simp only [renameBy, mapParts, hall]
  | function sig =>
    obtain ⟨params, result, isVariadic, typeParams⟩ := sig
    change under ρ typeParams = ρ at h
    simp only [renameBy, mapParts, h, hparams, hdeclared, Signature.retype]
  | interface shape =>
    obtain ⟨n, properties, typeParams⟩ := shape
    change under ρ typeParams = ρ at h
    simp only [renameBy, mapParts, h, hproperties, hdeclared, Interface.retype]
  | _ => rfl

lemma rename_eq_mapParts (t : Ty) : t.rename ρ = t.mapParts (rename ρ) ρ :=
  renameBy_eq_mapParts rfl

lemma rename_param : (param name).rename ρ = param (ρ name) := rfl

lemma rename_list : (list t).rename ρ = list (t.rename ρ) := rfl

lemma rename_map {k v : Ty} : (map k v).rename ρ = map (k.rename ρ) (v.rename ρ) := rfl

lemma rename_nullable : (nullable t).rename ρ = nullable (t.rename ρ) := rfl

lemma rename_future : (future t).rename ρ = future (t.rename ρ) := rfl

lemma rename_union {ms : List Ty} : (union ms).rename ρ = union (ms.map (rename ρ)) :=
  rename_eq_mapParts _

lemma rename_generic {base : Ty} {args : List Ty} :
    (generic base args).rename ρ = generic (base.rename ρ) (args.map (rename ρ)) :=
  rename_eq_mapParts _

lemma rename_function {sig : Signature} : (function sig).rename ρ =
    function { sig.retype (rename ρ) with
      typeParams := sig.typeParams.map (TypeParam.rename ρ) } :=
  rename_eq_mapParts _

lemma rename_interface {shape : Interface} : (interface shape).rename ρ =
    interface { shape.retype (rename ρ) with
      typeParams := shape.typeParams.map (TypeParam.rename ρ) } :=
  rename_eq_mapParts _

@[simp] lemma kind_rename (t : Ty) : (t.rename ρ).kind = t.kind := by
  rw [rename_eq_mapParts, kind_mapParts]

/-! ## Renaming twice and back -/

lemma rename_rename (t : Ty) : (t.rename ρ).rename σ = t.rename (σ ∘ ρ) := by
  induction t using induction_on_parts with
  | step t ih =>
    rw [rename_eq_mapParts (t.rename ρ), rename_eq_mapParts t, rename_eq_mapParts t,
      mapParts_mapParts]
    exact mapParts_congr (fun _ _ => rfl) fun _ p hp => ih p hp

/-- A renaming that concerns no name of a type leaves the type as it is. -/
lemma rename_eq_self (h : ∀ name ∈ t.names, ρ name = name) : t.rename ρ = t := by
  induction t using induction_on_parts with
  | step t ih =>
    have hname (name : String) (hname : t = param name ∨ name ∈ t.declared.map TypeParam.name) :
        ρ name = name :=
      h name (mem_names_iff.2 (hname.imp_right .inl))
    have hpart (hkind : t.kind ≠ .cls) (p : Ty) (hp : p ∈ t.parts) : p.rename ρ = p :=
      ih p hp fun name hname => h name (mem_names_of_part hkind hp hname)
    calc t.rename ρ = t.mapParts (rename ρ) ρ := rename_eq_mapParts t
      _ = t.mapParts id id := mapParts_congr hname hpart
      _ = t := mapParts_id

lemma rename_symm_rename (ρ : Equiv.Perm String) (t : Ty) : (t.rename ρ).rename ρ.symm = t := by
  rw [rename_rename]
  exact rename_eq_self fun name _ => ρ.symm_apply_apply name

/-- Only what becomes of the names in a type matters. -/
lemma rename_congr {π : Equiv.Perm String} (h : ∀ name ∈ t.names, ρ name = π name) :
    t.rename ρ = t.rename π := by
  have hback : (t.rename ρ).rename π.symm = t := by
    rw [rename_rename]
    refine rename_eq_self fun name hname => ?_
    simp [h name hname]
  calc t.rename ρ = ((t.rename ρ).rename π.symm).rename π := (rename_symm_rename π.symm _).symm
    _ = t.rename π := by rw [hback]

lemma mem_names_rename (h : name ∈ t.names) : ρ name ∈ (t.rename ρ).names := by
  induction t using induction_on_parts with
  | step t ih =>
    rw [rename_eq_mapParts, mem_names_iff]
    obtain rfl | hdeclared | ⟨hkind, p, hp, hname⟩ := mem_names_iff.1 h
    · exact .inl rfl
    · refine .inr (.inl ?_)
      obtain ⟨p, hp, rfl⟩ := List.mem_map.1 hdeclared
      rw [declared_mapParts]
      exact List.mem_map_of_mem (List.mem_map_of_mem hp)
    · refine .inr (.inr ⟨by rwa [kind_mapParts], p.rename ρ, ?_, ih p hp hname⟩)
      rw [parts_mapParts hkind]
      exact List.mem_map_of_mem hp

/-! ## Renaming what is free -/

/-- What is declared anew keeps its name. -/
def hide : BinderRule := fun ρ params name =>
  if name ∈ params.map TypeParam.name then name else ρ name

/-- Rename type parameters where nothing inside of the type declares them. -/
def renameFree (ρ : String → String) (t : Ty) : Ty := t.renameBy hide ρ

/-- The type or a type inside of it declares the type parameter. -/
inductive Declares (name : String) : Ty → Prop
  | here {t : Ty} : name ∈ t.declared.map TypeParam.name → Declares name t
  | inside {t p : Ty} : t.kind ≠ .cls → p ∈ t.parts → Declares name p → Declares name t

lemma hide_eq_self {params : List TypeParam}
    (h : ∀ name ∈ params.map TypeParam.name, ρ name = name) : hide ρ params = ρ := by
  funext name
  unfold hide
  split
  case isTrue hname => exact (h name hname).symm
  case isFalse => rfl

/-- Where what is declared inside keeps its name anyway, it need not be left out. -/
lemma renameFree_eq_rename (h : ∀ name, Declares name t → ρ name = name) :
    t.renameFree ρ = t.rename ρ := by
  induction t using induction_on_parts with
  | step t ih =>
    have hhide : hide ρ t.declared = ρ := hide_eq_self fun name hname => h name (.here hname)
    rw [renameFree, renameBy_eq_mapParts hhide, rename_eq_mapParts]
    refine mapParts_congr (fun _ _ => rfl) fun hkind p hp => ih p hp fun name hname => ?_
    exact h name (.inside hkind hp hname)

/-! ## What commutes with renaming -/

variable {a b : Ty}

/-- Types that match do so under their new names. -/
lemma Matches.rename {r s r' s' : Ty → Ty → Prop} (h : Matches r s a b)
    (hr : ∀ x ∈ a.parts, ∀ y ∈ b.parts, r x y → r' (x.rename ρ) (y.rename ρ))
    (hs : ∀ x ∈ a.parts, ∀ y ∈ b.parts, s x y → s' (x.rename ρ) (y.rename ρ)) :
    Matches r' s' (a.rename ρ) (b.rename ρ) := by
  cases h with
  | list hab => exact .list (hr _ (by simp [parts]) _ (by simp [parts]) hab)
  | map hkl hvw =>
    exact .map (hr _ (by simp [parts]) _ (by simp [parts]) hkl)
      (hr _ (by simp [parts]) _ (by simp [parts]) hvw)
  | nullable hab => exact .nullable (hr _ (by simp [parts]) _ (by simp [parts]) hab)
  | union hlen hcover =>
    rw [rename_union, rename_union]
    refine .union (by simpa using hlen) (List.forall_mem_map.2 fun m hm => ?_)
    obtain ⟨o, ho, hmo⟩ := hcover m hm
    exact ⟨_, List.mem_map_of_mem ho, hs m hm o ho hmo⟩
  | function hparams hvariadic hresult =>
    rw [rename_function, rename_function]
    refine .function ?_ hvariadic (hr _ result_mem_parts _ result_mem_parts hresult)
    simp only [Signature.retype, List.forall₂_map_left_iff, List.forall₂_map_right_iff]
    exact forall₂_step hparams fun p hp q hq => hr _ (param_mem_parts hp) _ (param_mem_parts hq)
  | interface hname hlen hprops =>
    rw [rename_interface, rename_interface]
    refine .interface hname (by simpa [Interface.retype] using hlen)
      (List.forall_mem_map.2 fun p hp => ?_)
    obtain ⟨q, hq, hoptional, hpq⟩ := hprops p hp
    have hq' := property_mem_parts (Interface.mem_of_property? hq)
    refine ⟨{ q with type := q.type.rename ρ }, ?_, hoptional,
      hr _ (property_mem_parts hp) _ hq' hpq⟩
    exact Interface.property?_retype.trans (congrArg _ hq)
  | future hab => exact .future (hr _ (by simp [parts]) _ (by simp [parts]) hab)
  | generic hab hargs =>
    rw [rename_generic, rename_generic]
    refine .generic (hr _ List.mem_cons_self _ List.mem_cons_self hab) ?_
    simp only [List.forall₂_map_left_iff, List.forall₂_map_right_iff]
    exact forall₂_step hargs fun x hx y hy =>
      hr x (List.mem_cons_of_mem _ hx) y (List.mem_cons_of_mem _ hy)
  | prim => exact .prim _
  | cls h => exact .cls h
  | enum h => exact .enum h
  | ref => exact .ref _ _
  | param => exact .param _

lemma equals_rename_both (a : Ty) : ∀ b : Ty,
    (a.equals b = true → (a.rename ρ).equals (b.rename ρ) = true) ∧
      (b.equals a = true → (b.rename ρ).equals (a.rename ρ) = true) := by
  induction a using induction_on_parts with
  | step a ih =>
    refine fun b => ⟨fun h => equals_iff.2 ?_, fun h => equals_iff.2 ?_⟩
    · exact (equals_iff.1 h).rename (fun x hx y _ => (ih x hx y).1) fun x hx y _ => (ih x hx y).2
    · exact (equals_iff.1 h).rename (fun y _ x hx => (ih x hx y).2) fun y _ x hx => (ih x hx y).1

lemma equals_rename (h : a.equals b = true) : (a.rename ρ).equals (b.rename ρ) = true :=
  (equals_rename_both a b).1 h

section Permutation

variable {ρ : Equiv.Perm String}

@[simp] lemma equals_rename_rename : (a.rename ρ).equals (b.rename ρ) = a.equals b := by
  refine Bool.eq_iff_iff.2 ⟨fun h => ?_, equals_rename⟩
  simpa only [rename_symm_rename] using equals_rename (ρ := ρ.symm) h

lemma allAlternatives_map_rename
    (h : ∀ t ∈ ts, (t.rename ρ).alternatives = t.alternatives.map (rename ρ)) :
    allAlternatives (ts.map (rename ρ)) = (allAlternatives ts).map (rename ρ) := by
  induction ts with
  | nil => rfl
  | cons t ts ih =>
    obtain ⟨ht, hts⟩ := List.forall_mem_cons.1 h
    simp [allAlternatives, ht, ih hts]

lemma alternatives_rename (t : Ty) :
    (t.rename ρ).alternatives = t.alternatives.map (rename ρ) := by
  induction t using induction_on_parts with
  | step t ih =>
    obtain ⟨ms, rfl⟩ | hkind := t.union_or_kind_ne
    · rw [rename_union]
      exact allAlternatives_map_rename ih
    · rw [alternatives_eq_self hkind, alternatives_eq_self (by rwa [kind_rename])]
      rfl

lemma distinct_map_rename (ts : List Ty) :
    distinct (ts.map (rename ρ)) = (distinct ts).map (rename ρ) := by
  have hadd (kept : List Ty) (t : Ty) :
      addDistinct (kept.map (rename ρ)) (t.rename ρ) = (addDistinct kept t).map (rename ρ) := by
    simp only [addDistinct, List.any_map, Function.comp_def, equals_rename_rename]
    split
    · rfl
    · simp
  have hfold (kept : List Ty) : (ts.map (rename ρ)).foldl addDistinct (kept.map (rename ρ)) =
      (ts.foldl addDistinct kept).map (rename ρ) := by
    rw [List.foldl_map]
    exact List.foldl_hom _ fun kept t => hadd kept t
  exact hfold []

lemma rename_unionOf (ts : List Ty) : (unionOf ts).rename ρ = unionOf (ts.map (rename ρ)) := by
  have hmembers : distinct (allAlternatives (ts.map (rename ρ))) =
      (distinct (allAlternatives ts)).map (rename ρ) := by
    rw [allAlternatives_map_rename fun t _ => alternatives_rename t, distinct_map_rename]
  unfold unionOf
  rw [hmembers]
  rcases distinct (allAlternatives ts) with _ | ⟨t, _ | ⟨u, us⟩⟩
  · rfl
  · rfl
  · exact rename_union

lemma rename_orNull (t : Ty) : t.orNull.rename ρ = (t.rename ρ).orNull := by
  cases t with
  | prim p => cases p <;> rfl
  | function sig => cases sig; rfl
  | interface shape => cases shape; rfl
  | _ => rfl

lemma replacedParts_rename (t : Ty) :
    (t.rename ρ).replacedParts = t.replacedParts.map (rename ρ) := by
  cases t with
  | union ms => rw [rename_union]; rfl
  | function sig =>
    rw [rename_function]
    exact Signature.replacedParts_retype
  | interface shape =>
    rw [rename_interface]
    exact Interface.replacedParts_retype
  | generic base args => rw [rename_generic]; rfl
  | _ => rfl

lemma Occurs.rename (h : Occurs name t) : Occurs (ρ name) (t.rename ρ) := by
  induction h with
  | here => exact .here
  | @inside t p hp _ ih => exact .inside (replacedParts_rename t ▸ List.mem_map_of_mem hp) ih

lemma Mentions.rename (h : Mentions name t) : Mentions (ρ name) (t.rename ρ) := by
  induction h with
  | here => exact .here
  | @inside t p hp hown _ ih =>
    refine .inside (replacedParts_rename t ▸ List.mem_map_of_mem hp) ?_ ih
    cases t with
    | function sig =>
      rw [rename_function]
      simpa [ownNames, TypeParam.rename] using hown
    | interface shape =>
      rw [rename_interface]
      exact List.not_mem_nil
    | _ => exact List.not_mem_nil

lemma bounds_map_rename (ps : List TypeParam) :
    TypeParam.bounds (ps.map (TypeParam.rename ρ)) = (TypeParam.bounds ps).map (rename ρ) :=
  TypeParam.bounds_map_mapParts

lemma Canonical.rename (ht : t.Canonical) : (t.rename ρ).Canonical := by
  induction t using induction_on_parts with
  | step t ih =>
    have hpart : ∀ p ∈ t.parts, (p.rename ρ).Canonical := fun p hp => ih p hp (ht.part hp)
    cases t with
    | list t => exact canonical_list.2 (hpart t List.mem_cons_self)
    | map k v =>
      refine canonical_map.2 ⟨hpart k List.mem_cons_self, hpart v ?_⟩
      exact List.mem_cons_of_mem _ List.mem_cons_self
    | nullable t =>
      rw [← orNull_of_canonical ht, rename_orNull]
      exact (hpart t List.mem_cons_self).orNull
    | union ms =>
      rw [← unionOf_members ht, rename_unionOf]
      exact canonical_unionOf (List.forall_mem_map.2 hpart)
    | function sig =>
      rw [rename_function, canonical_function, bounds_map_rename]
      refine ⟨List.forall_mem_map.2 fun p hp => ?_, ?_, List.forall_mem_map.2 fun b hb => ?_⟩
      · exact hpart _ (mem_parts_of_mem_replacedParts (param_mem_replacedParts hp))
      · exact hpart _ (mem_parts_of_mem_replacedParts result_mem_replacedParts)
      · exact hpart _ (List.mem_append_right _ (List.mem_cons_of_mem _ hb))
    | interface shape =>
      rw [rename_interface, canonical_interface, bounds_map_rename]
      refine ⟨?_, List.forall_mem_map.2 fun p hp => ?_, List.forall_mem_map.2 fun b hb => ?_⟩
      · simpa [Interface.retype, Function.comp_def] using (canonical_interface.1 ht).1
      · exact hpart _ (mem_parts_of_mem_replacedParts (property_mem_replacedParts hp))
      · exact hpart _ (List.mem_append_right _ hb)
    | future t => exact canonical_future.2 (hpart t List.mem_cons_self)
    | generic base args =>
      rw [rename_generic]
      refine canonical_generic.2 ⟨hpart base List.mem_cons_self, List.forall_mem_map.2 ?_⟩
      exact fun a ha => hpart a (List.mem_cons_of_mem _ ha)
    | prim | cls | enum | ref => exact ht
    | param => exact canonical_param _

end Permutation

end Ty

/-! ## Renaming and substitution -/

namespace Subst

variable {ρ : Equiv.Perm String} {s : Subst} {name : String} {t : Ty}

/-- The names that are bound and those in the types they are bound to. -/
def names (s : Subst) : List String := s.flatMap fun b => b.1 :: b.2.names

/-- The bindings with type parameters renamed, on both sides. -/
def rename (ρ : String → String) (s : Subst) : Subst := s.map fun b => (ρ b.1, b.2.rename ρ)

lemma get?_rename : (s.rename ρ).get? (ρ name) = (s.get? name).map (Ty.rename ρ) := by
  induction s with
  | nil => rfl
  | cons b s ih =>
    change Subst.get? ((ρ b.1, b.2.rename ρ) :: Subst.rename ρ s) (ρ name) = _
    rw [get?_cons, get?_cons, ih]
    by_cases hname : b.1 = name
    · simp [hname]
    · simp [hname]

lemma without_rename {params : List TypeParam} :
    (s.rename ρ).without (params.map (TypeParam.rename ρ)) = (s.without params).rename ρ := by
  have hname (n m : String) : (ρ n == ρ m) = (n == m) := by rw [Bool.eq_iff_iff]; simp
  simp [without, rename, List.filter_map, TypeParam.rename, Function.comp_def, hname]

lemma mem_of_get? (h : s.get? name = some t) : (name, t) ∈ s := by
  obtain ⟨⟨n, t⟩, hfound, rfl⟩ := Option.map_eq_some_iff.1 h
  obtain rfl : n = name := by simpa using List.find?_some hfound
  exact ByName.mem_of_find? hfound

lemma name_mem_names (h : s.get? name = some t) : name ∈ s.names :=
  List.mem_flatMap.2 ⟨_, mem_of_get? h, List.mem_cons_self⟩

lemma names_subset_names (h : s.get? name = some t) : t.names ⊆ s.names := fun _ hother =>
  List.mem_flatMap.2 ⟨_, mem_of_get? h, List.mem_cons_of_mem _ hother⟩

lemma rename_eq_self {ρ : String → String} (h : ∀ name ∈ s.names, ρ name = name) :
    s.rename ρ = s := by
  refine (List.map_congr_left fun b hb => ?_).trans (List.map_id s)
  have hnames : ∀ name ∈ b.1 :: b.2.names, ρ name = name := fun name hname =>
    h name (List.mem_flatMap.2 ⟨b, hb, hname⟩)
  obtain ⟨hbound, htype⟩ := List.forall_mem_cons.1 hnames
  rw [hbound, Ty.rename_eq_self htype]
  rfl

end Subst

namespace Ty

variable {ρ : Equiv.Perm String} {s : Subst} {t : Ty} {name : String}

/-- Substitution commutes with renaming, if the bindings are renamed as well. -/
theorem rename_substitute (ρ : Equiv.Perm String) (s : Subst) (t : Ty) :
    (t.substitute s).rename ρ = (t.rename ρ).substitute (s.rename ρ) := by
  induction t using induction_on_parts generalizing s with
  | step t ih =>
    by_cases hs : s = []
    · subst hs
      rfl
    have hs' : s.rename ρ ≠ [] := by simpa [Subst.rename] using hs
    cases t with
    | param name =>
      rw [substitute_param, rename_param, substitute_param, Subst.get?_rename]
      cases s.get? name <;> rfl
    | list t =>
      rw [substitute_list, rename_list, rename_list, substitute_list, ih t List.mem_cons_self]
    | map k v =>
      rw [substitute_map, rename_map, rename_map, substitute_map, ih k List.mem_cons_self,
        ih v (List.mem_cons_of_mem _ List.mem_cons_self)]
    | nullable t =>
      rw [substitute_nullable_of_ne hs, rename_nullable, substitute_nullable_of_ne hs',
        rename_orNull, ih t List.mem_cons_self]
    | future t =>
      rw [substitute_future, rename_future, rename_future, substitute_future,
        ih t List.mem_cons_self]
    | union ms =>
      rw [substitute_union_of_ne hs, rename_unionOf, rename_union, substitute_union_of_ne hs']
      simp only [List.map_map]
      exact congrArg unionOf (List.map_congr_left fun m hm => ih m hm s)
    | function sig =>
      have hbody : sig.retype (rename ρ ∘ fun t => t.substitute (s.without sig.typeParams)) =
          sig.retype ((fun t => t.substitute ((s.without sig.typeParams).rename ρ)) ∘ rename ρ) :=
        Signature.retype_congr fun p hp => ih p (mem_parts_of_mem_replacedParts hp) _
      rw [substitute_function, rename_function, rename_function, substitute_function,
        Signature.retype_retype, hbody, Subst.without_rename]
      simp [Signature.retype]
    | interface shape =>
      have hbody : shape.retype (rename ρ ∘ fun t => t.substitute s) =
          shape.retype ((fun t => t.substitute (s.rename ρ)) ∘ rename ρ) :=
        Interface.retype_congr fun p hp => ih p (mem_parts_of_mem_replacedParts hp) s
      rw [substitute_interface, rename_interface, rename_interface, substitute_interface,
        Interface.retype_retype, hbody]
      simp [Interface.retype]
    | generic base args =>
      rw [substitute_generic, rename_generic, rename_generic, substitute_generic]
      simp only [List.map_map]
      exact congrArg _ (List.map_congr_left fun a ha => ih a (List.mem_cons_of_mem _ ha) s)
    | prim | cls | enum | ref => simp [rename, renameBy]

/-- No name comes to stand in a type that was neither there nor in the bindings. It could be
exchanged for any other such name, and there is no end of those. -/
lemma mem_names_of_substitute (hname : name ∈ (t.substitute s).names) :
    name ∈ t.names ∨ name ∈ s.names := by
  by_contra hnew
  obtain ⟨ht, hs⟩ := not_or.1 hnew
  obtain ⟨other, hother⟩ :=
    ((t.substitute s).names ++ (t.names ++ s.names)).finite_toSet.exists_notMem
  obtain ⟨hnot, hother⟩ := not_or.1 (List.mem_append.not.1 hother)
  have hfixed : ∀ n ∈ t.names ++ s.names, Equiv.swap name other n = n := by
    intro n hn
    refine Equiv.swap_apply_of_ne_of_ne ?_ ?_
    · rintro rfl
      exact (List.mem_append.1 hn).elim ht hs
    · rintro rfl
      exact hother hn
  obtain ⟨htype, hbindings⟩ := List.forall_mem_append.1 hfixed
  have hswap := mem_names_rename (ρ := Equiv.swap name other) hname
  rw [rename_substitute, rename_eq_self htype, Subst.rename_eq_self hbindings,
    Equiv.swap_apply_left] at hswap
  exact hnot hswap

end Ty

end TypedScript
