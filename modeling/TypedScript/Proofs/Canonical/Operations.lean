import Mathlib.Data.List.Nodup
import Mathlib.Data.String.Basic
import TypedScript.Proofs.Values
import TypedScript.Type.Arguments
import TypedScript.Type.Class
import TypedScript.Type.Hint
import TypedScript.Type.Join
import TypedScript.Typing.Literals
import TypedScript.Typing.Operations

/-!
# Operations keep types canonical

Whatever makes a type from canonical ones makes a canonical type. Unions and nullables are
only ever made by the operations that keep them in order; every other constructor asks
nothing but that its parts are canonical.

Functions that go through a type are followed by the same recursion. Bindings are canonical
when each of their types is.
-/
namespace TypedScript

/-! ## Lists kept by name -/

namespace ByName

variable {α : Type} {name : α → String}

/-- The names of the entries go up. -/
def Ascends (name : α → String) (entries : List α) : Prop :=
  entries.Pairwise fun a b => name a < name b

lemma ascends_insert (a : α) {entries : List α} (h : Ascends name entries) :
    Ascends name (insert name a entries) := by
  induction entries with
  | nil => exact List.pairwise_singleton _ _
  | cons b rest ih =>
    obtain ⟨hb, hrest⟩ := List.pairwise_cons.1 h
    unfold insert
    split
    case isTrue hlt =>
      refine List.pairwise_cons.2 ⟨fun c hc => ?_, h⟩
      obtain rfl | hc := List.mem_cons.1 hc
      · exact hlt
      · exact lt_trans hlt (hb c hc)
    case isFalse hlt =>
      split
      case isTrue heq => exact List.pairwise_cons.2 ⟨fun c hc => heq ▸ hb c hc, hrest⟩
      case isFalse hne =>
        have hgt : name b < name a := lt_of_le_of_ne (not_lt.1 hlt) (Ne.symm hne)
        refine List.pairwise_cons.2 ⟨fun c hc => ?_, ih hrest⟩
        obtain rfl | hc := mem_insert hc
        · exact hgt
        · exact hb c hc

lemma ascends_foldl_insert (added : List α) {entries : List α} (h : Ascends name entries) :
    Ascends name (added.foldl (fun table a => insert name a table) entries) := by
  induction added generalizing entries with
  | nil => exact h
  | cons a added ih => exact ih (ascends_insert a h)

lemma ascends_ofList (entries : List α) : Ascends name (ofList name entries) :=
  ascends_foldl_insert entries .nil

lemma mem_foldl_insert {b : α} (added : List α) {entries : List α}
    (h : b ∈ added.foldl (fun table a => insert name a table) entries) :
    b ∈ added ∨ b ∈ entries := by
  induction added generalizing entries with
  | nil => exact .inr h
  | cons a added ih =>
    obtain h | h := ih h
    · exact .inl (List.mem_cons_of_mem _ h)
    · obtain rfl | h := mem_insert h
      · exact .inl List.mem_cons_self
      · exact .inr h

lemma mem_of_mem_ofList {b : α} {entries : List α} (h : b ∈ ofList name entries) :
    b ∈ entries :=
  (mem_foldl_insert entries h).resolve_right List.not_mem_nil

/-- Where names go up, each stands once. -/
lemma Ascends.nodup {entries : List α} (h : Ascends name entries) :
    (entries.map name).Nodup :=
  List.pairwise_map.2 (h.imp ne_of_lt)

lemma mem_of_find? {n : String} {a : α} {entries : List α} (h : find? name n entries = some a) :
    a ∈ entries :=
  List.mem_of_find?_eq_some h

end ByName

namespace Ty

variable {t u : Ty}

/-! ## Constructors -/

@[simp] lemma canonical_prim (p : Prim) : (prim p).Canonical := by
  simp [Canonical, IsProper, IsTight]

@[simp] lemma canonical_enum (e : Enum) : (enum e).Canonical :=
  .intro ⟨trivial, trivial⟩ (List.forall_mem_nil _)

@[simp] lemma canonical_ref (name file : String) : (ref name file).Canonical :=
  .intro ⟨trivial, trivial⟩ (List.forall_mem_nil _)

@[simp] lemma canonical_param (name : String) : (param name).Canonical :=
  .intro ⟨trivial, trivial⟩ (List.forall_mem_nil _)

@[simp] lemma canonical_list : (list t).Canonical ↔ t.Canonical := by
  simp [Canonical, IsProper, IsTight]

@[simp] lemma canonical_map {k v : Ty} : (map k v).Canonical ↔ k.Canonical ∧ v.Canonical := by
  simp [Canonical, everywhere_iff (t := map k v), IsProper, IsTight, parts]

@[simp] lemma canonical_future : (future t).Canonical ↔ t.Canonical := by
  simp [Canonical, everywhere_iff (t := future t), IsProper, IsTight, parts]

lemma canonical_nullable :
    (nullable t).Canonical ↔ (t.isNull = false ∧ t.kind ≠ .nullable) ∧ t.Canonical := by
  simp [Canonical, IsProper, IsTight]

lemma canonical_union {ms : List Ty} :
    (union ms).Canonical ↔ (union ms).IsProper ∧ ∀ m ∈ ms, m.Canonical := by
  simp [Canonical, IsTight]

@[simp] lemma canonical_generic {args : List Ty} :
    (generic t args).Canonical ↔ t.Canonical ∧ ∀ a ∈ args, a.Canonical := by
  simp [Canonical, everywhere_iff (t := generic t args), IsProper, IsTight, parts]

@[simp] lemma canonical_function {sig : Signature} :
    (function sig).Canonical ↔ (∀ p ∈ sig.params, p.type.Canonical) ∧ sig.result.Canonical ∧
      ∀ b ∈ TypeParam.bounds sig.typeParams, b.Canonical := by
  simp [Canonical, everywhere_iff (t := function sig), IsProper, IsTight, parts, or_imp,
    forall_and]

@[simp] lemma canonical_interface {shape : Interface} :
    (interface shape).Canonical ↔ (shape.properties.map Property.name).Nodup ∧
      (∀ p ∈ shape.properties, p.type.Canonical) ∧
      ∀ b ∈ TypeParam.bounds shape.typeParams, b.Canonical := by
  simp [Canonical, everywhere_iff (t := interface shape), IsProper, IsTight, parts, or_imp,
    forall_and]


lemma canonical_cls {c : Class} :
    (cls c).Canonical ↔ (∀ p, c.parent = some p → (cls p).Canonical) ∧
      (∀ m ∈ c.properties, m.type.Canonical) ∧ (∀ m ∈ c.methods, m.type.Canonical) ∧
      (∀ sig, c.ctor = some sig → (function sig).Canonical) ∧
      ∀ b ∈ TypeParam.bounds c.typeParams, b.Canonical := by
  simp only [Canonical, everywhere_iff (t := cls c), IsProper, IsTight, and_self, true_and,
    parts, List.mem_append, or_imp, forall_and, List.forall_mem_map, Option.mem_toList, and_assoc]

/-! ## Null and futures -/

lemma Canonical.orNull (h : t.Canonical) : t.orNull.Canonical := by
  unfold Ty.orNull
  split
  · exact h
  · exact canonical_prim _
  · rename_i hnullable hnull
    refine canonical_nullable.2 ⟨⟨?_, fun hkind => ?_⟩, h⟩
    · cases t with
      | prim p => simpa [isNull, isPrim, eq_comm] using fun hp : p = .null => hnull (by rw [hp])
      | _ => rfl
    · cases t with
      | nullable inner => exact hnullable inner rfl
      | _ => simp [kind] at hkind

lemma Canonical.asFuture (h : t.Canonical) : t.asFuture.Canonical := by
  unfold Ty.asFuture
  split
  · exact h
  · exact canonical_future.2 h

/-! ## Unions -/

mutual

lemma kind_of_mem_alternatives : (t : Ty) → ∀ a ∈ t.alternatives, a.kind ≠ .union
  | .union ms => kind_of_mem_allAlternatives ms
  | .prim _ | .list _ | .map _ _ | .nullable _ | .function _ | .interface _ | .cls _ | .enum _
  | .future _ | .ref _ _ | .param _ | .generic _ _ => by simp [alternatives, kind]
termination_by structural t => t

/-- Alternatives are no unions, however deep the unions were nested. -/
lemma kind_of_mem_allAlternatives : (ts : List Ty) → ∀ a ∈ allAlternatives ts, a.kind ≠ .union
  | [] => List.forall_mem_nil _
  | t :: ts =>
    List.forall_mem_append.2 ⟨kind_of_mem_alternatives t, kind_of_mem_allAlternatives ts⟩
termination_by structural ts => ts

end

/-- None of the types is equal to a later one. -/
def AllDiffer (ts : List Ty) : Prop := ts.Pairwise fun s t => s.equals t = false

lemma mem_addDistinct {kept : List Ty} (h : u ∈ addDistinct kept t) : u ∈ kept ∨ u = t := by
  unfold addDistinct at h
  split at h
  · exact .inl h
  · simpa using h

lemma allDiffer_addDistinct {kept : List Ty} (h : AllDiffer kept) :
    AllDiffer (addDistinct kept t) := by
  unfold addDistinct
  split
  · exact h
  · rename_i hnone
    refine List.pairwise_append.2 ⟨h, List.pairwise_singleton _ _, fun s hs _ ht => ?_⟩
    rw [List.mem_singleton.1 ht]
    simpa using fun heq => hnone (List.any_eq_true.2 ⟨s, hs, heq⟩)

lemma mem_distinct_aux {ts kept : List Ty} (h : u ∈ ts.foldl addDistinct kept) :
    u ∈ kept ∨ u ∈ ts := by
  induction ts generalizing kept with
  | nil => exact .inl h
  | cons t ts ih =>
    obtain h | h := ih h
    · obtain h | rfl := mem_addDistinct h
      · exact .inl h
      · exact .inr List.mem_cons_self
    · exact .inr (List.mem_cons_of_mem _ h)

lemma mem_of_mem_distinct {ts : List Ty} (h : u ∈ distinct ts) : u ∈ ts :=
  (mem_distinct_aux h).resolve_left List.not_mem_nil

lemma allDiffer_distinct (ts : List Ty) : AllDiffer (distinct ts) := by
  suffices h : ∀ kept, AllDiffer kept → AllDiffer (ts.foldl addDistinct kept) from h [] .nil
  induction ts with
  | nil => exact fun _ h => h
  | cons t ts ih => exact fun kept h => ih _ (allDiffer_addDistinct h)

lemma canonical_unionOf {ts : List Ty} (h : ∀ t ∈ ts, t.Canonical) : (unionOf ts).Canonical := by
  have hmembers : ∀ m ∈ distinct (allAlternatives ts), m.Canonical :=
    fun m hm => canonical_allAlternatives ts h m (mem_of_mem_distinct hm)
  unfold unionOf
  split
  · exact canonical_prim _
  · rename_i t hone
    exact hmembers t (hone ▸ List.mem_cons_self)
  · rename_i hnone hone
    refine canonical_union.2 ⟨⟨?_, fun m hm => ?_, allDiffer_distinct _⟩, hmembers⟩
    · rcases hms : distinct (allAlternatives ts) with _ | ⟨t, _ | ⟨u, rest⟩⟩
      · exact absurd hms hnone
      · exact absurd hms (hone t)
      · simp
    · exact kind_of_mem_allAlternatives ts m (mem_of_mem_distinct hm)

lemma Canonical.stripNull (h : t.Canonical) : t.stripNull.Canonical := by
  obtain ⟨ms, rfl⟩ | hkind := t.union_or_kind_ne
  · unfold Ty.stripNull
    split
    · refine canonical_unionOf fun s hs => ?_
      obtain ⟨m, hm, -, rfl⟩ := mem_strippedMembers.1 hs
      exact canonical_stripNull (h.part hm) (h.here.1.2.1 m hm)
    · exact h
  · exact canonical_stripNull h hkind

end Ty

/-! ## Bindings -/

/-- Every name is bound to a canonical type. -/
def Subst.Canonical (s : Subst) : Prop := ∀ b ∈ s, b.2.Canonical

namespace Subst.Canonical

variable {s : Subst} {name : String} {t : Ty}

lemma nil : Subst.Canonical [] := List.forall_mem_nil _

lemma get? (hs : s.Canonical) (h : s.get? name = some t) : t.Canonical := by
  obtain ⟨b, hb, rfl⟩ := Option.map_eq_some_iff.1 h
  exact hs b (ByName.mem_of_find? hb)

lemma bind (hs : s.Canonical) (ht : t.Canonical) : (s.bind name t).Canonical := by
  intro b hb
  obtain rfl | hb := ByName.mem_insert hb
  · exact ht
  · exact hs b hb

lemma without (hs : s.Canonical) (params : List TypeParam) : (s.without params).Canonical :=
  fun b hb => hs b (List.mem_of_mem_filter hb)

lemma foldl {α : Type} {step : Subst → α → Subst} {entries : List α} (hs : s.Canonical)
    (hstep : ∀ s, ∀ a ∈ entries, s.Canonical → (step s a).Canonical) :
    (entries.foldl step s).Canonical := by
  induction entries generalizing s with
  | nil => exact hs
  | cons a entries ih =>
    exact ih (hstep s a List.mem_cons_self hs) fun s b hb => hstep s b (List.mem_cons_of_mem _ hb)

lemma foldl_bind {bs : List (String × Ty)} (hs : s.Canonical)
    (hb : ∀ b ∈ bs, b.2.Canonical) :
    Subst.Canonical (bs.foldl (fun s b => s.bind b.1 b.2) s) :=
  hs.foldl fun _ b hmem hs => hs.bind (hb b hmem)

lemma zip (names : List String) {types : List Ty} (h : ∀ t ∈ types, t.Canonical) :
    (Subst.zip names types).Canonical :=
  nil.foldl_bind fun b hb => h b.2 (List.of_mem_zip hb).2

lemma infer (hs : s.Canonical) (ht : t.Canonical) : (s.infer name t).Canonical := by
  unfold Subst.infer
  split
  · exact hs.bind ht
  · split
    · split
      · exact hs.bind (Ty.canonical_prim _)
      · exact hs
    · exact hs
  · exact hs

end Subst.Canonical

/-! ## Substitution -/

namespace Ty

lemma names_substituteProperties (s : Subst) (ps : List Property) :
    (substituteProperties s ps).map Property.name = ps.map Property.name := by
  induction ps with
  | nil => rfl
  | cons p ps ih =>
    obtain ⟨name, t, isOptional⟩ := p
    simp [substituteProperties, ih]

mutual

lemma canonical_substituteIn :
    (t : Ty) → t.Canonical → ∀ s : Subst, s.Canonical → (t.substituteIn s).Canonical
  | .param name => fun ht s hs => by
    unfold substituteIn
    cases h : s.get? name with
    | none => exact ht
    | some t => exact hs.get? h
  | .list t => fun ht s hs =>
    canonical_list.2 (canonical_substituteIn t (canonical_list.1 ht) s hs)
  | .map k v => fun ht s hs =>
    canonical_map.2 ⟨canonical_substituteIn k (canonical_map.1 ht).1 s hs,
      canonical_substituteIn v (canonical_map.1 ht).2 s hs⟩
  | .nullable t => fun ht s hs =>
    (canonical_substituteIn t (canonical_nullable.1 ht).2 s hs).orNull
  | .future t => fun ht s hs =>
    canonical_future.2 (canonical_substituteIn t (canonical_future.1 ht) s hs)
  | .union ms => fun ht s hs =>
    canonical_unionOf (canonical_substituteAll ms (canonical_union.1 ht).2 s hs)
  | .function ⟨params, result, isVariadic, typeParams⟩ => fun ht s hs => by
    have ⟨hparams, hresult, hbounds⟩ := canonical_function.1 ht
    have hinner := hs.without typeParams
    unfold substituteIn
    dsimp only
    split
    · exact ht
    · exact canonical_function.2 ⟨canonical_substituteParams params hparams _ hinner,
        canonical_substituteIn result hresult _ hinner, hbounds⟩
  | .interface ⟨name, properties, typeParams⟩ => fun ht s hs => by
    have ⟨hnames, hproperties, hbounds⟩ := canonical_interface.1 ht
    unfold substituteIn
    exact canonical_interface.2 ⟨by rwa [names_substituteProperties],
      canonical_substituteProperties properties hproperties s hs, hbounds⟩
  | .generic base args => fun ht s hs =>
    canonical_generic.2 ⟨(canonical_generic.1 ht).1,
      canonical_substituteAll args (canonical_generic.1 ht).2 s hs⟩
  | .prim _ | .cls _ | .enum _ | .ref _ _ => fun ht _ _ => ht
termination_by structural t => t

lemma canonical_substituteAll : (ts : List Ty) → (∀ t ∈ ts, t.Canonical) →
    ∀ s : Subst, s.Canonical → ∀ t ∈ substituteAll s ts, t.Canonical
  | [] => fun _ _ _ => List.forall_mem_nil _
  | t :: ts => fun hts s hs => List.forall_mem_cons.2
    ⟨canonical_substituteIn t (List.forall_mem_cons.1 hts).1 s hs,
      canonical_substituteAll ts (List.forall_mem_cons.1 hts).2 s hs⟩
termination_by structural ts => ts

lemma canonical_substituteParams : (ps : List Param) → (∀ p ∈ ps, p.type.Canonical) →
    ∀ s : Subst, s.Canonical → ∀ p ∈ substituteParams s ps, p.type.Canonical
  | [] => fun _ _ _ => List.forall_mem_nil _
  | ⟨_, t⟩ :: ps => fun hps s hs => List.forall_mem_cons.2
    ⟨canonical_substituteIn t (List.forall_mem_cons.1 hps).1 s hs,
      canonical_substituteParams ps (List.forall_mem_cons.1 hps).2 s hs⟩
termination_by structural ps => ps

lemma canonical_substituteProperties : (ps : List Property) → (∀ p ∈ ps, p.type.Canonical) →
    ∀ s : Subst, s.Canonical → ∀ p ∈ substituteProperties s ps, p.type.Canonical
  | [] => fun _ _ _ => List.forall_mem_nil _
  | ⟨_, t, _⟩ :: ps => fun hps s hs => List.forall_mem_cons.2
    ⟨canonical_substituteIn t (List.forall_mem_cons.1 hps).1 s hs,
      canonical_substituteProperties ps (List.forall_mem_cons.1 hps).2 s hs⟩
termination_by structural ps => ps

end

lemma Canonical.substitute {t : Ty} {s : Subst} (ht : t.Canonical) (hs : s.Canonical) :
    (t.substitute s).Canonical := by
  unfold Ty.substitute
  split
  · exact ht
  · exact canonical_substituteIn t ht s hs

/-! ## Common types -/

lemma canonical_common {ts : List Ty} (h : ∀ t ∈ ts, t.Canonical) (width : Int) :
    (common ts width).Canonical := by
  have hvalues : ∀ u ∈ distinct (ts.filter fun t => !t.isNull), u.Canonical :=
    fun u hu => h u (List.mem_of_mem_filter (mem_of_mem_distinct hu))
  unfold common
  generalize (if width ≤ 0 then defaultUnionWidth else width) = width
  dsimp only
  split
  · exact canonical_prim _
  · exact h _ List.mem_cons_self
  · split
    · exact h _ List.mem_cons_self
    · split
      · exact canonical_prim _
      · split
        · split
          · rename_i t hone
            exact (hvalues t (hone ▸ List.mem_cons_self)).orNull
          · split
            · exact canonical_prim _
            · refine canonical_unionOf (List.forall_mem_append.2 ⟨hvalues, ?_⟩)
              exact List.forall_mem_singleton.2 (canonical_prim _)
        · split
          · exact canonical_prim _
          · exact canonical_unionOf hvalues

/-! ## Type arguments -/

mutual

/-- Names are bound to parts of the argument only. -/
lemma canonical_unify (declared : List String) : (p : Ty) → ∀ (a : Ty) (s : Subst),
    a.Canonical → s.Canonical → (p.unify declared a s).Canonical
  | .param name => fun _ _ ha hs => by
    unfold unify
    split
    · exact hs.infer ha
    · exact hs
  | .list p => fun _ _ ha hs => by
    unfold unify
    split
    · exact canonical_unify declared p _ _ (canonical_list.1 ha) hs
    · exact hs
  | .map k v => fun _ _ ha hs => by
    unfold unify
    split
    · have ⟨hk, hv⟩ := canonical_map.1 ha
      exact canonical_unify declared v _ _ hv (canonical_unify declared k _ _ hk hs)
    · exact hs
  | .nullable p => fun _ _ ha hs => by
    unfold unify
    split
    · exact canonical_unify declared p _ _ (canonical_nullable.1 ha).2 hs
    · split
      · exact hs
      · exact canonical_unify declared p _ _ ha hs
  | .future p => fun _ _ ha hs => by
    unfold unify
    split
    · exact canonical_unify declared p _ _ (canonical_future.1 ha) hs
    · exact hs
  | .function ⟨params, result, _, _⟩ => fun _ _ ha hs => by
    unfold unify
    split
    · have ⟨hparams, hresult, _⟩ := canonical_function.1 ha
      split
      · exact canonical_unify declared result _ _ hresult
          (canonical_unifyParams declared params _ _ hparams hs)
      · exact hs
    · exact hs
  | .generic base args => fun _ _ ha hs => by
    unfold unify
    split
    · split
      · exact canonical_unifyAll declared args _ _ (canonical_generic.1 ha).2 hs
      · exact hs
    · exact hs
  | .prim _ | .union _ | .interface _ | .cls _ | .enum _ | .ref _ _ => fun _ _ _ hs => hs
termination_by structural p => p

lemma canonical_unifyAll (declared : List String) : (ps : List Ty) → ∀ (as : List Ty) (s : Subst),
    (∀ a ∈ as, a.Canonical) → s.Canonical → (unifyAll declared ps as s).Canonical
  | [] => fun _ _ _ hs => hs
  | p :: ps => fun as _ ha hs => by
    cases as with
    | nil => exact hs
    | cons a as =>
      have ⟨ha, hrest⟩ := List.forall_mem_cons.1 ha
      exact canonical_unifyAll declared ps _ _ hrest (canonical_unify declared p _ _ ha hs)
termination_by structural ps => ps

lemma canonical_unifyParams (declared : List String) : (ps : List Param) →
    ∀ (as : List Param) (s : Subst), (∀ a ∈ as, a.type.Canonical) → s.Canonical →
      (unifyParams declared ps as s).Canonical
  | [] => fun _ _ _ hs => hs
  | ⟨_, p⟩ :: ps => fun as _ ha hs => by
    cases as with
    | nil => exact hs
    | cons a as =>
      have ⟨ha, hrest⟩ := List.forall_mem_cons.1 ha
      exact canonical_unifyParams declared ps _ _ hrest (canonical_unify declared p _ _ ha hs)
termination_by structural ps => ps

end

end Ty

namespace TypeParam

variable {declared : List TypeParam}

lemma mem_bounds {p : TypeParam} {b : Ty} (hp : p ∈ declared) (hb : p.bound = some b) :
    b ∈ bounds declared :=
  List.mem_filterMap.2 ⟨p, hp, hb⟩

lemma forall_mem_bounds_cons {P : Ty → Prop} {p : TypeParam} {ps : List TypeParam} :
    (∀ b ∈ bounds (p :: ps), P b) ↔ (∀ b, p.bound = some b → P b) ∧ ∀ b ∈ bounds ps, P b := by
  unfold bounds
  cases hb : p.bound with
  | none => simp [hb]
  | some b => simp [hb]

lemma canonical_fallback {p : TypeParam} (h : ∀ b, p.bound = some b → b.Canonical) :
    p.fallback.Canonical := by
  unfold fallback
  cases hb : p.bound with
  | none => exact Ty.canonical_prim _
  | some b => exact h b hb

/-- A parameter is bound to a part of an argument, to a wider number or to its bound. -/
lemma canonical_inferArguments {pairs : List (Ty × Ty)}
    (hbounds : ∀ b ∈ bounds declared, b.Canonical) (hpairs : ∀ p ∈ pairs, p.2.Canonical) :
    (inferArguments declared pairs).Canonical := by
  unfold inferArguments
  refine Subst.Canonical.foldl (Subst.Canonical.foldl .nil fun s p hp hs => ?_) fun s p hp hs => ?_
  · exact Ty.canonical_unify _ p.1 _ _ (hpairs p hp) hs
  · split
    · exact hs
    · exact hs.bind (canonical_fallback fun b hb => hbounds b (mem_bounds hp hb))

end TypeParam

/-! ## Hints -/

namespace Hint

variable {h : Hint}

/-- The type expected, where one is, is canonical. -/
def Canonical (h : Hint) : Prop := ∀ t, h = some t → t.Canonical

@[simp] lemma canonical_none : Canonical none := by simp [Canonical]

@[simp] lemma canonical_some {t : Ty} : Canonical (some t) ↔ t.Canonical := by simp [Canonical]

lemma Canonical.unwrap (hh : h.Canonical) : h.unwrap.Canonical := by
  unfold Hint.unwrap
  split
  · exact Ty.canonical_prim _
  · exact (Ty.canonical_nullable.1 (hh _ rfl)).2
  · exact hh _ rfl

lemma Canonical.element? (hh : h.Canonical) : h.element?.Canonical := by
  unfold Hint.element?
  split
  · rename_i t heq
    have hlist := hh.unwrap
    rw [heq] at hlist
    exact canonical_some.2 (Ty.canonical_list.1 hlist)
  · exact canonical_none

lemma Canonical.shape? (hh : h.Canonical) {shape : Interface} (hs : h.shape? = some shape) :
    (Ty.interface shape).Canonical := by
  unfold Hint.shape? at hs
  split at hs
  · rename_i heq
    cases hs
    exact heq ▸ hh.unwrap
  · cases hs

lemma Canonical.function? (hh : h.Canonical) {sig : Signature} (hs : h.function? = some sig) :
    (Ty.function sig).Canonical := by
  unfold Hint.function? at hs
  split at hs
  · rename_i heq
    cases hs
    exact heq ▸ hh.unwrap
  · cases hs

lemma canonical_numeric {t : Ty} (ht : t.Canonical) : (numeric t).Canonical := by
  unfold numeric
  split
  · exact canonical_some.2 ht
  · exact canonical_none

end Hint

/-! ## Operators and literals -/

namespace Typing

/-- The type that is given, if one is, is canonical. -/
def Verdict.Canonical (v : Verdict) : Prop := ∀ t, v = .ok t → t.Canonical

variable {x y : Ty}

lemma Verdict.Canonical.ok {t : Ty} (ht : t.Canonical) : Verdict.Canonical (.ok t) := by
  rintro _ ⟨⟩
  exact ht

lemma Verdict.Canonical.error (d : Diagnostic) : Verdict.Canonical (.error d) := by
  rintro _ ⟨⟩

lemma canonical_operand (hx : x.Canonical) : (operand x).Canonical := by
  unfold operand
  split
  · exact Ty.canonical_prim _
  · exact hx

/-- The operators give primitive types and lists of integers. -/
lemma canonical_binary (op : Operator) (x y : Ty) : (binary op x y).Canonical := by
  intro t ht
  unfold binary ordering bitwise arithmetic range at ht
  repeat' split at ht
  all_goals cases ht
  all_goals simp

lemma canonical_range (x y : Ty) : (range x y).Canonical := by
  intro t ht
  unfold range at ht
  split at ht <;> cases ht
  simp

lemma canonical_unary (op : Operator) (hx : x.Canonical) : (unary op x).Canonical := by
  intro t ht
  unfold unary at ht
  repeat' split at ht
  all_goals cases ht
  all_goals first | exact hx | exact Ty.canonical_prim _

lemma canonical_step (op : Operator) (hx : x.Canonical) : (step op x).Canonical := by
  unfold step
  split
  · exact .ok hx
  · exact .error _

lemma canonical_compound (op : Operator) (hx : x.Canonical) (y : Ty) :
    (compound op x y).Canonical := by
  intro t ht
  unfold compound at ht
  repeat' split at ht
  all_goals cases ht
  exact hx

lemma canonical_index (hx : x.Canonical) (i : Ty) : (index x i).Canonical := by
  intro t ht
  unfold index at ht
  split at ht
  · cases ht
    exact Ty.canonical_prim _
  · split at ht
    · split at ht <;> cases ht
      exact (Ty.canonical_map.1 hx).2
    · split at ht
      · cases ht
      · split at ht <;> cases ht
        · exact Ty.canonical_list.1 hx
        · exact Ty.canonical_prim _

lemma canonical_literal (kind : LiteralKind) (text : String) (expected : Hint) :
    (literal kind text expected).Canonical := by
  intro t ht
  unfold literal at ht
  repeat' split at ht
  all_goals cases ht
  all_goals exact Ty.canonical_prim _

lemma canonical_iteration? (hx : x.Canonical) {t : Ty} (ht : iteration? x = some t) :
    t.Canonical := by
  unfold iteration? at ht
  split at ht <;> cases ht
  · exact Ty.canonical_list.1 hx
  · exact (Ty.canonical_map.1 hx).1
  all_goals exact Ty.canonical_prim _

end Typing

end TypedScript
