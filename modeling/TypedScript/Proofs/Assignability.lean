import Mathlib.Tactic.Common
import TypedScript.Type.Assignability
import TypedScript.Proofs.Equality

/-!
# Assignability one layer at a time

What it takes for a value of each sort to fit a target of each sort. Four sorts of
values behave differently: null, a nullable, a union, and everything else, called plain.
A target is a nullable, a union or a single type.

From these equations follows that wrapping a target never loses a value, and that a type
fits every type equal to it. The two have to be proved together: a nullable fits another
nullable with an equal inside, but fits a union only when its inside does.
-/
namespace TypedScript
namespace Ty

/-! ## The sorts of values and targets -/

/-- Neither a nullable nor a union. -/
def IsSingle : Ty → Prop
  | nullable _ => False
  | union _ => False
  | _ => True

/-- A single type other than null. -/
def IsPlain (t : Ty) : Prop := t.IsSingle ∧ t ≠ null

/-- The sorts of types as values. -/
inductive Role : Ty → Prop
  | null : Role null
  | nullable (a : Ty) : Role (nullable a)
  | union (ms : List Ty) : Role (union ms)
  | plain {v : Ty} : v.IsPlain → Role v

lemma role (v : Ty) : v.Role := by
  by_cases h : v = Ty.null
  · exact h ▸ .null
  · cases v with
    | nullable a => exact .nullable a
    | union ms => exact .union ms
    | _ => exact .plain ⟨trivial, h⟩

/-- The sorts of types as targets. -/
inductive Place : Ty → Prop
  | nullable (t : Ty) : Place (nullable t)
  | union (ms : List Ty) : Place (union ms)
  | single {t : Ty} : t.IsSingle → Place t

lemma place (t : Ty) : t.Place := by
  cases t with
  | nullable a => exact .nullable a
  | union ms => exact .union ms
  | _ => exact .single trivial

/-- The answer that the shape of a value has for a target, if it has one. -/
def answer (v u : Ty) : Option Bool :=
  if v.equals u then some true
  else
    match v, u with
    | prim p, prim q => some (p.canWiden q)
    | prim p, u => if p = .null then some u.allowsNull else none
    | list a, list b => some (a.assignableTo b)
    | nullable a, nullable b => some (a.assignableTo b)
    | nullable a, union ms => some ((union ms).allowsNull && a.assignableTo (union ms))
    | nullable _, _ => some false
    | cls c, cls d => some (c.isSubclassOf d.name)
    | cls c, interface shape => some (Offer.satisfy (Class.offers c) shape)
    | interface s, interface shape => some (Offer.satisfy (propertyOffers s.properties) shape)
    | _, _ => none

/-- A value that is no union fits where the search by its own answers succeeds. -/
lemma assignableTo_eq_accepts {v : Ty} (hv : v.kind ≠ .union) (t : Ty) :
    v.assignableTo t = t.accepts v.answer := by
  cases v with
  | union ms => exact absurd rfl hv
  | interface s =>
    obtain ⟨name, properties, typeParams⟩ := s
    simp only [assignableTo]
    refine congrArg (fun direct => t.accepts direct) (funext fun u => ?_)
    cases u <;> simp [answer]
  | _ =>
    simp only [assignableTo]
    refine congrArg (fun direct => t.accepts direct) (funext fun u => ?_)
    cases u <;> simp [answer]

/-! ## Equations of assignability -/

lemma someAccepts_iff {direct : Ty → Option Bool} {ms : List Ty} :
    someAccepts direct ms = true ↔ ∃ m ∈ ms, m.accepts direct = true := by
  induction ms with
  | nil => simp [someAccepts]
  | cons m ms ih => simp [someAccepts, ih]

lemma allAssignableTo_iff {ms : List Ty} {t : Ty} :
    allAssignableTo ms t = true ↔ ∀ m ∈ ms, m.assignableTo t = true := by
  induction ms with
  | nil => simp [allAssignableTo]
  | cons m ms ih => simp [allAssignableTo, ih]

lemma anyAllowsNull_iff {ms : List Ty} :
    anyAllowsNull ms = true ↔ ∃ m ∈ ms, m.allowsNull = true := by
  induction ms with
  | nil => simp [anyAllowsNull]
  | cons m ms ih => simp [anyAllowsNull, ih]

lemma accepts_of_isSingle {direct : Ty → Option Bool} {t : Ty} (ht : t.IsSingle) :
    t.accepts direct = (t.isAbsorbing || (direct t).getD false) := by
  cases t with
  | nullable a => exact ht.elim
  | union ms => exact ht.elim
  | _ => simp only [accepts]

lemma isSingle_of_isAbsorbing {t : Ty} (h : t.isAbsorbing = true) : t.IsSingle := by
  cases t with
  | prim p => trivial
  | _ => simp [isAbsorbing] at h

/-- Any and unknown take every value. -/
lemma assignableTo_of_isAbsorbing {v t : Ty} (h : t.isAbsorbing = true) :
    v.assignableTo t = true := by
  obtain ⟨ms, rfl⟩ | hv := v.union_or_kind_ne
  · simp [assignableTo, h]
  · rw [assignableTo_eq_accepts hv, accepts_of_isSingle (isSingle_of_isAbsorbing h), h,
      Bool.true_or]

lemma union_assignableTo_iff {ms : List Ty} {t : Ty} :
    (union ms).assignableTo t = true ↔ ∀ m ∈ ms, m.assignableTo t = true := by
  simp only [assignableTo, Bool.or_eq_true, allAssignableTo_iff, or_iff_right_iff_imp]
  exact fun h m _ => assignableTo_of_isAbsorbing h

/-- A value of a single type fits a single target by its own answer, or because the
target takes everything. -/
lemma single_assignableTo_iff {v t : Ty} (hv : v.IsSingle) (ht : t.IsSingle) :
    v.assignableTo t = true ↔ t.isAbsorbing = true ∨ v.answer t = some true := by
  have hkind : v.kind ≠ .union := by cases v <;> simp_all [kind, IsSingle]
  rw [assignableTo_eq_accepts hkind, accepts_of_isSingle ht]
  cases v.answer t <;> simp

lemma answer_of_equals {v u : Ty} (h : v.equals u = true) : v.answer u = some true := by
  simp [answer, h]

lemma IsPlain.kind_ne {v : Ty} (hv : v.IsPlain) : v.kind ≠ .union ∧ v.kind ≠ .nullable := by
  cases v with
  | nullable a => exact hv.1.elim
  | union ms => exact hv.1.elim
  | _ => simp [kind]

/-- A plain value has no answer for a target that wraps others. -/
lemma IsPlain.answer_eq_none {v u : Ty} (hv : v.IsPlain) (hu : ¬ u.IsSingle) :
    v.answer u = none := by
  have hne : ¬ v.equals u = true := by
    intro h
    have hkind := kind_eq_of_equals h
    obtain ⟨hunion, hnullable⟩ := hv.kind_ne
    cases u with
    | nullable a => exact hnullable hkind
    | union ms => exact hunion hkind
    | _ => exact hu trivial
  cases v with
  | prim p =>
    have hp : p ≠ .null := fun e => hv.2 (e ▸ rfl)
    cases u <;> simp_all [answer, IsSingle]
  | nullable a => exact hv.1.elim
  | union ms => exact hv.1.elim
  | _ => cases u <;> simp_all [answer, IsSingle]

lemma IsPlain.assignableTo_nullable_iff {v t : Ty} (hv : v.IsPlain) :
    v.assignableTo (nullable t) = true ↔ v.assignableTo t = true := by
  rw [assignableTo_eq_accepts hv.kind_ne.1, assignableTo_eq_accepts hv.kind_ne.1]
  simp only [accepts, hv.answer_eq_none (u := nullable t) id]

lemma IsPlain.assignableTo_union_iff {v : Ty} {ms : List Ty} (hv : v.IsPlain) :
    v.assignableTo (union ms) = true ↔ ∃ m ∈ ms, v.assignableTo m = true := by
  simp only [assignableTo_eq_accepts hv.kind_ne.1, accepts,
    hv.answer_eq_none (u := union ms) id, someAccepts_iff]

lemma null_answer {t : Ty} (ht : ¬ ∃ p, t = prim p) : null.answer t = some t.allowsNull := by
  cases t with
  | prim p => exact absurd ⟨p, rfl⟩ ht
  | _ => simp [answer, equals, equalsBy]

/-- Null fits exactly the types that allow it. -/
lemma null_assignableTo_iff {t : Ty} : null.assignableTo t = true ↔ t.allowsNull = true := by
  cases t with
  | prim p => cases p <;> decide
  | nullable a =>
    simp [assignableTo_eq_accepts (v := null) (by simp [kind]), accepts, null_answer, allowsNull]
  | union ms =>
    simp [assignableTo_eq_accepts (v := null) (by simp [kind]), accepts, null_answer]
  | _ =>
    rw [single_assignableTo_iff (by trivial) (by trivial), null_answer (by simp)]
    simp [isAbsorbing]

lemma nullable_assignableTo_nullable_iff {a b : Ty} :
    (nullable a).assignableTo (nullable b) = true ↔
      a.equals b = true ∨ a.assignableTo b = true := by
  rw [assignableTo_eq_accepts (by simp [kind])]
  have hequals : (nullable a).equals (nullable b) = a.equals b := rfl
  by_cases h : a.equals b = true <;> simp [accepts, answer, hequals, h]

lemma nullable_assignableTo_union_iff {a : Ty} {ms : List Ty} :
    (nullable a).assignableTo (union ms) = true ↔
      (union ms).allowsNull = true ∧ a.assignableTo (union ms) = true := by
  rw [assignableTo_eq_accepts (by simp [kind])]
  simp [accepts, answer, equals, equalsBy]

lemma nullable_assignableTo_single_iff {a t : Ty} (ht : t.IsSingle) :
    (nullable a).assignableTo t = true ↔ t.isAbsorbing = true := by
  rw [assignableTo_eq_accepts (by simp [kind]), accepts_of_isSingle ht]
  cases t with
  | nullable b => exact ht.elim
  | union ms => exact ht.elim
  | _ => simp [answer, equals, equalsBy]

/-- A type that fits no single type but those equal to it and those that take everything. -/
def IsRigid : Ty → Prop
  | map _ _ | function _ | enum _ | future _ | ref _ _ | param _ | generic _ _ => True
  | _ => False

/-- The ways in which a plain value fits a single target by its own shape. -/
inductive Direct : Ty → Ty → Prop
  | widen {p q : Prim} : p = q ∨ p.canWiden q = true → Direct (prim p) (prim q)
  | list {a b : Ty} : a.equals b = true ∨ a.assignableTo b = true → Direct (list a) (list b)
  | extend {c d : Class} : c.name = d.name ∨ c.isSubclassOf d.name = true →
      Direct (cls c) (cls d)
  | implement {c : Class} {shape : Interface} :
      Offer.satisfy (Class.offers c) shape = true → Direct (cls c) (interface shape)
  | shape {s o : Interface} :
      (interface s).equals (interface o) = true ∨
        Offer.satisfy (propertyOffers s.properties) o = true →
      Direct (interface s) (interface o)
  | same {v t : Ty} : v.IsRigid → v.equals t = true → Direct v t

lemma IsPlain.direct_of_equals {v t : Ty} (hv : v.IsPlain) (h : v.equals t = true) :
    Direct v t := by
  cases matches_of_equals h with
  | prim p => exact .widen (.inl rfl)
  | list hab => exact .list (.inl hab)
  | nullable _ => exact hv.1.elim
  | union _ _ => exact hv.1.elim
  | interface _ _ _ => exact .shape (.inl h)
  | cls hname => exact .extend (.inl hname)
  | _ => exact .same trivial h

lemma IsPlain.direct_of_answer {v t : Ty} (hv : v.IsPlain) (h : v.answer t = some true) :
    Direct v t := by
  by_cases heq : v.equals t = true
  · exact hv.direct_of_equals heq
  unfold answer at h
  rw [if_neg heq] at h
  cases v with
  | prim p =>
    have hp : p ≠ .null := fun e => hv.2 (e ▸ rfl)
    cases t <;> simp [hp] at h
    exact .widen (.inr h)
  | list a => cases t <;> simp at h; exact .list (.inr h)
  | nullable a => exact hv.1.elim
  | union ms => exact hv.1.elim
  | interface s => cases t <;> simp at h; exact .shape (.inr h)
  | cls c =>
    cases t <;> simp at h
    · exact .implement h
    · exact .extend (.inr h)
  | _ => cases t <;> simp at h

lemma Direct.answer {v t : Ty} (h : Direct v t) : v.answer t = some true := by
  by_cases heq : v.equals t = true
  · exact answer_of_equals heq
  unfold Ty.answer
  rw [if_neg heq]
  cases h with
  | @widen p q h =>
    have hne : p ≠ q := fun e => heq (decide_eq_true e)
    simp [h.resolve_left hne]
  | list h => simp [h.resolve_left heq]
  | @extend c d h =>
    have hne : c.name ≠ d.name := fun e => heq (beq_iff_eq.2 e)
    simp [h.resolve_left hne]
  | implement h => simp [h]
  | shape h => simp [h.resolve_left heq]
  | same _ h => exact absurd h heq

/-- A plain value fits a single target directly, or because the target takes everything. -/
lemma IsPlain.assignableTo_single_iff {v t : Ty} (hv : v.IsPlain) (ht : t.IsSingle) :
    v.assignableTo t = true ↔ t.isAbsorbing = true ∨ Direct v t := by
  rw [single_assignableTo_iff hv.1 ht]
  exact or_congr_right ⟨hv.direct_of_answer, Direct.answer⟩

/-! ## Wrapping a target loses no value -/

/-- What equality and wrapping do to the targets of a value. -/
structure Embeds (v : Ty) : Prop where
  equal {w : Ty} : w.Proper → v.equals w = true → v.assignableTo w = true
  nullable {t : Ty} : t.Proper → v.assignableTo t = true → v.assignableTo (nullable t) = true
  member {m : Ty} {os : List Ty} : m.Proper → m ∈ os → v.assignableTo m = true →
    v.assignableTo (union os) = true

lemma equals_assignableTo_of_isSingle {v w : Ty} (hv : v.IsSingle) (h : v.equals w = true) :
    v.assignableTo w = true := by
  have hw : w.IsSingle := by
    have hkind := kind_eq_of_equals h
    cases v <;> cases w <;> simp_all [kind, IsSingle]
  exact (single_assignableTo_iff hv hw).2 (.inr (answer_of_equals h))

lemma allowsNull_union_of_mem {m : Ty} {os : List Ty} (hm : m ∈ os) (h : m.allowsNull = true) :
    (union os).allowsNull = true := by
  simp only [allowsNull]
  exact anyAllowsNull_iff.2 ⟨m, hm, h⟩

lemma allowsNull_of_isAbsorbing {t : Ty} (h : t.isAbsorbing = true) : t.allowsNull = true := by
  cases t with
  | prim p => simp_all [isAbsorbing, allowsNull]
  | _ => simp [isAbsorbing] at h

/-- Where a nullable fits, null does. -/
lemma allowsNull_of_nullable_assignableTo {a t : Ty}
    (h : (nullable a).assignableTo t = true) : t.allowsNull = true := by
  cases t.place with
  | nullable b => simp [allowsNull]
  | union ms => exact (nullable_assignableTo_union_iff.1 h).1
  | single ht => exact allowsNull_of_isAbsorbing ((nullable_assignableTo_single_iff ht).1 h)

/-- Where a nullable fits, its inside does. -/
lemma Embeds.inside {a t : Ty} (ha : a.Embeds) (ht : t.Proper)
    (h : (Ty.nullable a).assignableTo t = true) : a.assignableTo t = true := by
  cases t.place with
  | nullable b =>
    have hb : b.Proper := ht.part List.mem_cons_self
    obtain heq | hfits := nullable_assignableTo_nullable_iff.1 h
    · exact ha.nullable hb (ha.equal hb heq)
    · exact ha.nullable hb hfits
  | union ms => exact (nullable_assignableTo_union_iff.1 h).2
  | single ht => exact assignableTo_of_isAbsorbing ((nullable_assignableTo_single_iff ht).1 h)

lemma embeds_null : null.Embeds where
  equal _ h := equals_assignableTo_of_isSingle trivial h
  nullable _ _ := null_assignableTo_iff.2 (by simp [allowsNull])
  member _ hm h := null_assignableTo_iff.2 (allowsNull_union_of_mem hm (null_assignableTo_iff.1 h))

lemma IsPlain.embeds {v : Ty} (hv : v.IsPlain) : v.Embeds where
  equal _ h := equals_assignableTo_of_isSingle hv.1 h
  nullable _ h := hv.assignableTo_nullable_iff.2 h
  member _ hm h := hv.assignableTo_union_iff.2 ⟨_, hm, h⟩

lemma Embeds.ofNullable {a : Ty} (ha : a.Embeds) : (Ty.nullable a).Embeds where
  equal _ h := by
    cases matches_of_equals h with
    | nullable h => exact nullable_assignableTo_nullable_iff.2 (.inl h)
  nullable ht h := nullable_assignableTo_nullable_iff.2 (.inr (ha.inside ht h))
  member hproper hm h :=
    have hnull := allowsNull_union_of_mem hm (allowsNull_of_nullable_assignableTo h)
    nullable_assignableTo_union_iff.2 ⟨hnull, ha.member hproper hm (ha.inside hproper h)⟩

lemma Embeds.ofUnion {ms : List Ty} (hproper : ∀ m ∈ ms, m.Proper) (hms : ∀ m ∈ ms, m.Embeds) :
    (Ty.union ms).Embeds where
  equal hw h := by
    cases matches_of_equals h with
    | union _ hcover =>
      refine union_assignableTo_iff.2 fun m hm => ?_
      obtain ⟨o, ho, hom⟩ := hcover m hm
      have hmo := equals_symm (hw.part ho) (hproper m hm) hom
      exact (hms m hm).member (hw.part ho) ho ((hms m hm).equal (hw.part ho) hmo)
  nullable ht h :=
    union_assignableTo_iff.2 fun m hm => (hms m hm).nullable ht (union_assignableTo_iff.1 h m hm)
  member ho' ho h :=
    union_assignableTo_iff.2 fun m hm =>
      (hms m hm).member ho' ho (union_assignableTo_iff.1 h m hm)

theorem Proper.embeds {v : Ty} (hv : v.Proper) : v.Embeds := by
  induction hv with
  | @intro v _ hparts ih =>
    cases v.role with
    | null => exact embeds_null
    | nullable a => exact (ih a List.mem_cons_self).ofNullable
    | union ms => exact .ofUnion hparts ih
    | plain hv => exact hv.embeds

/-- Types that are equal are assignable to each other, if their unions are flat and without
repetition, and so every canonical type is assignable to itself. -/
theorem equality_gives_assignability :
    (∀ a b : Ty, a.Proper → b.Proper → a.equals b = true → a.assignableTo b = true) ∧
      ∀ t : Ty, t.Canonical → t.assignableTo t = true :=
  ⟨fun _ _ ha hb h => ha.embeds.equal hb h,
    fun _ h => h.proper.embeds.equal h.proper (equals_refl h.proper)⟩

/-- The members stand in another order, also inside of a member. -/
theorem nested_unions_assignable :
    (union [nullable (union [int, str]), bool]).Canonical ∧
      (union [bool, nullable (union [str, int])]).Canonical ∧
      (union [nullable (union [int, str]), bool]).equals
        (union [bool, nullable (union [str, int])]) = true ∧
      (union [nullable (union [int, str]), bool]).assignableTo
        (union [bool, nullable (union [str, int])]) = true ∧
      (union [nullable (union [int, str]), bool]).assignableTo
        (union [nullable (union [int, str]), bool]) = true := by
  have heq : (union [nullable (union [int, str]), bool]).equals
      (union [bool, nullable (union [str, int])]) = true := by decide
  have hcanonical : (union [nullable (union [int, str]), bool]).Canonical := by
    simp only [Canonical, everywhere_union, everywhere_nullable, everywhere_prim,
      List.forall_mem_cons, List.not_mem_nil, IsEmpty.forall_iff, implies_true]
    decide
  have hcanonical' : (union [bool, nullable (union [str, int])]).Canonical := by
    simp only [Canonical, everywhere_union, everywhere_nullable, everywhere_prim,
      List.forall_mem_cons, List.not_mem_nil, IsEmpty.forall_iff, implies_true]
    decide
  exact ⟨hcanonical, hcanonical', heq,
    equality_gives_assignability.1 _ _ hcanonical.proper hcanonical'.proper heq,
    equality_gives_assignability.2 _ hcanonical⟩

/-- A union that repeats a member may equal one that takes more, and this goes on into lists. -/
example :
    (union [list (union [int, str]), bool]).equals
        (union [list (union [int, int]), bool]) = true ∧
      (union [list (union [int, str]), bool]).assignableTo
        (union [list (union [int, int]), bool]) = false := by decide

end Ty
end TypedScript
