import Mathlib.Tactic.Common
import Mathlib.Data.Fintype.EquivFin
import TypedScript.Proofs.Canonical

/-!
# Equality is an equivalence

Equality of types is read one layer at a time: two types are equal when they agree at the
top and their parts are equal. Transitivity needs nothing more. Reflexivity needs shapes
to name each property once.

Symmetry is the one law that needs unions in proper form. A union is compared from one
side only, each member with some member of the other; that the other side is exhausted
too follows by counting, because members that differ have different counterparts. Shapes
are compared from one side in the same way, with names in the place of members.

A member is compared with those of another union by asking them. So one law for a union rests
on the law for its members the other way round, and both ways are shown together.
-/
namespace TypedScript

/-- Where every entry of a list has a partner in another list, and no two entries share a
partner, partners can be chosen one for each entry. -/
lemma exists_injective_partner {α β : Type} {r : α → β → Prop} {as : List α} {bs : List β}
    (hpartner : ∀ a ∈ as, ∃ b ∈ bs, r a b)
    (hshare : as.Pairwise fun a a' => ∀ b ∈ bs, r a b → ¬ r a' b) :
    ∃ f : Fin as.length → Fin bs.length,
      Function.Injective f ∧ ∀ i, r (as.get i) (bs.get (f i)) := by
  have hindex : ∀ i : Fin as.length, ∃ j : Fin bs.length, r (as.get i) (bs.get j) := by
    intro i
    obtain ⟨b, hb, hr⟩ := hpartner (as.get i) (as.get_mem i)
    obtain ⟨j, rfl⟩ := List.mem_iff_get.1 hb
    exact ⟨j, hr⟩
  choose f hf using hindex
  have hne : ∀ i i' : Fin as.length, i < i' → f i ≠ f i' := by
    intro i i' hlt heq
    have hsep := List.pairwise_iff_get.1 hshare i i' hlt (bs.get (f i)) (bs.get_mem _)
    have hi' := hf i'
    rw [← heq] at hi'
    exact hsep (hf i) hi'
  refine ⟨f, fun i i' heq => ?_, hf⟩
  by_contra hdiff
  obtain hlt | hlt := lt_or_gt_of_ne hdiff
  · exact hne i i' hlt heq
  · exact hne i' i hlt heq.symm

/-- Then there are no fewer partners than entries. -/
lemma length_le_of_partner {α β : Type} {r : α → β → Prop} {as : List α} {bs : List β}
    (hpartner : ∀ a ∈ as, ∃ b ∈ bs, r a b)
    (hshare : as.Pairwise fun a a' => ∀ b ∈ bs, r a b → ¬ r a' b) :
    as.length ≤ bs.length := by
  obtain ⟨f, hinj, -⟩ := exists_injective_partner hpartner hshare
  simpa using Fintype.card_le_of_injective f hinj

/-- If the lists have the same length, every entry of the other list is a partner. -/
lemma exists_partner {α β : Type} {r : α → β → Prop} {as : List α} {bs : List β}
    (hlen : as.length = bs.length) (hpartner : ∀ a ∈ as, ∃ b ∈ bs, r a b)
    (hshare : as.Pairwise fun a a' => ∀ b ∈ bs, r a b → ¬ r a' b) :
    ∀ b ∈ bs, ∃ a ∈ as, r a b := by
  obtain ⟨f, hinj, hf⟩ := exists_injective_partner hpartner hshare
  have hbij : Function.Bijective f :=
    (Fintype.bijective_iff_injective_and_card f).2 ⟨hinj, by simpa using hlen⟩
  intro b hb
  obtain ⟨j, rfl⟩ := List.mem_iff_get.1 hb
  obtain ⟨i, rfl⟩ := hbij.surjective j
  exact ⟨as.get i, as.get_mem i, hf i⟩

/-- Chain two lists of pairs, where the chaining is known for their entries only. -/
lemma forall₂_chain {α : Type} {r : α → α → Prop} {as bs cs : List α}
    (hab : List.Forall₂ r as bs) (hbc : List.Forall₂ r bs cs)
    (hchain : ∀ a ∈ as, ∀ b, ∀ c ∈ cs, r a b → r b c → r a c) : List.Forall₂ r as cs := by
  induction hab generalizing cs with
  | nil => cases hbc; exact .nil
  | cons hhead _ ih =>
    cases hbc with
    | cons hhead' htail' =>
      have hrest := ih htail' fun a ha b c hc =>
        hchain a (List.mem_cons_of_mem _ ha) b c (List.mem_cons_of_mem _ hc)
      exact .cons (hchain _ List.mem_cons_self _ _ List.mem_cons_self hhead hhead') hrest

/-- Go from one list of pairs to another, where the step is known for their entries only. -/
lemma forall₂_step {α β : Type} {r r' : α → β → Prop} {as : List α} {bs : List β}
    (h : List.Forall₂ r as bs) (hstep : ∀ a ∈ as, ∀ b ∈ bs, r a b → r' a b) :
    List.Forall₂ r' as bs := by
  refine List.forall₂_iff_zip.2 ⟨h.length_eq, fun {a b} hab => ?_⟩
  obtain ⟨ha, hb⟩ := List.of_mem_zip hab
  exact hstep a ha b hb (List.forall₂_zip h hab)

/-- Turn a list of pairs around, where the turning is known for their entries only. -/
lemma forall₂_turn {α : Type} {r : α → α → Prop} {as bs : List α}
    (hab : List.Forall₂ r as bs) (hturn : ∀ a ∈ as, ∀ b ∈ bs, r a b → r b a) :
    List.Forall₂ r bs as := (forall₂_step hab hturn).flip

namespace Interface

lemma name_of_property? {s : Interface} {name : String} {p : Property}
    (h : s.property? name = some p) : p.name = name := by
  simpa using List.find?_some h

lemma mem_of_property? {s : Interface} {name : String} {p : Property}
    (h : s.property? name = some p) : p ∈ s.properties := List.mem_of_find?_eq_some h

/-- A shape that names each property once finds every property it has. -/
lemma property?_of_mem {s : Interface} (hnames : (s.properties.map Property.name).Nodup)
    {p : Property} (h : p ∈ s.properties) : s.property? p.name = some p := by
  obtain ⟨name, properties, typeParams⟩ := s
  change properties.find? (fun q => q.name == p.name) = some p
  induction properties with
  | nil => exact absurd h List.not_mem_nil
  | cons q rest ih =>
    obtain ⟨hhead, hrest⟩ := List.nodup_cons.1 hnames
    obtain rfl | h := List.mem_cons.1 h
    · simp
    · have hne : (q.name == p.name) = false := by
        rw [beq_eq_false_iff_ne]
        exact fun e => hhead (e ▸ List.mem_map_of_mem h)
      rw [List.find?_cons_of_neg (by simp [hne])]
      exact ih hrest h

end Interface

namespace Ty

/-! ## One layer of equality -/

/-- The types agree at the top, and `r` holds of their parts. Members of unions are related by
`s`. -/
inductive Matches (r s : Ty → Ty → Prop) : Ty → Ty → Prop
  | prim (p : Prim) : Matches r s (prim p) (prim p)
  | list {a b : Ty} : r a b → Matches r s (list a) (list b)
  | map {k v l w : Ty} : r k l → r v w → Matches r s (map k v) (map l w)
  | nullable {a b : Ty} : r a b → Matches r s (nullable a) (nullable b)
  | union {ms os : List Ty} : ms.length = os.length → (∀ m ∈ ms, ∃ o ∈ os, s m o) →
      Matches r s (union ms) (union os)
  | function {f g : Signature} : List.Forall₂ (fun p q => r p.type q.type) f.params g.params →
      f.isVariadic = g.isVariadic → r f.result g.result → Matches r s (function f) (function g)
  | interface {i o : Interface} : i.name = o.name →
      i.properties.length = o.properties.length →
      (∀ p ∈ i.properties, ∃ q, o.property? p.name = some q ∧ p.isOptional = q.isOptional ∧
        r p.type q.type) →
      Matches r s (interface i) (interface o)
  | cls {c d : Class} : c.name = d.name → Matches r s (cls c) (cls d)
  | enum {d e : Enum} : d.name = e.name → Matches r s (enum d) (enum e)
  | future {a b : Ty} : r a b → Matches r s (future a) (future b)
  | ref (name file : String) : Matches r s (ref name file) (ref name file)
  | param (name : String) : Matches r s (param name) (param name)
  | generic {a b : Ty} {as bs : List Ty} : r a b → List.Forall₂ r as bs →
      Matches r s (generic a as) (generic b bs)

section Sides

variable {k : Asked} {a b : Ty}

lemma coveredBy_iff {ms os : List Ty} :
    coveredBy ms os = true ↔ ∀ m ∈ ms, ∃ o ∈ os, m.equalsBy .second o = true := by
  induction ms with
  | nil => simp [coveredBy]
  | cons m ms ih => simp [coveredBy, ih]

lemma hasEqual_iff {ms : List Ty} {t : Ty} :
    hasEqual ms t = true ↔ ∃ m ∈ ms, m.equalsBy .first t = true := by
  induction ms with
  | nil => simp [hasEqual]
  | cons m ms ih => simp [hasEqual, ih]

lemma sameTypes_iff {as bs : List Ty} :
    sameTypes as k bs = true ↔ List.Forall₂ (fun a b => a.equalsBy k b = true) as bs := by
  induction as generalizing bs with
  | nil => cases bs <;> simp [sameTypes]
  | cons a as ih => cases bs <;> simp [sameTypes, ih]

lemma sameParams_iff {ps qs : List Param} :
    sameParams ps k qs = true ↔
      List.Forall₂ (fun p q => p.type.equalsBy k q.type = true) ps qs := by
  induction ps generalizing qs with
  | nil => cases qs <;> simp [sameParams]
  | cons p ps ih =>
    obtain ⟨name, type⟩ := p
    cases qs <;> simp [sameParams, ih]

lemma sameProperties_iff {ps : List Property} {o : Interface} :
    sameProperties ps o = true ↔
      ∀ p ∈ ps, ∃ q, o.property? p.name = some q ∧ p.isOptional = q.isOptional ∧
        p.type.equalsBy .first q.type = true := by
  induction ps with
  | nil => simp [sameProperties]
  | cons p ps ih =>
    obtain ⟨name, type, isOptional⟩ := p
    cases h : o.property? name <;> simp [sameProperties, ih, h]

lemma hasProperty_iff {ps : List Property} {q : Property} :
    hasProperty ps q = true ↔ ∃ p, ByName.find? Property.name q.name ps = some p ∧
      q.isOptional = p.isOptional ∧ p.type.equalsBy .second q.type = true := by
  induction ps with
  | nil => simp [hasProperty, ByName.find?]
  | cons p ps ih =>
    obtain ⟨name, type, isOptional⟩ := p
    by_cases h : name = q.name
    · simp [hasProperty, ByName.find?, h, @eq_comm _ isOptional]
    · have hne : (name == q.name) = false := beq_eq_false_iff_ne.2 h
      simpa [hasProperty, ByName.find?, hne] using ih

/-- The first of two types is asked. -/
lemma equalsBy_first : a.equalsBy .first b = true ↔
    Matches (fun x y => x.equalsBy .first y = true) (fun x y => x.equalsBy .second y = true)
      a b := by
  constructor
  · intro h
    cases a with
    | prim p => cases b <;> simp [equalsBy] at h; exact h ▸ .prim p
    | list a => cases b <;> simp [equalsBy] at h; exact .list h
    | map k v => cases b <;> simp [equalsBy] at h; exact .map h.1 h.2
    | nullable a => cases b <;> simp [equalsBy] at h; exact .nullable h
    | union ms => cases b <;> simp [equalsBy, coveredBy_iff] at h; exact .union h.1 h.2
    | function f =>
      obtain ⟨⟩ := f
      cases b <;> simp [equalsBy, sameParams_iff] at h
      exact .function h.1.1 h.1.2 h.2
    | interface i =>
      obtain ⟨⟩ := i
      cases b <;> simp only [equalsBy, sameProperties_iff, Bool.and_eq_true, beq_iff_eq,
        Bool.false_eq_true] at h
      exact .interface h.1.1 h.1.2 h.2
    | cls c => cases b <;> simp [equalsBy] at h; exact .cls h
    | enum e => cases b <;> simp [equalsBy] at h; exact .enum h
    | future a => cases b <;> simp [equalsBy] at h; exact .future h
    | ref name file => cases b <;> simp [equalsBy] at h; exact h.1 ▸ h.2 ▸ .ref name file
    | param name => cases b <;> simp [equalsBy] at h; exact h ▸ .param name
    | generic base args =>
      cases b <;> simp [equalsBy, sameTypes_iff] at h
      exact .generic h.1 h.2
  · intro h
    cases h with
    | @function f g hparams hvariadic hresult =>
      obtain ⟨⟩ := f
      simp_all [equalsBy, sameParams_iff]
    | @interface i o hname hlen hprops =>
      obtain ⟨⟩ := i
      simp only [equalsBy, sameProperties_iff, Bool.and_eq_true, beq_iff_eq]
      exact ⟨⟨hname, hlen⟩, hprops⟩
    | _ => simp_all [equalsBy, coveredBy_iff, sameTypes_iff]

/-- The second of two types is asked. -/
lemma equalsBy_second : a.equalsBy .second b = true ↔
    Matches (fun x y => y.equalsBy .second x = true) (fun x y => y.equalsBy .first x = true)
      b a := by
  constructor
  · intro h
    cases a with
    | prim p => cases b <;> simp [equalsBy] at h; exact h ▸ .prim p
    | list a => cases b <;> simp [equalsBy] at h; exact .list h
    | map k v => cases b <;> simp [equalsBy] at h; exact .map h.1 h.2
    | nullable a => cases b <;> simp [equalsBy] at h; exact .nullable h
    | union ms => cases b <;> simp [equalsBy, hasEqual_iff] at h; exact .union h.1.symm h.2
    | function f =>
      obtain ⟨⟩ := f
      cases b <;> simp [equalsBy, sameParams_iff] at h
      exact .function h.1.1.flip h.1.2.symm h.2
    | interface i =>
      obtain ⟨⟩ := i
      cases b <;> simp only [equalsBy, List.all_eq_true, hasProperty_iff, Bool.and_eq_true,
        beq_iff_eq, Bool.false_eq_true] at h
      exact .interface h.1.1.symm h.1.2.symm h.2
    | cls c => cases b <;> simp [equalsBy] at h; exact .cls h.symm
    | enum e => cases b <;> simp [equalsBy] at h; exact .enum h.symm
    | future a => cases b <;> simp [equalsBy] at h; exact .future h
    | ref name file => cases b <;> simp [equalsBy] at h; exact h.1 ▸ h.2 ▸ .ref name file
    | param name => cases b <;> simp [equalsBy] at h; exact h ▸ .param name
    | generic base args =>
      cases b <;> simp [equalsBy, sameTypes_iff] at h
      exact .generic h.1 h.2.flip
  · intro h
    cases h with
    | @function g f hparams hvariadic hresult =>
      obtain ⟨⟩ := f
      simp only [equalsBy, sameParams_iff, Bool.and_eq_true, beq_iff_eq]
      exact ⟨⟨hparams.flip, hvariadic.symm⟩, hresult⟩
    | @interface o i hname hlen hprops =>
      obtain ⟨⟩ := i
      simp only [equalsBy, List.all_eq_true, hasProperty_iff, Bool.and_eq_true, beq_iff_eq]
      exact ⟨⟨hname.symm, hlen.symm⟩, hprops⟩
    | generic hbase hargs => simp [equalsBy, sameTypes_iff, hbase, hargs.flip]
    | _ => simp_all [equalsBy, hasEqual_iff]

/-- Types that match do so for all relations that hold of their parts as well. -/
lemma Matches.mono {r s r' s' : Ty → Ty → Prop} (h : Matches r s a b)
    (hr : ∀ x ∈ a.parts, ∀ y ∈ b.parts, r x y → r' x y)
    (hs : ∀ x ∈ a.parts, ∀ y ∈ b.parts, s x y → s' x y) : Matches r' s' a b := by
  cases h with
  | prim p => exact .prim p
  | list h => exact .list (hr _ (by simp [parts]) _ (by simp [parts]) h)
  | map hk hv =>
    exact .map (hr _ (by simp [parts]) _ (by simp [parts]) hk)
      (hr _ (by simp [parts]) _ (by simp [parts]) hv)
  | nullable h => exact .nullable (hr _ (by simp [parts]) _ (by simp [parts]) h)
  | union hlen hcover =>
    refine .union hlen fun m hm => ?_
    obtain ⟨o, ho, hmo⟩ := hcover m hm
    exact ⟨o, ho, hs m hm o ho hmo⟩
  | function hparams hvariadic hresult =>
    refine .function ?_ hvariadic (hr _ result_mem_parts _ result_mem_parts hresult)
    exact forall₂_step hparams fun p hp q hq => hr _ (param_mem_parts hp) _ (param_mem_parts hq)
  | interface hname hlen hprops =>
    refine .interface hname hlen fun p hp => ?_
    obtain ⟨q, hq, hopt, hpq⟩ := hprops p hp
    have hq' := property_mem_parts (Interface.mem_of_property? hq)
    exact ⟨q, hq, hopt, hr _ (property_mem_parts hp) _ hq' hpq⟩
  | cls h => exact .cls h
  | enum h => exact .enum h
  | future h => exact .future (hr _ (by simp [parts]) _ (by simp [parts]) h)
  | ref name file => exact .ref name file
  | param name => exact .param name
  | generic hbase hargs =>
    refine .generic (hr _ List.mem_cons_self _ List.mem_cons_self hbase) ?_
    exact forall₂_step hargs fun x hx y hy =>
      hr x (List.mem_cons_of_mem _ hx) y (List.mem_cons_of_mem _ hy)

lemma Matches.congr {r s r' s' : Ty → Ty → Prop}
    (hr : ∀ x ∈ a.parts, ∀ y ∈ b.parts, (r x y ↔ r' x y))
    (hs : ∀ x ∈ a.parts, ∀ y ∈ b.parts, (s x y ↔ s' x y)) :
    Matches r s a b ↔ Matches r' s' a b :=
  ⟨fun h => h.mono (fun x hx y hy => (hr x hx y hy).1) fun x hx y hy => (hs x hx y hy).1,
    fun h => h.mono (fun x hx y hy => (hr x hx y hy).2) fun x hx y hy => (hs x hx y hy).2⟩

/-- It does not matter which type is given first, as long as the same one is asked. -/
lemma equalsBy_turn (b : Ty) :
    a.equalsBy .second b = b.equals a ∧ b.equalsBy .second a = a.equals b := by
  induction a using induction_on_parts generalizing b with
  | step a ih =>
    have hsecond (x : Ty) (hx : x ∈ a.parts) (y : Ty) : x.equalsBy .second y = y.equals x :=
      (ih x hx y).1
    have hfirst (x : Ty) (hx : x ∈ a.parts) (y : Ty) : y.equalsBy .second x = x.equals y :=
      (ih x hx y).2
    constructor
    · rw [Bool.eq_iff_iff, equals, equalsBy_first, equalsBy_second]
      refine Matches.congr (fun x _ y hy => ?_) fun x _ y hy => ?_
      · rw [hsecond y hy, equals]
      · rw [hfirst y hy, equals]
    · rw [Bool.eq_iff_iff, equals, equalsBy_first, equalsBy_second]
      refine Matches.congr (fun x hx y _ => ?_) fun x hx y _ => ?_
      · rw [hfirst x hx, equals]
      · rw [hsecond x hx, equals]

end Sides

/-- Types are equal when they match at the top and their parts are equal. Each member of a union
has one in the other union that equals it. -/
theorem equals_iff {a b : Ty} :
    a.equals b = true ↔
      Matches (fun x y => x.equals y = true) (fun x y => y.equals x = true) a b := by
  rw [equals, equalsBy_first]
  simp only [(equalsBy_turn _).1]
  rfl

alias ⟨matches_of_equals, _⟩ := equals_iff

lemma equals_function {f g : Signature} :
    (function f).equals (function g) = true ↔
      List.Forall₂ (fun p q => p.type.equals q.type = true) f.params g.params ∧
        f.isVariadic = g.isVariadic ∧ f.result.equals g.result = true := by
  rw [equals_iff]
  constructor
  · intro h
    cases h with
    | function hparams hvariadic hresult => exact ⟨hparams, hvariadic, hresult⟩
  · exact fun ⟨hparams, hvariadic, hresult⟩ => .function hparams hvariadic hresult

lemma equals_interface {s o : Interface} :
    (interface s).equals (interface o) = true ↔
      s.name = o.name ∧ s.properties.length = o.properties.length ∧
        ∀ p ∈ s.properties, ∃ q, o.property? p.name = some q ∧ p.isOptional = q.isOptional ∧
          p.type.equals q.type = true := by
  rw [equals_iff]
  constructor
  · intro h
    cases h with
    | interface hname hlen hprops => exact ⟨hname, hlen, hprops⟩
  · exact fun ⟨hname, hlen, hprops⟩ => .interface hname hlen hprops

lemma kind_eq_of_equals {a b : Ty} (h : a.equals b = true) : a.kind = b.kind := by
  cases matches_of_equals h <;> rfl

/-! ## The three laws -/

/-- A shape names each of its properties once. -/
def NamesOnce : Ty → Prop
  | interface shape => (shape.properties.map Property.name).Nodup
  | _ => True

lemma IsProper.namesOnce {t : Ty} (h : t.IsProper) : t.NamesOnce := by
  cases t with
  | interface shape => exact h
  | _ => trivial

section Layer

variable {r s : Ty → Ty → Prop} {a b c : Ty}

lemma Matches.refl (ha : a.NamesOnce) (hr : ∀ x ∈ a.parts, r x x) (hs : ∀ x ∈ a.parts, s x x) :
    Matches r s a a := by
  cases a with
  | prim p => exact .prim p
  | list x => exact .list (hr x (by simp [parts]))
  | map k v => exact .map (hr k (by simp [parts])) (hr v (by simp [parts]))
  | nullable x => exact .nullable (hr x (by simp [parts]))
  | union ms => exact .union rfl fun m hm => ⟨m, hm, hs m hm⟩
  | function sig =>
    have hparams : List.Forall₂ (fun p q => r p.type q.type) sig.params sig.params :=
      List.forall₂_same.2 fun p hp => hr p.type (param_mem_parts hp)
    exact .function hparams rfl (hr _ result_mem_parts)
  | interface i =>
    refine .interface rfl rfl fun p hp => ⟨p, i.property?_of_mem ha hp, rfl, ?_⟩
    exact hr p.type (property_mem_parts hp)
  | cls c => exact .cls rfl
  | enum e => exact .enum rfl
  | future x => exact .future (hr x (by simp [parts]))
  | ref name file => exact .ref name file
  | param name => exact .param name
  | generic base args =>
    have hargs : List.Forall₂ r args args :=
      List.forall₂_same.2 fun x hx => hr x (List.mem_cons_of_mem _ hx)
    exact .generic (hr base List.mem_cons_self) hargs

lemma Matches.trans (hab : Matches r s a b) (hbc : Matches r s b c)
    (hr : ∀ x ∈ a.parts, ∀ y, ∀ z ∈ c.parts, r x y → r y z → r x z)
    (hs : ∀ x ∈ a.parts, ∀ y, ∀ z ∈ c.parts, s x y → s y z → s x z) : Matches r s a c := by
  cases hab with
  | prim p => exact hbc
  | list h =>
    cases hbc with
    | list h' => exact .list (hr _ (by simp [parts]) _ _ (by simp [parts]) h h')
  | map hk hv =>
    cases hbc with
    | map hk' hv' =>
      exact .map (hr _ (by simp [parts]) _ _ (by simp [parts]) hk hk')
        (hr _ (by simp [parts]) _ _ (by simp [parts]) hv hv')
  | nullable h =>
    cases hbc with
    | nullable h' => exact .nullable (hr _ (by simp [parts]) _ _ (by simp [parts]) h h')
  | union hlen hcover =>
    cases hbc with
    | union hlen' hcover' =>
      refine .union (hlen.trans hlen') fun m hm => ?_
      obtain ⟨o, ho, hmo⟩ := hcover m hm
      obtain ⟨q, hq, hoq⟩ := hcover' o ho
      exact ⟨q, hq, hs m hm o q hq hmo hoq⟩
  | function hparams hvariadic hresult =>
    cases hbc with
    | function hparams' hvariadic' hresult' =>
      have hresult := hr _ result_mem_parts _ _ result_mem_parts hresult hresult'
      refine .function ?_ (hvariadic.trans hvariadic') hresult
      exact forall₂_chain hparams hparams' fun p hp q w hw =>
        hr _ (param_mem_parts hp) _ _ (param_mem_parts hw)
  | interface hname hlen hprops =>
    cases hbc with
    | interface hname' hlen' hprops' =>
      refine .interface (hname.trans hname') (hlen.trans hlen') fun p hp => ?_
      obtain ⟨q, hq, hopt, hpq⟩ := hprops p hp
      obtain ⟨w, hw, hopt', hqw⟩ := hprops' q (Interface.mem_of_property? hq)
      rw [Interface.name_of_property? hq] at hw
      have hw' := property_mem_parts (Interface.mem_of_property? hw)
      exact ⟨w, hw, hopt.trans hopt', hr _ (property_mem_parts hp) _ _ hw' hpq hqw⟩
  | cls h =>
    cases hbc with
    | cls h' => exact .cls (h.trans h')
  | enum h =>
    cases hbc with
    | enum h' => exact .enum (h.trans h')
  | future h =>
    cases hbc with
    | future h' => exact .future (hr _ (by simp [parts]) _ _ (by simp [parts]) h h')
  | ref name file => exact hbc
  | param name => exact hbc
  | generic hbase hargs =>
    cases hbc with
    | generic hbase' hargs' =>
      refine .generic (hr _ List.mem_cons_self _ _ List.mem_cons_self hbase hbase') ?_
      exact forall₂_chain hargs hargs' fun x hx y z hz =>
        hr x (List.mem_cons_of_mem _ hx) y z (List.mem_cons_of_mem _ hz)

end Layer

/-- A type is equal to itself, whatever its unions look like. -/
lemma equals_self {t : Ty} (h : t.Everywhere NamesOnce) : t.equals t = true := by
  induction h with
  | intro hrule _ ih => exact equals_iff.2 (Matches.refl hrule ih ih)

lemma equals_refl {t : Ty} (h : t.Proper) : t.equals t = true :=
  equals_self (h.mono fun _ => IsProper.namesOnce)

/-- The members of two unions are compared the other way round, so that both ways go together. -/
lemma equals_trans_both (a : Ty) : ∀ b c : Ty,
    (a.equals b = true → b.equals c = true → a.equals c = true) ∧
      (c.equals b = true → b.equals a = true → c.equals a = true) := by
  induction a using induction_on_parts with
  | step a ih =>
    intro b c
    constructor
    · intro hab hbc
      refine equals_iff.2 ((equals_iff.1 hab).trans (equals_iff.1 hbc) ?_ ?_)
      · exact fun x hx y z _ => (ih x hx y z).1
      · exact fun x hx y z _ hyx hzy => (ih x hx y z).2 hzy hyx
    · intro hcb hba
      refine equals_iff.2 ((equals_iff.1 hcb).trans (equals_iff.1 hba) ?_ ?_)
      · exact fun x _ y z hz => (ih z hz y x).2
      · exact fun x _ y z hz hyx hzy => (ih z hz y x).1 hzy hyx

lemma equals_trans {a b c : Ty} (hab : a.equals b = true) (hbc : b.equals c = true) :
    a.equals c = true := (equals_trans_both a b c).1 hab hbc

section Members

variable {ms os : List Ty}

/-- Two types equal to the same one would be equal to each other. -/
lemma pairwise_share (hdistinct : ms.Pairwise fun m n => m.equals n = false)
    (hsymm : ∀ m ∈ ms, ∀ o ∈ os, o.equals m = true → m.equals o = true) :
    ms.Pairwise fun m n => ∀ o ∈ os, o.equals m = true → ¬ o.equals n = true := by
  refine hdistinct.imp_of_mem fun {m n} hm _ hne o ho hom hon => ?_
  have hmn := equals_trans (hsymm m hm o ho hom) hon
  simp [hne] at hmn

/-- The members of a proper union exhaust a union they are matched with. -/
lemma exists_equal_member (hlen : ms.length = os.length)
    (hcover : ∀ m ∈ ms, ∃ o ∈ os, o.equals m = true)
    (hdistinct : ms.Pairwise fun m n => m.equals n = false)
    (hsymm : ∀ m ∈ ms, ∀ o ∈ os, o.equals m = true → m.equals o = true) :
    ∀ o ∈ os, ∃ m ∈ ms, m.equals o = true := by
  intro o ho
  obtain ⟨m, hm, hom⟩ := exists_partner hlen hcover (pairwise_share hdistinct hsymm) o ho
  exact ⟨m, hm, hsymm m hm o ho hom⟩

end Members

/-- The properties of a shape exhaust a shape they are matched with. -/
lemma exists_equal_property {s o : Interface}
    (hlen : s.properties.length = o.properties.length)
    (hprops : ∀ p ∈ s.properties, ∃ q, o.property? p.name = some q ∧
      p.isOptional = q.isOptional ∧ p.type.equals q.type = true)
    (hnames : (s.properties.map Property.name).Nodup)
    (hsymm : ∀ p ∈ s.properties, ∀ q ∈ o.properties, p.type.equals q.type = true →
      q.type.equals p.type = true) :
    ∀ q ∈ o.properties, ∃ p, s.property? q.name = some p ∧ q.isOptional = p.isOptional ∧
      q.type.equals p.type = true := by
  have hpartner : ∀ p ∈ s.properties, ∃ q ∈ o.properties, o.property? p.name = some q := by
    intro p hp
    obtain ⟨q, hq, _⟩ := hprops p hp
    exact ⟨q, Interface.mem_of_property? hq, hq⟩
  have hshare : s.properties.Pairwise fun p p' => ∀ q ∈ o.properties,
      o.property? p.name = some q → ¬ o.property? p'.name = some q := by
    refine (List.pairwise_map.1 hnames).imp fun {p p'} hne q _ hq hq' => hne ?_
    rw [← Interface.name_of_property? hq, Interface.name_of_property? hq']
  intro q hq
  obtain ⟨p, hp, hpq⟩ := exists_partner hlen hpartner hshare q hq
  obtain ⟨q', hq', hopt, htype⟩ := hprops p hp
  obtain rfl : q = q' := Option.some.inj (hpq.symm.trans hq')
  refine ⟨p, ?_, hopt.symm, hsymm p hp q hq htype⟩
  rw [Interface.name_of_property? hpq]
  exact s.property?_of_mem hnames hp

lemma equals_turn_of_parts {a b : Ty} (ha : a.IsProper) (hab : a.equals b = true)
    (hparts : ∀ x ∈ a.parts, ∀ y ∈ b.parts, (x.equals y = true ↔ y.equals x = true)) :
    b.equals a = true := by
  refine equals_iff.2 ?_
  cases equals_iff.1 hab with
  | prim p => exact .prim p
  | list h => exact .list ((hparts _ (by simp [parts]) _ (by simp [parts])).1 h)
  | map hk hv =>
    exact .map ((hparts _ (by simp [parts]) _ (by simp [parts])).1 hk)
      ((hparts _ (by simp [parts]) _ (by simp [parts])).1 hv)
  | nullable h => exact .nullable ((hparts _ (by simp [parts]) _ (by simp [parts])).1 h)
  | union hlen hcover =>
    have hsymm := fun m hm o ho => (hparts m hm o ho).2
    exact .union hlen.symm (exists_equal_member hlen hcover ha.2.2 hsymm)
  | function hparams hvariadic hresult =>
    have hresult := (hparts _ result_mem_parts _ result_mem_parts).1 hresult
    refine .function ?_ hvariadic.symm hresult
    exact forall₂_turn hparams fun p hp q hq =>
      (hparts _ (param_mem_parts hp) _ (param_mem_parts hq)).1
  | interface hname hlen hprops =>
    refine .interface hname.symm hlen.symm (exists_equal_property hlen hprops ha ?_)
    exact fun p hp q hq => (hparts _ (property_mem_parts hp) _ (property_mem_parts hq)).1
  | cls h => exact .cls h.symm
  | enum h => exact .enum h.symm
  | future h => exact .future ((hparts _ (by simp [parts]) _ (by simp [parts])).1 h)
  | ref name file => exact .ref name file
  | param name => exact .param name
  | generic hbase hargs =>
    refine .generic ((hparts _ List.mem_cons_self _ List.mem_cons_self).1 hbase) ?_
    exact forall₂_turn hargs fun x hx y hy =>
      (hparts x (List.mem_cons_of_mem _ hx) y (List.mem_cons_of_mem _ hy)).1

lemma equals_comm {a b : Ty} (ha : a.Proper) (hb : b.Proper) :
    a.equals b = true ↔ b.equals a = true := by
  induction ha generalizing b with
  | @intro a hrule _ ih =>
    have hparts : ∀ x ∈ a.parts, ∀ y ∈ b.parts, (x.equals y = true ↔ y.equals x = true) :=
      fun x hx y hy => ih x hx (hb.part hy)
    have hparts' : ∀ y ∈ b.parts, ∀ x ∈ a.parts, (y.equals x = true ↔ x.equals y = true) :=
      fun y hy x hx => (hparts x hx y hy).symm
    exact ⟨fun h => equals_turn_of_parts hrule h hparts,
      fun h => equals_turn_of_parts hb.here h hparts'⟩

lemma equals_symm {a b : Ty} (ha : a.Proper) (hb : b.Proper) (h : a.equals b = true) :
    b.equals a = true := (equals_comm ha hb).1 h

/-- Each type of the first list is equal to one in the second. -/
def Covered (ts us : List Ty) : Prop := ∀ t ∈ ts, ∃ u ∈ us, t.equals u = true

/-- Between proper types it does not matter which member is asked. -/
lemma equals_union_iff {ms os : List Ty} (hms : ∀ m ∈ ms, m.Proper) (hos : ∀ o ∈ os, o.Proper) :
    (union ms).equals (union os) = true ↔ ms.length = os.length ∧ Covered ms os := by
  constructor
  · intro h
    cases equals_iff.1 h with
    | union hlen hcover =>
      refine ⟨hlen, fun m hm => ?_⟩
      obtain ⟨o, ho, hom⟩ := hcover m hm
      exact ⟨o, ho, equals_symm (hos o ho) (hms m hm) hom⟩
  · rintro ⟨hlen, hcover⟩
    refine equals_iff.2 (.union hlen fun m hm => ?_)
    obtain ⟨o, ho, hmo⟩ := hcover m hm
    exact ⟨o, ho, equals_symm (hms m hm) (hos o ho) hmo⟩

/-- Among types whose unions are flat and without repetition, equality is reflexive,
symmetric and transitive. -/
theorem equals_equivalence :
    Equivalence fun a b : {t : Ty // t.Proper} => a.val.equals b.val = true where
  refl t := equals_refl t.property
  symm h := equals_symm (Subtype.property _) (Subtype.property _) h
  trans := equals_trans

/-- With a repeated member, a union is equal to one that is not equal to it. -/
example :
    (union [int, int]).equals (union [int, str]) = true ∧
      (union [int, str]).equals (union [int, int]) = false := by decide

end Ty

end TypedScript
