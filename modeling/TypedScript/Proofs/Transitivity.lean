import Mathlib.Tactic.Common
import TypedScript.Proofs.Assignability

/-!
# Assignability is transitive without classes

Among types that hold no class, no optional property and no nullable around something that
already takes null, what fits a type fits wherever that type fits.

The argument goes by the value and then by the type in the middle. A union value and a
union in the middle are taken apart member by member; null and nullables need to know that
taking null is passed on from a type to whatever it fits; any and unknown in the middle
fit nothing but targets that take every value. What remains are three single types, where
each step is a widening, a list, a shape or an equality, and steps of one sort compose.
-/
namespace TypedScript

namespace Prim

/-- What one primitive may widen into, read off the ranks. -/
lemma canWiden_cases {p q : Prim} (h : p.canWiden q = true) (hne : p ≠ q) :
    (∃ r s, p.signedRank = some r ∧ q.signedRank = some s ∧ r ≤ s) ∨
      (∃ r s, p.unsignedRank = some r ∧ q.unsignedRank = some s ∧ r ≤ s) ∨
      ∃ r s, p.unsignedRank = some r ∧ q.signedRank = some s ∧ r + 1 ≤ s := by
  unfold canWiden at h
  grind

lemma signedRank_of_unsignedRank {p : Prim} {r : Nat} (h : p.unsignedRank = some r) :
    p.signedRank = none := by
  cases p <;> simp_all [unsignedRank, signedRank]

lemma not_canWiden_null (p : Prim) : p.canWiden .null = false := by
  cases p <;> decide

lemma not_canWiden_of_isAbsorbing {p : Prim} (hp : p.isAbsorbing = true) (q : Prim) :
    p.canWiden q = false := by
  cases p <;> simp [isAbsorbing] at hp <;>
    simp [canWiden, isNumeric, signedRank, unsignedRank]

/-- Widening, or staying the same, is transitive. -/
lemma canWiden_trans {p q r : Prim} (hpq : p = q ∨ p.canWiden q = true)
    (hqr : q = r ∨ q.canWiden r = true) : p = r ∨ p.canWiden r = true := by
  obtain rfl | hpq := hpq
  · exact hqr
  obtain rfl | hqr := hqr
  · exact .inr hpq
  by_cases hpq' : p = q
  · exact .inr (hpq' ▸ hqr)
  by_cases hqr' : q = r
  · exact .inr (hqr' ▸ hpq)
  have hsigned := @signedRank_of_unsignedRank
  have hfirst := canWiden_cases hpq hpq'
  have hsecond := canWiden_cases hqr hqr'
  unfold canWiden
  grind

end Prim

namespace Ty

/-- The rule for the fragment: no class, no optional property, and no nullable around a
type that takes null already. -/
def IsStrict : Ty → Prop
  | cls _ => False
  | interface shape => ∀ p ∈ shape.properties, p.isOptional = false
  | nullable t => t.allowsNull = false
  | _ => True

instance : DecidablePred IsStrict
  | cls _ => inferInstanceAs (Decidable False)
  | interface shape => inferInstanceAs (Decidable (∀ p ∈ shape.properties, _))
  | nullable _ => inferInstanceAs (Decidable (_ = false))
  | prim _ | list _ | map _ _ | union _ | function _ | enum _ | future _ | ref _ _ | param _
  | generic _ _ => inferInstanceAs (Decidable True)

/-- A canonical type of the fragment. -/
structure Elementary (t : Ty) : Prop where
  canonical : t.Canonical
  strict : t.Everywhere IsStrict

lemma Elementary.proper {t : Ty} (h : t.Elementary) : t.Proper := h.canonical.proper

lemma Elementary.part {t p : Ty} (h : t.Elementary) (hp : p ∈ t.parts) : p.Elementary :=
  ⟨h.canonical.part hp, h.strict.part hp⟩

lemma Elementary.allowsNull_inner {t : Ty} (h : (nullable t).Elementary) :
    t.allowsNull = false := h.strict.here

lemma Elementary.inner {t : Ty} (h : (nullable t).Elementary) : t.Elementary :=
  h.part List.mem_cons_self

/-! ## Null and absorbing types on the way -/

lemma isPlain_of_isAbsorbing {t : Ty} (h : t.isAbsorbing = true) : t.IsPlain := by
  refine ⟨isSingle_of_isAbsorbing h, ?_⟩
  rintro rfl
  simp [isAbsorbing, Prim.isAbsorbing] at h

lemma Direct.isAbsorbing {v t : Ty} (h : Direct v t) (hv : v.isAbsorbing = true) :
    t.isAbsorbing = true := by
  cases h with
  | widen hpq =>
    obtain rfl | hwiden := hpq
    · exact hv
    · rw [Prim.not_canWiden_of_isAbsorbing hv] at hwiden
      exact absurd hwiden Bool.false_ne_true
  | same _ heq =>
    cases matches_of_equals heq with
    | prim p => exact hv
    | _ => simp [Ty.isAbsorbing] at hv
  | _ => simp [Ty.isAbsorbing] at hv

/-- Where any or unknown fits, everything does. -/
lemma assignableTo_of_absorbing {a t v : Ty} (ha : a.isAbsorbing = true) (ht : t.Proper)
    (hv : v.Proper) (h : a.assignableTo t = true) : v.assignableTo t = true := by
  induction t using induction_on_parts with
  | step t ih =>
    have hplain := isPlain_of_isAbsorbing ha
    cases t.place with
    | nullable u =>
      have hu := hplain.assignableTo_nullable_iff.1 h
      have hproper := ht.part List.mem_cons_self
      exact hv.embeds.nullable hproper (ih u List.mem_cons_self hproper hu)
    | union ms =>
      obtain ⟨m, hm, hfits⟩ := hplain.assignableTo_union_iff.1 h
      exact hv.embeds.member (ht.part hm) hm (ih m hm (ht.part hm) hfits)
    | single hsingle =>
      obtain habs | hdirect := (hplain.assignableTo_single_iff hsingle).1 h
      · exact assignableTo_of_isAbsorbing habs
      · exact assignableTo_of_isAbsorbing (hdirect.isAbsorbing ha)

lemma isAbsorbing_of_allowsNull {t : Ty} (ht : t.IsPlain) (h : t.allowsNull = true) :
    t.isAbsorbing = true := by
  cases t with
  | prim p =>
    have hp : p ≠ .null := fun e => ht.2 (e ▸ rfl)
    simpa [allowsNull, isAbsorbing, hp] using h
  | nullable a => exact ht.1.elim
  | union ms => exact ht.1.elim
  | _ => simp [allowsNull] at h

/-- A type that takes null only fits types that take null. -/
lemma allowsNull_of_assignableTo {b c : Ty} (hb : b.allowsNull = true) (hc : c.Proper)
    (h : b.assignableTo c = true) : c.allowsNull = true := by
  induction b using induction_on_parts with
  | step b ih =>
    cases b.role with
    | null => exact null_assignableTo_iff.1 h
    | nullable a => exact allowsNull_of_nullable_assignableTo h
    | union ms =>
      simp only [allowsNull] at hb
      obtain ⟨m, hm, hnull⟩ := anyAllowsNull_iff.1 hb
      exact ih m hm hnull (union_assignableTo_iff.1 h m hm)
    | plain hplain =>
      have habs := isAbsorbing_of_allowsNull hplain hb
      exact null_assignableTo_iff.1 (assignableTo_of_absorbing habs hc (proper_prim _) h)

lemma allowsNull_member {ms : List Ty} (h : (union ms).allowsNull = false) :
    ∀ m ∈ ms, m.allowsNull = false := by
  intro m hm
  by_contra hne
  have := allowsNull_union_of_mem hm (by simpa using hne)
  simp [h] at this

/-- A nullable target takes nothing but null beyond what its inside takes. -/
lemma assignableTo_of_assignableTo_nullable {x z : Ty} (hx : x.allowsNull = false)
    (h : x.assignableTo (nullable z) = true) : x.assignableTo z = true := by
  induction x using induction_on_parts with
  | step x ih =>
    cases x.role with
    | null => simp [allowsNull] at hx
    | nullable a => simp [allowsNull] at hx
    | union ms =>
      refine union_assignableTo_iff.2 fun m hm => ?_
      exact ih m hm (allowsNull_member hx m hm) (union_assignableTo_iff.1 h m hm)
    | plain hplain => exact hplain.assignableTo_nullable_iff.1 h

/-- Nothing plain fits null. -/
lemma IsPlain.not_assignableTo_null {v : Ty} (hv : v.IsPlain) : ¬ v.assignableTo null = true := by
  intro h
  obtain habs | hdirect := (hv.assignableTo_single_iff (t := null) trivial).1 h
  · simp [isAbsorbing, Prim.isAbsorbing] at habs
  · cases hdirect with
    | widen hpq =>
      obtain rfl | hwiden := hpq
      · exact hv.2 rfl
      · simp [Prim.not_canWiden_null] at hwiden
    | same hrigid heq =>
      cases matches_of_equals heq with
      | prim p => exact hrigid

/-- A canonical type that does not take null does not fit null: its unions have members. -/
lemma Canonical.not_assignableTo_null {x : Ty} (hcanonical : x.Canonical)
    (hx : x.allowsNull = false) : ¬ x.assignableTo null = true := by
  induction x using induction_on_parts with
  | step x ih =>
    intro h
    cases x.role with
    | null => simp [allowsNull] at hx
    | nullable a => simp [allowsNull] at hx
    | union ms =>
      have hlen : 2 ≤ ms.length := hcanonical.here.1.1
      obtain ⟨m, hm⟩ := List.exists_mem_of_length_pos (Nat.lt_of_lt_of_le Nat.two_pos hlen)
      exact ih m hm (hcanonical.part hm) (allowsNull_member hx m hm)
        (union_assignableTo_iff.1 h m hm)
    | plain hplain => exact hplain.not_assignableTo_null h

/-- A nullable around a type that does not take null fits where that type and null do. -/
lemma Canonical.nullable_assignableTo_iff {x c : Ty} (hcanonical : x.Canonical)
    (hc : c.Proper) (hx : x.allowsNull = false) :
    (nullable x).assignableTo c = true ↔ x.assignableTo c = true ∧ c.allowsNull = true := by
  refine ⟨fun h => ⟨hcanonical.proper.embeds.inside hc h,
    allowsNull_of_nullable_assignableTo h⟩, ?_⟩
  rintro ⟨hfits, hnull⟩
  cases c.role with
  | null => exact absurd hfits (hcanonical.not_assignableTo_null hx)
  | nullable z =>
    have hz := assignableTo_of_assignableTo_nullable hx hfits
    exact nullable_assignableTo_nullable_iff.2 (.inr hz)
  | union ms => exact nullable_assignableTo_union_iff.2 ⟨hnull, hfits⟩
  | plain hplain => exact assignableTo_of_isAbsorbing (isAbsorbing_of_allowsNull hplain hnull)

/-! ## Shapes -/

lemma find?_propertyOffers {name : String} {ps : List Property} :
    Offer.find? (propertyOffers ps) name =
      (ByName.find? Property.name name ps).map fun p =>
        ⟨p.name, p.isOptional, fun t => p.type.assignableTo t⟩ := by
  induction ps with
  | nil => rfl
  | cons p ps ih =>
    obtain ⟨pname, type, isOptional⟩ := p
    by_cases h : pname = name <;>
      simp_all [propertyOffers, Offer.find?, ByName.find?]

/-- Between shapes with all properties required, every wanted property is there and fits. -/
lemma satisfy_propertyOffers_iff {s o : Interface}
    (hs : ∀ p ∈ s.properties, p.isOptional = false)
    (ho : ∀ w ∈ o.properties, w.isOptional = false) :
    Offer.satisfy (propertyOffers s.properties) o = true ↔
      ∀ w ∈ o.properties, ∃ p, s.property? w.name = some p ∧ p.type.assignableTo w.type = true := by
  simp only [Offer.satisfy, List.all_eq_true, find?_propertyOffers, Interface.property?]
  refine forall₂_congr fun w hw => ?_
  cases h : ByName.find? Property.name w.name s.properties with
  | none => simp [ho w hw]
  | some p => simp [hs p (Interface.mem_of_property? h)]

/-- The properties that a shape wants and another of the fragment has. -/
lemma Elementary.shape_fits {s o : Interface} (hs : (interface s).Elementary)
    (ho : (interface o).Elementary)
    (h : (interface s).equals (interface o) = true ∨
      Offer.satisfy (propertyOffers s.properties) o = true) :
    ∀ w ∈ o.properties, ∃ p, s.property? w.name = some p ∧ p.type.assignableTo w.type = true := by
  obtain heq | hsat := h
  · -- equality is read from the value's side; turned around, it gives each wanted property
    obtain ⟨_, hlen, hprops⟩ := equals_interface.1 heq
    have hproper : ∀ p ∈ s.properties, p.type.Proper :=
      fun p hp => hs.proper.part (property_mem_parts hp)
    have hproper' : ∀ w ∈ o.properties, w.type.Proper :=
      fun w hw => ho.proper.part (property_mem_parts hw)
    have hsymm := fun p hp w hw => equals_symm (hproper p hp) (hproper' w hw)
    intro w hw
    obtain ⟨p, hp, _, hwp⟩ := exists_equal_property hlen hprops hs.proper.here hsymm w hw
    have hp' := hproper p (Interface.mem_of_property? hp)
    exact ⟨p, hp, hp'.embeds.equal (hproper' w hw) (equals_symm (hproper' w hw) hp' hwp)⟩
  · exact (satisfy_propertyOffers_iff hs.strict.here ho.strict.here).1 hsat

/-! ## Three types at once -/

/-- Transitivity for the triples of fragment types below a given size. -/
def TransBelow (n : Nat) : Prop :=
  ∀ a b c : Ty, sizeOf a + sizeOf b + sizeOf c < n →
    a.Elementary → b.Elementary → c.Elementary →
    a.assignableTo b = true → b.assignableTo c = true → a.assignableTo c = true

section Triples

variable {a b c : Ty}

lemma TransBelow.parts (ih : TransBelow (sizeOf a + sizeOf b + sizeOf c)) (ha : a.Elementary)
    (hb : b.Elementary) (hc : c.Elementary) {x y z : Ty} (hx : x ∈ a.parts) (hy : y ∈ b.parts)
    (hz : z ∈ c.parts) (hxy : x.assignableTo y = true) (hyz : y.assignableTo z = true) :
    x.assignableTo z = true := by
  have hxa := sizeOf_part_lt hx
  have hyb := sizeOf_part_lt hy
  have hzc := sizeOf_part_lt hz
  exact ih x y z (by omega) (ha.part hx) (hb.part hy) (hc.part hz) hxy hyz

/-- Two direct steps compose. -/
lemma Direct.trans (hab : Direct a b) (hbc : Direct b c) (ha : a.Elementary) (hb : b.Elementary)
    (hc : c.Elementary) (ih : TransBelow (sizeOf a + sizeOf b + sizeOf c)) : Direct a c := by
  cases hab with
  | widen hpq =>
    cases hbc with
    | widen hqr => exact .widen (Prim.canWiden_trans hpq hqr)
    | same hrigid _ => exact hrigid.elim
  | @list x y hxy =>
    cases hbc with
    | @list _ z hyz =>
      have hself : ∀ t : Ty, t ∈ (Ty.list t).parts := fun t => List.mem_cons_self
      have hx : x.Proper := ha.proper.part (hself x)
      have hy : y.Proper := hb.proper.part (hself y)
      have hz : z.Proper := hc.proper.part (hself z)
      have hxy : x.assignableTo y = true := hxy.elim (hx.embeds.equal hy) id
      have hyz : y.assignableTo z = true := hyz.elim (hy.embeds.equal hz) id
      exact .list (.inr (ih.parts ha hb hc (hself x) (hself y) (hself z) hxy hyz))
    | same hrigid _ => exact hrigid.elim
  | extend _ => exact ha.strict.here.elim
  | implement _ => exact ha.strict.here.elim
  | shape hso =>
    cases hbc with
    | shape how =>
      refine .shape (.inr ((satisfy_propertyOffers_iff ha.strict.here hc.strict.here).2 ?_))
      intro r hr
      obtain ⟨q, hq, hqr⟩ := hb.shape_fits hc how r hr
      have hqmem := Interface.mem_of_property? hq
      obtain ⟨p, hp, hpq⟩ := ha.shape_fits hb hso q hqmem
      rw [Interface.name_of_property? hq] at hp
      have hpmem := Interface.mem_of_property? hp
      exact ⟨p, hp, ih.parts ha hb hc (property_mem_parts hpmem) (property_mem_parts hqmem)
        (property_mem_parts hr) hpq hqr⟩
    | same hrigid _ => exact hrigid.elim
  | same hrigid heq =>
    cases hbc with
    | same _ heq' => exact .same hrigid (equals_trans heq heq')
    | _ =>
      cases matches_of_equals heq
      exact hrigid.elim

/-- A plain value through a plain type. -/
lemma trans_of_plain (ha : a.Elementary) (hb : b.Elementary) (hc : c.Elementary)
    (ih : TransBelow (sizeOf a + sizeOf b + sizeOf c)) (haplain : a.IsPlain) (hbplain : b.IsPlain)
    (hab : a.assignableTo b = true) (hbc : b.assignableTo c = true) :
    a.assignableTo c = true := by
  obtain habs | hdirect := (haplain.assignableTo_single_iff hbplain.1).1 hab
  · exact assignableTo_of_absorbing habs hc.proper ha.proper hbc
  cases c.place with
  | nullable z =>
    have hbz := hbplain.assignableTo_nullable_iff.1 hbc
    have hsize := sizeOf_part_lt (t := nullable z) List.mem_cons_self
    exact ha.proper.embeds.nullable hc.inner.proper (ih a b z (by omega) ha hb hc.inner hab hbz)
  | union ms =>
    obtain ⟨m, hm, hbm⟩ := hbplain.assignableTo_union_iff.1 hbc
    have hsize := sizeOf_part_lt (t := union ms) hm
    have ham := ih a b m (by omega) ha hb (hc.part hm) hab hbm
    exact ha.proper.embeds.member (hc.part hm).proper hm ham
  | single hsingle =>
    obtain habs | hdirect' := (hbplain.assignableTo_single_iff hsingle).1 hbc
    · exact assignableTo_of_isAbsorbing habs
    · have hcomposed := hdirect.trans hdirect' ha hb hc ih
      exact (haplain.assignableTo_single_iff hsingle).2 (.inr hcomposed)

/-- A plain value through anything. -/
lemma trans_of_plain_value (ha : a.Elementary) (hb : b.Elementary) (hc : c.Elementary)
    (ih : TransBelow (sizeOf a + sizeOf b + sizeOf c)) (haplain : a.IsPlain)
    (hab : a.assignableTo b = true) (hbc : b.assignableTo c = true) :
    a.assignableTo c = true := by
  cases b.role with
  | null => exact absurd hab haplain.not_assignableTo_null
  | nullable y =>
    have hay := haplain.assignableTo_nullable_iff.1 hab
    have hsize := sizeOf_part_lt (t := nullable y) List.mem_cons_self
    exact ih a y c (by omega) ha hb.inner hc hay (hb.inner.proper.embeds.inside hc.proper hbc)
  | union os =>
    obtain ⟨o, ho, hao⟩ := haplain.assignableTo_union_iff.1 hab
    have hsize := sizeOf_part_lt (t := union os) ho
    exact ih a o c (by omega) ha (hb.part ho) hc hao (union_assignableTo_iff.1 hbc o ho)
  | plain hbplain => exact trans_of_plain ha hb hc ih haplain hbplain hab hbc

/-- A nullable value through anything: its inside goes through, and so does null. -/
lemma trans_of_nullable_value {x : Ty} (ha : (nullable x).Elementary) (hb : b.Elementary)
    (hc : c.Elementary) (ih : TransBelow (sizeOf (nullable x) + sizeOf b + sizeOf c))
    (hab : (nullable x).assignableTo b = true) (hbc : b.assignableTo c = true) :
    (nullable x).assignableTo c = true := by
  have hsize := sizeOf_part_lt (t := nullable x) List.mem_cons_self
  have hinside : x.assignableTo c = true :=
    ih x b c (by omega) ha.inner hb hc (ha.inner.proper.embeds.inside hb.proper hab) hbc
  have hnull := allowsNull_of_assignableTo (allowsNull_of_nullable_assignableTo hab) hc.proper hbc
  exact (ha.inner.canonical.nullable_assignableTo_iff hc.proper ha.allowsNull_inner).2
    ⟨hinside, hnull⟩

lemma trans_step (ha : a.Elementary) (hb : b.Elementary) (hc : c.Elementary)
    (ih : TransBelow (sizeOf a + sizeOf b + sizeOf c)) (hab : a.assignableTo b = true)
    (hbc : b.assignableTo c = true) : a.assignableTo c = true := by
  cases a.role with
  | null =>
    have hnull := allowsNull_of_assignableTo (null_assignableTo_iff.1 hab) hc.proper hbc
    exact null_assignableTo_iff.2 hnull
  | nullable x => exact trans_of_nullable_value ha hb hc ih hab hbc
  | union ms =>
    refine union_assignableTo_iff.2 fun m hm => ?_
    have hsize := sizeOf_part_lt (t := union ms) hm
    exact ih m b c (by omega) (ha.part hm) hb hc (union_assignableTo_iff.1 hab m hm) hbc
  | plain haplain => exact trans_of_plain_value ha hb hc ih haplain hab hbc

end Triples

lemma transBelow (n : Nat) : TransBelow n := by
  induction n with
  | zero => exact fun _ _ _ h => absurd h (Nat.not_lt_zero _)
  | succ n ih =>
    intro a b c hlt ha hb hc
    refine trans_step ha hb hc fun x y z hsize => ih x y z ?_
    omega

/-- What fits a type fits wherever the type fits, as long as all three are canonical and
hold no class, no optional property and no nullable around a type that takes null. -/
theorem assignability_transitive (a b c : Ty) (ha : a.Elementary) (hb : b.Elementary)
    (hc : c.Elementary) (hab : a.assignableTo b = true) (hbc : b.assignableTo c = true) :
    a.assignableTo c = true :=
  transBelow _ a b c (Nat.lt_succ_self _) ha hb hc hab hbc

theorem lists_through_nullable_transitive :
    (union [list (prim .i8), null]).assignableTo (nullable (list (prim .i16))) = true ∧
      (nullable (list (prim .i16))).assignableTo (union [str, nullable (list int)]) = true ∧
      (union [list (prim .i8), null]).assignableTo (union [str, nullable (list int)]) = true := by
  have hfirst : (union [list (prim .i8), null]).assignableTo
      (nullable (list (prim .i16))) = true := by decide
  have hsecond : (nullable (list (prim .i16))).assignableTo
      (union [str, nullable (list int)]) = true := by decide
  refine ⟨hfirst, hsecond, assignability_transitive _ _ _ ?_ ?_ ?_ hfirst hsecond⟩
  all_goals
    constructor <;>
      simp only [Canonical, everywhere_union, everywhere_nullable, everywhere_list,
        everywhere_prim, List.forall_mem_cons, List.not_mem_nil, IsEmpty.forall_iff,
        implies_true] <;>
      decide

end Ty

end TypedScript
