import TypedScript.Proofs.Generics.Inference
import TypedScript.Proofs.Joins

/-!
# Joins of numeric types

The wider of two numeric kinds is the least kind that both widen into, up to kinds of one tier.
A kind that a signed and an unsigned kind widen into is above the first signed tier, and each of
those tiers has a kind in the join order, smallest first: the one that is found there widens into
every other kind that would do.

Two places join a whole list from the left. The common type stops at the first type when that
takes all others, and type arguments are widened one value argument at a time; both come to the
same kind. A kind that is least does not depend on the order of the list except within its tier.
-/
namespace TypedScript

namespace Prim

variable {p q k : Prim} {ps : List Prim}

/-! ## The wider of two kinds -/

lemma isNumeric_of_canWiden_left (h : p.canWiden q = true) : p.isNumeric = true := by
  by_cases heq : p = q
  · subst heq
    exact isNumeric_of_canWiden h
  · obtain ⟨r, s, hr, -⟩ | ⟨r, s, hr, -⟩ | ⟨r, s, hr, -⟩ := canWiden_cases h heq <;>
      simp [isNumeric, hr]

/-- Unsigned kinds stand in one chain. -/
lemma canWiden_total_of_unsignedRank {r s : Nat} (hp : p.unsignedRank = some r)
    (hq : q.unsignedRank = some s) : p.canWiden q = true ∨ q.canWiden p = true := by
  have hwiden {p q : Prim} {r s : Nat} (hp : p.unsignedRank = some r)
      (hq : q.unsignedRank = some s) (hle : r ≤ s) : p.canWiden q = true := by
    simp [canWiden, isNumeric, signedRank_of_unsignedRank hp, hp, hq, hle]
  obtain hle | hle := Nat.le_total r s
  · exact .inl (hwiden hp hq hle)
  · exact .inr (hwiden hq hp hle)

/-- What a signed kind widens into is signed. -/
lemma signedRank_of_canWiden {r : Nat} (hp : p.signedRank = some r) (h : p.canWiden k = true) :
    ∃ n, k.signedRank = some n := by
  by_cases heq : p = k
  · exact ⟨r, heq ▸ hp⟩
  · obtain ⟨_, n, _, hn, _⟩ | ⟨_, _, hunsigned, _⟩ | ⟨_, _, hunsigned, _⟩ := canWiden_cases h heq
    · exact ⟨n, hn⟩
    all_goals simp [signedRank_of_unsignedRank hunsigned] at hp

/-- A signed kind that an unsigned kind widens into is above the first tier. -/
lemma signedRank_pos_of_canWiden {r n : Nat} (hq : q.unsignedRank = some r)
    (h : q.canWiden k = true) (hk : k.signedRank = some n) : 0 < n := by
  have hne : q ≠ k := by
    rintro rfl
    simp [signedRank_of_unsignedRank hq] at hk
  obtain ⟨_, _, hsigned, _⟩ | ⟨_, _, _, hunsigned, _⟩ | ⟨r, s, _, hs, hle⟩ := canWiden_cases h hne
  · simp [signedRank_of_unsignedRank hq] at hsigned
  · simp [signedRank_of_unsignedRank hunsigned] at hk
  · obtain rfl : s = n := Option.some.inj (hs.symm.trans hk)
    omega

/-- Above the first tier, each signed tier has a kind in the join order. -/
lemma exists_mem_joinOrder {n : Nat} (hk : k.signedRank = some n) (hpos : 0 < n) :
    ∃ c ∈ joinOrder, c.signedRank = some n := by
  cases k <;> simp_all [signedRank, joinOrder]

/-- The kinds of the join order widen into all that come later. -/
lemma joinOrder_ascending : joinOrder.Pairwise fun c d => c.canWiden d = true := by decide

/-- What is found first in the join order widens into all else that could be found. -/
lemma canWiden_of_find?_joinOrder {accept : Prim → Bool} {c d : Prim}
    (hc : joinOrder.find? accept = some c) (hd : d ∈ joinOrder) (haccept : accept d = true) :
    c.canWiden d = true := by
  obtain ⟨-, before, after, hsplit, hbefore⟩ := List.find?_eq_some_iff_append.1 hc
  have hascending := joinOrder_ascending
  rw [hsplit] at hd hascending
  obtain hd | hd := List.mem_append.1 hd
  · simpa [haccept] using hbefore d hd
  · obtain rfl | hd := List.mem_cons.1 hd
    · have hnumeric : ∀ c ∈ joinOrder, c.isNumeric = true := by decide
      exact canWiden_self (hnumeric d (by simp [hsplit]))
    · exact (List.pairwise_cons.1 (List.pairwise_append.1 hascending).2.1).1 d hd

/-- The search for the join of a signed and an unsigned kind finds one below every kind that both
widen into. -/
lemma find?_joinOrder_canWiden {r s : Nat} (hp : p.signedRank = some r)
    (hq : q.unsignedRank = some s) (hpk : p.canWiden k = true) (hqk : q.canWiden k = true)
    {accept : Prim → Bool} (haccept : ∀ c, accept c = (p.canWiden c && q.canWiden c)) :
    ((joinOrder.find? accept).getD decimal).canWiden k = true := by
  obtain ⟨n, hn⟩ := signedRank_of_canWiden hp hpk
  obtain ⟨d, hd, hdn⟩ := exists_mem_joinOrder hn (signedRank_pos_of_canWiden hq hqk hn)
  -- The kind of the join order in the tier of `k` would do, so one is found that is no wider.
  have hkd : k.canWiden d = true := canWiden_of_signedRank hn hdn (Nat.le_refl n)
  have hdk : d.canWiden k = true := canWiden_of_signedRank hdn hn (Nat.le_refl n)
  have hwould : accept d = true := by
    simp [haccept, canWiden_chain hpk hkd, canWiden_chain hqk hkd]
  cases hfound : joinOrder.find? accept with
  | none => exact absurd hwould (List.find?_eq_none.1 hfound d hd)
  | some c => exact canWiden_chain (canWiden_of_find?_joinOrder hfound hd hwould) hdk

/-- The wider of two kinds widens into whatever both widen into. -/
lemma wider_canWiden (hpk : p.canWiden k = true) (hqk : q.canWiden k = true) :
    (p.wider q).canWiden k = true := by
  have hp := isNumeric_of_canWiden_left hpk
  have hq := isNumeric_of_canWiden_left hqk
  unfold wider
  split
  case isTrue => exact hpk
  split
  case h_1 => split <;> assumption
  case h_2 hmixed =>
  split
  case isTrue => exact hpk
  split
  case isTrue => exact hqk
  case isFalse hqp hpq =>
  -- Two unsigned kinds would compare, so one kind is signed and the other is not.
  simp only [isNumeric, Bool.or_eq_true, Option.isSome_iff_exists] at hp hq
  obtain ⟨r, hr⟩ | ⟨r, hr⟩ := hp
  · obtain ⟨s, hs⟩ | ⟨s, hs⟩ := hq
    · exact absurd hs (hmixed r s hr)
    · exact find?_joinOrder_canWiden hr hs hpk hqk fun _ => rfl
  · obtain ⟨s, hs⟩ | ⟨s, hs⟩ := hq
    · exact find?_joinOrder_canWiden hs hr hqk hpk fun _ => Bool.and_comm _ _
    · obtain h | h := canWiden_total_of_unsignedRank hr hs
      · exact absurd h hpq
      · exact absurd h hqp

/-- Where the second kind widens into the first, the first is kept. -/
lemma wider_eq_left (h : q.canWiden p = true) : p.wider q = p := by
  unfold wider
  split
  case isTrue => rfl
  case isFalse hne =>
  split
  case h_1 r s hr hs =>
    obtain ⟨r', s', hr', hs', hle⟩ | ⟨_, _, hunsigned, _⟩ | ⟨_, _, hunsigned, _⟩ :=
      canWiden_cases h (Ne.symm hne)
    · obtain rfl : s = r' := Option.some.inj (hs.symm.trans hr')
      obtain rfl : r = s' := Option.some.inj (hr.symm.trans hs')
      rw [if_pos hle]
    all_goals simp [signedRank_of_unsignedRank hunsigned] at hs
  case h_2 => rfl

/-! ## The widest of a list -/

lemma isNumeric_foldl_wider (hp : p.isNumeric = true) (hps : ∀ q ∈ ps, q.isNumeric = true) :
    (ps.foldl wider p).isNumeric = true := by
  induction ps generalizing p with
  | nil => exact hp
  | cons q ps ih =>
    obtain ⟨hq, hps⟩ := List.forall_mem_cons.1 hps
    exact ih (isNumeric_wider hp hq) hps

/-- The widest of some kinds widens into exactly those kinds that all of them widen into. -/
theorem foldl_wider_canWiden_iff (hp : p.isNumeric = true) (hps : ∀ q ∈ ps, q.isNumeric = true) :
    (ps.foldl wider p).canWiden k = true ↔ ∀ q ∈ p :: ps, q.canWiden k = true := by
  induction ps generalizing p with
  | nil => simp
  | cons q ps ih =>
    obtain ⟨hq, hps⟩ := List.forall_mem_cons.1 hps
    obtain ⟨hleft, hright⟩ := canWiden_wider hp hq
    rw [List.foldl_cons, ih (isNumeric_wider hp hq) hps]
    simp only [List.forall_mem_cons, ← and_assoc]
    refine and_congr_left fun _ => ⟨fun h => ?_, fun h => wider_canWiden h.1 h.2⟩
    exact ⟨canWiden_chain hleft h, canWiden_chain hright h⟩

/-- A kind that takes all others is the widest. -/
lemma foldl_wider_eq_left (h : ∀ q ∈ ps, q.canWiden p = true) : ps.foldl wider p = p := by
  induction ps with
  | nil => rfl
  | cons q ps ih =>
    obtain ⟨hq, hps⟩ := List.forall_mem_cons.1 h
    rw [List.foldl_cons, wider_eq_left hq, ih hps]

end Prim

/-! ## Both joins of a list -/

namespace Ty

variable {p : Prim} {ps : List Prim}

lemma exists_prim_of_isNumeric {t : Ty} (h : t.isNumeric = true) :
    ∃ p, t = prim p ∧ p.isNumeric = true := by
  cases t with
  | prim p => exact ⟨p, rfl, h⟩
  | _ => cases h

/-- A list of numeric types is made of primitives. -/
lemma exists_prims_of_isNumeric {ts : List Ty} (h : ∀ t ∈ ts, t.isNumeric = true) :
    ∃ ps : List Prim, ts = ps.map prim ∧ ∀ p ∈ ps, p.isNumeric = true := by
  induction ts with
  | nil => exact ⟨[], rfl, List.forall_mem_nil _⟩
  | cons t ts ih =>
    obtain ⟨ht, hts⟩ := List.forall_mem_cons.1 h
    obtain ⟨p, rfl, hp⟩ := exists_prim_of_isNumeric ht
    obtain ⟨ps, rfl, hps⟩ := ih hts
    exact ⟨p :: ps, rfl, List.forall_mem_cons.2 ⟨hp, hps⟩⟩

lemma joinNumeric?_map_prim (hp : p.isNumeric = true) (hps : ∀ q ∈ ps, q.isNumeric = true) :
    joinNumeric? (prim p) (ps.map prim) = some (ps.foldl Prim.wider p) := by
  induction ps generalizing p with
  | nil => exact joinNumeric?_nil.2 ⟨rfl, hp⟩
  | cons q ps ih =>
    obtain ⟨hq, hps⟩ := List.forall_mem_cons.1 hps
    exact joinNumeric?_cons.2 ⟨p, q, numeric?_eq_some.2 ⟨rfl, hp⟩, numeric?_eq_some.2 ⟨rfl, hq⟩,
      ih (Prim.isNumeric_wider hp hq) hps⟩

lemma canWiden_of_fits {q : Prim} (hp : p.isNumeric = true)
    (h : (prim q).equals (prim p) = true ∨ (prim q).assignableTo (prim p) = true) :
    q.canWiden p = true := by
  have hfits : (prim q).assignableTo (prim p) = true :=
    h.elim ((proper_prim q).embeds.equal (proper_prim p)) id
  obtain habsorbing | hanswer :=
    (single_assignableTo_iff (v := prim q) (t := prim p) trivial trivial).1 hfits
  · cases p <;> simp [isAbsorbing, Prim.isAbsorbing] at habsorbing <;> cases hp
  · unfold answer at hanswer
    split at hanswer
    case isTrue hequal =>
      obtain rfl : q = p := by simpa [equals, equalsBy] using hequal
      exact Prim.canWiden_self hp
    case isFalse => exact Option.some.inj hanswer

/-- The common type of numeric types is the widest of them. -/
theorem common_map_prim (hp : p.isNumeric = true) (hps : ∀ q ∈ ps, q.isNumeric = true)
    (width : Int) : common ((p :: ps).map prim) width = prim (ps.foldl Prim.wider p) := by
  cases ps with
  | nil => rfl
  | cons q ps =>
    have hjoin := joinNumeric?_map_prim hp hps
    simp only [List.map_cons] at hjoin
    simp only [common, List.map_cons, hjoin]
    split
    case isFalse => rfl
    case isTrue hfit =>
      rw [Prim.foldl_wider_eq_left fun q hq => ?_]
      refine canWiden_of_fits hp ?_
      have hq' : prim q ∈ prim _ :: ps.map prim := List.mem_map_of_mem hq
      simpa using List.all_eq_true.1 hfit (prim q) hq'

end Ty

namespace Subst

variable {s : Subst} {name : String} {p : Prim} {ps : List Prim}

/-- A numeric argument widens the numeric type that was found before. -/
lemma get?_infer_prim {q : Prim} (h : s.get? name = some (.prim p)) (hp : p.isNumeric = true)
    (hq : q.isNumeric = true) :
    (s.infer name (.prim q)).get? name = some (.prim (p.wider q)) := by
  simp [infer, h, hp, hq]

lemma get?_foldl_infer_prim (h : s.get? name = some (.prim p)) (hp : p.isNumeric = true)
    (hps : ∀ q ∈ ps, q.isNumeric = true) :
    (ps.foldl (fun s q => s.infer name (.prim q)) s).get? name =
      some (.prim (ps.foldl Prim.wider p)) := by
  induction ps generalizing s p with
  | nil => exact h
  | cons q ps ih =>
    obtain ⟨hq, hps⟩ := List.forall_mem_cons.1 hps
    exact ih (get?_infer_prim h hp hq) (Prim.isNumeric_wider hp hq) hps

end Subst

namespace TypeParam

variable {p : Prim} {ps : List Prim}

/-- A type parameter that stands for each of some numeric arguments gets the widest of them. -/
theorem get?_inferArguments_map_prim (x : TypeParam) (hp : p.isNumeric = true)
    (hps : ∀ q ∈ ps, q.isNumeric = true) :
    (inferArguments [x] (((p :: ps).map Ty.prim).map fun t => (.param x.name, t))).get? x.name =
      some (.prim (ps.foldl Prim.wider p)) := by
  have hfirst : (Subst.infer [] x.name (.prim p)).get? x.name = some (.prim p) :=
    Subst.get?_infer_of_none rfl
  rw [inferArguments_eq_foldl]
  refine get?_foldl_settle_of_some ?_
  rw [← Subst.get?_foldl_infer_prim hfirst hp hps]
  simp [Ty.encounters, List.flatMap_map, List.foldl_flatMap, Subst.learn]

end TypeParam

namespace Ty

variable {ts : List Ty}

/-- The common type of numeric types is the widest of them, and so is the type argument. -/
lemma exists_widest (hne : ts ≠ []) (hts : ∀ t ∈ ts, t.isNumeric = true) (width : Int) :
    ∃ j : Prim, j.isNumeric = true ∧ common ts width = prim j ∧
      (∀ x : TypeParam, (TypeParam.inferArguments [x]
        (ts.map fun t => (param x.name, t))).get? x.name = some (prim j)) ∧
      ∀ k, j.canWiden k = true ↔ ∀ t ∈ ts, t.kind.canWiden (.prim k) = true := by
  obtain ⟨ps, rfl, hps⟩ := exists_prims_of_isNumeric hts
  cases ps with
  | nil => exact absurd rfl hne
  | cons p ps =>
    obtain ⟨hp, hps⟩ := List.forall_mem_cons.1 hps
    refine ⟨ps.foldl Prim.wider p, Prim.isNumeric_foldl_wider hp hps, common_map_prim hp hps width,
      fun x => x.get?_inferArguments_map_prim hp hps, fun k => ?_⟩
    rw [Prim.foldl_wider_canWiden_iff hp hps, List.forall_mem_map]
    rfl

/-- For numeric types, the common type is of the kind that a type parameter gets which stands for
each of them. Every type widens into that kind, the kind widens into all other kinds that do as
well, and in another order the types give a kind that widens into it and that it widens into. -/
theorem numeric_join_least (hne : ts ≠ []) (hts : ∀ t ∈ ts, t.isNumeric = true) (width : Int)
    (x : TypeParam) :
    (∃ u, (TypeParam.inferArguments [x] (ts.map fun t => (param x.name, t))).get? x.name = some u ∧
        u.kind = (common ts width).kind) ∧
      (∀ t ∈ ts, t.kind.canWiden (common ts width).kind = true) ∧
      (∀ k : Kind, (∀ t ∈ ts, t.kind.canWiden k = true) →
        (common ts width).kind.canWiden k = true) ∧
      ∀ us width', us.Perm ts →
        (common us width').kind.canWiden (common ts width).kind = true ∧
          (common ts width).kind.canWiden (common us width').kind = true := by
  obtain ⟨j, hj, hcommon, hinfer, hwidens⟩ := exists_widest hne hts width
  have habove := (hwidens j).1 (Prim.canWiden_self hj)
  rw [hcommon]
  refine ⟨⟨prim j, hinfer x, rfl⟩, habove, fun k hk => ?_, fun us width' hperm => ?_⟩
  · obtain ⟨t, ht⟩ := List.exists_mem_of_ne_nil ts hne
    obtain ⟨k, rfl⟩ : ∃ q, k = .prim q := by
      cases k with
      | prim q => exact ⟨q, rfl⟩
      | _ => simpa [Kind.canWiden] using hk t ht
    exact (hwidens k).2 hk
  · have hne' : us ≠ [] := fun h => hne (List.nil_perm.1 (h ▸ hperm))
    obtain ⟨i, hi, hcommon', -, hwidens'⟩ :=
      exists_widest hne' (fun u hu => hts u (hperm.mem_iff.1 hu)) width'
    have habove' := (hwidens' i).1 (Prim.canWiden_self hi)
    rw [hcommon']
    exact ⟨(hwidens' j).2 fun u hu => habove u (hperm.mem_iff.1 hu),
      (hwidens i).2 fun t ht => habove' t (hperm.mem_iff.2 ht)⟩

/-- No kind of this list takes the others, and kinds of one tier come out by their order. -/
theorem mixed_kinds_join_at_float :
    [prim .u64, prim .i8, prim .f32] ≠ [] ∧
      (∀ t ∈ [prim .u64, prim .i8, prim .f32], t.isNumeric = true) ∧
      common [prim .u64, prim .i8, prim .f32] 0 = prim .float ∧
      [prim .f32, prim .u64, prim .i8].Perm [prim .u64, prim .i8, prim .f32] ∧
      common [prim .f32, prim .u64, prim .i8] 3 = prim .f32 ∧
      (prim .f32).kind.canWiden (prim .float).kind = true ∧
      (prim .float).kind.canWiden (prim .f32).kind = true := by
  have hnumeric : ∀ t ∈ [prim .u64, prim .i8, prim .f32], t.isNumeric = true := by decide
  have hperm : [prim .f32, prim .u64, prim .i8].Perm [prim .u64, prim .i8, prim .f32] :=
    (List.perm_append_singleton (prim .f32) [prim .u64, prim .i8]).symm
  have hleast := numeric_join_least (List.cons_ne_nil _ _) hnumeric 0 ⟨"T", none⟩
  exact ⟨List.cons_ne_nil _ _, hnumeric, rfl, hperm, rfl, hleast.2.2.2 _ 3 hperm⟩

end Ty

end TypedScript
