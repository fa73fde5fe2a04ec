import TypedScript.Proofs.Canonical.Unions
import TypedScript.Proofs.Transitivity

/-!
# Common types take all the types they are made of

A common type comes about in one of five ways: as the first type, as the widest of numeric
types, as the nullable of the only type besides null, as a union, or as any. In each of them
every type of the list fits the result. For the union it matters that a type may have been
dropped for an equal one, and that the alternatives of a dropped union are still there.

The width bounds how many types a union is made of. A union among them counts as one type and
gives all its members to the result, so only without such unions the width bounds the members.
-/
namespace TypedScript

namespace Prim

lemma canWiden_self {p : Prim} (hp : p.isNumeric = true) : p.canWiden p = true := by
  simp [canWiden, hp]

/-- Every numeric kind widens into the last one of the chain. -/
lemma canWiden_decimal {p : Prim} (hp : p.isNumeric = true) : p.canWiden .decimal = true := by
  revert hp
  cases p <;> decide

lemma canWiden_of_signedRank {p q : Prim} {r s : Nat} (hp : p.signedRank = some r)
    (hq : q.signedRank = some s) (hle : r ≤ s) : p.canWiden q = true := by
  simp [canWiden, isNumeric, hp, hq, hle]

/-- Both operands widen into the wider of them. -/
lemma canWiden_wider {p q : Prim} (hp : p.isNumeric = true) (hq : q.isNumeric = true) :
    p.canWiden (p.wider q) = true ∧ q.canWiden (p.wider q) = true := by
  unfold wider
  split
  case isTrue heq =>
    subst heq
    exact ⟨canWiden_self hp, canWiden_self hp⟩
  split
  case h_1 r s hr hs =>
    split
    case isTrue hle => exact ⟨canWiden_self hp, canWiden_of_signedRank hs hr hle⟩
    case isFalse hlt =>
      exact ⟨canWiden_of_signedRank hr hs (Nat.le_of_not_le hlt), canWiden_self hq⟩
  split
  case isTrue hwiden => exact ⟨canWiden_self hp, hwiden⟩
  split
  case isTrue hwiden => exact ⟨hwiden, canWiden_self hq⟩
  -- One signed and one unsigned kind: the search finds a kind, or the last of the chain does.
  cases hfound : joinOrder.find? fun c => p.canWiden c && q.canWiden c with
  | none => exact ⟨canWiden_decimal hp, canWiden_decimal hq⟩
  | some c => simpa using List.find?_some hfound

lemma isNumeric_of_canWiden {p q : Prim} (h : p.canWiden q = true) : q.isNumeric = true := by
  by_cases heq : p = q
  · subst heq
    simpa [canWiden] using h
  · obtain ⟨r, s, -, hs, -⟩ | ⟨r, s, -, hs, -⟩ | ⟨r, s, -, hs, -⟩ := canWiden_cases h heq <;>
      simp [isNumeric, hs]

lemma isNumeric_wider {p q : Prim} (hp : p.isNumeric = true) (hq : q.isNumeric = true) :
    (p.wider q).isNumeric = true := isNumeric_of_canWiden (canWiden_wider hp hq).1

/-- Widening is transitive. -/
lemma canWiden_chain {p q r : Prim} (hpq : p.canWiden q = true) (hqr : q.canWiden r = true) :
    p.canWiden r = true := by
  obtain rfl | h := canWiden_trans (.inr hpq) (.inr hqr)
  · exact canWiden_self (isNumeric_of_canWiden hqr)
  · exact h

end Prim

namespace Ty

variable {t u : Ty} {ts us rest : List Ty} {width : Int} {p : Prim}

/-! ## Numeric types -/

/-- The primitive behind a numeric type. -/
def numeric? (t : Ty) : Option Prim := t.prim?.filter Prim.isNumeric

lemma numeric?_eq_some : t.numeric? = some p ↔ t = prim p ∧ p.isNumeric = true := by
  cases t with
  | prim q => grind [numeric?, prim?]
  | _ => simp [numeric?, prim?]

/-- One step of the fold: what was found so far is widened by a numeric type. -/
def widenBy (acc : Option Prim) (t : Ty) : Option Prim :=
  acc.bind fun p => t.numeric?.map p.wider

lemma joinNumeric?_eq_foldl : joinNumeric? t rest = rest.foldl widenBy t.numeric? := by
  unfold joinNumeric? widenBy numeric?
  congr 1
  · funext acc u
    cases acc <;> cases u.prim? <;> grind
  · cases t.prim? <;> grind

lemma joinNumeric?_nil : joinNumeric? t [] = some p ↔ t = prim p ∧ p.isNumeric = true := by
  rw [joinNumeric?_eq_foldl, List.foldl_nil, numeric?_eq_some]

/-- The first two types are replaced by the wider of them. -/
lemma joinNumeric?_cons : joinNumeric? t (u :: rest) = some p ↔
    ∃ q r, t.numeric? = some q ∧ u.numeric? = some r ∧
      joinNumeric? (prim (q.wider r)) rest = some p := by
  have hgivenUp : rest.foldl widenBy none = none := List.foldl_fixed' (fun _ => rfl) rest
  rw [joinNumeric?_eq_foldl, List.foldl_cons]
  cases ht : t.numeric? with
  | none => simp [widenBy, hgivenUp]
  | some q =>
    cases hu : u.numeric? with
    | none => simp [widenBy, hu, hgivenUp]
    | some r =>
      have hwider := Prim.isNumeric_wider (numeric?_eq_some.1 ht).2 (numeric?_eq_some.1 hu).2
      simp [widenBy, hu, joinNumeric?_eq_foldl, numeric?_eq_some.2 ⟨rfl, hwider⟩]

/-- The widest of some numeric types takes all of them. -/
lemma canWiden_of_joinNumeric? (h : joinNumeric? t rest = some p) :
    ∀ u ∈ t :: rest, ∃ q, u = prim q ∧ q.canWiden p = true := by
  induction rest generalizing t with
  | nil =>
    obtain ⟨rfl, hp⟩ := joinNumeric?_nil.1 h
    exact List.forall_mem_singleton.2 ⟨p, rfl, Prim.canWiden_self hp⟩
  | cons u rest ih =>
    obtain ⟨q, r, ht, hu, hrest⟩ := joinNumeric?_cons.1 h
    obtain ⟨rfl, hq⟩ := numeric?_eq_some.1 ht
    obtain ⟨rfl, hr⟩ := numeric?_eq_some.1 hu
    obtain ⟨hleft, hright⟩ := Prim.canWiden_wider hq hr
    obtain ⟨⟨w, hw, hwiden⟩, hfits⟩ := List.forall_mem_cons.1 (ih hrest)
    obtain rfl : q.wider r = w := by injection hw
    refine List.forall_mem_cons.2 ⟨⟨q, rfl, Prim.canWiden_chain hleft hwiden⟩, ?_⟩
    exact List.forall_mem_cons.2 ⟨⟨r, rfl, Prim.canWiden_chain hright hwiden⟩, hfits⟩

lemma prim_assignableTo_of_canWiden {q : Prim} (h : q.canWiden p = true) :
    (prim q).assignableTo (prim p) = true := by
  have hanswer : (prim q).answer (prim p) = some true := by simp [answer, h]
  exact (single_assignableTo_iff (v := prim q) (t := prim p) trivial trivial).2 (.inr hanswer)

/-! ## Nullables and unions -/

lemma assignableTo_orNull (ht : t.Proper) (hu : u.Proper) (h : t.assignableTo u = true) :
    t.assignableTo u.orNull = true := by
  unfold orNull
  split
  · exact h
  · exact h
  · exact ht.embeds.nullable hu h

lemma null_assignableTo_orNull : null.assignableTo t.orNull = true := by
  rw [null_assignableTo_iff]
  unfold orNull
  split <;> simp [allowsNull]

lemma assignableTo_unionOf_of_mem (ht : t.Proper) (hu' : u.Proper)
    (hu : u ∈ distinct (allAlternatives us)) (h : t.assignableTo u = true) :
    t.assignableTo (unionOf us) = true := by
  unfold unionOf
  split
  case h_1 heq => simp [heq] at hu
  case h_2 v heq =>
    obtain rfl : u = v := by simpa [heq] using hu
    exact h
  case h_3 => exact ht.embeds.member hu' hu h

/-- A type fits where all its alternatives do. -/
lemma assignableTo_iff_alternatives (ht : t.Canonical) :
    t.assignableTo u = true ↔ ∀ a ∈ t.alternatives, a.assignableTo u = true := by
  obtain ⟨ms, rfl⟩ | hkind := t.union_or_kind_ne
  · rw [alternatives_union ht, union_assignableTo_iff]
  · simp [alternatives_eq_self hkind]

/-- A type fits a union of types that one of them is equal to. -/
lemma assignableTo_unionOf (ht : t.Canonical) (hus : ∀ u ∈ us, u.Canonical) (hu : u ∈ us)
    (h : t.equals u = true) : t.assignableTo (unionOf us) = true := by
  -- Each alternative of the type has an equal among the members that are kept.
  refine (assignableTo_iff_alternatives ht).2 fun a ha => ?_
  have hproper : ∀ b ∈ allAlternatives us, b.Proper :=
    fun b hb => (canonical_allAlternatives us hus b hb).proper
  obtain ⟨b, hb, hab⟩ := covered_alternatives ht (hus u hu) h a ha
  have hb' := mem_allAlternatives_iff.2 ⟨u, hu, hb⟩
  obtain ⟨c, hc, hcb⟩ := exists_mem_distinct hproper hb'
  have hc' := hproper c (mem_of_mem_distinct hc)
  have hac : a.equals c = true := equals_trans hab (equals_symm hc' (hproper b hb') hcb)
  have ha' : a.Proper := (Canonical.alternatives t ht a ha).proper
  exact assignableTo_unionOf_of_mem ha' hc' hc (ha'.embeds.equal hc' hac)

/-! ## The exits of the common type -/

/-- How the common type of some types may come about. -/
inductive IsJoin (ts : List Ty) (width : Int) : Ty → Prop
  | first {t : Ty} {rest : List Ty} : ts = t :: rest →
      (∀ u ∈ rest, u.equals t = true ∨ u.assignableTo t = true) → IsJoin ts width t
  | numeric {t : Ty} {rest : List Ty} {p : Prim} : ts = t :: rest →
      joinNumeric? t rest = some p → IsJoin ts width (prim p)
  | nullable {t : Ty} : null ∈ ts → distinct (ts.filter fun t => !t.isNull) = [t] →
      IsJoin ts width t.orNull
  | union {os : List Ty} : os = (if ts.any isNull then [null] else []) →
      (distinct (ts.filter fun t => !t.isNull) ++ os).length ≤
        (if width ≤ 0 then defaultUnionWidth else width) →
      IsJoin ts width (unionOf (distinct (ts.filter fun t => !t.isNull) ++ os))
  | any : IsJoin ts width any

lemma isJoin_common (h : ts ≠ []) (width : Int) : IsJoin ts width (common ts width) := by
  unfold common
  generalize hbound : (if width ≤ 0 then defaultUnionWidth else width) = bound
  dsimp only
  split
  case h_1 => exact absurd rfl h
  case h_2 t => exact .first rfl (List.forall_mem_nil _)
  case h_3 first rest _ =>
    split
    case isTrue hfit => exact .first rfl (by simpa using hfit)
    split
    case h_1 p hp => exact .numeric rfl hp
    split
    case isTrue hnull =>
      obtain ⟨n, hn, hisNull⟩ := List.any_eq_true.1 hnull
      split
      case h_1 t ht => exact .nullable (isNull_iff.1 hisNull ▸ hn) ht
      split
      case isTrue => exact .any
      case isFalse hwidth =>
        refine .union (if_pos hnull).symm ?_
        simpa [hbound] using hwidth
    case isFalse hnull =>
      split
      case isTrue => exact .any
      case isFalse hwidth =>
        have hjoin : IsJoin (first :: rest) width _ :=
          .union (if_neg hnull).symm (by simpa [hbound] using hwidth)
        simpa using hjoin

/-- A type of a list is null or has an equal among the others that are kept. -/
lemma eq_null_or_exists_distinct (hts : ∀ t ∈ ts, t.Canonical) (ht : t ∈ ts) :
    t = null ∨ ∃ u ∈ distinct (ts.filter fun t => !t.isNull), t.equals u = true := by
  by_cases hnull : t.isNull = true
  · exact .inl (isNull_iff.1 hnull)
  · have hproper : ∀ u ∈ ts.filter fun t => !t.isNull, u.Proper :=
      fun u hu => (hts u (List.mem_of_mem_filter hu)).proper
    have hkept : t ∈ ts.filter fun t => !t.isNull := List.mem_filter.2 ⟨ht, by simpa using hnull⟩
    obtain ⟨u, hu, hut⟩ := exists_mem_distinct hproper hkept
    exact .inr ⟨u, hu, equals_symm (hproper u (mem_of_mem_distinct hu)) (hproper t hkept) hut⟩

/-- What a union is made of comes from the list. -/
lemma mem_of_mem_joined {os : List Ty} (hos : os = (if ts.any isNull then [null] else []))
    (hu : u ∈ distinct (ts.filter fun t => !t.isNull) ++ os) : u ∈ ts := by
  obtain hu | hu := List.mem_append.1 hu
  · exact List.mem_of_mem_filter (mem_of_mem_distinct hu)
  · by_cases hany : ts.any isNull = true
    · obtain ⟨n, hn, hnull⟩ := List.any_eq_true.1 hany
      obtain rfl : u = null := by simpa [hos, hany] using hu
      exact isNull_iff.1 hnull ▸ hn
    · simp [hos, hany] at hu

/-- Every type of the list has an equal among what a union is made of. -/
lemma covered_joined {os : List Ty} (hos : os = (if ts.any isNull then [null] else []))
    (hts : ∀ t ∈ ts, t.Canonical) :
    Covered ts (distinct (ts.filter fun t => !t.isNull) ++ os) := by
  intro t ht
  obtain rfl | ⟨u, hu, htu⟩ := eq_null_or_exists_distinct hts ht
  · have hany : ts.any isNull = true := List.any_eq_true.2 ⟨null, ht, rfl⟩
    exact ⟨null, List.mem_append_right _ (by simp [hos, hany]), rfl⟩
  · exact ⟨u, List.mem_append_left _ hu, htu⟩

/-- Every type of a list fits what the list is joined into. -/
lemma IsJoin.assignableTo {j : Ty} (hjoin : IsJoin ts width j) (hts : ∀ t ∈ ts, t.Canonical)
    (ht : t ∈ ts) : t.assignableTo j = true := by
  cases hjoin with
  | @first _ rest hlist hfit =>
    subst hlist
    obtain rfl | ht := List.mem_cons.1 ht
    · have hproper := (hts t List.mem_cons_self).proper
      exact hproper.embeds.equal hproper (equals_refl hproper)
    · obtain hequal | hassignable := hfit t ht
      · exact (hts t (List.mem_cons_of_mem _ ht)).proper.embeds.equal
          (hts _ List.mem_cons_self).proper hequal
      · exact hassignable
  | numeric hlist hp =>
    subst hlist
    obtain ⟨q, rfl, hwiden⟩ := canWiden_of_joinNumeric? hp t ht
    exact prim_assignableTo_of_canWiden hwiden
  | @nullable u hnull hone =>
    obtain rfl | ⟨v, hv, htv⟩ := eq_null_or_exists_distinct hts ht
    · exact null_assignableTo_orNull
    · obtain rfl : v = u := by simpa [hone] using hv
      have hv' := (hts v (List.mem_of_mem_filter (mem_of_mem_distinct hv))).proper
      exact assignableTo_orNull (hts t ht).proper hv' ((hts t ht).proper.embeds.equal hv' htv)
  | @union os hos hwidth =>
    have hcanonical : ∀ u ∈ distinct (ts.filter fun t => !t.isNull) ++ os, u.Canonical :=
      fun u hu => hts u (mem_of_mem_joined hos hu)
    obtain ⟨u, hu, htu⟩ := covered_joined hos hts t ht
    exact assignableTo_unionOf (hts t ht) hcanonical hu htu
  | any => exact assignableTo_of_isAbsorbing rfl

/-- The common type of canonical types takes a value of each of them, whatever the bound on
the width of unions. -/
theorem common_upper_bound (hts : ∀ t ∈ ts, t.Canonical) (width : Int) :
    ∀ t ∈ ts, t.assignableTo (common ts width) = true := by
  intro t ht
  exact (isJoin_common (List.ne_nil_of_mem ht) width).assignableTo hts ht

theorem common_with_null_takes_union :
    (∀ t ∈ [str, nullable (union [int, bool]), null, union [bool, int]], t.Canonical) ∧
      common [str, nullable (union [int, bool]), null, union [bool, int]] 4 =
        union [str, nullable (union [int, bool]), bool, int, null] ∧
      (union [bool, int]).assignableTo
        (common [str, nullable (union [int, bool]), null, union [bool, int]] 4) = true := by
  have hcanonical : ∀ t ∈ [str, nullable (union [int, bool]), null, union [bool, int]],
      t.Canonical := by
    simp only [Canonical, everywhere_union, everywhere_nullable, everywhere_prim,
      List.forall_mem_cons, List.not_mem_nil, IsEmpty.forall_iff, implies_true]
    decide
  exact ⟨hcanonical, rfl, common_upper_bound hcanonical 4 _ (by simp)⟩

/-! ## The width of a common type -/

/-- What a union is made of differs pairwise. -/
lemma allDiffer_joined {os : List Ty} (hos : os = (if ts.any isNull then [null] else [])) :
    AllDiffer (distinct (ts.filter fun t => !t.isNull) ++ os) := by
  have hothers : ∀ s ∈ distinct (ts.filter fun t => !t.isNull), s.equals null = false := by
    intro s hs
    have hkept : s.isNull = false := by simpa using List.of_mem_filter (mem_of_mem_distinct hs)
    rw [Bool.eq_false_iff]
    intro hequal
    cases matches_of_equals hequal with
    | prim p => cases hkept
  refine List.pairwise_append.2 ⟨allDiffer_distinct _, ?_, fun s hs n hn => ?_⟩
  · rw [hos]
    split
    · exact List.pairwise_singleton _ _
    · exact .nil
  · obtain rfl : n = null := by grind
    exact hothers s hs

lemma eq_distinct_of_unionOf {us ms : List Ty} (hus : ∀ u ∈ us, u.Canonical)
    (h : unionOf us = union ms) : ms = distinct (allAlternatives us) := by
  have hsome : allAlternatives us ≠ [] := by
    intro hnone
    simp [unionOf, hnone, distinct] at h
  have hunion : (union ms).Canonical := h ▸ canonical_unionOf hus
  rw [← alternatives_unionOf hsome, h, alternatives_union hunion]

/-- A common type that is a union other than the types of the list is made of all of them, up to
equality, and of no more types than the width allows. -/
lemma IsJoin.exists_joined {ms : List Ty} (hjoin : IsJoin ts width (Ty.union ms))
    (hts : ∀ t ∈ ts, t.Canonical) (hnew : ∀ t ∈ ts, (Ty.union ms).equals t = false) :
    ∃ us : List Ty, (∀ u ∈ us, u ∈ ts) ∧ Covered ts us ∧ AllDiffer us ∧
      us.length ≤ (if width ≤ 0 then defaultUnionWidth else width) ∧ unionOf us = Ty.union ms := by
  generalize hj : Ty.union ms = j at hjoin hnew
  cases hjoin with
  | first hlist _ =>
    have hmem : j ∈ ts := hlist ▸ List.mem_cons_self
    have hself := equals_refl (hts j hmem).proper
    simp [hnew j hmem] at hself
  | numeric _ _ => cases hj
  | @nullable t _ _ =>
    unfold orNull at hj
    split at hj <;> cases hj
  | union hos hwidth =>
    exact ⟨_, fun u hu => mem_of_mem_joined hos hu, covered_joined hos hts,
      allDiffer_joined hos, hwidth, rfl⟩
  | any => cases hj

/-- Where the common type of canonical types is a union and not one of the types, there are no
more different types than the width allows, and the union has a member for each different
alternative of them. It is no wider than the width if none of the types is a union itself. -/
theorem common_union_width {ms : List Ty} (hts : ∀ t ∈ ts, t.Canonical) (hwidth : 0 < width)
    (hunion : common ts width = union ms) (hnew : ∀ t ∈ ts, (union ms).equals t = false) :
    ((distinct ts).length : Int) ≤ width ∧ ms.length = (distinct (allAlternatives ts)).length ∧
      ((∀ t ∈ ts, t.kind ≠ .union) → (ms.length : Int) ≤ width) := by
  have hne : ts ≠ [] := by
    rintro rfl
    cases hunion
  obtain ⟨us, hsub, hcover, hdiffer, hlength, hus⟩ :=
    (hunion ▸ isJoin_common hne width).exists_joined hts hnew
  have hcanonical : ∀ u ∈ us, u.Canonical := fun u hu => hts u (hsub u hu)
  have hback : Covered us ts :=
    fun u hu => ⟨u, hsub u hu, equals_refl (hcanonical u hu).proper⟩
  have hproper {ts : List Ty} (hts : ∀ t ∈ ts, t.Canonical) : ∀ t ∈ ts, t.Proper :=
    fun t ht => (hts t ht).proper
  have htypes : ((distinct ts).length : Int) ≤ width := by
    have hle := length_distinct_le (hproper hts) (hproper hcanonical) hcover
    rw [distinct_eq_self hdiffer] at hle
    rw [if_neg (by omega)] at hlength
    omega
  have hmembers : ms.length = (distinct (allAlternatives ts)).length := by
    have halternatives {ts : List Ty} (hts : ∀ t ∈ ts, t.Canonical) :=
      hproper (canonical_allAlternatives ts hts)
    rw [eq_distinct_of_unionOf hcanonical hus]
    apply Nat.le_antisymm
    · exact length_distinct_le (halternatives hcanonical) (halternatives hts)
        (hback.allAlternatives hcanonical hts)
    · exact length_distinct_le (halternatives hts) (halternatives hcanonical)
        (hcover.allAlternatives hts hcanonical)
  refine ⟨htypes, hmembers, fun hflat => ?_⟩
  rw [hmembers, allAlternatives_eq_self hflat]
  exact htypes

theorem common_of_three_types_within_width :
    (∀ t ∈ [str, null, bool, str], t.Canonical) ∧ (0 : Int) < 3 ∧
      common [str, null, bool, str] 3 = union [str, bool, null] ∧
      (∀ t ∈ [str, null, bool, str], (union [str, bool, null]).equals t = false) ∧
      ([str, bool, null].length : Int) ≤ 3 := by
  have hcanonical : ∀ t ∈ [str, null, bool, str], t.Canonical := by simp
  have hnew : ∀ t ∈ [str, null, bool, str], (union [str, bool, null]).equals t = false := by
    decide
  have hwidth := common_union_width hcanonical (by decide : (0 : Int) < 3) rfl hnew
  exact ⟨hcanonical, by decide, rfl, hnew, hwidth.2.2 (by decide)⟩

/-- A union among the types is one type for the width, but has all its members in the result. -/
theorem common_with_union_exceeds_width :
    (∀ t ∈ [union [str, bool], prim .date], t.Canonical) ∧ (0 : Int) < 2 ∧
      common [union [str, bool], prim .date] 2 = union [str, bool, prim .date] ∧
      (∀ t ∈ [union [str, bool], prim .date],
        (union [str, bool, prim .date]).equals t = false) ∧
      ¬ ([str, bool, prim .date].length : Int) ≤ 2 := by
  have hcanonical : ∀ t ∈ [union [str, bool], prim .date], t.Canonical := by
    simp only [Canonical, everywhere_union, everywhere_prim, List.forall_mem_cons,
      List.not_mem_nil, IsEmpty.forall_iff, implies_true]
    decide
  exact ⟨hcanonical, by decide, rfl, by decide, by decide⟩

end Ty

end TypedScript
