import TypedScript.Proofs.Generics.Substitution
import TypedScript.Proofs.Joins

/-!
# When nothing is known of one of several types

A common type is made of types of which one may be unknown, for it is still being found out. The
common type then mentions what is not known, with two exceptions: the first type takes all the
others, or there are too many types for a union. Where the unknown type comes first it takes all
the others itself.
-/
namespace TypedScript.Ty

variable {t u : Ty} {ts : List Ty} {width : Int} {p : Prim}

/-! ## Types that mention the unknown -/

/-- The unknown type stands in a type, at a place that substitution comes to. -/
inductive MentionsUnknown : Ty → Prop
  | here : MentionsUnknown unknown
  | inside {t p : Ty} : p ∈ t.replacedParts → MentionsUnknown p → MentionsUnknown t

@[simp] lemma mentionsUnknown_prim : (prim p).MentionsUnknown ↔ p = .unknown := by
  constructor
  · rintro (_ | ⟨hp, -⟩)
    · rfl
    · exact absurd hp List.not_mem_nil
  · rintro rfl
    exact .here

@[simp] lemma mentionsUnknown_nullable : (nullable t).MentionsUnknown ↔ t.MentionsUnknown := by
  constructor
  · rintro (_ | ⟨hp, h⟩)
    exact List.mem_singleton.1 hp ▸ h
  · exact .inside List.mem_cons_self

@[simp] lemma mentionsUnknown_future : (future t).MentionsUnknown ↔ t.MentionsUnknown := by
  constructor
  · rintro (_ | ⟨hp, h⟩)
    exact List.mem_singleton.1 hp ▸ h
  · exact .inside List.mem_cons_self

lemma mentionsUnknown_orNull : t.orNull.MentionsUnknown ↔ t.MentionsUnknown := by
  unfold orNull
  split <;> simp

lemma mentionsUnknown_asFuture : t.asFuture.MentionsUnknown ↔ t.MentionsUnknown := by
  unfold asFuture
  split <;> simp

lemma mentionsUnknown_iff_alternatives (ht : t.Canonical) :
    t.MentionsUnknown ↔ ∃ a ∈ t.alternatives, a.MentionsUnknown := by
  rw [← members_eq_alternatives ht]
  cases t with
  | union ms =>
    constructor
    · rintro (_ | ⟨hp, h⟩)
      exact ⟨_, hp, h⟩
    · rintro ⟨m, hm, h⟩
      exact .inside hm h
  | _ => simp [members]

/-- Only the unknown type is equal to the unknown type. -/
lemma eq_unknown_of_equals (h : t.equals unknown = true) : t = unknown := by
  cases matches_of_equals h with
  | prim p => rfl

/-- What is mentioned in a union is mentioned in one of the types that it is made of. -/
lemma MentionsUnknown.of_unionOf (hts : ∀ t ∈ ts, t.Canonical) (hsome : ts ≠ [])
    (h : (unionOf ts).MentionsUnknown) : ∃ t ∈ ts, t.MentionsUnknown := by
  obtain ⟨a, ha, hmentions⟩ := (mentionsUnknown_iff_alternatives (canonical_unionOf hts)).1 h
  rw [alternatives_unionOf (allAlternatives_ne_nil hts hsome)] at ha
  obtain ⟨t, ht, hat⟩ := mem_allAlternatives_iff.1 (mem_of_mem_distinct ha)
  exact ⟨t, ht, (mentionsUnknown_iff_alternatives (hts t ht)).2 ⟨a, hat, hmentions⟩⟩

/-- The unknown type stays among the members of a union. -/
lemma mentionsUnknown_unionOf (hts : ∀ t ∈ ts, t.Canonical) (h : unknown ∈ ts) :
    (unionOf ts).MentionsUnknown := by
  have hmem : unknown ∈ allAlternatives ts :=
    mem_allAlternatives_iff.2 ⟨unknown, h, List.mem_cons_self⟩
  obtain ⟨a, ha, hequal⟩ := exists_mem_distinct
    (fun t ht => (canonical_allAlternatives ts hts t ht).proper) hmem
  rw [mentionsUnknown_iff_alternatives (canonical_unionOf hts),
    alternatives_unionOf (List.ne_nil_of_mem hmem)]
  exact ⟨a, ha, eq_unknown_of_equals hequal ▸ .here⟩

/-! ## Common types -/

/-- The types other than null, each once. -/
def values (ts : List Ty) : List Ty := distinct (ts.filter fun t => !t.isNull)

/-- All the others fit the first type. -/
def FirstTakesAll : List Ty → Prop
  | [] => False
  | first :: rest => ∀ u ∈ rest, u.equals first = true ∨ u.assignableTo first = true

instance : DecidablePred FirstTakesAll
  | [] => inferInstanceAs (Decidable False)
  | _ :: rest => inferInstanceAs (Decidable (∀ u ∈ rest, _ ∨ _))

/-- There are more types than a union may have members. Of a single type besides null the
nullable is taken, however narrow unions have to be. -/
def TooWide (ts : List Ty) (width : Int) : Prop :=
  1 < (values ts).length ∧ (if width ≤ 0 then defaultUnionWidth else width) <
    (values ts).length + if ts.any isNull then 1 else 0

instance : Decidable (TooWide ts width) := inferInstanceAs (Decidable (_ ∧ _))

lemma firstTakesAll_unknown (rest : List Ty) : FirstTakesAll (unknown :: rest) :=
  fun _ _ => .inr (assignableTo_of_isAbsorbing rfl)

lemma common_of_firstTakesAll (h : FirstTakesAll (t :: ts)) (width : Int) :
    common (t :: ts) width = t := by
  cases ts with
  | nil => rfl
  | cons u rest =>
    unfold common
    dsimp only
    exact if_pos (by simpa [FirstTakesAll] using h)

/-- The unknown type is no number. -/
lemma joinNumeric?_of_unknown_mem (h : unknown ∈ t :: ts) : joinNumeric? t ts = none := by
  cases hjoin : joinNumeric? t ts with
  | none => rfl
  | some p =>
    obtain ⟨q, hq, hwiden⟩ := canWiden_of_joinNumeric? hjoin unknown h
    cases hq
    revert hwiden
    cases p <;> decide

lemma unknown_mem_values (hts : ∀ t ∈ ts, t.Canonical) (h : unknown ∈ ts) :
    unknown ∈ values ts := by
  obtain hnull | ⟨u, hu, hequal⟩ := eq_null_or_exists_distinct hts h
  · cases hnull
  · cases matches_of_equals hequal with
    | prim => exact hu

/-- Where the unknown type is not the first one and null is missing, there are two types. -/
lemma one_lt_length_values (hts : ∀ u ∈ t :: ts, u.Canonical) (h : unknown ∈ t :: ts)
    (hfirst : t ≠ unknown) (hnull : (t :: ts).any isNull = false) :
    1 < (values (t :: ts)).length := by
  obtain rfl | ⟨u, hu, hequal⟩ := eq_null_or_exists_distinct hts List.mem_cons_self
  · simp [isNull, isPrim] at hnull
  · have hne : u ≠ unknown := by
      rintro rfl
      exact hfirst (eq_unknown_of_equals hequal)
    have hmem := unknown_mem_values hts h
    have hu : u ∈ values (t :: ts) := hu
    by_contra hle
    have hpos := List.length_pos_of_mem hmem
    obtain ⟨v, hv⟩ := List.length_eq_one_iff.1 (by omega : (values (t :: ts)).length = 1)
    rw [hv, List.mem_singleton] at hmem hu
    exact hne (hu.trans hmem.symm)

/-- How the common type comes about that is not the first type. -/
lemma common_of_unknown_mem (hts : ∀ t ∈ ts, t.Canonical) (h : unknown ∈ ts)
    (hfirst : ¬ FirstTakesAll ts) (width : Int) :
    TooWide ts width ∧ common ts width = any ∨
      ¬ TooWide ts width ∧ (common ts width = unknown.orNull ∨
        common ts width = unionOf (values ts ++ if ts.any isNull then [null] else [])) := by
  rcases ts with _ | ⟨t, _ | ⟨u, rest⟩⟩
  · exact absurd h List.not_mem_nil
  · exact absurd (List.forall_mem_nil _) hfirst
  have hne : t ≠ unknown := by
    rintro rfl
    exact hfirst (firstTakesAll_unknown _)
  have hmem := unknown_mem_values hts h
  have hpos := List.length_pos_of_mem hmem
  have hcount := one_lt_length_values hts h hne
  have hfits : ¬ ((u :: rest).all fun v => v.equals t || v.assignableTo t) = true := by
    intro hall
    exact hfirst (by simpa [FirstTakesAll] using hall)
  unfold common TooWide
  generalize (if width ≤ 0 then defaultUnionWidth else width) = bound
  dsimp only
  rw [if_neg hfits, joinNumeric?_of_unknown_mem h]
  dsimp only
  unfold values at hmem hpos hcount ⊢
  generalize distinct ((t :: u :: rest).filter fun t => !t.isNull) = vs at hmem hpos hcount ⊢
  cases hnull : (t :: u :: rest).any isNull with
  | false =>
    have hcount := hcount hnull
    simp only [Bool.false_eq_true, if_false]
    by_cases hwide : bound < vs.length
    · rw [if_pos hwide]
      exact .inl ⟨⟨hcount, by omega⟩, rfl⟩
    · rw [if_neg hwide]
      exact .inr ⟨fun h => hwide (by omega), .inr (by simp)⟩
  | true =>
    simp only [if_true]
    split
    case h_1 v =>
      obtain rfl := List.mem_singleton.1 hmem
      exact .inr ⟨fun h => absurd h.1 (by simp), .inl rfl⟩
    case h_2 hmany =>
      have hcount : 1 < vs.length := by
        by_contra hle
        obtain ⟨v, hv⟩ := List.length_eq_one_iff.1 (by omega : vs.length = 1)
        exact hmany v hv
      by_cases hwide : bound < vs.length + 1
      · rw [if_pos hwide]
        exact .inl ⟨⟨hcount, hwide⟩, rfl⟩
      · rw [if_neg hwide]
        exact .inr ⟨fun h => hwide h.2, .inr rfl⟩

/-- Types that mention nothing unknown are joined into a type that does not either. -/
lemma IsJoin.not_mentionsUnknown {j : Ty} (hjoin : IsJoin ts width j)
    (hts : ∀ t ∈ ts, t.Canonical) (hsome : ts ≠ []) (h : ∀ t ∈ ts, ¬ t.MentionsUnknown) :
    ¬ j.MentionsUnknown := by
  cases hjoin with
  | first hlist _ => exact h j (hlist ▸ List.mem_cons_self)
  | numeric hlist hp =>
    obtain ⟨q, -, hwiden⟩ := canWiden_of_joinNumeric? hp _ List.mem_cons_self
    have hnumeric := Prim.isNumeric_of_canWiden hwiden
    rw [mentionsUnknown_prim]
    rintro rfl
    exact absurd hnumeric (by decide)
  | @nullable t _ hone =>
    have ht : t ∈ distinct (ts.filter fun t => !t.isNull) := hone ▸ List.mem_cons_self
    rw [mentionsUnknown_orNull]
    exact h t (List.mem_of_mem_filter (mem_of_mem_distinct ht))
  | @union os hos _ =>
    intro hmentions
    obtain ⟨t, ht⟩ := List.exists_mem_of_ne_nil ts hsome
    obtain ⟨u, hu, -⟩ := covered_joined hos hts t ht
    obtain ⟨v, hv, hmentions⟩ := hmentions.of_unionOf
      (fun u hu => hts u (mem_of_mem_joined hos hu)) (List.ne_nil_of_mem hu)
    exact h v (mem_of_mem_joined hos hv) hmentions
  | any => simp

/-- Each of the types is unknown or mentions nothing unknown. The common type mentions the
unknown exactly if it comes first, or if it is there at all and is neither taken by the first type
nor lost for there are too many types. -/
lemma mentionsUnknown_common_iff (hts : ∀ t ∈ ts, t.Canonical) (hsome : ts ≠ [])
    (hknown : ∀ t ∈ ts, t = unknown ∨ ¬ t.MentionsUnknown) (width : Int) :
    (common ts width).MentionsUnknown ↔ unknown ∈ ts ∧
      (ts.head? = some unknown ∨ ¬ FirstTakesAll ts ∧ ¬ TooWide ts width) := by
  by_cases hmem : unknown ∈ ts
  · rw [and_iff_right hmem]
    by_cases hfirst : FirstTakesAll ts
    · obtain ⟨t, rest, rfl⟩ := List.exists_cons_of_ne_nil hsome
      rw [common_of_firstTakesAll hfirst]
      have hiff : t.MentionsUnknown ↔ t = unknown := by
        obtain rfl | hnot := hknown t List.mem_cons_self
        · simp
        · refine ⟨fun h => absurd h hnot, fun h => h ▸ .here⟩
      simp [hiff, hfirst]
    · have hhead : ts.head? ≠ some unknown := by
        intro hhead
        obtain ⟨rest, rfl⟩ := List.head?_eq_some_iff.1 hhead
        exact hfirst (firstTakesAll_unknown rest)
      obtain ⟨hwide, hjoin⟩ | ⟨hwide, hjoin | hjoin⟩ :=
        common_of_unknown_mem hts hmem hfirst width
      · simp [hjoin, hhead, hwide]
      · simp [hjoin, hfirst, hwide, mentionsUnknown_orNull]
      · have hmentions : (common ts width).MentionsUnknown := by
          rw [hjoin]
          refine mentionsUnknown_unionOf (fun u hu => hts u (mem_of_mem_joined rfl hu)) ?_
          exact List.mem_append_left _ (unknown_mem_values hts hmem)
        simp [hmentions, hfirst, hwide]
  · have hnone : ∀ t ∈ ts, ¬ t.MentionsUnknown := by
      intro t ht
      exact (hknown t ht).resolve_left fun h => hmem (h ▸ ht)
    have hjoin := (isJoin_common hsome width).not_mentionsUnknown hts hsome hnone
    simp [hjoin, hmem]

end TypedScript.Ty
